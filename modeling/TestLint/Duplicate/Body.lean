import TestLint.Syntax.Tree

/-!
# Normalized bodies

The body of a method as the texts of its tokens with single spaces between
them.  Blanks, line breaks and comments do not count; of a conditional block
the code counts and its directives do not.  A string is one token, whatever it
holds.
-/

namespace TestLint.Duplicate

/-- The kinds of nodes whose whole text is one token. -/
def atomicKinds : List String :=
  ["string_literal", "verbatim_string_literal", "raw_string_literal", "character_literal",
   "interpolated_string_expression"]

/-- The kinds of directives that hold code. -/
def conditionalKinds : List String :=
  ["preproc_if", "preproc_elif", "preproc_else"]

/-- The kinds of declarations that may have no body. -/
def bodilessKinds : List String :=
  ["method_declaration", "constructor_declaration", "local_function_statement"]

/-- The node whose tokens make up the body; any other node is its own body. -/
def body? (t : Tree) : Option Tree :=
  match t.childByField? "body" <|> t.childOfKind? "block" <|>
      t.childOfKind? "arrow_expression_clause" with
  | some body => some body
  | none => if bodilessKinds.contains t.kind then none else some t

/-- The token that a node is as a whole, if its text is not blank. -/
private def wholeToken (source : List Char) (t : Tree) : List String :=
  let text := t.trimmedText source
  if text == "" then [] else [text]

mutual

/-- The tokens at and below a node. -/
def tokens (source : List Char) : Tree → List String
  | .node info children =>
    let here := Tree.node info children
    if info.missing then
      []
    else if here.isTrivia then
      if conditionalKinds.contains info.kind then
        tokensOfBlock source true children
      else
        []
    else if children.isEmpty || atomicKinds.contains info.kind then
      wholeToken source here
    else
      tokensOfAll source children

def tokensOfAll (source : List Char) : List Tree → List String
  | [] => []
  | child :: rest => tokens source child ++ tokensOfAll source rest

/-- The tokens of the named nodes of a conditional block, its condition left
out, `awaited` as long as no condition has been met. -/
def tokensOfBlock (source : List Char) (awaited : Bool) : List Tree → List String
  | [] => []
  | child :: rest =>
    if awaited && child.field == some "condition" then
      tokensOfBlock source false rest
    else
      (if child.named then tokens source child else []) ++ tokensOfBlock source awaited rest

end

/-- The normalized body of a declaration; empty if it has none. -/
def normalizedBody (source : List Char) (t : Tree) : String :=
  match body? t with
  | some body => Text.trimmed (" ".intercalate (tokens source body))
  | none => ""

end TestLint.Duplicate
