import TestLint.Expression.Constant

/-!
# Operands

The shape of an expression as far as the checks of assertions look at it: is
it a constant, a negation, a comparison, a conditional access.  Texts and
places are kept where a fix needs to write the part again.
-/

namespace TestLint

/-- The shape of an expression. -/
inductive Operand where
  | literal (value : Constant)
  | identifier (name : String)
  | member (target : Operand) (name : String)
  /-- `a?.b` or `a?[i]`, by its text. -/
  | conditional (text : String)
  /-- `!x`, with the text and the place of `x`. -/
  | negation (operand : Operand) (text : String) (location : Location)
  /-- `a op b`, with the texts of both sides. -/
  | binary (operator : String) (left right : Operand) (leftText rightText : String)
  /-- `x is pattern`, with the text of `x`. -/
  | isPattern (operand : Operand) (text pattern : String)
  /-- A call whose receiver is not looked at. -/
  | call (callee : String)
  /-- A call of a member of `receiver`. -/
  | callOn (receiver : Operand) (callee : String)
  | lambda (isAsync : Bool)
  /-- Anything else, by the kind of the node. -/
  | other (kind : String)
  deriving Repr, Inhabited

namespace Operand

/-- The constant that the operand is, if it is one. -/
def constant? : Operand → Option Constant
  | .literal value => if value.isKnown then some value else none
  | _ => none

def isConstant (o : Operand) : Bool :=
  o.constant?.isSome

def isNull : Operand → Bool
  | .literal .null => true
  | _ => false

def bool? : Operand → Option Bool
  | .literal (.bool b) => some b
  | _ => none

/-- The operand is read through `?.` somewhere in its chain of receivers. -/
def hasConditionalAccess : Operand → Bool
  | .conditional _ => true
  | .member target _ => target.hasConditionalAccess
  | .callOn receiver _ => receiver.hasConditionalAccess
  | _ => false

/-- The name that the operand refers to. -/
def referencedName? : Operand → Option String
  | .identifier name => some name
  | .member _ name => some name
  | _ => none

/-- The operator of a binary expression: its field, or else the first bare token. -/
def operatorText (source : List Char) (t : Tree) : String :=
  match t.childByField? "operator" <|> t.children.find? (!·.named) with
  | some token => token.text source
  | none => ""

/-- The kinds of nodes that are literals or stand for values of their own. -/
def literalKinds : List String :=
  ["null_literal", "boolean_literal", "integer_literal", "real_literal", "character_literal",
   "string_literal", "verbatim_string_literal", "raw_string_literal", "typeof_expression",
   "default_expression", "array_creation_expression", "implicit_array_creation_expression",
   "collection_expression", "cast_expression"]

mutual

/-- The shape of an expression. -/
def ofTree (source : List Char) : Tree → Operand
  | .node info children =>
    let here := Tree.node info children
    let other := Operand.other info.kind
    if literalKinds.contains info.kind then
      .literal (.ofTree source here)
    else
      match info.kind with
      | "parenthesized_expression" => (ofLast? source children).getD other
      | "identifier" | "this_expression" | "this" => .identifier (here.text source)
      | "prefix_unary_expression" =>
        let text := (Text.trimStart (here.text source).toList)
        match here.codeChildren.getLast?, ofLast? source children with
        | some inner, some operand =>
          if text.head? = some '!' then
            .negation operand (inner.text source) (inner.location source)
          else if text.head? = some '-' || text.head? = some '+' then
            .literal (.ofTree source here)
          else
            other
        | _, _ => other
      | "binary_expression" =>
        match here.childByField? "left", ofField? source "left" children,
            here.childByField? "right", ofField? source "right" children with
        | some l, some left, some r, some right =>
          .binary (operatorText source here) left right (l.text source) (r.text source)
        | _, _, _, _ => other
      | "is_pattern_expression" =>
        let tested := here.childByField? "expression" <|> here.codeChildren.head?
        let operand := ofField? source "expression" children <|> ofFirst? source children
        let pattern := here.childByField? "pattern" <|> here.codeChildren.getLast?
        match tested, operand, pattern with
        | some o, some operand, some p => .isPattern operand (o.text source) (p.trimmedText source)
        | _, _, _ => other
      | "member_access_expression" =>
        match ofField? source "expression" children, here.childByField? "name" with
        | some target, some name => .member target (name.text source)
        | _, _ => other
      | "conditional_access_expression" => .conditional (here.text source)
      | "invocation_expression" =>
        match Constant.nameOf? source here with
        | some value => .literal value
        | none =>
          let callee := match here.childByField? "function" with
            | some function => function.text source
            | none => ""
          match receiver? source children with
          | some receiver => .callOn receiver callee
          | none => .call callee
      | "lambda_expression" | "anonymous_method_expression" =>
        .lambda ("async".toList.isPrefixOf (Text.trimStart (here.text source).toList))
      | _ => other

def ofLast? (source : List Char) : List Tree → Option Operand
  | [] => none
  | child :: rest =>
    match ofLast? source rest with
    | some operand => some operand
    | none => if child.isCode then some (ofTree source child) else none

def ofFirst? (source : List Char) : List Tree → Option Operand
  | [] => none
  | child :: rest =>
    if child.isCode then some (ofTree source child) else ofFirst? source rest

def ofField? (source : List Char) (field : String) : List Tree → Option Operand
  | [] => none
  | child :: rest =>
    if child.field == some field then some (ofTree source child) else ofField? source field rest

/-- What the function of a call is a member of, if it is a member. -/
def receiver? (source : List Char) : List Tree → Option Operand
  | [] => none
  | .node info children :: rest =>
    if info.field == some "function" then
      match info.kind with
      | "member_access_expression" => ofField? source "expression" children
      | "conditional_access_expression" =>
        some (.conditional ((Tree.node info children).text source))
      | _ => none
    else
      receiver? source rest

end

end Operand

end TestLint
