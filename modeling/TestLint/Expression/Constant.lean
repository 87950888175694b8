import TestLint.Expression.Literal
import TestLint.Syntax.Name
import TestLint.Syntax.Tree

/-!
# Constants

The value that an expression has without running the program, read off its
syntax tree.  Parentheses, casts and `checked` are seen through, signs are
applied to numbers; what has no such value keeps its text.
-/

namespace TestLint

/-- The statically known value of an expression. -/
inductive Constant where
  | null
  | bool (value : Bool)
  | integer (value : Int)
  /-- A real number, by its bits, and the ending of its literal. -/
  | real (bits : UInt64) (ending : Option Char)
  | char (value : Char)
  | string (value : String)
  /-- `typeof(T)`, with `T` as written. -/
  | typeOf (written : String)
  /-- `nameof(x)`, with the simple name of `x`. -/
  | nameOf (name : String)
  /-- `Type.Member`. -/
  | enumMember (typeName member : String)
  | array (elementType : Option String) (elements : List Constant)
  /-- `default` or `default(T)`. -/
  | defaultValue
  /-- No constant; the text of the expression. -/
  | nonConstant (text : String)
  deriving Repr, Inhabited

namespace Constant

def isKnown : Constant → Bool
  | .nonConstant _ => false
  | _ => true

/-- The name that a string or `nameof` gives. -/
def memberName? : Constant → Option String
  | .string s => some s
  | .nameOf s => some s
  | _ => none

mutual

/-- The two are written with equal values; reals are compared as numbers. -/
def same : Constant → Constant → Bool
  | .null, .null => true
  | .bool a, .bool b => a == b
  | .integer a, .integer b => a == b
  | .real a s, .real b t => Literal.sameReal a b && s == t
  | .char a, .char b => a == b
  | .string a, .string b => a == b
  | .typeOf a, .typeOf b => a == b
  | .nameOf a, .nameOf b => a == b
  | .enumMember a m, .enumMember b n => a == b && m == n
  | .array s as, .array t bs => s == t && sameList as bs
  | .defaultValue, .defaultValue => true
  | .nonConstant a, .nonConstant b => a == b
  | _, _ => false

def sameList : List Constant → List Constant → Bool
  | [], [] => true
  | a :: as, b :: bs => same a b && sameList as bs
  | _, _ => false

end

/-- The type that an array creation names, up to its brackets. -/
def elementTypeOf (written : String) : String :=
  match Text.cut? ['['] written.toList with
  | some (before, _) => String.ofList (Text.trim before)
  | none => written

/-- The element type that a node names, if it names one. -/
def elementType? (source : List Char) (t : Tree) : Option String :=
  (t.childByField? "type").map fun ty => elementTypeOf (ty.text source)

/-- The value of `nameof(x)`, if the node is such a call. -/
def nameOf? (source : List Char) (t : Tree) : Option Constant := do
  let function ← t.childByField? "function"
  if function.text source ≠ "nameof" then none
  let args ← t.childByField? "arguments"
  let first ← args.codeChildren.head?
  some (.nameOf (Name.simple (first.trimmedText source)))

/-- The number with the sign that stands before it; `none` where the value is
no number that the sign `-` applies to. -/
def signed? (text : String) (value : Constant) : Option Constant :=
  if Text.startsWith text "-" then
    match value with
    | .integer i => some (.integer (-i))
    | .real bits ending => some (.real (Literal.negateBits bits) ending)
    | _ => none
  else if Text.startsWith text "+" then
    some value
  else
    none

/-- The value of a token or of another node whose children do not matter. -/
def ofLeaf (source : List Char) (t : Tree) : Constant :=
  let text := t.trimmedText source
  match t.kind with
  | "null_literal" => .null
  | "boolean_literal" => .bool (text == "true")
  | "integer_literal" => ((Literal.integer? text.toList).map .integer).getD (.nonConstant text)
  | "real_literal" =>
    match Literal.real? text.toList with
    | some (bits, ending) => .real bits ending
    | none => .nonConstant text
  | "character_literal" => ((Literal.character? text.toList).map .char).getD (.nonConstant text)
  | "string_literal" | "verbatim_string_literal" | "raw_string_literal" =>
    .string (String.ofList (Literal.stringContent text.toList))
  | "typeof_expression" =>
    match t.childByField? "type" <|> t.codeChildren.getLast? with
    | some ty => .typeOf (ty.text source)
    | none => .typeOf ""
  | "default_expression" => .defaultValue
  | "invocation_expression" => (nameOf? source t).getD (.nonConstant text)
  | "member_access_expression" =>
    match t.childByField? "expression", t.childByField? "name" with
    | some target, some member => .enumMember (target.text source) (member.text source)
    | _, _ => .nonConstant text
  | _ => .nonConstant text

mutual

/-- The value of an expression. -/
def ofTree (source : List Char) : Tree → Constant
  | .node info children =>
    let here := Tree.node info children
    match info.kind with
    | "parenthesized_expression" | "cast_expression" | "checked_expression" =>
      (ofLast? source children).getD (.nonConstant (here.trimmedText source))
    | "prefix_unary_expression" =>
      let text := here.trimmedText source
      ((ofLast? source children).bind (signed? text)).getD (.nonConstant text)
    | "array_creation_expression" | "implicit_array_creation_expression" =>
      .array (elementType? source here) (ofInitializer source children)
    | "collection_expression" =>
      .array (elementType? source here) (ofElements source children)
    | _ => ofLeaf source here

def ofLast? (source : List Char) : List Tree → Option Constant
  | [] => none
  | child :: rest =>
    match ofLast? source rest with
    | some value => some value
    | none => if child.isCode then some (ofTree source child) else none

def ofFirst? (source : List Char) : List Tree → Option Constant
  | [] => none
  | child :: rest =>
    if child.isCode then some (ofTree source child) else ofFirst? source rest

/-- The values of the elements of the first initializer of a list. -/
def ofInitializer (source : List Char) : List Tree → List Constant
  | [] => []
  | .node info children :: rest =>
    if (Tree.node info children).isCode && info.kind == "initializer_expression" then
      ofElements source children
    else
      ofInitializer source rest

/-- The values of the elements that a list of nodes writes. -/
def ofElements (source : List Char) : List Tree → List Constant
  | [] => []
  | .node info children :: rest =>
    let here := Tree.node info children
    if here.isCode then
      (if info.kind == "expression_element" then
        (ofFirst? source children).getD (ofTree source here)
      else
        ofTree source here) :: ofElements source rest
    else
      ofElements source rest

end

end Constant

end TestLint
