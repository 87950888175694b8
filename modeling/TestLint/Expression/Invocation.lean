import TestLint.Expression.Operand

/-!
# Invocations

The calls in a method body: what is called on what, with the arguments and the
places that fixes rewrite.
-/

namespace TestLint

structure Argument where
  name : Option String
  operand : Operand
  text : String
  location : Location
  deriving Inhabited

structure Invocation where
  /-- The text before the dot, `Assert` in `Assert.Fail()`. -/
  receiver : Option String
  method : String
  typeArguments : List String
  arguments : List Argument
  location : Location
  nameLocation : Location
  argumentsLocation : Location
  /-- The nearest local function around the call is `async void`. -/
  inAsyncVoidLocal : Bool
  deriving Inhabited

namespace Argument

/-- The argument that a node writes: its last code child that is not the name. -/
def ofTree (source : List Char) (t : Tree) : Argument :=
  let expressions := t.children.zipIdx.filter fun (child, i) =>
    child.isCode && !t.holdsAt "name" i
  let expression := (expressions.getLast?.map (·.1)).getD t
  { name := (t.childByField? "name").map (·.text source)
    operand := .ofTree source expression
    text := expression.text source
    location := expression.location source }

end Argument

namespace Invocation

/-- The classes whose methods are assertions. -/
def assertClasses : List String :=
  ["Assert", "StringAssert", "CollectionAssert"]

/-- The class of assertions that the call is made on, if it is one. -/
def assertClass? (i : Invocation) : Option String := do
  let name := Name.simple (← i.receiver)
  if assertClasses.contains name then some name else none

/-- The call is one of this method of `Assert`. -/
def isAssert (i : Invocation) (method : String) : Bool :=
  i.assertClass? == some "Assert" && i.method == method

def positional (i : Invocation) : List Argument :=
  i.arguments.filter (·.name.isNone)

/-- The node of the method name and the type arguments that a name node gives. -/
def methodAndTypes (source : List Char) (name : Tree) : Tree × List String :=
  if name.kind == "generic_name" then
    let ident := (name.codeChildren.find? (·.kind == "identifier")).getD name
    let types := match name.codeChildren.find? (·.kind == "type_argument_list") with
      | some list => list.codeChildren.map (·.text source)
      | none => []
    (ident, types)
  else
    (name, [])

/-- The call that a node is: it has a function and arguments, and its method
has a name other than `nameof`. -/
def ofTree? (source : List Char) (t : Tree) : Option Invocation := do
  let function ← t.childByField? "function"
  let args ← t.childByField? "arguments"
  let isMember := function.kind == "member_access_expression"
  let receiver :=
    if isMember then (function.childByField? "expression").map (·.text source) else none
  let name ← if isMember then function.childByField? "name" else some function
  let (methodNode, typeArguments) := methodAndTypes source name
  let method := methodNode.text source
  if method == "" || method == "nameof" then
    none
  else
    some
      { receiver, method, typeArguments
        arguments := (args.codeChildren.filter (·.kind == "argument")).map (.ofTree source)
        location := t.location source
        nameLocation := methodNode.location source
        argumentsLocation := args.location source
        inAsyncVoidLocal := false }

end Invocation

end TestLint
