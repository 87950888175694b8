import TestLint.Declaration.Parts

/-!
# Members

Methods with the calls in their bodies, properties, fields and constructors,
each read off its node.
-/

namespace TestLint

namespace Method

/-- Whether calls are in an `async void` local function, below a node: a local
function decides for all that stands in it. -/
def inAsyncVoidBelow (source : List Char) (outside : Bool) (t : Tree) : Bool :=
  if t.kind == "local_function_statement" then
    let returns := t.childByField? "type" <|> t.childByField? "returns"
    let boundary := (returns.map (·.start)).getD t.stop
    let isVoid := (returns.map (·.trimmedText source == "void")).getD false
    (Modifiers.ofTree source t boundary).has "async" && isVoid
  else
    outside

/-- The call that a node is, marked by where it stands. -/
def invocationAt (source : List Char) (inAsyncVoid : Bool) (t : Tree) : List Invocation :=
  if t.kind == "invocation_expression" then
    ((Invocation.ofTree? source t).map fun i =>
      { i with inAsyncVoidLocal := inAsyncVoid }).toList
  else
    []

mutual

/-- The calls at and below a node, in pre-order. -/
def invocationsIn (source : List Char) (outside : Bool) : Tree → List Invocation
  | .node info children =>
    let here := Tree.node info children
    let inside := inAsyncVoidBelow source outside here
    invocationAt source inside here ++ invocationsAmong source inside children

/-- The calls at and below the code nodes of a list. -/
def invocationsAmong (source : List Char) (inside : Bool) : List Tree → List Invocation
  | [] => []
  | child :: rest =>
    (if child.isCode then invocationsIn source inside child else []) ++
      invocationsAmong source inside rest

end

/-- The node that holds the statements of a method. -/
def body? (t : Tree) : Option Tree :=
  t.childByFieldOrKind? "body" "block" <|> t.childOfKind? "arrow_expression_clause"

/-- The method that a node declares, if it has a name. -/
def ofTree? (file : FileId) (source : List Char) (t : Tree) : Option Method := do
  let name ← t.childByField? "name"
  let returns := t.childByField? "returns" <|> t.childByField? "type"
  let modifiers := Modifiers.ofTree source t ((returns.map (·.start)).getD name.start)
  let body := body? t
  some
    { name := name.text source
      nameLocation := name.location source
      location := t.location source
      handle := ⟨file, t.start, t.stop⟩
      attributes := Attribute.ofDeclaration file source t
      modifiers
      accessibility := modifiers.accessibility .isPrivate
      returnType := (returns.map (·.trimmedText source)).getD "void"
      returnTypeLocation := (returns.getD name).location source
      typeParameters := typeParametersOf source t
      parameters := Parameter.ofDeclaration source t
      hasBody := body.isSome
      isExplicitImplementation := (t.childOfKind? "explicit_interface_specifier").isSome
      invocations := (body.map (invocationsIn source false)).getD [] }

end Method

namespace Property

/-- What the accessors read so far say about a property. -/
structure Accessors where
  getter : Bool
  setter : Bool
  narrowed : Option Accessibility

def accessorWords (text : String) : List String :=
  let isBreak (c : Char) : Bool := Text.isBlank c || c == ';' || c == '\x7b' || c == '='
  ((text.toList.splitOnP isBreak).filter (!·.isEmpty)).map String.ofList

/-- Takes in one more accessor.  The first of the words `get`, `set` and
`init` says what it is; the words before it are its modifiers. -/
def Accessors.add (source : List Char) (own : Accessibility) (a : Accessors)
    (accessor : Tree) : Accessors :=
  let words := accessorWords (accessor.text source)
  let isKeyword (w : String) : Bool := w == "get" || w == "set" || w == "init"
  let written := words.takeWhile (!isKeyword ·)
  match words.find? isKeyword with
  | none => a
  | some "get" => { a with getter := true }
  | some _ =>
    let place := accessor.location source
    let modifiers : Modifiers := ⟨written.map fun w => ⟨w, place⟩⟩
    let access := modifiers.accessibility own
    { a with
      setter := true
      narrowed := if access ≠ own then some access else a.narrowed }

/-- The property that a node declares, if it has a name. -/
def ofTree? (file : FileId) (source : List Char) (t : Tree) : Option Property := do
  let name ← t.childByField? "name"
  let type := t.childByField? "type"
  let modifiers := Modifiers.ofTree source t ((type.map (·.start)).getD name.start)
  let own := modifiers.accessibility .isPrivate
  let accessors : Accessors :=
    match t.childByFieldOrKind? "accessors" "accessor_list" with
    | some list =>
      (list.childrenOfKind "accessor_declaration").foldl (Accessors.add source own)
        ⟨false, false, none⟩
    | none => ⟨(t.childOfKind? "arrow_expression_clause").isSome, false, none⟩
  some
    { name := name.text source
      typeName := (type.map (·.trimmedText source)).getD ""
      nameLocation := name.location source
      location := t.location source
      attributes := Attribute.ofDeclaration file source t
      modifiers
      accessibility := own
      hasGetter := accessors.getter
      hasSetter := accessors.setter
      setterAccessibility := accessors.narrowed }

end Property

namespace Field

/-- The fields that a node declares, one per declarator with a name. -/
def ofTree (source : List Char) (t : Tree) : List Field :=
  match t.childOfKind? "variable_declaration" with
  | none => []
  | some declaration =>
    let modifiers := Modifiers.ofTree source t declaration.start
    let typeName := ((declaration.childByField? "type").map (·.trimmedText source)).getD ""
    (declaration.childrenOfKind "variable_declarator").filterMap fun d =>
      (d.childByFieldOrKind? "name" "identifier").map fun name =>
        { name := name.text source, typeName, location := d.location source, modifiers }

end Field

namespace Constructor

/-- The constructor that a node declares. -/
def ofTree (source : List Char) (t : Tree) : Constructor :=
  let boundary := ((t.childByField? "name").map (·.start)).getD t.stop
  let modifiers := Modifiers.ofTree source t boundary
  { location := t.location source
    modifiers
    accessibility := modifiers.accessibility .isPrivate
    parameters := Parameter.ofDeclaration source t }

end Constructor

end TestLint
