import TestLint.Declaration.Members

/-!
# The declarations of a file

From the syntax tree of a file to all that it declares.  Namespaces are gone
into, and of a type its body; a type comes before those nested in it.  The
number of its type parameters is part of a type's full name, so that `Foo` and
`Foo<T>` are two types.
-/

namespace TestLint

namespace TypeDeclaration

/-- The kinds of nodes that declare types. -/
def nodeKinds : List String :=
  ["class_declaration", "struct_declaration", "record_declaration",
   "record_struct_declaration", "interface_declaration"]

def kindOf : String → TypeKind
  | "struct_declaration" | "record_struct_declaration" => .isStruct
  | "record_declaration" => .isRecord
  | "interface_declaration" => .isInterface
  | _ => .isClass

/-- A name with the number of its type parameters. -/
def metadataName (name : String) (arity : Nat) : String :=
  if arity = 0 then name else name ++ "\x60" ++ toString arity

def inScope (scope : Option String) (name : String) : String :=
  match scope with
  | some outer => outer ++ "." ++ name
  | none => name

/-- The node that holds the members of a type or namespace. -/
def body? (t : Tree) : Option Tree :=
  t.childByFieldOrKind? "body" "declaration_list"

/-- Whether a child is the body among the children of a declaration: the first
one under the field `body`, or else the first declaration list. -/
def bodyTest (children : List Tree) (info : NodeInfo) : Bool :=
  if children.any (·.field == some "body") then
    info.field == some "body"
  else
    info.kind == "declaration_list"

/-- The type that a node declares, if it has a name, nested types aside. -/
def ofNode? (file : FileId) (source : List Char) (namespaceName containing : Option String)
    (t : Tree) : Option TypeDeclaration := do
  let nameNode ← t.childByField? "name"
  let name := nameNode.text source
  let typeParameters := typeParametersOf source t
  let modifiers := Modifiers.ofTree source t nameNode.start
  let members := ((body? t).map (·.codeChildren)).getD []
  let ofKind (kind : String) : List Tree := members.filter (·.kind == kind)
  some
    { name
      fullName := inScope (containing <|> namespaceName) (metadataName name typeParameters.length)
      namespaceName
      containingType := containing
      kind := kindOf t.kind
      file
      nameLocation := nameNode.location source
      location := t.location source
      handle := ⟨file, t.start, t.stop⟩
      attributes := Attribute.ofDeclaration file source t
      modifiers
      accessibility :=
        modifiers.accessibility (if containing.isSome then .isPrivate else .isInternal)
      typeParameters
      baseTypes := baseTypesOf source t
      methods := (ofKind "method_declaration").filterMap (Method.ofTree? file source)
      properties := (ofKind "property_declaration").filterMap (Property.ofTree? file source)
      fields := (ofKind "field_declaration").flatMap (Field.ofTree source)
      constructors := (ofKind "constructor_declaration").map (Constructor.ofTree source) }

mutual

def allOfNode (file : FileId) (source : List Char) (namespaceName containing : Option String) :
    Tree → List TypeDeclaration
  | .node info children =>
    match ofNode? file source namespaceName containing (.node info children) with
    | none => []
    | some t => t :: nestedInFirst file source namespaceName t.fullName (bodyTest children) children

/-- The types among the members of the first node that is the body. -/
def nestedInFirst (file : FileId) (source : List Char) (namespaceName : Option String)
    (containing : String) (isBody : NodeInfo → Bool) : List Tree → List TypeDeclaration
  | [] => []
  | .node info members :: rest =>
    if isBody info then
      nestedAmong file source namespaceName containing members
    else
      nestedInFirst file source namespaceName containing isBody rest

/-- The types among the members of a type, each with those nested in it. -/
def nestedAmong (file : FileId) (source : List Char) (namespaceName : Option String)
    (containing : String) : List Tree → List TypeDeclaration
  | [] => []
  | member :: rest =>
    (if member.isCode && nodeKinds.contains member.kind then
      allOfNode file source namespaceName (some containing) member
    else
      []) ++ nestedAmong file source namespaceName containing rest

end

end TypeDeclaration

namespace FileDeclarations

/-- The namespace with this name inside another. -/
def joinNamespace (outer inner : Option String) : Option String :=
  match outer, inner with
  | some o, some i => some (o ++ "." ++ i)
  | some o, none => some o
  | none, inner => inner

/-- The namespace of the members after one of them: a namespace directive for
the rest of the file opens its namespace inside `outer`. -/
def namespaceAfter (source : List Char) (outer current : Option String) (t : Tree) :
    Option String :=
  if t.isCode && t.kind == "file_scoped_namespace_declaration" then
    joinNamespace outer ((t.childByField? "name").map (·.text source))
  else
    current

mutual

/-- What one member of a namespace or file declares, `current` being the
namespace that it stands in and `outer` the one around that namespace's
declaration. -/
def ofMember (file : FileId) (source : List Char) (outer current : Option String) :
    Tree → FileDeclarations
  | .node info children =>
    let here := Tree.node info children
    match info.kind with
    | "using_directive" =>
      ⟨(UsingDirective.ofText? (here.text source).toList).toList, [], []⟩
    | "global_attribute" | "global_attribute_list" =>
      ⟨[], Attribute.ofGlobalList file source here, []⟩
    | "namespace_declaration" =>
      let name := (here.childByField? "name").map (·.text source)
      ofBody file source (joinNamespace current name) (TypeDeclaration.bodyTest children) children
    | "file_scoped_namespace_declaration" =>
      let inner := joinNamespace outer ((here.childByField? "name").map (·.text source))
      ofMembers file source inner inner children
    | kind =>
      if TypeDeclaration.nodeKinds.contains kind then
        ⟨[], [], TypeDeclaration.allOfNode file source current none here⟩
      else
        .empty

/-- What the members of a namespace or file declare. -/
def ofMembers (file : FileId) (source : List Char) (outer current : Option String) :
    List Tree → FileDeclarations
  | [] => .empty
  | member :: rest =>
    append
      (if member.isCode then ofMember file source outer current member else .empty)
      (ofMembers file source outer (namespaceAfter source outer current member) rest)

def ofBody (file : FileId) (source : List Char) (namespaceName : Option String)
    (isBody : NodeInfo → Bool) : List Tree → FileDeclarations
  | [] => .empty
  | .node info members :: rest =>
    if isBody info then
      ofMembers file source namespaceName namespaceName members
    else
      ofBody file source namespaceName isBody rest

end

/-- All that the tree of a file declares. -/
def ofTree (file : FileId) (source : List Char) (t : Tree) : FileDeclarations :=
  ofMembers file source none none t.children

end FileDeclarations

end TestLint
