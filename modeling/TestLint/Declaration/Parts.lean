import TestLint.Declaration.Basic

/-!
# Parts of declarations

Using directives, attributes, modifiers, type parameters, base types and
parameters, each read off the node that holds it.
-/

namespace TestLint

def modifierKeywords : List String :=
  ["public", "private", "protected", "internal", "static", "abstract", "sealed", "virtual",
   "override", "async", "partial", "readonly", "extern", "unsafe", "new", "file", "required",
   "volatile", "const"]

namespace Modifiers

/-- The modifiers among the children of a declaration that begin before `boundary`. -/
def ofTree (source : List Char) (t : Tree) (boundary : Nat) : Modifiers :=
  let before := t.children.takeWhile (·.start < boundary)
  let written := before.filter fun c => c.kind == "modifier" || modifierKeywords.contains c.kind
  ⟨written.map fun c => ⟨c.trimmedText source, c.location source⟩⟩

end Modifiers

namespace UsingDirective

/-- What follows a word that blanks set off from the rest. -/
private def afterWord? (word cs : List Char) : Option (List Char) := do
  let rest ← Text.dropStart? word cs
  match rest with
  | c :: _ => if Text.isBlank c then some (Text.trim rest) else none
  | [] => none

/-- The directive that a text is, if it is one. -/
def ofText? (text : List Char) : Option UsingDirective := do
  let text := Text.trim (Text.dropEndWhile (· == ';') (Text.trim text))
  let (isGlobal, text) := match afterWord? "global".toList text with
    | some rest => (true, rest)
    | none => (false, text)
  let text := Text.trim (← Text.dropStart? "using".toList text)
  let (isStatic, text) := match afterWord? "static".toList text with
    | some rest => (true, rest)
    | none => (false, text)
  let (localName, target) := match Text.cut? ['='] text with
    | some (name, target) => (some (String.ofList (Text.trim name)), Text.trim target)
    | none => (none, text)
  some ⟨Name.withoutGlobal (String.ofList target), localName, isGlobal, isStatic⟩

end UsingDirective

namespace AttributeArgument

/-- The node that names a named argument, where it is a node of its own. -/
private def nameNode? (children : List Tree) : Option Tree :=
  children.find? fun c => c.kind == "name_equals" || c.kind == "name_colon"

/-- The argument that a node writes, as `value`, `Name = value` or `name: value`. -/
def ofTree (source : List Char) (t : Tree) : AttributeArgument :=
  let children := t.codeChildren
  let expression := children.getLast?.getD t
  let isSeparator (c : Tree) : Bool := !c.named && (c.kind == "=" || c.kind == ":")
  let name : Option String :=
    match nameNode? children with
    | some n => n.codeChildren.head?.map (·.text source)
    | none =>
      match t.childByField? "name" with
      | some n => some (n.text source)
      | none =>
        if children.length ≥ 2 && t.children.any isSeparator then
          children.head?.map (·.text source)
        else
          none
  let (name, expression) :=
    match name, expression.childByField? "left", expression.childByField? "right" with
    | none, some left, some right =>
      if expression.kind == "assignment_expression" then
        (some (left.trimmedText source), right)
      else
        (none, expression)
    | name, _, _ => (name, expression)
  { name
    value := .ofTree source expression
    text := expression.text source
    location := expression.location source }

end AttributeArgument

namespace Attribute

def ofTree? (file : FileId) (source : List Char) (target : Option String) (t : Tree) :
    Option Attribute := do
  let name ← t.childByField? "name" <|> t.codeChildren.head?
  let arguments := match t.childOfKind? "attribute_argument_list" with
    | some list => (list.childrenOfKind "attribute_argument").map (.ofTree source)
    | none => []
  some
    { name := name.trimmedText source
      target, arguments
      location := t.location source
      nameLocation := name.location source
      handle := ⟨file, t.start, t.stop⟩ }

def ofDeclaration (file : FileId) (source : List Char) (t : Tree) : List Attribute :=
  (t.childrenOfKind "attribute_list").flatMap fun list =>
    let target := (list.childOfKind? "attribute_target_specifier").map fun c =>
      Text.onString (fun cs => Text.trim (Text.dropEndWhile (· == ':') cs)) (c.text source)
    (list.childrenOfKind "attribute").filterMap (ofTree? file source target)

/-- What a list of attributes of the assembly or module is put on: the word
before its colon. -/
private def globalTarget? (text : List Char) : Option String := do
  let (before, _) ← Text.cut? [':'] ((Text.trimStart text).dropWhile (· == '['))
  let target := Text.trim before
  if target.isEmpty || target.any Text.isBlank then none else some (String.ofList target)

/-- The attributes of a list for the assembly or module. -/
def ofGlobalList (file : FileId) (source : List Char) (t : Tree) : List Attribute :=
  let target := globalTarget? (t.text source).toList
  (t.childrenOfKind "attribute").filterMap (ofTree? file source target)

end Attribute

def typeParametersOf (source : List Char) (t : Tree) : List String :=
  match t.childByFieldOrKind? "type_parameters" "type_parameter_list" with
  | none => []
  | some list => (list.childrenOfKind "type_parameter").map fun p =>
    ((p.childByFieldOrKind? "name" "identifier").getD p).trimmedText source

/-- The base types of a declaration as written, without constructor arguments. -/
def baseTypesOf (source : List Char) (t : Tree) : List String :=
  match t.childByFieldOrKind? "bases" "base_list" with
  | none => []
  | some list =>
    let written := (list.codeChildren.filter (·.kind != "argument_list")).map fun c =>
      Text.onString (fun cs => Text.trim (cs.takeWhile (· != '('))) (c.text source)
    written.filter (· != "")

namespace Parameter

/-- The words that can stand before a parameter. -/
def modifierWords : List String :=
  ["ref", "out", "in", "this", "params", "scoped", "readonly"]

/-- What has been gathered of a parameter from the children read so far. -/
private structure Gathered where
  modifiers : List String
  hasDefault : Bool
  fallbackType : Option Tree
  fallbackName : Option Tree

/-- Takes in one more child, neither the name nor the type of the parameter.
Of a parameter without fields the last identifier before `=` is the name. -/
private def Gathered.add (source : List Char) (g : Gathered) (child : Tree) : Gathered :=
  let text := child.trimmedText source
  let kind := child.kind
  if kind == "=" || kind == "equals_value_clause" then
    { g with hasDefault := true }
  else if kind == "attribute_list" || kind == "comment" then
    g
  else if kind == "modifier" || kind == "parameter_modifier" then
    { g with modifiers := g.modifiers ++ Text.words text }
  else if modifierWords.contains text then
    { g with modifiers := g.modifiers ++ [text] }
  else if kind == "identifier" && !g.hasDefault then
    { g with
      fallbackName := some child
      fallbackType := g.fallbackType <|> g.fallbackName }
  else if child.named && !g.hasDefault && g.fallbackType.isNone then
    { g with fallbackType := some child }
  else
    g

def ofTree (source : List Char) (t : Tree) : Parameter :=
  let others := t.children.zipIdx.filter fun (_, i) => !t.holdsAt "name" i && !t.holdsAt "type" i
  let start := if t.kind == "parameter_array" then ["params"] else []
  let g := (others.map (·.1)).foldl (Gathered.add source) ⟨start, false, none, none⟩
  { name := ((t.childByField? "name" <|> g.fallbackName).map (·.text source)).getD ""
    typeName := ((t.childByField? "type" <|> g.fallbackType).map (·.trimmedText source)).getD ""
    modifiers := g.modifiers
    hasDefault := g.hasDefault
    location := t.location source }

/-- A `params` parameter whose parts stand in the parameter list itself. -/
private structure Inline where
  keyword : Tree
  type : Option Tree
  name : Option Tree

private def Inline.toParameter (source : List Char) (p : Inline) : Parameter :=
  let last := (p.name <|> p.type).getD p.keyword
  { name := (p.name.map (·.text source)).getD ""
    typeName := (p.type.map (·.trimmedText source)).getD ""
    modifiers := ["params"]
    hasDefault := false
    location := .ofOffsets p.keyword.start last.stop source }

/-- The parameters that the nodes of a list write, `pending` being begun. -/
private def ofNodes (source : List Char) (pending : Option Inline) : List Tree → List Parameter
  | [] => (pending.map (·.toParameter source)).toList
  | child :: rest =>
    if child.kind == "parameter" || child.kind == "parameter_array" then
      ofTree source child :: ofNodes source pending rest
    else if child.kind == "params" ||
        (child.kind == "modifier" && child.trimmedText source == "params") then
      ofNodes source (some ⟨child, none, none⟩) rest
    else if child.field == some "type" then
      ofNodes source (pending.map fun p => { p with type := some child }) rest
    else if child.field == some "name" then
      ofNodes source (pending.map fun p => { p with name := some child }) rest
    else if child.kind == "," || child.kind == ")" then
      (pending.map (·.toParameter source)).toList ++ ofNodes source none rest
    else
      ofNodes source pending rest

def ofDeclaration (source : List Char) (t : Tree) : List Parameter :=
  match t.childByFieldOrKind? "parameters" "parameter_list" with
  | none => []
  | some list => ofNodes source none list.children

end Parameter

end TestLint
