import TestLint.Check.Basic

/-!
# Sources of dynamic data

An attribute may name a member that gives the rows of a test, and a method that
names them.  Both are looked up in the type given beside them, or in the class
of the test, and in the types these derive from.  A type that is declared
elsewhere is not looked into.
-/

namespace TestLint.Check

/-- What kind of member an attribute says it names. -/
inductive SourceKind where
  | isMethod
  | isProperty
  /-- Nothing is said, or that the framework is to find out. -/
  | detected
  deriving DecidableEq, Repr, Inhabited

def SourceKind.ofValue? : Constant → Option SourceKind
  | .enumMember typeName member =>
    if Name.simple typeName == FrameworkType.dynamicDataSourceType.typeName then
      some (match member with
        | "Method" => .isMethod
        | "Property" => .isProperty
        | _ => .detected)
    else
      none
  | _ => none

def SourceKind.ofAttribute (a : Attribute) : SourceKind :=
  (a.arguments.findSome? fun argument => ofValue? argument.value).getD .detected

inductive SourceMember where
  | method (m : Method)
  | property (p : Property)
  | field (f : Field)
  deriving Inhabited

namespace SourceMember

/-- The member of this name in one part of a type: a property, else a method,
else a field. -/
def ofType? (name : String) (t : TypeDeclaration) : Option SourceMember :=
  (t.properties.find? (·.name == name)).map .property <|>
  (t.methods.find? (·.name == name)).map .method <|>
  (t.fields.find? (·.name == name)).map .field

def isStatic : SourceMember → Bool
  | .method m => m.isStatic
  | .property p => p.modifiers.has "static"
  | .field f => f.modifiers.has "static" || f.modifiers.has "const"

def typeName : SourceMember → String
  | .method m => m.returnType
  | .property p => p.typeName
  | .field f => f.typeName

def noun : SourceMember → String
  | .method _ => "method"
  | _ => "member"

def takesParameters : SourceMember → Bool
  | .method m => !m.parameters.isEmpty
  | _ => false

/-- What is wrong with the member, where the attribute says this kind. -/
def kindProblem? (kind : SourceKind) (member : SourceMember) : Option String :=
  match kind, member with
  | .isMethod, .property _ | .isMethod, .field _ =>
    some "is not a method, but the source type is 'Method'"
  | .isProperty, .method _ | .isProperty, .field _ =>
    some "is not a property, but the source type is 'Property'"
  | _, _ => none

end SourceMember

/-- The types whose values are no rows. -/
def scalarTypes : List String :=
  ["void", "bool", "byte", "sbyte", "short", "ushort", "int", "uint", "long", "ulong", "float",
   "double", "decimal", "char", "string", "object", "Task", "ValueTask", "Boolean", "Int32",
   "Int64", "String", "Object", "Double"]

def isScalar (written : String) : Bool :=
  let text := Text.dropEndWhile (· == '?') (Text.trim written.toList)
  (Text.dropEnd? ['[', ']'] text).isNone &&
    scalarTypes.contains (String.ofList (Name.simpleChars text))

/-- The type that the arguments of this name (or without a name) describe. -/
def describedType? (a : Attribute) (name : Option String) : Option String :=
  (a.arguments.filter (·.name == name)).findSome? fun argument =>
    match argument.value with
    | .typeOf written => some written
    | _ => none

/-- The types that a member is looked up in, nearest first; `none` where the
described type is declared elsewhere. -/
def searchedTypes? (ctx : CheckedFile) (a : Attribute) (name : Option String)
    (owner : TypeDeclaration) : Option (List TypeDeclaration) :=
  match describedType? a name with
  | some written =>
    match ctx.compilation.resolve written (some owner) with
    | [] => none
    | first :: others => some (first :: others ++ ctx.compilation.baseTypes first)
  | none => some (ctx.parts owner ++ ctx.compilation.baseTypes owner)

def sourceProblems (a : Attribute) (typeName name : String) (types : List TypeDeclaration) :
    List String :=
  let subject := "'" ++ typeName ++ "." ++ name ++ "'"
  match types.findSome? (SourceMember.ofType? name) with
  | none => ["[DynamicData] member " ++ subject ++ " cannot be found"]
  | some member =>
    ((member.kindProblem? (.ofAttribute a)).map fun problem =>
      "[DynamicData] member " ++ subject ++ " " ++ problem).toList ++
    (if member.isStatic then []
      else ["[DynamicData] data source member " ++ subject ++ " should be static"]) ++
    (if member.takesParameters then
      ["[DynamicData] data source method " ++ subject ++ " should not take parameters"]
      else []) ++
    (if isScalar member.typeName then
      ["[DynamicData] " ++ member.noun ++ " " ++ subject ++
        " should return 'IEnumerable<object[]>' or a similar enumerable"]
      else [])

def displayNameProblem? (ctx : CheckedFile) (owner : TypeDeclaration) (a : Attribute) :
    Option String := do
  let argument ← a.named? "DynamicDataDisplayName"
  let name ← argument.value.memberName?
  let types ← searchedTypes? ctx a (some "DynamicDataDisplayNameDeclaringType") owner
  let subject := "[DynamicData] display name method '" ++ name ++ "' "
  match (types.flatMap (·.methods)).find? (·.name == name) with
  | none => some (subject ++ "cannot be found")
  | some m =>
    if m.isStatic && m.accessibility = .isPublic && Name.simple m.returnType == "string" &&
        m.parameters.length = 2 then
      none
    else
      some (subject ++ "should be 'public static string " ++ name ++ "(MethodInfo, object[])'")

def dynamicDataProblems (ctx : CheckedFile) (owner : TypeDeclaration) (a : Attribute) :
    List String :=
  let named := do
    let name ← a.positional.head?.bind (·.value.memberName?)
    let types ← searchedTypes? ctx a none owner
    some (name, types)
  match named with
  | none => []
  | some (name, types) =>
    let typeName := (types.head?.map (·.name)).getD owner.name
    sourceProblems a typeName name types ++ (displayNameProblem? ctx owner a).toList

/-- The sources of dynamic data can be called by the framework. -/
def dynamicDataShouldBeValid : Check := fun ctx =>
  ctx.types.flatMap fun t =>
    t.methods.flatMap fun m =>
      (m.attributes.filter fun a =>
          ctx.framework.attributeIs ctx.compilation ctx.file a .dynamicData).flatMap fun a =>
        (dynamicDataProblems ctx t a).map (.new a.location)

end TestLint.Check
