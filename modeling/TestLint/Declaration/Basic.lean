import TestLint.Expression.Invocation

/-!
# Declarations

What a source declares: types with their members, attributes and using
directives.  A declaration holds all that the checks ask for; where a check
needs the syntax again, a handle leads back to the node.
-/

namespace TestLint

/-- The place of a file among those of a compilation. -/
abbrev FileId := Nat

/-- The way back to a node: its file and the bytes that it covers. -/
structure SyntaxHandle where
  file : FileId
  start : Nat
  stop : Nat
  deriving DecidableEq, Repr, Inhabited

/-- A word of the source that a fix may replace. -/
structure Token where
  text : String
  location : Location
  deriving DecidableEq, Repr, Inhabited

/-- Who may use a declaration. -/
inductive Accessibility where
  | isPublic
  | isInternal
  | isProtected
  | isProtectedInternal
  | isPrivateProtected
  | isPrivate
  | isFile
  deriving DecidableEq, Repr, Inhabited

def Accessibility.name : Accessibility → String
  | .isPublic => "public"
  | .isInternal => "internal"
  | .isProtected => "protected"
  | .isProtectedInternal => "protected internal"
  | .isPrivateProtected => "private protected"
  | .isPrivate => "private"
  | .isFile => "file"

/-- The modifiers of a declaration, as they are written. -/
structure Modifiers where
  tokens : List Token
  deriving DecidableEq, Repr, Inhabited

namespace Modifiers

def has (m : Modifiers) (keyword : String) : Bool :=
  m.tokens.any (·.text == keyword)

/-- The words that spell out accessibility. -/
def accessibilityKeywords : List String :=
  ["public", "internal", "protected", "private", "file"]

/-- The tokens that spell out accessibility. -/
def accessibilityTokens (m : Modifiers) : List Token :=
  m.tokens.filter fun t => accessibilityKeywords.contains t.text

/-- The accessibility that the modifiers give; `fallback` if none of them does. -/
def accessibility (m : Modifiers) (fallback : Accessibility) : Accessibility :=
  if m.has "public" then .isPublic
  else if m.has "protected" && m.has "internal" then .isProtectedInternal
  else if m.has "private" && m.has "protected" then .isPrivateProtected
  else if m.has "protected" then .isProtected
  else if m.has "internal" then .isInternal
  else if m.has "private" then .isPrivate
  else if m.has "file" then .isFile
  else fallback

end Modifiers

structure AttributeArgument where
  /-- The name of `Name = value` or `name: value`. -/
  name : Option String
  value : Constant
  text : String
  location : Location
  deriving Repr, Inhabited

/-- An attribute put on a declaration. -/
structure Attribute where
  /-- The name as written. -/
  name : String
  /-- What the attribute is put on, where that is said: `assembly`, `return`, … -/
  target : Option String
  arguments : List AttributeArgument
  location : Location
  nameLocation : Location
  handle : SyntaxHandle
  deriving Repr, Inhabited

namespace Attribute

/-- The simple name without the ending `Attribute`. -/
def shortName (a : Attribute) : String :=
  Name.attributeShort a.name

def positional (a : Attribute) : List AttributeArgument :=
  a.arguments.filter (·.name.isNone)

def named? (a : Attribute) (name : String) : Option AttributeArgument :=
  a.arguments.find? (·.name == some name)

/-- The element types whose arrays spread over the arguments of an attribute. -/
def spreadElementTypes : List String :=
  ["object", "string", "Object", "String", "System.Object", "System.String"]

def spreads (elementType : String) : Bool :=
  spreadElementTypes.contains
    (Text.onString (Text.dropEndWhile (· == '?')) elementType)

/-- The positional values; a lone array of objects or strings gives its elements. -/
def expandedValues (a : Attribute) : List Constant :=
  match a.positional with
  | [single] =>
    match single.value with
    | .array (some elementType) elements =>
      if spreads elementType then elements else [single.value]
    | value => [value]
  | arguments => arguments.map (·.value)

end Attribute

structure Parameter where
  name : String
  typeName : String
  modifiers : List String
  hasDefault : Bool
  location : Location
  deriving DecidableEq, Repr, Inhabited

namespace Parameter

/-- The parameter takes all remaining arguments. -/
def isParams (p : Parameter) : Bool :=
  p.modifiers.contains "params"

/-- The parameter is passed by reference. -/
def isByRef (p : Parameter) : Bool :=
  p.modifiers.any fun m => m == "ref" || m == "out" || m == "in"

def simpleType (p : Parameter) : String :=
  Name.simple p.typeName

end Parameter

structure Method where
  name : String
  nameLocation : Location
  /-- The whole declaration, with its attributes. -/
  location : Location
  handle : SyntaxHandle
  attributes : List Attribute
  modifiers : Modifiers
  accessibility : Accessibility
  returnType : String
  returnTypeLocation : Location
  typeParameters : List String
  parameters : List Parameter
  hasBody : Bool
  isExplicitImplementation : Bool
  /-- The calls in the body, in the order of the source. -/
  invocations : List Invocation
  deriving Inhabited

namespace Method

def isStatic (m : Method) : Bool :=
  m.modifiers.has "static"

/-- The method is asynchronous and gives nothing to wait for. -/
def isAsyncVoid (m : Method) : Bool :=
  m.modifiers.has "async" && m.returnType == "void"

def isGeneric (m : Method) : Bool :=
  !m.typeParameters.isEmpty

end Method

structure Property where
  name : String
  typeName : String
  nameLocation : Location
  location : Location
  attributes : List Attribute
  modifiers : Modifiers
  accessibility : Accessibility
  hasGetter : Bool
  hasSetter : Bool
  /-- The accessibility of the setter where it differs from the property's. -/
  setterAccessibility : Option Accessibility
  deriving Repr, Inhabited

structure Field where
  name : String
  typeName : String
  location : Location
  modifiers : Modifiers
  deriving DecidableEq, Repr, Inhabited

structure Constructor where
  location : Location
  modifiers : Modifiers
  accessibility : Accessibility
  parameters : List Parameter
  deriving DecidableEq, Repr, Inhabited

/-- What a type is declared as. -/
inductive TypeKind where
  | isClass
  | isStruct
  | isRecord
  | isInterface
  deriving DecidableEq, Repr, Inhabited

/-- One declaration of a type; a partial type has several. -/
structure TypeDeclaration where
  name : String
  /-- The name with namespace, containing types and the number of type parameters. -/
  fullName : String
  namespaceName : Option String
  containingType : Option String
  kind : TypeKind
  file : FileId
  nameLocation : Location
  location : Location
  handle : SyntaxHandle
  attributes : List Attribute
  modifiers : Modifiers
  accessibility : Accessibility
  typeParameters : List String
  baseTypes : List String
  methods : List Method
  properties : List Property
  fields : List Field
  constructors : List Constructor
  deriving Inhabited

namespace TypeDeclaration

def isStatic (t : TypeDeclaration) : Bool :=
  t.modifiers.has "static"

def isAbstract (t : TypeDeclaration) : Bool :=
  t.modifiers.has "abstract"

def isPartial (t : TypeDeclaration) : Bool :=
  t.modifiers.has "partial"

def isGeneric (t : TypeDeclaration) : Bool :=
  !t.typeParameters.isEmpty

def methodsNamed (t : TypeDeclaration) (name : String) : List Method :=
  t.methods.filter (·.name == name)

end TypeDeclaration

/-- A using directive. -/
structure UsingDirective where
  /-- The namespace or type that is brought in. -/
  target : String
  /-- The name that the directive gives to the target: `A` in `using A = B`. -/
  localName : Option String
  isGlobal : Bool
  isStatic : Bool
  deriving DecidableEq, Repr, Inhabited

/-- All that one file declares. -/
structure FileDeclarations where
  usings : List UsingDirective
  /-- The attributes of the assembly or module. -/
  globalAttributes : List Attribute
  /-- All types, nested ones after the one that holds them. -/
  types : List TypeDeclaration
  deriving Inhabited

namespace FileDeclarations

def empty : FileDeclarations := ⟨[], [], []⟩

/-- What two stretches of a file declare together. -/
def append (a b : FileDeclarations) : FileDeclarations :=
  ⟨a.usings ++ b.usings, a.globalAttributes ++ b.globalAttributes, a.types ++ b.types⟩

end FileDeclarations

end TestLint
