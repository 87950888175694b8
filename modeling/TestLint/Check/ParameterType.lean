import TestLint.Check.Basic

/-!
# Which constants fit a parameter

A parameter's type is read off its written form, as far as constants of
attributes can tell types apart.  A type that is not known takes everything.
-/

namespace TestLint.Check

/-- The types that constants can be told apart by. -/
inductive ParameterType where
  /-- A type that takes everything, or that is not known. -/
  | any
  /-- Whole numbers from `least` to `greatest`. -/
  | integral (least greatest : Int)
  | float
  | double
  | decimal
  | bool
  | char
  | string
  | typeOf
  | array (element : ParameterType)
  /-- A type declared in the compilation, by its simple name. -/
  | named (name : String)
  deriving DecidableEq, Repr, Inhabited

private def signed (bits : Nat) : ParameterType :=
  .integral (-(Nat.pow 2 (bits - 1) : Nat)) ((Nat.pow 2 (bits - 1) : Nat) - 1)

private def unsigned (bits : Nat) : ParameterType :=
  .integral 0 ((Nat.pow 2 bits : Nat) - 1)

namespace ParameterType

/-- The built-in types by their keywords and by their names in `System`. -/
def builtInTypes : List (String × ParameterType) :=
  [("object", .any), ("Object", .any), ("dynamic", .any),
   ("sbyte", signed 8), ("SByte", signed 8), ("byte", unsigned 8), ("Byte", unsigned 8),
   ("short", signed 16), ("Int16", signed 16), ("ushort", unsigned 16), ("UInt16", unsigned 16),
   ("int", signed 32), ("Int32", signed 32), ("uint", unsigned 32), ("UInt32", unsigned 32),
   ("long", signed 64), ("Int64", signed 64), ("ulong", unsigned 64), ("UInt64", unsigned 64),
   ("nint", signed 64), ("IntPtr", signed 64), ("nuint", unsigned 64), ("UIntPtr", unsigned 64),
   ("float", .float), ("Single", .float), ("double", .double), ("Double", .double),
   ("decimal", .decimal), ("Decimal", .decimal), ("bool", .bool), ("Boolean", .bool),
   ("char", .char), ("Char", .char), ("string", .string), ("String", .string), ("Type", .typeOf)]

def builtIn? (name : String) : Option ParameterType :=
  let cs := (Name.withoutGlobal name).toList
  let plain := String.ofList ((Text.dropStart? "System.".toList cs).getD cs)
  builtInTypes.lookup plain

def isValueType : ParameterType → Bool
  | .integral _ _ | .float | .double | .decimal | .bool | .char => true
  | _ => false

def isIntegral : ParameterType → Bool
  | .integral _ _ => true
  | _ => false

end ParameterType

/-- The type of a parameter, and whether it takes null where a value type would not. -/
structure ParameterForm where
  type : ParameterType
  nullable : Bool
  deriving DecidableEq, Repr, Inhabited

namespace ParameterForm

/-- A written type without the mark `?`, and whether it had it. -/
def withoutMark (written : List Char) : List Char × Bool :=
  let text := Text.trim written
  match Text.dropEnd? ['?'] text with
  | some inner => (Text.trim inner, true)
  | none => (text, false)

/-- The argument of `Nullable<…>`. -/
def nullableArgument? (text : List Char) : Option (List Char) := do
  let inner ← Text.dropStart? "Nullable<".toList text <|>
    Text.dropStart? "System.Nullable<".toList text
  (Text.dropEnd? ['>'] inner).map Text.trim

/-- A written type without what makes it nullable, and whether it was. -/
def withoutNullable (written : List Char) : List Char × Bool :=
  let (text, marked) := withoutMark written
  match nullableArgument? text with
  | some inner => (inner, true)
  | none => (text, marked)

/-- The type that a name means which ends in no brackets. -/
def ofName (ctx : CheckedFile) (typeParameters : List String) (name : String) : ParameterType :=
  match ParameterType.builtIn? name with
  | some type => type
  | none =>
    if typeParameters.contains name || (ctx.compilation.resolve name none).isEmpty then
      .any
    else
      .named (Name.simple name)

/-- The form of a written type. Every pair of brackets shortens what is left to
be read, so `fuel` need not exceed the length of the text. -/
def readWithin (ctx : CheckedFile) (typeParameters : List String) :
    Nat → List Char → ParameterForm
  | 0, written => ⟨ofName ctx typeParameters (String.ofList written), false⟩
  | fuel + 1, written =>
    let (text, nullable) := withoutNullable written
    match Text.dropEnd? ['[', ']'] text with
    | some element => ⟨.array (readWithin ctx typeParameters fuel element).type, true⟩
    | none => ⟨ofName ctx typeParameters (String.ofList text), nullable⟩

def ofText (ctx : CheckedFile) (typeParameters : List String) (written : String) :
    ParameterForm :=
  readWithin ctx typeParameters (written.length + 1) written.toList

/-- The form of what an array takes; of another type, the form itself. -/
def element (f : ParameterForm) : ParameterForm :=
  match f.type with
  | .array element => ⟨element, false⟩
  | _ => f

end ParameterForm

def realFits (ending : Option Char) : ParameterType → Bool
  | .float => ending == some 'f'
  | .double => ending != some 'm'
  | .decimal => ending != some 'f'
  | _ => false

/-- A member of the type `typeName` fits the type: of a built-in type as a
constant of it, of a declared type by its name. -/
def memberFits (typeName : String) (type : ParameterType) : Bool :=
  match ParameterType.builtIn? typeName with
  | some builtIn => builtIn == type || (builtIn.isIntegral && type.isValueType)
  | none =>
    match type with
    | .named name => Name.simple typeName == name
    | _ => true

mutual

/-- The constant fits a parameter of this type. -/
def fits (type : ParameterType) (nullable : Bool) : Constant → Bool
  | .null => type == .any || nullable || !type.isValueType
  | .defaultValue | .nonConstant _ => true
  | .bool _ => type == .any || type == .bool
  | .integer i =>
    match type with
    | .integral least greatest => least ≤ i && i ≤ greatest
    | .any | .float | .double | .decimal => true
    | _ => false
  | .real _ ending => type == .any || realFits ending type
  | .char _ => type == .any || type == .char || type.isIntegral
  | .string _ | .nameOf _ => type == .any || type == .string
  | .typeOf _ => type == .any || type == .typeOf
  | .enumMember typeName _ => type == .any || memberFits typeName type
  | .array _ elements =>
    match type with
    | .any => true
    | .array element => allFit element elements
    | _ => false

def allFit (type : ParameterType) : List Constant → Bool
  | [] => true
  | value :: rest => fits type false value && allFit type rest

end

def ParameterForm.takes (f : ParameterForm) (value : Constant) : Bool :=
  fits f.type f.nullable value

end TestLint.Check
