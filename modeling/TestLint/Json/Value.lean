/-!
# JSON values

A value as its text gives it: the fields of an object in the order in which
they are written, repeated keys included, and a number by its spelling, so
that `1`, `1.0` and `1e0` stay apart.
-/

namespace TestLint

/-- A JSON value. -/
inductive Json where
  | null
  | bool (value : Bool)
  | number (spelling : String)
  | string (value : String)
  /-- A string that holds half of a surrogate pair, which no text can equal. -/
  | brokenString
  | array (items : List Json)
  | object (fields : List (String × Json))
  /-- An object with a key that holds half of a surrogate pair; nothing reads it. -/
  | brokenObject
  deriving Inhabited

namespace Json

/-- The number of values of a machine word, the range of the numbers read here. -/
def wordSize : Nat := Nat.pow 2 64

def ofNat (n : Nat) : Json :=
  .number n.repr

/-- The value if there is one, else `null`. -/
def ofOption (f : α → Json) : Option α → Json
  | some a => f a
  | none => .null

def ofList (f : α → Json) (items : List α) : Json :=
  .array (items.map f)

/-- The value of a key; the last one where the key is repeated. -/
def field? (key : String) : Json → Option Json
  | .object fields => (fields.reverse.find? (·.1 == key)).map (·.2)
  | _ => none

/-- The keys of an object, as often as they are written. -/
def keys : Json → List String
  | .object fields => fields.map (·.1)
  | _ => []

/-- The natural number below `2^64` that a spelling without sign, fraction
and exponent stands for. -/
def word? : Json → Option Nat
  | .number spelling =>
    let digits := spelling.toList
    let n := Nat.ofDigitChars 10 digits 0
    if digits ≠ [] ∧ digits.all Char.isDigit ∧ n < wordSize then some n else none
  | _ => none

def text? : Json → Option String
  | .string s => some s
  | _ => none

def items? : Json → Option (List Json)
  | .array items => some items
  | _ => none

def bool? : Json → Option Bool
  | .bool b => some b
  | _ => none

/-- The name of a choice without content: a string, or an object whose only
field has that name and the value `null`. -/
def choice? : Json → Option String
  | .string s => some s
  | .object [(name, .null)] => some name
  | _ => none

/-- Reads a field that has to be there. -/
def required (key : String) (read : Json → Option α) (value : Json) : Option α :=
  value.field? key >>= read

/-- Reads a field that may be missing or `null`. -/
def optional (key : String) (read : Json → Option α) (value : Json) : Option (Option α) :=
  match value.field? key with
  | none | some .null => some none
  | some v => (read v).map some

/-- Reads a field that has a value of its own when it is missing. -/
def withDefault (key : String) (fallback : α) (read : Json → Option α) (value : Json) : Option α :=
  match value.field? key with
  | none => some fallback
  | some v => read v

def listOf (read : Json → Option α) (value : Json) : Option (List α) :=
  value.items? >>= (·.mapM read)

/-- The fields of an object, each value read; of a repeated key all values
are read and the last one stays, at the first one's place. -/
def mapOf (read : Json → Option α) : Json → Option (List (String × α))
  | .object fields => do
    let pairs ← fields.mapM fun (key, v) => (read v).map (key, ·)
    some (pairs.foldl (fun kept (key, v) =>
      if kept.any (·.1 == key) then
        kept.map fun old => if old.1 == key then (key, v) else old
      else
        kept ++ [(key, v)]) [])
  | _ => none

/-- The fields of a record: an object that writes none of the known keys twice, or
an array of the values of the known keys in their order.  From an array only
keys behind the first `needed` may be missing. -/
def record? (needed : Nat) (known : List String) (value : Json) : Option Json :=
  match value with
  | .object fields =>
    if known.all fun key => fields.countP (·.1 == key) ≤ 1 then some value else none
  | .array items =>
    if needed ≤ items.length ∧ items.length ≤ known.length then
      some (.object (known.zip items))
    else
      none
  | _ => none

mutual

/-- The value in which each object keeps, of a repeated key, the last value only. -/
def settled : Json → Json
  | .array items => .array (settledItems items)
  | .object fields => .object (settledFields fields)
  | .null => .null
  | .bool b => .bool b
  | .number n => .number n
  | .string s => .string s
  | .brokenString => .brokenString
  | .brokenObject => .brokenObject

/-- The items of an array, each settled. -/
def settledItems : List Json → List Json
  | [] => []
  | item :: rest => settled item :: settledItems rest

/-- The fields of an object, those with a later namesake left out. -/
def settledFields : List (String × Json) → List (String × Json)
  | [] => []
  | (key, value) :: rest =>
    if rest.any (·.1 == key) then settledFields rest
    else (key, settled value) :: settledFields rest

end

end Json

end TestLint
