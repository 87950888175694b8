import Mathlib.Algebra.Field.Rat
import TestLint.Expression.Constant
import TestLint.Proofs.Text.Cutting
import TestLint.Text.Utf16

/-!
# What literals stand for

The value that a literal has at run time (`WrittenLiteral.value?`): escapes in characters and
strings are decoded, quotes and indentation of the forms of strings are taken off, numbers
have a type.  The constant that is read off a literal (`WrittenLiteral.constant`) does not
tell this value: of a longer escape it is only the first character, escapes in strings stay
as they are written, and raw strings are trimmed.
-/

namespace TestLint

/-! ## Values -/

inductive IntegerType where
  | int
  | uint
  | long
  | ulong
  deriving DecidableEq

/-- How an array is created. -/
inductive ArrayForm where
  /-- With the type of its elements. -/
  | typed (elementType : String)
  /-- Of the type that its elements have in common. -/
  | inferred
  deriving DecidableEq

/-- The value of an argument of an attribute. -/
inductive DataValue where
  | null
  | bool (value : Bool)
  | integer (type : IntegerType) (value : Int)
  /-- A double by its bits, both zeros having the same. -/
  | double (bits : UInt64)
  /-- A number of one of the other real types, as it is spelled. -/
  | float (number : ℚ)
  | decimal (number : ℚ)
  /-- A character by its code unit. -/
  | char (unit : Nat)
  | string (units : List Nat)
  | array (form : ArrayForm) (elements : List DataValue)
  /-- A collection of the type that is asked for. -/
  | collection (elements : List DataValue)

namespace Literal

/-! ## Characters and strings -/

/-- The escapes of one character, with their code units. -/
def simpleEscapes : List (Char × Nat) :=
  [('\'', 39), ('"', 34), ('\\', 92), ('0', 0), ('a', 7), ('b', 8), ('e', 27), ('f', 12),
   ('n', 10), ('r', 13), ('t', 9), ('v', 11)]

def hexNumber? (digits : List Char) : Option Nat :=
  natural? 16 (digits.map Char.toLower)

def isHexDigit (c : Char) : Bool :=
  (digitValue? 16 c.toLower).isSome

/-- The code units of an escape, and the number of its characters behind the backslash. -/
def escape? : List Char → Option (List Nat × Nat)
  | [] => none
  | 'x' :: rest =>
    let digits := (rest.take 4).takeWhile isHexDigit
    (hexNumber? digits).map fun n => ([n], digits.length + 1)
  | 'u' :: rest =>
    if rest.length < 4 then none else (hexNumber? (rest.take 4)).map fun n => ([n], 5)
  | 'U' :: rest =>
    if rest.length < 8 then
      none
    else
      (hexNumber? (rest.take 8)).bind fun n =>
        if n < 0x10000 then some ([n], 9)
        else if n.isValidChar then some (Text.unitsOf (Char.ofNat n), 9)
        else none
  | c :: _ => (simpleEscapes.lookup c).map fun unit => ([unit], 1)

/-- The code units of what stands between the quotes of a regular string, the first `skip`
characters belonging to an escape. -/
def decode (skip : Nat) : List Char → Option (List Nat)
  | [] => if skip = 0 then some [] else none
  | c :: rest =>
    if skip > 0 then
      decode (skip - 1) rest
    else if c = '\\' then
      (escape? rest).bind fun (units, length) => (decode length rest).map (units ++ ·)
    else if c = '"' ∨ c = '\n' ∨ c = '\r' then
      none
    else
      (decode 0 rest).map (Text.unitsOf c ++ ·)

/-- What stands between two double quotes. -/
def betweenQuotes? (text : List Char) : Option (List Char) :=
  (Text.dropStart? ['"'] text).bind (Text.dropEnd? ['"'])

def regularUnits? (text : List Char) : Option (List Nat) :=
  (betweenQuotes? text).bind (decode 0)

/-- What stands between the quotes of a verbatim string, where a quote is written twice. -/
def verbatimContent? : List Char → Option (List Char)
  | [] => some []
  | '"' :: '"' :: rest => (verbatimContent? rest).map ('"' :: ·)
  | '"' :: _ => none
  | c :: rest => (verbatimContent? rest).map (c :: ·)

def verbatimUnits? (text : List Char) : Option (List Nat) := do
  let quoted ← Text.dropStart? ['@'] text
  let inner ← betweenQuotes? quoted
  let content ← verbatimContent? inner
  some (content.flatMap Text.unitsOf)

/-- A line of a raw string without the indentation of its last line. -/
def unindented? (indentation line : List Char) : Option (List Char) :=
  let written := Text.dropEndWhile (· == '\r') line
  let lineEnd := line.drop written.length
  if written.all Text.isBlank then
    some (written.drop indentation.length ++ lineEnd)
  else
    (Text.dropStart? indentation written).map (· ++ lineEnd)

/-- The content of a raw string that goes over several lines: what stands between the first
and the last of them. -/
def rawLines? (inner : List Char) : Option (List Char) :=
  match inner.splitOn '\n' with
  | [] => none
  | first :: rest =>
    match rest.reverse with
    | [] => none
    | indentation :: lines =>
      if first.all Text.isBlank && indentation.all Text.isBlank then
        (lines.reverse.mapM (unindented? indentation)).map fun lines =>
          Text.dropEndWhile (· == '\r') (['\n'].intercalate lines)
      else
        none

def rawContent? (text : List Char) : Option (List Char) :=
  let quotes := text.takeWhile (· == '"')
  if quotes.length < 3 then
    none
  else
    (Text.dropEnd? quotes (text.drop quotes.length)).bind fun inner =>
      if inner.contains '\n' then rawLines? inner else some inner

def rawUnits? (text : List Char) : Option (List Nat) :=
  (rawContent? text).map (·.flatMap Text.unitsOf)

/-- The code unit of a character literal. -/
def charUnit? (text : List Char) : Option Nat := do
  let inner ← (Text.dropStart? ['\''] text).bind (Text.dropEnd? ['\''])
  match inner with
  | '\\' :: escaped =>
    match escape? escaped with
    | some ([unit], length) => if length = escaped.length then some unit else none
    | _ => none
  | [c] => if c = '\'' ∨ c = '\n' ∨ c = '\r' ∨ c.toNat ≥ 0x10000 then none else some c.toNat
  | _ => none

/-! ## Numbers -/

/-- The first type that holds the number, of those that the ending of its literal allows. -/
def integerType? (isUnsigned isLong : Bool) (n : Int) : Option IntegerType :=
  if n < 2 ^ 31 ∧ !isUnsigned ∧ !isLong then some .int
  else if n < 2 ^ 32 ∧ !isLong then some .uint
  else if n < 2 ^ 63 ∧ !isUnsigned then some .long
  else if n < 2 ^ 64 then some .ulong
  else none

/-- The type of the number behind a minus; the least numbers of the signed types are spelled
with literals that these types do not hold. -/
def negatedType? (isDecimal isUnsigned isLong : Bool) (n : Int) : Option IntegerType :=
  if n = 2 ^ 31 ∧ isDecimal ∧ !isUnsigned ∧ !isLong then
    some .int
  else if n = 2 ^ 63 ∧ isDecimal ∧ !isUnsigned then
    some .long
  else
    match integerType? isUnsigned isLong n with
    | some .int => some .int
    | some .uint | some .long => some .long
    | some .ulong | none => none

def integerValue? (isNegated : Bool) (text : List Char) : Option DataValue := do
  let n ← integer? text
  let ending := text.reverse.takeWhile fun c => "uUlL".toList.contains c
  let isUnsigned := ending.any fun c => c == 'u' || c == 'U'
  let isLong := ending.any fun c => c == 'l' || c == 'L'
  if isNegated then
    let isDecimal := text.all fun c => !"xXbB".toList.contains c
    (negatedType? isDecimal isUnsigned isLong n).map fun type => .integer type (-n)
  else
    (integerType? isUnsigned isLong n).map fun type => .integer type n

/-- The decimal that a real literal spells, and its ending. -/
def realDecimal? (text : List Char) : Option (Decimal × Option Char) :=
  let cs := normalized text
  let ending := cs.getLast?.filter fun c => c == 'f' || c == 'd' || c == 'm'
  let digits := if ending.isSome then cs.dropLast else cs
  (decimal? digits).map fun d => (d, ending)

theorem real?_eq (text : List Char) :
    real? text = (realDecimal? text).map fun (d, ending) => (d.bits, ending) := by
  simp only [real?, realDecimal?, Option.map_map]
  rfl

def Decimal.number (d : Decimal) : ℚ :=
  d.mantissa * (10 : ℚ) ^ (d.exponent - d.places)

/-- The bits of a double, those of the positive zero for both zeros. -/
def zeroless (bits : UInt64) : UInt64 :=
  if bits &&& 0x7FFFFFFFFFFFFFFF = 0 then 0 else bits

def realValue? (isNegated : Bool) (text : List Char) : Option DataValue :=
  (realDecimal? text).map fun (d, ending) =>
    match ending with
    | some 'f' => .float (if isNegated then -d.number else d.number)
    | some 'm' => .decimal (if isNegated then -d.number else d.number)
    | _ => .double (zeroless (if isNegated then negateBits d.bits else d.bits))

/-- The part of two doubles that is not their signs. -/
theorem magnitude_or (a b : UInt64) : (a ||| b) &&& 0x7FFFFFFFFFFFFFFF =
    (a &&& 0x7FFFFFFFFFFFFFFF) ||| (b &&& 0x7FFFFFFFFFFFFFFF) := by
  apply UInt64.toBitVec_inj.1
  ext i hi
  simp [Bool.and_or_distrib_right]

theorem zeroless_eq_of_sameReal {a b : UInt64} (h : sameReal a b = true) :
    zeroless a = zeroless b := by
  rw [sameReal, Bool.or_eq_true, beq_iff_eq, beq_iff_eq] at h
  rcases h with rfl | h
  · rfl
  · rw [magnitude_or, UInt64.or_eq_zero_iff] at h
    rw [zeroless, zeroless, if_pos h.1, if_pos h.2]

end Literal

/-! ## Literals -/

/-- A literal as it is written, perhaps behind a minus. -/
structure WrittenLiteral where
  isNegated : Bool
  kind : String
  text : String

namespace WrittenLiteral

open Literal

/-- The kinds of literals. -/
def kinds : List String :=
  ["null_literal", "boolean_literal", "integer_literal", "real_literal", "character_literal",
   "string_literal", "verbatim_string_literal", "raw_string_literal"]

/-- The value of the literal, where it has one. -/
def value? (l : WrittenLiteral) : Option DataValue :=
  let cs := l.text.toList
  match l.kind with
  | "integer_literal" => integerValue? l.isNegated cs
  | "real_literal" => realValue? l.isNegated cs
  | kind =>
    if l.isNegated then
      none
    else
      match kind with
      | "null_literal" => some .null
      | "boolean_literal" =>
        if l.text = "true" then some (.bool true)
        else if l.text = "false" then some (.bool false)
        else none
      | "character_literal" => (charUnit? cs).map .char
      | "string_literal" => (regularUnits? cs).map .string
      | "verbatim_string_literal" => (verbatimUnits? cs).map .string
      | "raw_string_literal" => (rawUnits? cs).map .string
      | _ => none

section Kinds

variable (text : String)

theorem value?_boolean : value? ⟨false, "boolean_literal", text⟩ =
    if text = "true" then some (.bool true)
    else if text = "false" then some (.bool false)
    else none := rfl

theorem value?_character : value? ⟨false, "character_literal", text⟩ =
    (charUnit? text.toList).map .char := rfl

theorem value?_regular : value? ⟨false, "string_literal", text⟩ =
    (regularUnits? text.toList).map .string := rfl

theorem value?_verbatim : value? ⟨false, "verbatim_string_literal", text⟩ =
    (verbatimUnits? text.toList).map .string := rfl

theorem value?_raw : value? ⟨false, "raw_string_literal", text⟩ =
    (rawUnits? text.toList).map .string := rfl

theorem value?_integer (isNegated : Bool) : value? ⟨isNegated, "integer_literal", text⟩ =
    integerValue? isNegated text.toList := rfl

theorem value?_real (isNegated : Bool) : value? ⟨isNegated, "real_literal", text⟩ =
    realValue? isNegated text.toList := rfl

end Kinds

/-- The constant that is read off a literal without a sign. -/
def bareConstant (kind text : String) : Constant :=
  match kind with
  | "null_literal" => .null
  | "boolean_literal" => .bool (text == "true")
  | "integer_literal" => ((integer? text.toList).map .integer).getD (.nonConstant text)
  | "real_literal" =>
    match real? text.toList with
    | some (bits, ending) => .real bits ending
    | none => .nonConstant text
  | "character_literal" => ((character? text.toList).map .char).getD (.nonConstant text)
  | "string_literal" | "verbatim_string_literal" | "raw_string_literal" =>
    .string (String.ofList (stringContent text.toList))
  | _ => .nonConstant text

theorem ofLeaf_eq (source : List Char) {t : Tree} (hkind : t.kind ∈ kinds) :
    Constant.ofLeaf source t = bareConstant t.kind (t.trimmedText source) := by
  obtain ⟨⟨kind, field, named, missing, start, stop⟩, children⟩ := t
  rw [Tree.kind, Tree.info] at hkind ⊢
  simp only [kinds, List.mem_cons, List.not_mem_nil, or_false] at hkind
  rcases hkind with rfl | rfl | rfl | rfl | rfl | rfl | rfl | rfl
  case inr.inr.inr.inl =>
    rw [Constant.ofLeaf]
    dsimp only [bareConstant]
    cases real? ((Tree.node _ children).trimmedText source).toList <;> rfl
  all_goals rfl

/-- A number with the other sign. -/
def negated : Constant → Constant
  | .integer i => .integer (-i)
  | .real bits ending => .real (negateBits bits) ending
  | c => c

/-- The constant that is read off the literal. -/
def constant (l : WrittenLiteral) : Constant :=
  let bare := bareConstant l.kind l.text
  if l.isNegated then negated bare else bare

theorem constant_eq (kind text : String) :
    constant ⟨false, kind, text⟩ = bareConstant kind text := by
  rw [constant, if_neg Bool.false_ne_true]

end WrittenLiteral

end TestLint
