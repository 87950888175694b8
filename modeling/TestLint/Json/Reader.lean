import TestLint.Json.Value

/-!
# Reading JSON

Strict JSON: no comments, no text after the value, no trailing commas, no
byte order mark.  A string is read in two steps, first into pieces (a
character, or the code unit of a `\u` escape), then by joining surrogate
pairs.  `Json.read?` hides the fuel, of which every character needs at most
two units.
-/

namespace TestLint.Json

/-- The four characters that may stand between tokens. -/
def isSpace (c : Char) : Bool :=
  c == ' ' || c == '\t' || c == '\n' || c == '\r'

def hexValue? (c : Char) : Option Nat :=
  if '0' ≤ c ∧ c ≤ '9' then some (c.toNat - '0'.toNat)
  else if 'a' ≤ c ∧ c ≤ 'f' then some (c.toNat - 'a'.toNat + 10)
  else if 'A' ≤ c ∧ c ≤ 'F' then some (c.toNat - 'A'.toNat + 10)
  else none

/-- A piece of a string: a character, or an escaped code unit. -/
inductive Piece where
  | char (c : Char)
  | unit (n : Nat)

/-- The character that a one-letter escape stands for. -/
def escapeValue? : Char → Option Char
  | '"' => some '"'
  | '\\' => some '\\'
  | '/' => some '/'
  | 'b' => some '\x08'
  | 'f' => some '\x0c'
  | 'n' => some '\n'
  | 'r' => some '\r'
  | 't' => some '\t'
  | _ => none

/-- The pieces up to the closing quote, and the text after it. -/
def readPieces : List Char → Option (List Piece × List Char)
  | [] => none
  | '"' :: rest => some ([], rest)
  | '\\' :: 'u' :: a :: b :: c :: d :: rest => do
    let n := (← hexValue? a) * 4096 + (← hexValue? b) * 256 + (← hexValue? c) * 16 + (← hexValue? d)
    let (pieces, after) ← readPieces rest
    some (.unit n :: pieces, after)
  | '\\' :: e :: rest => do
    let c ← escapeValue? e
    let (pieces, after) ← readPieces rest
    some (.char c :: pieces, after)
  | c :: rest =>
    if c == '\\' || c.toNat < 0x20 then
      none
    else do
      let (pieces, after) ← readPieces rest
      some (.char c :: pieces, after)

/-- The text of the pieces, surrogate pairs joined; `none` if half of a pair
stands alone. -/
def joinPieces : List Piece → Option (List Char)
  | [] => some []
  | .char c :: rest => (joinPieces rest).map (c :: ·)
  | .unit hi :: .unit lo :: rest =>
    if 0xD800 ≤ hi ∧ hi < 0xDC00 then
      if 0xDC00 ≤ lo ∧ lo < 0xE000 then
        (joinPieces rest).map (Char.ofNat (0x10000 + (hi - 0xD800) * 0x400 + (lo - 0xDC00)) :: ·)
      else
        none
    else if 0xDC00 ≤ hi ∧ hi < 0xE000 then
      none
    else
      (joinPieces (.unit lo :: rest)).map (Char.ofNat hi :: ·)
  | .unit n :: rest =>
    if 0xD800 ≤ n ∧ n < 0xE000 then none else (joinPieces rest).map (Char.ofNat n :: ·)

/-- A quoted text, from after its opening quote, and what follows it; no text
where half of a surrogate pair stands alone. -/
def readQuoted (cs : List Char) : Option (Option String × List Char) := do
  let (pieces, rest) ← readPieces cs
  some ((joinPieces pieces).map String.ofList, rest)

def ofQuoted : Option String → Json
  | some text => .string text
  | none => .brokenString

/-- The object of fields that each have a quoted text for their key. -/
def ofFields (fields : List (Option String × Json)) : Json :=
  match fields.mapM fun (key, value) => key.map (·, value) with
  | some fields => .object fields
  | none => .brokenObject

/-- At least one digit, and the text after the digits. -/
def readDigits (cs : List Char) : Option (List Char × List Char) :=
  let digits := cs.takeWhile Char.isDigit
  if digits.isEmpty then none else some (digits, cs.dropWhile Char.isDigit)

def readFraction : List Char → Option (List Char × List Char)
  | '.' :: rest => (readDigits rest).map fun (digits, after) => ('.' :: digits, after)
  | cs => some ([], cs)

def readExponent : List Char → Option (List Char × List Char)
  | e :: rest =>
    if e == 'e' || e == 'E' then
      match rest with
      | '+' :: rest => (readDigits rest).map fun (digits, after) => (e :: '+' :: digits, after)
      | '-' :: rest => (readDigits rest).map fun (digits, after) => (e :: '-' :: digits, after)
      | rest => (readDigits rest).map fun (digits, after) => (e :: digits, after)
    else
      some ([], e :: rest)
  | [] => some ([], [])

/-- A number without sign: no zero stands before another digit. -/
def readUnsigned (cs : List Char) : Option (List Char × List Char) := do
  let (whole, rest) ← readDigits cs
  if whole.length > 1 ∧ whole.head? = some '0' then
    none
  else
    let (fraction, rest) ← readFraction rest
    let (exponent, rest) ← readExponent rest
    some (whole ++ fraction ++ exponent, rest)

/-- A number, kept as it is spelled. -/
def readNumber : List Char → Option (Json × List Char)
  | '-' :: cs =>
    (readUnsigned cs).map fun (text, rest) => (.number (String.ofList ('-' :: text)), rest)
  | cs => (readUnsigned cs).map fun (text, rest) => (.number (String.ofList text), rest)

/-- One of the three words that are values. -/
def readWord (cs : List Char) : Option (Json × List Char) :=
  if "true".toList.isPrefixOf cs then some (.bool true, cs.drop 4)
  else if "false".toList.isPrefixOf cs then some (.bool false, cs.drop 5)
  else if "null".toList.isPrefixOf cs then some (.null, cs.drop 4)
  else none

mutual

/-- A value and the text after it. -/
def readValue : Nat → List Char → Option (Json × List Char)
  | 0, _ => none
  | fuel + 1, cs =>
    match cs.dropWhile isSpace with
    | [] => none
    | '"' :: rest => (readQuoted rest).map fun (text, after) => (ofQuoted text, after)
    | '[' :: rest =>
      match rest.dropWhile isSpace with
      | ']' :: rest => some (.array [], rest)
      | rest => (readItems fuel rest).map fun (items, after) => (.array items, after)
    | '\x7b' :: rest =>
      match rest.dropWhile isSpace with
      | '\x7d' :: rest => some (.object [], rest)
      | rest => (readFields fuel rest).map fun (fields, after) => (ofFields fields, after)
    | c :: rest =>
      if c == '-' || c.isDigit then readNumber (c :: rest) else readWord (c :: rest)

/-- The items of an array up to its closing bracket. -/
def readItems : Nat → List Char → Option (List Json × List Char)
  | 0, _ => none
  | fuel + 1, cs => do
    let (item, rest) ← readValue fuel cs
    match rest.dropWhile isSpace with
    | ',' :: rest => (readItems fuel rest).map fun (items, after) => (item :: items, after)
    | ']' :: rest => some ([item], rest)
    | _ => none

/-- The fields of an object up to its closing brace. -/
def readFields : Nat → List Char → Option (List (Option String × Json) × List Char)
  | 0, _ => none
  | fuel + 1, cs =>
    match cs.dropWhile isSpace with
    | '"' :: rest => do
      let (key, rest) ← readQuoted rest
      let ':' :: rest := rest.dropWhile isSpace | none
      let (value, rest) ← readValue fuel rest
      match rest.dropWhile isSpace with
      | ',' :: rest =>
        (readFields fuel rest).map fun (fields, after) => ((key, value) :: fields, after)
      | '\x7d' :: rest => some ([(key, value)], rest)
      | _ => none
    | _ => none

end

def read? (text : String) : Option Json :=
  let cs := text.toList
  match readValue (2 * cs.length + 2) cs with
  | some (value, rest) => if rest.all isSpace then some value else none
  | none => none

end TestLint.Json
