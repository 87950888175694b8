import Mathlib.Data.Nat.Digits.Defs
import TestLint.Proofs.Expression.WrittenArgument

/-!
# Integer literals

The grammar of integer literals (`IntegerLiteral`): the mark of the base, digits with
underscores between them, and an ending for the type.  The value that is read off a literal is
the number that its digits spell, as long as this is less than `2 ^ 127`
(`IntegerLiteral.integer?_chars`).

Signs, parentheses and casts around a literal (`IntegerLiteral.IsWritten`) leave its absolute
value as it is, so the bound is kept by every step from an expression to one around it.  No
integer that is read off an expression reaches `2 ^ 127` in either direction
(`Constant.natAbs_lt`), and the negation of a word of 128 bits, which leaves out only `-2 ^ 127`,
is exact on all of them.
-/

namespace TestLint

/-! ## How integers are written -/

/-- How the digits of an integer are read. -/
inductive Radix where
  | decimal
  | hexadecimal
  | binary

namespace Radix

def base : Radix → Nat
  | decimal => 10
  | hexadecimal => 16
  | binary => 2

/-- What can stand before the digits. -/
def marks : Radix → List (List Char)
  | decimal => [[]]
  | hexadecimal => [['0', 'x'], ['0', 'X']]
  | binary => [['0', 'b'], ['0', 'B']]

/-- What stands before the digits, in lower case. -/
def lowerMark : Radix → List Char
  | decimal => []
  | hexadecimal => ['0', 'x']
  | binary => ['0', 'b']

end Radix

/-- A digit with the underscores that stand before it. -/
structure WrittenDigit (base : Nat) where
  underscores : Nat
  value : Fin base
  /-- A letter is written in upper case. -/
  isUpper : Bool

namespace WrittenDigit

variable {base : Nat}

def char (d : WrittenDigit base) : Char :=
  if d.isUpper then (Nat.digitChar d.value).toUpper else Nat.digitChar d.value

def chars (d : WrittenDigit base) : List Char :=
  List.replicate d.underscores '_' ++ [d.char]

end WrittenDigit

/-- What can be written behind the digits: whether the type is unsigned and whether it is long, in
either order. -/
def integerEndings : List String :=
  ["", "u", "U", "l", "L", "ul", "uL", "Ul", "UL", "lu", "lU", "Lu", "LU"]

/-- An integer literal as it is written. -/
structure IntegerLiteral where
  radix : Radix
  mark : List Char
  digits : List (WrittenDigit radix.base)
  ending : String
  mark_mem : mark ∈ radix.marks
  digits_ne_nil : digits ≠ []
  /-- Underscores stand between digits, or between the mark and the digits. -/
  bare : radix = .decimal → ∀ d ∈ digits.head?, d.underscores = 0
  ending_mem : ending ∈ integerEndings

namespace IntegerLiteral

/-- The number that the digits spell. -/
def value (l : IntegerLiteral) : Nat :=
  Nat.ofDigits l.radix.base (l.digits.map (·.value.val)).reverse

def chars (l : IntegerLiteral) : List Char :=
  l.mark ++ l.digits.flatMap (·.chars) ++ l.ending.toList

end IntegerLiteral

/-! ## Reading a literal -/

namespace WrittenDigit

open Literal

variable {r : Radix} (d : WrittenDigit r.base)

theorem char_ne_underscore : d.char ≠ '_' := by
  have hdigit : ∀ (value : Fin r.base) (isUpper : Bool),
      (if isUpper then (Nat.digitChar value).toUpper else Nat.digitChar value) ≠ '_' := by
    cases r <;> decide
  exact hdigit d.value d.isUpper

theorem toLower_char : d.char.toLower = Nat.digitChar d.value := by
  have hdigit : ∀ (value : Fin r.base) (isUpper : Bool),
      (if isUpper then (Nat.digitChar value).toUpper else Nat.digitChar value).toLower =
        Nat.digitChar value := by
    cases r <;> decide
  exact hdigit d.value d.isUpper

theorem digitValue?_digitChar : digitValue? r.base (Nat.digitChar d.value) = some d.value.val := by
  have hdigit : ∀ value : Fin r.base,
      digitValue? r.base (Nat.digitChar value) = some value.val := by
    cases r <;> decide
  exact hdigit d.value

/-- No digit can be taken for the mark of a base or for a part of an ending. -/
theorem digitChar_notMem : Nat.digitChar d.value ∉ ['x', 'u', 'l'] ∧
    (r = .decimal → Nat.digitChar d.value ≠ 'b') := by
  have hdigit : ∀ value : Fin r.base, Nat.digitChar value ∉ ['x', 'u', 'l'] ∧
      (r = .decimal → Nat.digitChar value ≠ 'b') := by
    cases r <;> simp only [reduceCtorEq, false_implies, true_implies] <;> decide
  exact hdigit d.value

theorem normalized_chars : normalized d.chars = [Nat.digitChar d.value] := by
  have hunderscores : (List.replicate d.underscores '_').filter (· != '_') = [] :=
    List.filter_eq_nil_iff.2 fun c hc => by rw [List.eq_of_mem_replicate hc]; decide
  have hkept : [d.char].filter (· != '_') = [d.char] :=
    List.filter_cons_of_pos (bne_iff_ne.2 d.char_ne_underscore)
  rw [normalized, chars, List.filter_append, hunderscores, hkept, List.nil_append,
    List.map_singleton, d.toLower_char]

end WrittenDigit

namespace Literal

theorem normalized_append (cs cs' : List Char) :
    normalized (cs ++ cs') = normalized cs ++ normalized cs' := by
  rw [normalized, List.filter_append, List.map_append]
  rfl

/-- The number that digits spell in the base that their mark tells. -/
def marked? : List Char → Option Nat
  | '0' :: 'x' :: hex => natural? 16 hex
  | '0' :: 'b' :: binary => natural? 2 binary
  | decimal => natural? 10 decimal

theorem integer?_eq (text : List Char) : integer? text =
    (marked? (Text.dropEndWhile (fun c => c == 'u' || c == 'l') (normalized text))).bind fun n =>
      if n < integerBound then some (n : Int) else none := by
  rw [integer?]
  generalize Text.dropEndWhile _ (normalized text) = digits
  dsimp only
  split
  case h_1 => rfl
  case h_2 => rfl
  case h_3 hhexadecimal hbinary =>
    rw [marked?]
    · rfl
    · exact hhexadecimal
    · exact hbinary

variable {r : Radix}

theorem normalized_digits (ds : List (WrittenDigit r.base)) :
    normalized (ds.flatMap (·.chars)) = ds.map fun d => Nat.digitChar d.value := by
  induction ds with
  | nil => rfl
  | cons d rest ih =>
    rw [List.flatMap_cons, normalized_append, d.normalized_chars, ih, List.map_cons,
      List.singleton_append]

theorem foldlM_digits (ds : List (WrittenDigit r.base)) (n : Nat) :
    (ds.map fun d => Nat.digitChar d.value).foldlM
        (fun n c => (digitValue? r.base c).map (r.base * n + ·)) n =
      some ((ds.map (·.value.val)).foldl (fun n digit => r.base * n + digit) n) := by
  induction ds generalizing n with
  | nil => rfl
  | cons d rest ih =>
    rw [List.map_cons, List.foldlM_cons, d.digitValue?_digitChar, Option.map_some,
      Option.bind_eq_bind, Option.bind_some, ih, List.map_cons, List.foldl_cons]

/-- Digits from the first to the last spell what they spell from the last to the first. -/
theorem foldl_eq_ofDigits (base : Nat) (digits : List Nat) :
    digits.foldl (fun n digit => base * n + digit) 0 = Nat.ofDigits base digits.reverse := by
  rw [Nat.ofDigits_eq_foldr, List.foldr_reverse]
  simp only [Nat.cast_id, Nat.add_comm]

theorem natural?_digits {ds : List (WrittenDigit r.base)} (hne : ds ≠ []) :
    natural? r.base (ds.map fun d => Nat.digitChar d.value) =
      some (Nat.ofDigits r.base (ds.map (·.value.val)).reverse) := by
  rw [natural?, if_neg (by simpa using hne), foldlM_digits, foldl_eq_ofDigits]

end Literal

namespace IntegerLiteral

open Literal

variable (l : IntegerLiteral)

theorem normalized_mark : normalized l.mark = l.radix.lowerMark := by
  have hmark := l.mark_mem
  cases hradix : l.radix <;> rw [hradix] at hmark
  case decimal =>
    rw [List.mem_singleton.1 hmark]
    rfl
  all_goals
    simp only [Radix.marks, List.mem_cons, List.not_mem_nil, or_false] at hmark
    rcases hmark with hmark | hmark <;> rw [hmark] <;> decide

theorem ending_dropped : ∀ c ∈ normalized l.ending.toList, (c == 'u' || c == 'l') = true := by
  have hall : (integerEndings.all fun ending =>
      (normalized ending.toList).all fun c => c == 'u' || c == 'l') = true := rfl
  exact List.all_eq_true.1 (List.all_eq_true.1 hall l.ending l.ending_mem)

/-- The letters of the ending do not occur among the digits. -/
theorem dropEndWhile_normalized :
    Text.dropEndWhile (fun c => c == 'u' || c == 'l') (normalized l.chars) =
      l.radix.lowerMark ++ l.digits.map fun d => Nat.digitChar d.value := by
  have hne : l.digits.map (fun d => Nat.digitChar d.value) ≠ [] := by
    simpa using l.digits_ne_nil
  have hlast : ∀ c ∈ (l.radix.lowerMark ++
      l.digits.map fun d => Nat.digitChar d.value).getLast?, (c == 'u' || c == 'l') = false := by
    intro c hc
    rw [List.getLast?_append_of_ne_nil _ hne] at hc
    obtain ⟨d, -, rfl⟩ := List.mem_map.1 (List.mem_of_getLast? hc)
    have hdigit := d.digitChar_notMem.1
    simp only [List.mem_cons, List.not_mem_nil, or_false, not_or] at hdigit
    rw [Bool.or_eq_false_iff, beq_eq_false_iff_ne, beq_eq_false_iff_ne]
    exact hdigit.2
  rw [chars, normalized_append, normalized_append, normalized_mark, normalized_digits,
    Text.dropEndWhile_append (List.append_ne_nil_of_right_ne_nil _ hne) hlast,
    Text.dropEndWhile_eq_nil_iff.2 l.ending_dropped, List.append_nil]

/-- What stands before the digits tells their base, although letters count as digits. -/
theorem marked?_digits :
    marked? (l.radix.lowerMark ++ l.digits.map fun d => Nat.digitChar d.value) =
      some l.value := by
  obtain ⟨radix, mark, digits, ending, mark_mem, digits_ne_nil, bare, ending_mem⟩ := l
  cases radix with
  | decimal =>
    have hletters : ∀ c ∈ digits.map (fun d => Nat.digitChar d.value), c ≠ 'x' ∧ c ≠ 'b' := by
      intro c hc
      obtain ⟨d, -, rfl⟩ := List.mem_map.1 hc
      obtain ⟨hmarks, hb⟩ := d.digitChar_notMem
      exact ⟨fun hx => hmarks (hx ▸ List.mem_cons_self), hb rfl⟩
    have hnatural : natural? 10 (digits.map fun d => Nat.digitChar d.value) =
        some (Nat.ofDigits 10 (digits.map (·.value.val)).reverse) := natural?_digits digits_ne_nil
    change marked? (digits.map fun d => Nat.digitChar d.value) = _
    unfold marked?
    split
    case h_1 heq => exact absurd rfl (hletters 'x' (by simp [heq])).1
    case h_2 heq => exact absurd rfl (hletters 'b' (by simp [heq])).2
    case h_3 => exact hnatural
  | hexadecimal => exact natural?_digits digits_ne_nil
  | binary => exact natural?_digits digits_ne_nil

/-- The value of a literal is the number that its digits spell, if this is in range. -/
theorem integer?_chars :
    integer? l.chars = if l.value < integerBound then some (l.value : Int) else none := by
  rw [integer?_eq, l.dropEndWhile_normalized, l.marked?_digits, Option.bind_some]

/-! ## Literals with signs, parentheses and casts around them -/

/-- The node writes the literal with signs, parentheses and casts around it; an odd number of
the signs are minuses if it is negated. -/
inductive IsWritten (source : List Char) : Tree → IntegerLiteral → Bool → Prop
  | literal {t : Tree} {l : IntegerLiteral} (hkind : t.kind = "integer_literal")
      (htext : (t.trimmedText source).toList = l.chars) : IsWritten source t l false
  | wrapped {t inner : Tree} {l : IntegerLiteral} {isNegated : Bool}
      (hkind : t.kind ∈ ["parenthesized_expression", "cast_expression", "checked_expression"])
      (hinner : t.codeChildren.getLast? = some inner) (h : IsWritten source inner l isNegated) :
      IsWritten source t l isNegated
  | signed {t operand : Tree} {l : IntegerLiteral} {isNegated isMinus : Bool}
      (hkind : t.kind = "prefix_unary_expression")
      (hsign : (t.trimmedText source).toList.head? = some (if isMinus then '-' else '+'))
      (hoperand : t.codeChildren.getLast? = some operand)
      (h : IsWritten source operand l isNegated) : IsWritten source t l (isMinus ^^ isNegated)

/-- The number that is written with the literal behind an even or odd number of minuses. -/
def number (l : IntegerLiteral) (isNegated : Bool) : Int :=
  if isNegated then -l.value else l.value

/-- What is read off the literal behind signs: its number, or that there is none. -/
def IsRead (l : IntegerLiteral) (isNegated : Bool) (c : Constant) : Prop :=
  if l.value < integerBound then
    c = .integer (l.number isNegated)
  else
    ∃ text, c = .nonConstant text

variable {source : List Char} {t : Tree} {l : IntegerLiteral} {isNegated isMinus : Bool}

theorem isRead_literal (hkind : t.kind = "integer_literal")
    (htext : (t.trimmedText source).toList = l.chars) :
    l.IsRead false (Constant.ofTree source t) := by
  have hliteral : t.kind ∈ WrittenLiteral.kinds := by rw [hkind]; decide
  have hbare (text : String) : WrittenLiteral.bareConstant "integer_literal" text =
      ((integer? text.toList).map Constant.integer).getD (.nonConstant text) := rfl
  rw [WrittenArgument.ofTree_literal hliteral, WrittenLiteral.ofLeaf_eq source hliteral, hkind,
    hbare, htext, integer?_chars, IsRead]
  split
  case isTrue => rw [Option.map_some, Option.getD_some, number, if_neg Bool.false_ne_true]
  case isFalse => exact ⟨_, rfl⟩

theorem IsRead.signed {c : Constant} (h : l.IsRead isNegated c) {text : String}
    (hsign : text.toList.head? = some (if isMinus then '-' else '+')) :
    l.IsRead (isMinus ^^ isNegated)
      ((Constant.signed? text c).getD (.nonConstant text)) := by
  obtain ⟨rest, htext⟩ : ∃ rest, text.toList = (if isMinus then '-' else '+') :: rest :=
    ⟨_, List.eq_cons_of_mem_head? hsign⟩
  unfold Constant.signed? Text.startsWith
  rw [htext]
  rw [IsRead] at h ⊢
  split at h
  case isTrue hbound =>
    subst h
    rw [if_pos hbound]
    cases isMinus <;> cases isNegated <;> simp [number]
  case isFalse hbound =>
    obtain ⟨text, rfl⟩ := h
    rw [if_neg hbound]
    cases isMinus <;> simp

/-- The absolute value of what is read is the number of the literal, whatever stands around
it. -/
theorem IsWritten.isRead (h : IsWritten source t l isNegated) :
    l.IsRead isNegated (Constant.ofTree source t) := by
  induction h with
  | literal hkind htext => exact isRead_literal hkind htext
  | wrapped hkind hinner _ ih =>
    rw [WrittenArgument.ofTree_wrapped hkind, hinner, Option.map_some, Option.getD_some]
    exact ih
  | signed hkind hsign hoperand _ ih =>
    rw [WrittenArgument.ofTree_signed hkind, hoperand, Option.map_some, Option.bind_some]
    exact ih.signed hsign

end IntegerLiteral

/-! ## The bound -/

namespace Literal

theorem natAbs_lt_of_integer? {text : List Char} {i : Int} (h : integer? text = some i) :
    i.natAbs < integerBound := by
  rw [integer?_eq, Option.bind_eq_some_iff] at h
  obtain ⟨n, -, hn⟩ := h
  split at hn
  case isTrue hbound =>
    cases hn
    exact hbound
  case isFalse => cases hn

end Literal

namespace Constant

/-- The constant is no integer whose absolute value reaches the bound of literals. -/
def InRange : Constant → Prop
  | integer i => i.natAbs < Literal.integerBound
  | _ => True

theorem exists_of_nameOf? {source : List Char} {t : Tree} {c : Constant}
    (h : nameOf? source t = some c) : ∃ name, c = .nameOf name := by
  simp only [nameOf?, Option.bind_eq_bind, Option.bind_eq_some_iff] at h
  obtain ⟨function, -, h⟩ := h
  split at h
  case isTrue => cases h
  case isFalse =>
    obtain ⟨args, -, h⟩ := Option.bind_eq_some_iff.1 h
    obtain ⟨first, -, h⟩ := Option.bind_eq_some_iff.1 h
    cases h
    exact ⟨_, rfl⟩

theorem inRange_ofLeaf (source : List Char) (t : Tree) : (ofLeaf source t).InRange := by
  unfold ofLeaf
  dsimp only
  split
  case h_3 =>
    cases hinteger : Literal.integer? (t.trimmedText source).toList with
    | none => trivial
    | some i => exact Literal.natAbs_lt_of_integer? hinteger
  case h_4 => split <;> trivial
  case h_5 => cases Literal.character? (t.trimmedText source).toList <;> trivial
  case h_9 => split <;> trivial
  case h_11 =>
    cases hname : nameOf? source t with
    | none => trivial
    | some value =>
      obtain ⟨name, rfl⟩ := exists_of_nameOf? hname
      trivial
  case h_12 => split <;> trivial
  all_goals trivial

/-- A sign keeps the bound. -/
theorem InRange.signed {c c' : Constant} (h : c.InRange) {text : String}
    (hsigned : signed? text c = some c') : c'.InRange := by
  unfold signed? at hsigned
  split at hsigned
  case isTrue =>
    split at hsigned
    case h_1 i =>
      cases hsigned
      rw [InRange, Int.natAbs_neg]
      exact h
    case h_2 =>
      cases hsigned
      trivial
    case h_3 => cases hsigned
  case isFalse =>
    split at hsigned
    case isTrue =>
      cases hsigned
      exact h
    case isFalse => cases hsigned

/-- What is read off the last child of the code, if anything is, is in range as soon as all
children are. -/
theorem inRange_ofLast? {source : List Char} {children : List Tree}
    (h : ∀ c ∈ children, (ofTree source c).InRange) :
    ∀ value ∈ ofLast? source children, value.InRange := by
  intro value hvalue
  rw [ofLast?_eq] at hvalue
  obtain ⟨c, hc, rfl⟩ := Option.map_eq_some_iff.1 hvalue
  exact h c (List.mem_filter.1 (List.mem_of_getLast? hc)).1

theorem inRange_ofTree (source : List Char) (t : Tree) : (ofTree source t).InRange := by
  induction t using Tree.induction_on with
  | node info children ih =>
    have hlast := inRange_ofLast? ih
    rw [ofTree]
    dsimp only
    -- Apart from signs and literals, the value is that of a child, or no integer.
    split
    case h_4 =>
      cases hvalue : (ofLast? source children).bind
          (signed? ((Tree.node info children).trimmedText source)) with
      | none => trivial
      | some value =>
        obtain ⟨operand, hoperand, hsigned⟩ := Option.bind_eq_some_iff.1 hvalue
        exact (hlast operand hoperand).signed hsigned
    case h_8 => exact inRange_ofLeaf source (.node info children)
    case h_5 => trivial
    case h_6 => trivial
    case h_7 => trivial
    all_goals
      cases hvalue : ofLast? source children with
      | none => trivial
      | some value => exact hlast value hvalue

theorem natAbs_lt {source : List Char} {t : Tree} {i : Int} (h : ofTree source t = .integer i) :
    i.natAbs < 2 ^ 127 := by
  have hrange := inRange_ofTree source t
  rw [h] at hrange
  exact hrange

/-- The integer as a signed machine word. -/
def word (i : Int) : BitVec 128 :=
  BitVec.ofInt 128 i

theorem toInt_word {i : Int} (h : i.natAbs < 2 ^ 127) : (word i).toInt = i :=
  BitVec.toInt_ofInt_eq_self (by decide) (by omega) (by omega)

/-- Only the least word has no negation. -/
theorem negOverflow_word {i : Int} (h : i.natAbs < 2 ^ 127) : (word i).negOverflow = false := by
  rw [BitVec.negOverflow, toInt_word h, beq_eq_false_iff_ne]
  omega

/-- An integer literal has the value that its digits spell if this is less than `2 ^ 127`, and
otherwise none; signs, parentheses and casts around it only decide on the sign.  So no integer
that is read off an expression reaches `2 ^ 127` in either direction, and as a word of 128 bits
each of them can be negated. -/
theorem integers_exact (source : List Char) :
    (∀ l : IntegerLiteral, Literal.integer? l.chars =
      if l.value < 2 ^ 127 then some (l.value : Int) else none) ∧
    (∀ t (l : IntegerLiteral) isNegated, l.IsWritten source t isNegated →
      if l.value < 2 ^ 127 then
        ofTree source t = .integer (l.number isNegated)
      else
        ∃ text, ofTree source t = .nonConstant text) ∧
    ∀ t i, ofTree source t = .integer i →
      i.natAbs < 2 ^ 127 ∧ (word i).toInt = i ∧
        (word i).negOverflow = false ∧ (-word i).toInt = -i := by
  refine ⟨fun l => l.integer?_chars, fun t l isNegated h => h.isRead, fun t i h => ?_⟩
  have hbound := natAbs_lt h
  have hnegation := negOverflow_word hbound
  refine ⟨hbound, toInt_word hbound, hnegation, ?_⟩
  rw [BitVec.toInt_neg_of_not_negOverflow (by simp [hnegation]), toInt_word hbound]

/-- The literal `0xF_fuL`. -/
def hexadecimal255 : IntegerLiteral where
  radix := .hexadecimal
  mark := ['0', 'x']
  digits := [⟨0, ⟨15, by decide⟩, true⟩, ⟨1, ⟨15, by decide⟩, false⟩]
  ending := "uL"
  mark_mem := List.mem_cons_self
  digits_ne_nil := List.cons_ne_nil _ _
  bare := nofun
  ending_mem := by decide

/-- The tree of `-(0xF_fuL)`. -/
def negated255 : Tree :=
  .node ⟨"prefix_unary_expression", none, true, false, 0, 10⟩
    [.node ⟨"-", none, false, false, 0, 1⟩ [],
     .node ⟨"parenthesized_expression", none, true, false, 1, 10⟩
      [.node ⟨"(", none, false, false, 1, 2⟩ [],
       .node ⟨"integer_literal", none, true, false, 2, 9⟩ [],
       .node ⟨")", none, false, false, 9, 10⟩ []]]

theorem integers_exact_negated255 :
    hexadecimal255.value = 255 ∧
      hexadecimal255.IsWritten "-(0xF_fuL)".toList negated255 true ∧
      ofTree "-(0xF_fuL)".toList negated255 = .integer (-255) ∧
      (-word (-255)).toInt = 255 := by
  have hvalue : hexadecimal255.value = 255 := by decide
  have hwritten : hexadecimal255.IsWritten "-(0xF_fuL)".toList negated255 (true ^^ false) :=
    .signed rfl (by decide +kernel) rfl
      (.wrapped (by decide) rfl (.literal rfl (by decide +kernel)))
  obtain ⟨-, hread, hword⟩ := integers_exact "-(0xF_fuL)".toList
  have hinteger : ofTree "-(0xF_fuL)".toList negated255 = .integer (-255) := by
    have hread := hread negated255 hexadecimal255 true hwritten
    rwa [if_pos (by rw [hvalue]; decide), IntegerLiteral.number, hvalue] at hread
  exact ⟨hvalue, hwritten, hinteger, (hword _ _ hinteger).2.2.2⟩

end Constant

end TestLint
