import TestLint.Json.Reader
import TestLint.Json.Writer

/-!
# Quoted texts and numbers

A quoted text is read back as it was, whatever characters it has
(`Json.readQuoted_quote`), and so is a natural number, as long as it is followed by
nothing that could belong to it (`Json.readNumber_repr`).
-/

namespace TestLint.Json

/-! ## Quoted texts -/

theorem hexValue?_hexDigit (n : Nat) : hexValue? (hexDigit n) = some (n % 16) := by
  have hall : ∀ d < 16, hexValue? (Nat.digitChar d) = some d := by decide
  exact hall (n % 16) (Nat.mod_lt n (by decide))

attribute [local simp] joinPieces readPieces

/-- The piece stands for the character, whatever follows. -/
def Piece.StandsFor (piece : Piece) (c : Char) : Prop :=
  ∀ pieces, joinPieces (piece :: pieces) = (joinPieces pieces).map (c :: ·)

theorem Piece.standsFor_char (c : Char) : (Piece.char c).StandsFor c := by
  intro pieces
  simp

/-- The code unit of a control is no half of a surrogate pair. -/
theorem Piece.standsFor_unit {c : Char} (hc : c.toNat < 0x20) :
    (Piece.unit c.toNat).StandsFor c := by
  intro pieces
  have hchar : Char.ofNat c.toNat = c := Char.ofNat_toNat c
  have hhigh : ¬(0xD800 ≤ c.toNat ∧ c.toNat < 0xDC00) := by omega
  have hlow : ¬(0xDC00 ≤ c.toNat ∧ c.toNat < 0xE000) := by omega
  have hhalf : ¬(0xD800 ≤ c.toNat ∧ c.toNat < 0xE000) := by omega
  cases pieces with
  | nil => simp [hhalf, hchar]
  | cons piece pieces =>
    cases piece with
    | char d => simp [hhalf, hchar]
    | unit n => rw [joinPieces, if_neg hhigh, if_neg hlow, hchar]

theorem readPieces_escaped {e c : Char} (h : escapeValue? e = some c) (rest : List Char) :
    readPieces ('\\' :: e :: rest) = (readPieces rest).map fun (pieces, after) =>
      (.char c :: pieces, after) := by
  have hne : e ≠ 'u' := by
    rintro rfl
    cases h
  rw [readPieces]
  · rw [h]
    cases readPieces rest <;> rfl
  · intro a b c d rest' he
    exact absurd he hne

theorem readPieces_control {c : Char} (rest : List Char) :
    readPieces ('\\' :: 'u' :: '0' :: '0' :: hexDigit (c.toNat / 16) :: hexDigit c.toNat :: rest) =
      (readPieces rest).map fun (pieces, after) => (.unit (c.toNat % 256) :: pieces, after) := by
  have hzero : hexValue? '0' = some 0 := by decide
  have hvalue : 0 * 4096 + 0 * 256 + c.toNat / 16 % 16 * 16 + c.toNat % 16 = c.toNat % 256 := by
    omega
  rw [readPieces, hzero, hexValue?_hexDigit, hexValue?_hexDigit]
  simp only [Option.bind_eq_bind, Option.bind_some, hvalue]
  cases readPieces rest <;> rfl

theorem readPieces_plain {c : Char} (hquote : c ≠ '"') (hbackslash : c ≠ '\\')
    (hc : ¬c.toNat < 0x20) (rest : List Char) :
    readPieces (c :: rest) = (readPieces rest).map fun (pieces, after) =>
      (.char c :: pieces, after) := by
  have hplain : ¬(c == '\\' || decide (c.toNat < 0x20)) = true := by simp [hbackslash, hc]
  rw [readPieces]
  · rw [if_neg hplain]
    cases readPieces rest <;> rfl
  · exact hquote
  · intro a b c d rest' h
    exact absurd h hbackslash
  · intro e rest' h
    exact absurd h hbackslash

/-- A written character is read as a piece that stands for it. -/
theorem exists_piece (c : Char) : ∃ piece : Piece, piece.StandsFor c ∧ ∀ rest,
    readPieces (escape c ++ rest) = (readPieces rest).map fun (pieces, after) =>
      (piece :: pieces, after) := by
  unfold escape
  split
  case h_8 hquote hbackslash _ _ _ _ _ =>
    by_cases hc : c.toNat < 0x20
    · have hsmall : c.toNat % 256 = c.toNat := by omega
      refine ⟨.unit c.toNat, Piece.standsFor_unit hc, fun rest => ?_⟩
      rw [if_pos hc]
      simp only [List.cons_append, List.nil_append]
      rw [readPieces_control, hsmall]
    · refine ⟨.char c, Piece.standsFor_char c, fun rest => ?_⟩
      rw [if_neg hc]
      exact readPieces_plain hquote hbackslash hc rest
  all_goals exact ⟨.char _, Piece.standsFor_char _, readPieces_escaped rfl⟩

/-- A text is read up to the quote that ends it. -/
theorem readQuoted_quote (s : String) (rest : List Char) :
    readQuoted (s.toList.flatMap escape ++ '"' :: rest) = some (some s, rest) := by
  have hpieces (cs : List Char) : ∃ pieces, joinPieces pieces = some cs ∧
      readPieces (cs.flatMap escape ++ '"' :: rest) = some (pieces, rest) := by
    induction cs with
    | nil => exact ⟨[], by simp, by simp⟩
    | cons c cs ih =>
      obtain ⟨pieces, hjoin, hread⟩ := ih
      obtain ⟨piece, hstands, hescape⟩ := exists_piece c
      refine ⟨piece :: pieces, ?_, ?_⟩
      · rw [hstands, hjoin, Option.map_some]
      · rw [List.flatMap_cons, List.append_assoc, hescape, hread, Option.map_some]
  obtain ⟨pieces, hjoin, hread⟩ := hpieces s.toList
  unfold readQuoted
  rw [hread]
  simp only [Option.bind_eq_bind, Option.bind_some, hjoin, Option.map_some, String.ofList_toList]

/-! ## Natural numbers -/

/-- What follows a number does not belong to it. -/
def EndsNumber (rest : List Char) : Prop :=
  ∀ c ∈ rest.head?, c.isDigit = false ∧ c ≠ '.' ∧ c ≠ 'e' ∧ c ≠ 'E'

theorem endsNumber_nil : EndsNumber [] := by
  intro c hc
  cases hc

theorem endsNumber_cons {c : Char} (h : c.isDigit = false ∧ c ≠ '.' ∧ c ≠ 'e' ∧ c ≠ 'E')
    (rest : List Char) : EndsNumber (c :: rest) := by
  intro d hd
  cases hd
  exact h

theorem isDigit_of_mem_repr {n : Nat} {c : Char} (h : c ∈ n.repr.toList) : c.isDigit = true := by
  rw [Nat.toList_repr] at h
  exact Nat.isDigit_of_mem_toDigits (by decide) (by decide) h

theorem exists_repr_eq_cons (n : Nat) : ∃ c cs, n.repr.toList = c :: cs ∧ c.isDigit = true := by
  cases hdigits : n.repr.toList with
  | nil =>
    rw [Nat.toList_repr] at hdigits
    exact absurd hdigits Nat.toDigits_ne_nil
  | cons c cs =>
    refine ⟨c, cs, rfl, isDigit_of_mem_repr (n := n) ?_⟩
    rw [hdigits]
    exact List.mem_cons_self

/-- No number but zero is written with a zero in front. -/
theorem eq_zero_of_head?_repr {n : Nat} (h : n.repr.toList.head? = some '0') : n = 0 := by
  rw [Nat.toList_repr] at h
  induction n using Nat.strongRecOn with
  | ind n ih =>
    by_cases hn : n < 10
    · rw [Nat.toDigits_of_lt_base hn, List.head?_cons, Option.some.injEq] at h
      have hall : ∀ d < 10, Nat.digitChar d = '0' → d = 0 := by decide
      exact hall n hn h
    · rw [Nat.toDigits_of_base_le (by decide) (Nat.le_of_not_lt hn), List.head?_append] at h
      cases hfront : (Nat.toDigits 10 (n / 10)).head? with
      | none => exact absurd (List.head?_eq_none_iff.1 hfront) Nat.toDigits_ne_nil
      | some c =>
        rw [hfront, Option.some_or] at h
        have hzero := ih (n / 10) (by omega) (hfront.trans h)
        omega

theorem readDigits_append {digits rest : List Char} (hne : digits ≠ [])
    (hdigits : ∀ c ∈ digits, c.isDigit = true) (hrest : EndsNumber rest) :
    readDigits (digits ++ rest) = some (digits, rest) := by
  have htake : rest.takeWhile Char.isDigit = [] := by
    cases rest with
    | nil => rfl
    | cons c rest => rw [List.takeWhile_cons, (hrest c rfl).1]; rfl
  have hdrop : rest.dropWhile Char.isDigit = rest := by
    cases rest with
    | nil => rfl
    | cons c rest => rw [List.dropWhile_cons, (hrest c rfl).1]; rfl
  unfold readDigits
  rw [List.takeWhile_append_of_pos hdigits, List.dropWhile_append_of_pos hdigits, htake, hdrop,
    List.append_nil]
  simp [hne]

theorem readFraction_of_endsNumber {rest : List Char} (h : EndsNumber rest) :
    readFraction rest = some ([], rest) := by
  unfold readFraction
  split
  · exact absurd rfl (h '.' rfl).2.1
  · rfl

theorem readExponent_of_endsNumber {rest : List Char} (h : EndsNumber rest) :
    readExponent rest = some ([], rest) := by
  cases rest with
  | nil => rfl
  | cons c rest =>
    obtain ⟨-, -, hsmall, hbig⟩ := h c rfl
    unfold readExponent
    simp [hsmall, hbig]

theorem readNumber_repr (n : Nat) {rest : List Char} (h : EndsNumber rest) :
    readNumber (n.repr.toList ++ rest) = some (ofNat n, rest) := by
  have hzero : ¬(n.repr.toList.length > 1 ∧ n.repr.toList.head? = some '0') := by
    rintro ⟨hlength, hhead⟩
    rw [eq_zero_of_head?_repr hhead] at hlength
    exact absurd hlength (by decide)
  obtain ⟨c, cs, hdigits, hc⟩ := exists_repr_eq_cons n
  have hne : n.repr.toList ≠ [] := by
    rw [hdigits]
    exact List.cons_ne_nil c cs
  have hread : readUnsigned (n.repr.toList ++ rest) = some (n.repr.toList, rest) := by
    unfold readUnsigned
    rw [readDigits_append hne (fun _ => isDigit_of_mem_repr) h]
    simp only [Option.bind_eq_bind, Option.bind_some, if_neg hzero, readFraction_of_endsNumber h,
      readExponent_of_endsNumber h, List.append_nil]
  have hsign : c ≠ '-' := by
    rintro rfl
    cases hc
  unfold readNumber
  split
  · rename_i cs' heq
    rw [hdigits, List.cons_append, List.cons.injEq] at heq
    exact absurd heq.1 hsign
  · rw [hread, Option.map_some]
    dsimp only
    rw [String.ofList_toList]
    rfl

end TestLint.Json
