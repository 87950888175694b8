import TestLint.Edit
import TestLint.Proofs.Text.Position

/-!
# Offsets of positions

`Position.offset?` finds the offset that a position locates and refuses what locates none
(`Position.offset?_spec`).  The sum of line start and column is the one place where it comes to
no answer: it stops where that is more than a machine word holds (`Position.Overflows`), although
no such column is in any line.
-/

namespace TestLint

open Text

namespace Position

variable {p : Position} {cs : List Char} {offset : Nat}

/-- The line is there, but its start and the column add up to more than a word holds. -/
def Overflows (p : Position) (cs : List Char) : Prop :=
  0 < p.line ∧ 0 < p.column ∧
    ∃ rows rest, rows ++ rest = cs ∧ WholeRows rows ∧ rows.count '\n' = p.line - 1 ∧
      wordSize ≤ byteSize rows + (p.column - 1)

/-- The line of the position is there; these are the rows before it, and what follows them. -/
structure InLine (p : Position) (cs rows rest : List Char) : Prop where
  line : 0 < p.line
  column : 0 < p.column
  parts : rows ++ rest = cs
  whole : WholeRows rows
  count : rows.count '\n' = p.line - 1

theorem Locates.exists_inLine (h : p.Locates cs offset) : ∃ rows rest, p.InLine cs rows rest := by
  obtain ⟨hline, hcolumn, rows, rest, hparts, hrows, hcount, -⟩ := h
  exact ⟨rows, rest, hline, hcolumn, hparts, hrows, hcount⟩

theorem Overflows.exists_inLine (h : p.Overflows cs) : ∃ rows rest, p.InLine cs rows rest := by
  obtain ⟨hline, hcolumn, rows, rest, hparts, hrows, hcount, -⟩ := h
  exact ⟨rows, rest, hline, hcolumn, hparts, hrows, hcount⟩

namespace InLine

variable {rows rest : List Char} (h : p.InLine cs rows rest)

include h

/-- In a line that is there, only the column counts. -/
theorem locates_iff : p.Locates cs offset ↔
    offset = byteSize rows + (p.column - 1) ∧
      offset ≤ byteSize rows + rowLength rest ∧ isBoundary offset cs = true := by
  refine ⟨?_, fun hfits => ⟨h.line, h.column, rows, rest, h.parts, h.whole, h.count, hfits⟩⟩
  rintro ⟨-, -, rows', rest', hparts', hrows', hcount', hfits⟩
  obtain ⟨rfl, rfl⟩ := wholeRows_unique (hparts'.trans h.parts.symm) hrows' h.whole
    (hcount'.trans h.count.symm)
  exact hfits

theorem overflows_iff : p.Overflows cs ↔ wordSize ≤ byteSize rows + (p.column - 1) := by
  refine ⟨?_, fun hlarge => ⟨h.line, h.column, rows, rest, h.parts, h.whole, h.count, hlarge⟩⟩
  rintro ⟨-, -, rows', rest', hparts', hrows', hcount', hlarge⟩
  obtain ⟨rfl, rfl⟩ := wholeRows_unique (hparts'.trans h.parts.symm) hrows' h.whole
    (hcount'.trans h.count.symm)
  exact hlarge

theorem offset?_eq : p.offset? cs =
    if wordSize ≤ byteSize rows + (p.column - 1) then .error .overflow
    else if byteSize rows + (p.column - 1) ≤ byteSize rows + rowLength rest ∧
        isBoundary (byteSize rows + (p.column - 1)) cs = true then
      .ok (byteSize rows + (p.column - 1))
    else .error (.refused (.outOfRange p.line p.column)) := by
  have hline := h.line
  have hcolumn := h.column
  have hstart : rowStart? (p.line - 1) cs = some (byteSize rows) :=
    rowStart?_eq_some_iff.2 ⟨rows, rest, h.parts, h.whole, h.count, rfl⟩
  have hrest : dropBytes (byteSize rows) cs = rest := by rw [← h.parts, dropBytes_byteSize]
  rw [offset?, if_neg (by omega), hstart]
  simp only [hrest]

end InLine

/-- Without the line every position is refused. -/
theorem offset?_of_not_inLine (h : ¬∃ rows rest, p.InLine cs rows rest) :
    p.offset? cs = .error (.refused (.outOfRange p.line p.column)) := by
  unfold offset?
  by_cases hzero : p.line = 0 ∨ p.column = 0
  · rw [if_pos hzero]
  · rw [if_neg hzero]
    cases hstart : rowStart? (p.line - 1) cs with
    | none => rfl
    | some start =>
      obtain ⟨rows, rest, hparts, hrows, hcount, -⟩ := rowStart?_eq_some_iff.1 hstart
      exact absurd ⟨rows, rest, by omega, by omega, hparts, hrows, hcount⟩ h

/-- What is located by a column that is too large is no offset that a word holds. -/
theorem Overflows.le (h : p.Overflows cs) (hlocates : p.Locates cs offset) :
    wordSize ≤ offset := by
  obtain ⟨rows, rest, hline⟩ := h.exists_inLine
  rw [(hline.locates_iff.1 hlocates).1]
  exact hline.overflows_iff.1 h

/-- In a text that a word can count, such a column is in no line. -/
theorem Overflows.not_locates (h : p.Overflows cs) (hsize : byteSize cs < wordSize) :
    ¬ p.Locates cs offset := by
  intro hlocates
  have hle := le_byteSize_of_isBoundary hlocates.isBoundary
  exact absurd (h.le hlocates) (by omega)

/-- All that `offset?` can do: stop at the sum, find what the position locates, or refuse it. -/
theorem offset?_cases (p : Position) (cs : List Char) :
    (p.Overflows cs ∧ p.offset? cs = .error .overflow) ∨
    (∃ offset, p.Locates cs offset ∧ offset < wordSize ∧ p.offset? cs = .ok offset) ∨
    ((∀ offset, ¬ p.Locates cs offset) ∧ ¬ p.Overflows cs ∧
      p.offset? cs = .error (.refused (.outOfRange p.line p.column))) := by
  by_cases hline : ∃ rows rest, p.InLine cs rows rest
  · obtain ⟨rows, rest, hline⟩ := hline
    rw [hline.overflows_iff, hline.offset?_eq]
    split
    case isTrue hlarge => exact .inl ⟨hlarge, rfl⟩
    case isFalse hsmall =>
      split
      case isTrue hfits =>
        exact .inr (.inl ⟨_, hline.locates_iff.2 ⟨rfl, hfits⟩, Nat.lt_of_not_le hsmall, rfl⟩)
      case isFalse hfits =>
        refine .inr (.inr ⟨fun offset h => ?_, hsmall, rfl⟩)
        obtain ⟨rfl, h⟩ := hline.locates_iff.1 h
        exact hfits h
  · exact .inr (.inr ⟨fun offset h => hline h.exists_inLine, fun h => hline h.exists_inLine,
      offset?_of_not_inLine hline⟩)

theorem offset?_eq_ok_iff :
    p.offset? cs = .ok offset ↔ p.Locates cs offset ∧ offset < wordSize := by
  rcases offset?_cases p cs with ⟨hlarge, heq⟩ | ⟨found, hfound, hword, heq⟩ | ⟨hnone, -, heq⟩
  · rw [heq]
    refine iff_of_false (by simp) fun ⟨hlocates, hword⟩ => ?_
    exact absurd (hlarge.le hlocates) (Nat.not_le_of_lt hword)
  · rw [heq, Except.ok.injEq]
    constructor
    · rintro rfl
      exact ⟨hfound, hword⟩
    · rintro ⟨hlocates, -⟩
      exact hfound.unique hlocates
  · rw [heq]
    exact iff_of_false (by simp) fun ⟨hlocates, _⟩ => hnone offset hlocates

theorem offset?_eq_overflow_iff : p.offset? cs = .error .overflow ↔ p.Overflows cs := by
  rcases offset?_cases p cs with ⟨hlarge, heq⟩ | ⟨found, hfound, hword, heq⟩ | ⟨-, hsmall, heq⟩
  · exact iff_of_true heq hlarge
  · rw [heq]
    exact iff_of_false (by simp) fun hlarge =>
      absurd (hlarge.le hfound) (Nat.not_le_of_lt hword)
  · rw [heq]
    exact iff_of_false (by simp) hsmall

/-- Whatever is refused is refused as out of range, with its line and column. -/
theorem offset?_eq_refused_iff {cause : EditError} :
    p.offset? cs = .error (.refused cause) ↔
      (∀ offset, ¬ p.Locates cs offset) ∧ ¬ p.Overflows cs ∧
        cause = .outOfRange p.line p.column := by
  rcases offset?_cases p cs with ⟨hlarge, heq⟩ | ⟨found, hfound, hword, heq⟩ | ⟨hnone, hsmall, heq⟩
  · rw [heq]
    exact iff_of_false (by simp) fun h => h.2.1 hlarge
  · rw [heq]
    exact iff_of_false (by simp) fun h => h.1 found hfound
  · rw [heq, Except.error.injEq, EditFailure.refused.injEq]
    exact ⟨fun h => ⟨hnone, hsmall, h.symm⟩, fun h => h.2.2.symm⟩

/-- Only a column that ends the word but for the size of the text can be too large. -/
theorem not_overflows (h : p.column + byteSize cs ≤ wordSize) : ¬ p.Overflows cs := by
  rintro ⟨-, hcolumn, rows, rest, rfl, -, -, hlarge⟩
  rw [byteSize_append] at h
  omega

/-- The position of a boundary leads back to it.  Any position leads to the offset that it
locates, if line start and column do not add up to more than a word holds, where the program
stops; a column that is not as large as that by the size of the text is never too large.  All
other positions are refused as out of range. -/
theorem offset?_spec (source : List Char) (hsize : byteSize source < wordSize) :
    (∀ offset, isBoundary offset source = true →
      (ofOffset offset source).offset? source = .ok offset) ∧
    ∀ p : Position,
      (∀ offset, p.offset? source = .ok offset ↔ p.Locates source offset) ∧
      (p.offset? source = .error .overflow ↔ p.Overflows source) ∧
      (p.column + byteSize source ≤ wordSize → ¬ p.Overflows source) ∧
      ((∀ offset, ¬ p.Locates source offset) → ¬ p.Overflows source →
        p.offset? source = .error (.refused (.outOfRange p.line p.column))) := by
  have hword {p : Position} {offset : Nat} (h : p.Locates source offset) : offset < wordSize :=
    Nat.lt_of_le_of_lt (le_byteSize_of_isBoundary h.isBoundary) hsize
  refine ⟨fun offset h => ?_, fun p => ⟨fun offset => ?_, offset?_eq_overflow_iff, not_overflows,
    fun hnone hsmall => ?_⟩⟩
  · have hlocates := locates_iff.2 ⟨h, rfl⟩
    exact offset?_eq_ok_iff.2 ⟨hlocates, hword hlocates⟩
  · rw [offset?_eq_ok_iff]
    exact and_iff_left_of_imp hword
  · exact offset?_eq_refused_iff.2 ⟨hnone, hsmall, rfl⟩

theorem offset?_spec_twoLines :
    byteSize "é\ncd".toList < wordSize ∧
      ofOffset 4 "é\ncd".toList = ⟨2, 2⟩ ∧
      (Position.mk 2 2).offset? "é\ncd".toList = .ok 4 ∧
      (Position.mk 2 2).Locates "é\ncd".toList 4 ∧
      (Position.mk 2 9).offset? "é\ncd".toList = .error (.refused (.outOfRange 2 9)) := by
  have hsize : byteSize "é\ncd".toList < wordSize := by decide
  obtain ⟨hback, hany⟩ := offset?_spec "é\ncd".toList hsize
  have hposition : ofOffset 4 "é\ncd".toList = ⟨2, 2⟩ := by decide
  have hfour := hposition ▸ hback 4 (by decide)
  obtain ⟨hlocates, -, hsmall, hrefused⟩ := hany ⟨2, 9⟩
  refine ⟨hsize, hposition, hfour, ((hany ⟨2, 2⟩).1 4).1 hfour, ?_⟩
  refine hrefused (fun offset h => ?_) (hsmall (by decide))
  have hok := (hlocates offset).2 h
  cases hok

theorem overflows_last_column : (Position.mk 2 (wordSize - 1)).Overflows "ab\ncd".toList := by
  refine ⟨by decide, by decide, "ab\n".toList, "cd".toList, rfl, ?_, rfl, by decide⟩
  rintro c hc
  cases hc
  rfl

/-- A column at the end of the word is in no line; it is not refused, but stops the program. -/
theorem last_column_stops :
    (∀ offset, ¬ (Position.mk 2 (wordSize - 1)).Locates "ab\ncd".toList offset) ∧
      (Position.mk 2 (wordSize - 1)).offset? "ab\ncd".toList = .error .overflow :=
  ⟨fun _ => overflows_last_column.not_locates (by decide),
    offset?_eq_overflow_iff.2 overflows_last_column⟩

end Position

end TestLint
