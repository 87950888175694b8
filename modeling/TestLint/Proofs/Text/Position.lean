import TestLint.Proofs.Text.Boundary
import TestLint.Text.Position

/-!
# Positions and offsets

What a line and a column mean, said without a search: the rows before the line
are a beginning of the text that holds so many newlines and ends with one
(`Position.Locates`).  The positions that locate an offset and the boundaries
of a text belong to each other one by one: `Position.ofOffset` gives the
position of a boundary (`locates_iff`).
-/

namespace TestLint.Position

open Text

/-! ## Rows -/

/-- The text is made of whole rows: it is empty or ends with a newline. -/
def WholeRows (cs : List Char) : Prop :=
  ∀ c ∈ cs.getLast?, c = '\n'

theorem wholeRows_nil : WholeRows [] := by
  intro c hc
  cases hc

theorem WholeRows.tail {c : Char} {cs : List Char} (h : WholeRows (c :: cs)) : WholeRows cs := by
  intro d hd
  apply h
  rw [List.getLast?_cons, Option.mem_def.1 hd]
  rfl

theorem WholeRows.cons {c : Char} {cs : List Char} (h : WholeRows cs) (hc : cs = [] → c = '\n') :
    WholeRows (c :: cs) := by
  cases cs with
  | nil =>
    intro d hd
    rw [List.getLast?_singleton, Option.mem_some_iff] at hd
    rw [← hd]
    exact hc rfl
  | cons e cs =>
    intro d hd
    rw [List.getLast?_cons_cons] at hd
    exact h d hd

/-- Whole rows without a newline are none. -/
theorem WholeRows.eq_nil {cs : List Char} (h : WholeRows cs) (hcount : cs.count '\n' = 0) :
    cs = [] := by
  cases hlast : cs.getLast? with
  | none => exact List.getLast?_eq_none_iff.1 hlast
  | some c =>
    have hmem : c ∈ cs := List.mem_of_getLast? hlast
    rw [h c hlast] at hmem
    exact absurd hmem (List.count_eq_zero.1 hcount)

/-- A text is whole rows and the beginning of one more. -/
theorem exists_rows (cs : List Char) :
    ∃ rows line, rows ++ line = cs ∧ WholeRows rows ∧ '\n' ∉ line := by
  induction cs with
  | nil => exact ⟨[], [], rfl, wholeRows_nil, List.not_mem_nil⟩
  | cons c cs ih =>
    obtain ⟨rows, line, rfl, hrows, hline⟩ := ih
    by_cases hc : rows = [] ∧ c ≠ '\n'
    · obtain ⟨rfl, hc⟩ := hc
      refine ⟨[], c :: line, rfl, wholeRows_nil, ?_⟩
      rw [List.mem_cons]
      rintro (h | h)
      · exact hc h.symm
      · exact hline h
    · refine ⟨c :: rows, line, rfl, hrows.cons ?_, hline⟩
      intro hnil
      by_cases h : c = '\n'
      · exact h
      · exact absurd ⟨hnil, h⟩ hc

theorem rowStart?_eq_some_iff {row start : Nat} {cs : List Char} :
    rowStart? row cs = some start ↔
      ∃ rows rest, rows ++ rest = cs ∧ WholeRows rows ∧ rows.count '\n' = row ∧
        byteSize rows = start := by
  induction cs generalizing row start with
  | nil =>
    constructor
    · intro h
      cases row with
      | zero =>
        cases h
        exact ⟨[], [], rfl, wholeRows_nil, rfl, rfl⟩
      | succ row => cases h
    · rintro ⟨rows, rest, happ, -, rfl, rfl⟩
      obtain ⟨rfl, rfl⟩ := List.append_eq_nil_iff.1 happ
      rfl
  | cons c cs ih =>
    cases row with
    | zero =>
      constructor
      · intro h
        cases h
        exact ⟨[], c :: cs, rfl, wholeRows_nil, rfl, rfl⟩
      · rintro ⟨rows, rest, -, hrows, hcount, rfl⟩
        rw [hrows.eq_nil hcount]
        rfl
    | succ row =>
      rw [rowStart?, Option.map_eq_some_iff]
      constructor
      · rintro ⟨n, hn, rfl⟩
        obtain ⟨rows, rest, rfl, hrows, hcount, rfl⟩ := ih.1 hn
        refine ⟨c :: rows, rest, rfl, hrows.cons ?_, ?_, rfl⟩
        · rintro rfl
          by_cases hc : c = '\n'
          · exact hc
          · rw [if_neg hc] at hcount
            cases hcount
        · rw [List.count_cons, hcount]
          by_cases hc : c = '\n' <;> simp [hc]
      · rintro ⟨rows, rest, happ, hrows, hcount, rfl⟩
        cases rows with
        | nil => cases hcount
        | cons d rows =>
          obtain ⟨rfl, rfl⟩ : d = c ∧ rows ++ rest = cs := by simpa using happ
          refine ⟨byteSize rows, ih.2 ⟨rows, rest, rfl, hrows.tail, ?_, rfl⟩, rfl⟩
          rw [List.count_cons] at hcount
          by_cases hc : d = '\n' <;> simp_all

/-- What stands before a row is said by the text alone. -/
theorem wholeRows_unique {rows rest rows' rest' : List Char}
    (h : rows ++ rest = rows' ++ rest') (hrows : WholeRows rows) (hrows' : WholeRows rows')
    (hcount : rows.count '\n' = rows'.count '\n') : rows = rows' ∧ rest = rest' := by
  have hstart := rowStart?_eq_some_iff.2 ⟨rows, rest, rfl, hrows, rfl, rfl⟩
  rw [rowStart?_eq_some_iff.2 ⟨rows', rest', h.symm, hrows', hcount.symm, rfl⟩] at hstart
  exact append_inj_of_byteSize_eq h (Option.some.inj hstart).symm

theorem rowLength_append {line : List Char} (rest : List Char) (h : '\n' ∉ line) :
    rowLength (line ++ rest) = byteSize line + rowLength rest := by
  unfold rowLength
  rw [List.takeWhile_append_of_pos, byteSize_append]
  intro c hc
  rw [bne_iff_ne]
  rintro rfl
  exact h hc

/-- What lies inside a row holds no newline. -/
theorem not_mem_of_le_rowLength {line rest : List Char}
    (h : byteSize line ≤ rowLength (line ++ rest)) : '\n' ∉ line := by
  induction line with
  | nil => exact List.not_mem_nil
  | cons c line ih =>
    have hc : 0 < c.utf8Size := c.utf8Size_pos
    rw [List.cons_append, rowLength, byteSize_cons] at h
    by_cases hnewline : c = '\n'
    · rw [List.takeWhile_cons_of_neg (by simp [hnewline]), byteSize_nil] at h
      omega
    · rw [List.takeWhile_cons_of_pos (by simp [hnewline]), byteSize_cons] at h
      rw [List.mem_cons, not_or]
      exact ⟨Ne.symm hnewline, ih (Nat.le_of_add_le_add_left h)⟩

/-! ## The position of an offset -/

/-- The position after one more character. -/
def step (p : Position) (c : Char) : Position :=
  if c = '\n' then ⟨p.line + 1, 1⟩ else ⟨p.line, p.column + c.utf8Size⟩

theorem advance_byteSize (p : Position) (before after : List Char) :
    advance p (byteSize before) (before ++ after) = before.foldl step p := by
  induction before generalizing p with
  | nil => rw [List.nil_append, byteSize_nil, advance, List.foldl_nil]
  | cons c before ih =>
    have hc : 0 < c.utf8Size := c.utf8Size_pos
    obtain ⟨n, hn⟩ : ∃ n, byteSize (c :: before) = n + 1 :=
      ⟨c.utf8Size + byteSize before - 1, by rw [byteSize_cons]; omega⟩
    rw [hn, List.cons_append, advance, List.foldl_cons]
    rw [byteSize_cons] at hn
    by_cases hnl : c = '\n'
    · have hone : c.utf8Size = 1 := by rw [hnl]; rfl
      have hrest : n = byteSize before := by omega
      rw [if_pos hnl, hrest, ih, step, if_pos hnl]
    · have hrest : n + 1 - c.utf8Size = byteSize before := by omega
      rw [if_neg hnl, if_pos (by omega), hrest, ih, step, if_neg hnl]

theorem ofOffset_byteSize (before after : List Char) :
    ofOffset (byteSize before) (before ++ after) = before.foldl step ⟨1, 1⟩ :=
  advance_byteSize ⟨1, 1⟩ before after

theorem line_foldl_step (p : Position) (cs : List Char) :
    (cs.foldl step p).line = p.line + cs.count '\n' := by
  induction cs generalizing p with
  | nil => rfl
  | cons c cs ih =>
    rw [List.foldl_cons, ih, step, List.count_cons]
    by_cases hc : c = '\n'
    · simp only [hc, if_true, beq_self_eq_true]
      omega
    · simp only [if_neg hc, beq_iff_eq]
      omega

/-- On one line only the column moves. -/
theorem foldl_step_line (p : Position) {line : List Char} (h : '\n' ∉ line) :
    line.foldl step p = ⟨p.line, p.column + byteSize line⟩ := by
  induction line generalizing p with
  | nil => rfl
  | cons c line ih =>
    obtain ⟨hc, hline⟩ : '\n' ≠ c ∧ '\n' ∉ line := by simpa using h
    rw [List.foldl_cons, step, if_neg (Ne.symm hc), ih _ hline, byteSize_cons]
    simp only [Nat.add_assoc]

/-- Whole rows lead to the first column of a later line. -/
theorem foldl_step_rows {rows : List Char} (h : WholeRows rows) (p : Position)
    (hp : rows = [] → p.column = 1) :
    rows.foldl step p = ⟨p.line + rows.count '\n', 1⟩ := by
  induction rows generalizing p with
  | nil =>
    obtain ⟨line, column⟩ := p
    rw [show column = 1 from hp rfl]
    rfl
  | cons c rows ih =>
    rw [List.foldl_cons, ih h.tail, List.count_cons, step]
    · by_cases hc : c = '\n'
      · simp only [hc, if_true, beq_self_eq_true, mk.injEq, and_true]
        omega
      · simp only [if_neg hc, beq_iff_eq, mk.injEq, and_true]
        omega
    · rintro rfl
      rw [step, if_pos (h c (by rw [List.getLast?_singleton]; rfl))]

theorem ofOffset_rows {rows line : List Char} (rest : List Char) (hrows : WholeRows rows)
    (hline : '\n' ∉ line) :
    ofOffset (byteSize (rows ++ line)) (rows ++ line ++ rest) =
      ⟨rows.count '\n' + 1, byteSize line + 1⟩ := by
  rw [ofOffset_byteSize, List.foldl_append, foldl_step_rows hrows ⟨1, 1⟩ (fun _ => rfl),
    foldl_step_line _ hline]
  simp only [mk.injEq]
  omega

/-! ## Positions and boundaries -/

section

variable {p : Position} {cs : List Char} {offset : Nat}

/-- The rows before the position's line are whole, and the offset, a boundary, is as far from
their end as the column says, at most as far as the line's newline. -/
def Locates (p : Position) (cs : List Char) (offset : Nat) : Prop :=
  0 < p.line ∧ 0 < p.column ∧
    ∃ rows rest, rows ++ rest = cs ∧ WholeRows rows ∧ rows.count '\n' = p.line - 1 ∧
      offset = byteSize rows + (p.column - 1) ∧
      offset ≤ byteSize rows + rowLength rest ∧ isBoundary offset cs = true

/-- Lines and columns are another way to count the boundaries of a text. -/
theorem locates_iff :
    p.Locates cs offset ↔ isBoundary offset cs = true ∧ ofOffset offset cs = p := by
  constructor
  · rintro ⟨hline, hcolumn, rows, rest, hparts, hrows, hcount, hoffset, hle, hboundary⟩
    refine ⟨hboundary, ?_⟩
    obtain ⟨before, after, rfl, rfl⟩ := isBoundary_iff.1 hboundary
    obtain ⟨line, rfl⟩ := exists_append_of_byteSize_le hparts (by omega)
    obtain rfl : rest = line ++ after := by
      rw [List.append_assoc] at hparts
      exact List.append_cancel_left hparts
    rw [byteSize_append] at hoffset hle
    have hnewline := not_mem_of_le_rowLength (Nat.le_of_add_le_add_left hle)
    rw [ofOffset_rows after hrows hnewline]
    obtain ⟨l, column⟩ := p
    simp only [mk.injEq]
    dsimp only at hline hcolumn hcount hoffset
    omega
  · rintro ⟨hboundary, rfl⟩
    obtain ⟨before, rest, rfl, rfl⟩ := isBoundary_iff.1 hboundary
    obtain ⟨rows, line, rfl, hrows, hline⟩ := exists_rows before
    rw [ofOffset_rows rest hrows hline]
    refine ⟨Nat.succ_pos _, Nat.succ_pos _, rows, line ++ rest, ?_, hrows, rfl, ?_, ?_, hboundary⟩
    · rw [List.append_assoc]
    · rw [byteSize_append]
      rfl
    · rw [rowLength_append rest hline, byteSize_append]
      omega

/-- What comes after the offset does not matter. -/
theorem Locates.congr {before after after' : List Char} (h : p.Locates (before ++ after) offset)
    (hle : offset ≤ byteSize before) : p.Locates (before ++ after') offset := by
  obtain ⟨hboundary, rfl⟩ := locates_iff.1 h
  obtain ⟨start, rest, hparts, rfl⟩ := isBoundary_iff.1 hboundary
  obtain ⟨kept, rfl⟩ := exists_append_of_byteSize_le hparts hle
  rw [List.append_assoc, List.append_assoc]
  refine locates_iff.2 ⟨isBoundary_byteSize _ _, ?_⟩
  rw [ofOffset_byteSize, ofOffset_byteSize]

theorem Locates.isBoundary (h : p.Locates cs offset) : isBoundary offset cs = true :=
  (locates_iff.1 h).1

/-- A position locates one offset at most. -/
theorem Locates.unique {offset' : Nat} (h : p.Locates cs offset) (h' : p.Locates cs offset') :
    offset = offset' := by
  obtain ⟨-, -, rows, rest, hparts, hrows, hcount, rfl, -, -⟩ := h
  obtain ⟨-, -, rows', rest', hparts', hrows', hcount', rfl, -, -⟩ := h'
  rw [(wholeRows_unique (hparts.trans hparts'.symm) hrows hrows' (hcount.trans hcount'.symm)).1]

end

/-! ## Two boundaries -/

/-- Two boundaries on one line have no newline between them. -/
theorem not_mem_of_line_eq {a b c : List Char}
    (h : (ofOffset (byteSize (a ++ b)) (a ++ b ++ c)).line =
      (ofOffset (byteSize a) (a ++ b ++ c)).line) : '\n' ∉ b := by
  rw [ofOffset_byteSize, List.append_assoc, ofOffset_byteSize, List.foldl_append,
    line_foldl_step] at h
  exact List.count_eq_zero.1 (by omega)

/-- On one line the column grows by the bytes in between. -/
theorem ofOffset_append {a b : List Char} (c : List Char) (h : '\n' ∉ b) :
    ofOffset (byteSize (a ++ b)) (a ++ b ++ c) =
      ⟨(ofOffset (byteSize a) (a ++ b ++ c)).line,
        (ofOffset (byteSize a) (a ++ b ++ c)).column + byteSize b⟩ := by
  rw [ofOffset_byteSize, List.append_assoc, ofOffset_byteSize, List.foldl_append,
    foldl_step_line _ h]

end TestLint.Position
