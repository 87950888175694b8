import TestLint.Text.Bytes

/-!
# Boundaries of a text

An offset is a boundary of a text exactly when the text falls into two parts of
which the first takes that many bytes (`isBoundary_iff`).  At a boundary the
cuts `splitAt?`, `takeBytes`, `dropBytes` and `slice?` give back the parts, so
later proofs work with parts of the text and not with offsets.
-/

namespace TestLint.Text

@[simp] theorem byteSize_nil : byteSize [] = 0 := rfl

@[simp] theorem byteSize_cons (c : Char) (cs : List Char) :
    byteSize (c :: cs) = c.utf8Size + byteSize cs := rfl

theorem byteSize_eq_zero_iff {cs : List Char} : byteSize cs = 0 ↔ cs = [] := by
  cases cs with
  | nil => exact iff_of_true rfl rfl
  | cons c cs =>
    have hc : 0 < c.utf8Size := c.utf8Size_pos
    rw [byteSize_cons]
    exact iff_of_false (by omega) (List.cons_ne_nil c cs)

/-! ## Cuts at a boundary -/

@[simp] theorem splitAt?_byteSize (before after : List Char) :
    splitAt? (byteSize before) (before ++ after) = some (before, after) := by
  induction before with
  | nil => cases after <;> rfl
  | cons c before ih =>
    have hc : 0 < c.utf8Size := c.utf8Size_pos
    obtain ⟨n, hn⟩ : ∃ n, byteSize (c :: before) = n + 1 :=
      ⟨c.utf8Size + byteSize before - 1, by rw [byteSize_cons]; omega⟩
    rw [hn, List.cons_append, splitAt?]
    rw [byteSize_cons] at hn
    have hle : c.utf8Size ≤ n + 1 := by omega
    have hrest : n + 1 - c.utf8Size = byteSize before := by omega
    rw [if_pos hle, hrest, ih]
    rfl

theorem splitAt?_eq_some_iff {n : Nat} {cs before after : List Char} :
    splitAt? n cs = some (before, after) ↔ before ++ after = cs ∧ byteSize before = n := by
  constructor
  · exact splitAt?_eq_some
  · rintro ⟨rfl, rfl⟩
    exact splitAt?_byteSize before after

/-- A text falls into two parts in one way only, if the size of the first is given. -/
theorem append_inj_of_byteSize_eq {a b a' b' : List Char} (h : a ++ b = a' ++ b')
    (hsize : byteSize a = byteSize a') : a = a' ∧ b = b' := by
  have hsplit := splitAt?_byteSize a b
  rw [h, hsize, splitAt?_byteSize, Option.some.injEq, Prod.mk.injEq] at hsplit
  exact ⟨hsplit.1.symm, hsplit.2.symm⟩

theorem isBoundary_iff {n : Nat} {cs : List Char} :
    isBoundary n cs = true ↔ ∃ before after, before ++ after = cs ∧ byteSize before = n := by
  unfold isBoundary
  rw [Option.isSome_iff_exists]
  constructor
  · rintro ⟨⟨before, after⟩, h⟩
    exact ⟨before, after, splitAt?_eq_some h⟩
  · rintro ⟨before, after, h⟩
    exact ⟨(before, after), splitAt?_eq_some_iff.2 h⟩

theorem isBoundary_byteSize (before after : List Char) :
    isBoundary (byteSize before) (before ++ after) = true :=
  isBoundary_iff.2 ⟨before, after, rfl, rfl⟩

theorem le_byteSize_of_isBoundary {n : Nat} {cs : List Char} (h : isBoundary n cs = true) :
    n ≤ byteSize cs := by
  obtain ⟨before, after, rfl, rfl⟩ := isBoundary_iff.1 h
  rw [byteSize_append]
  omega

@[simp] theorem takeBytes_byteSize (before after : List Char) :
    takeBytes (byteSize before) (before ++ after) = before := by
  induction before with
  | nil =>
    cases after with
    | nil => rfl
    | cons c after =>
      have hc : 0 < c.utf8Size := c.utf8Size_pos
      rw [List.nil_append, byteSize_nil, takeBytes, if_neg (by omega)]
  | cons c before ih =>
    rw [List.cons_append, byteSize_cons, takeBytes, if_pos (by omega), Nat.add_sub_cancel_left, ih]

@[simp] theorem dropBytes_byteSize (before after : List Char) :
    dropBytes (byteSize before) (before ++ after) = after := by
  induction before with
  | nil => rw [List.nil_append, byteSize_nil, dropBytes]
  | cons c before ih =>
    have hc : 0 < c.utf8Size := c.utf8Size_pos
    rw [List.cons_append, byteSize_cons, dropBytes, Nat.add_sub_cancel_left, ih]
    omega

/-- Of two beginnings of a text the one that takes fewer bytes begins the other. -/
theorem exists_append_of_byteSize_le {a b ar br : List Char} (h : a ++ ar = b ++ br)
    (hle : byteSize a ≤ byteSize b) : ∃ m, b = a ++ m := by
  rcases List.append_eq_append_iff.1 h with ⟨m, rfl, -⟩ | ⟨m, rfl, -⟩
  · exact ⟨m, rfl⟩
  · -- the longer part comes first, so that what it has more takes no bytes
    cases m with
    | nil => exact ⟨[], by simp⟩
    | cons c m =>
      have hc : 0 < c.utf8Size := c.utf8Size_pos
      rw [byteSize_append, byteSize_cons] at hle
      omega

/-- Two boundaries in order cut a text into three parts. -/
theorem exists_parts_of_isBoundary {m n : Nat} {cs : List Char} (hm : isBoundary m cs = true)
    (hn : isBoundary n cs = true) (hle : m ≤ n) :
    ∃ a b c, a ++ b ++ c = cs ∧ byteSize a = m ∧ byteSize (a ++ b) = n := by
  obtain ⟨a, ar, rfl, rfl⟩ := isBoundary_iff.1 hm
  obtain ⟨ab, c, hc, rfl⟩ := isBoundary_iff.1 hn
  obtain ⟨b, rfl⟩ := exists_append_of_byteSize_le hc.symm hle
  exact ⟨a, b, c, hc, rfl, rfl⟩

/-- The slice between two boundaries is the part between them. -/
theorem slice?_parts (a b c : List Char) :
    slice? (byteSize a) (byteSize (a ++ b)) (a ++ b ++ c) = some b := by
  have hle : ¬ byteSize (a ++ b) < byteSize a := by rw [byteSize_append]; omega
  have hsub : byteSize (a ++ b) - byteSize a = byteSize b := by rw [byteSize_append]; omega
  rw [slice?, List.append_assoc, splitAt?_byteSize]
  simp only [Option.bind_eq_bind, Option.bind_some, if_neg hle, hsub, splitAt?_byteSize]

/-- The text between two offsets; empty where they are no boundaries in this order. -/
def between (start stop : Nat) (cs : List Char) : List Char :=
  (slice? start stop cs).getD []

/-- A boundary parts the text between two others. -/
theorem between_append {l m n : Nat} {cs : List Char} (hl : isBoundary l cs = true)
    (hm : isBoundary m cs = true) (hn : isBoundary n cs = true) (hlm : l ≤ m) (hmn : m ≤ n) :
    between l n cs = between l m cs ++ between m n cs := by
  obtain ⟨a, b, rest, hcs, rfl, rfl⟩ := exists_parts_of_isBoundary hl hm hlm
  obtain ⟨d, e, hd, rfl⟩ := isBoundary_iff.1 hn
  obtain ⟨c, rfl⟩ := exists_append_of_byteSize_le (hcs.trans hd.symm) hmn
  have hfirst := slice?_parts a b (c ++ e)
  have hlast := slice?_parts (a ++ b) c e
  have hboth := slice?_parts a (b ++ c) e
  simp only [← List.append_assoc] at hfirst hboth
  rw [between, between, between, ← hd, hfirst, hlast, hboth]
  rfl

end TestLint.Text
