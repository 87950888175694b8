import TestLint.Proofs.Edit.Apply

/-!
# Which fixes are applied together

Fixes are taken in the order of their first edits, each as a whole if it fits
beside those taken before it, else not at all (`Edit.Chosen`).  The text that
comes out is the one that the edits of the chosen fixes give when they are
applied as if they were one fix (`applyFixes_spec`).

The walk over the fixes holds the splices of the fixes taken so far and no
others, none overlapping another: `Edit.Selection.Holds`, kept by every step.
It comes to its end unless a fix has a column that is too large
(`Fix.Overflows`).
-/

namespace TestLint

open Text

/-! ## The order of fixes -/

namespace Fix

/-- The position is the least at which an edit of the fix starts, lines before
columns; without edits it lies before the first line. -/
def StartsAt (f : Fix) (p : Nat × Nat) : Prop :=
  (f.edits = [] ∧ p = (0, 0)) ∨
    (∃ e ∈ f.edits, p = (e.startLine, e.startColumn)) ∧
      ∀ e ∈ f.edits, p.1 < e.startLine ∨ (p.1 = e.startLine ∧ p.2 ≤ e.startColumn)

/-- Keeping the earlier of two positions all along a list finds the earliest. -/
theorem foldl_earlier_spec (first : Nat × Nat) (rest : List (Nat × Nat)) :
    let least := rest.foldl
      (fun a b => if b.1 < a.1 || (b.1 == a.1 && b.2 < a.2) then b else a) first
    least ∈ first :: rest ∧
      ∀ q ∈ first :: rest, least.1 < q.1 ∨ (least.1 = q.1 ∧ least.2 ≤ q.2) := by
  induction rest generalizing first with
  | nil =>
    refine ⟨List.mem_cons_self, ?_⟩
    intro q hq
    rw [List.mem_singleton.1 hq]
    exact .inr ⟨rfl, Nat.le_refl _⟩
  | cons b rest ih =>
    rw [List.foldl_cons]
    by_cases hb : (b.1 < first.1 || (b.1 == first.1 && b.2 < first.2)) = true
    · rw [if_pos hb]
      obtain ⟨hmem, hleast⟩ := ih b
      refine ⟨List.mem_cons_of_mem first hmem, ?_⟩
      intro q hq
      rcases List.mem_cons.1 hq with rfl | hq
      · have hle := hleast b List.mem_cons_self
        simp only [Bool.or_eq_true, Bool.and_eq_true, decide_eq_true_eq, beq_iff_eq] at hb
        omega
      · exact hleast q hq
    · rw [if_neg hb]
      obtain ⟨hmem, hleast⟩ := ih first
      refine ⟨?_, ?_⟩
      · rcases List.mem_cons.1 hmem with h | h
        · rw [h]
          exact List.mem_cons_self
        · exact List.mem_cons_of_mem first (List.mem_cons_of_mem b h)
      · intro q hq
        rcases List.mem_cons.1 hq with rfl | hq
        · exact hleast q List.mem_cons_self
        · rcases List.mem_cons.1 hq with rfl | hq
          · have hle := hleast first List.mem_cons_self
            simp only [Bool.or_eq_true, Bool.and_eq_true, decide_eq_true_eq, beq_iff_eq] at hb
            omega
          · exact hleast q (List.mem_cons_of_mem first hq)

theorem startsAt_startPosition (f : Fix) : f.StartsAt f.startPosition := by
  unfold startPosition StartsAt
  cases hedits : f.edits with
  | nil => exact .inl ⟨rfl, rfl⟩
  | cons e edits =>
    right
    obtain ⟨hmem, hleast⟩ := foldl_earlier_spec (e.startLine, e.startColumn)
      (edits.map fun e => (e.startLine, e.startColumn))
    rw [← List.map_cons (f := fun e : TextEdit => (e.startLine, e.startColumn))] at hmem hleast
    refine ⟨?_, ?_⟩
    · obtain ⟨e', he', heq⟩ := List.mem_map.1 hmem
      exact ⟨e', he', heq.symm⟩
    · intro e' he'
      exact hleast _ (List.mem_map_of_mem he')

/-- A fix starts at one position only. -/
theorem StartsAt.unique {f : Fix} {p q : Nat × Nat} (hp : f.StartsAt p) (hq : f.StartsAt q) :
    p = q := by
  rcases hp with ⟨hnil, rfl⟩ | ⟨⟨e, he, rfl⟩, hleast⟩
  · rcases hq with ⟨-, rfl⟩ | ⟨⟨e, he, -⟩, -⟩
    · rfl
    · rw [hnil] at he
      cases he
  · rcases hq with ⟨hnil, -⟩ | ⟨⟨e', he', rfl⟩, hleast'⟩
    · rw [hnil] at he
      cases he
    · have hle := hleast e' he'
      have hle' := hleast' e he
      rw [Prod.mk.injEq]
      dsimp only at hle hle'
      omega

/-- The first fix starts no later than the second, lines before columns. -/
def NoLater (a b : Fix) : Prop :=
  ∃ p q, a.StartsAt p ∧ b.StartsAt q ∧ (p.1 < q.1 ∨ (p.1 = q.1 ∧ p.2 ≤ q.2))

theorem startsBefore_iff (a b : Fix) :
    a.startsBefore b = true ↔ a.startPosition.1 < b.startPosition.1 ∨
      (a.startPosition.1 = b.startPosition.1 ∧ a.startPosition.2 ≤ b.startPosition.2) := by
  rw [startsBefore, Bool.or_eq_true, Bool.and_eq_true, beq_iff_eq, decide_eq_true_eq,
    decide_eq_true_eq]

theorem startsBefore_iff_noLater (a b : Fix) : a.startsBefore b = true ↔ a.NoLater b := by
  rw [startsBefore_iff]
  constructor
  · exact fun h => ⟨_, _, a.startsAt_startPosition, b.startsAt_startPosition, h⟩
  · rintro ⟨p, q, hp, hq, h⟩
    rw [a.startsAt_startPosition.unique hp, b.startsAt_startPosition.unique hq]
    exact h

theorem startsBefore_trans (a b c : Fix) (hab : a.startsBefore b = true)
    (hbc : b.startsBefore c = true) : a.startsBefore c = true := by
  rw [startsBefore_iff] at *
  omega

theorem startsBefore_total (a b : Fix) : (a.startsBefore b || b.startsBefore a) = true := by
  rw [Bool.or_eq_true, startsBefore_iff, startsBefore_iff]
  omega

end Fix

/-! ## Fixes that fit -/

theorem mapM_eq_ok_iff {ε α β : Type} {f : α → Except ε β} {xs : List α} {ys : List β} :
    xs.mapM f = .ok ys ↔ List.Forall₂ (fun x y => f x = .ok y) xs ys := by
  induction xs generalizing ys with
  | nil =>
    rw [List.mapM_nil, List.forall₂_nil_left_iff]
    constructor
    · intro h
      cases h
      rfl
    · rintro rfl
      rfl
  | cons x xs ih =>
    rw [List.mapM_cons, List.forall₂_cons_left_iff]
    constructor
    · intro h
      cases hx : f x with
      | error cause =>
        rw [hx] at h
        cases h
      | ok y =>
        cases hxs : xs.mapM f with
        | error cause =>
          rw [hx, hxs] at h
          cases h
        | ok ys' =>
          rw [hx, hxs] at h
          cases h
          exact ⟨y, ys', rfl, ih.1 hxs, rfl⟩
    · rintro ⟨y, ys', hy, hys, rfl⟩
      rw [hy, ih.2 hys]
      rfl

theorem mapM_eq_error_iff {ε α β : Type} {f : α → Except ε β} {xs : List α} {failure : ε} :
    xs.mapM f = .error failure ↔
      ∃ before x after ys, xs = before ++ x :: after ∧
        List.Forall₂ (fun x y => f x = .ok y) before ys ∧ f x = .error failure := by
  induction xs with
  | nil =>
    refine iff_of_false (by simp [pure, Except.pure]) ?_
    rintro ⟨before, x, after, ys, hnil, -⟩
    exact absurd hnil (by simp)
  | cons first xs ih =>
    rw [List.mapM_cons]
    cases hfirst : f first with
    | error failure' =>
      simp only [bind, Except.bind, Except.error.injEq]
      constructor
      · rintro rfl
        exact ⟨[], first, xs, [], rfl, .nil, hfirst⟩
      · rintro ⟨before, x, after, ys, hparts, hbefore, hx⟩
        cases before with
        | nil =>
          obtain ⟨rfl, rfl⟩ := List.cons.inj hparts
          exact Except.error.inj (hfirst.symm.trans hx)
        | cons first' before =>
          obtain ⟨rfl, rfl⟩ := List.cons.inj hparts
          obtain ⟨y, _, hok, -, -⟩ := List.forall₂_cons_left_iff.1 hbefore
          cases hfirst.symm.trans hok
    | ok y =>
      have hrest : (do let ys ← xs.mapM f; pure (y :: ys) : Except ε (List β)) = .error failure ↔
          xs.mapM f = .error failure := by
        cases xs.mapM f <;> simp [bind, Except.bind, pure, Except.pure]
      refine hrest.trans (ih.trans ⟨?_, ?_⟩)
      · rintro ⟨before, x, after, ys, rfl, hbefore, hx⟩
        exact ⟨first :: before, x, after, y :: ys, rfl, .cons hfirst hbefore, hx⟩
      · rintro ⟨before, x, after, ys, hparts, hbefore, hx⟩
        cases before with
        | nil =>
          obtain ⟨rfl, rfl⟩ := List.cons.inj hparts
          cases hfirst.symm.trans hx
        | cons first' before =>
          obtain ⟨rfl, rfl⟩ := List.cons.inj hparts
          obtain ⟨_, ys, -, hbefore, -⟩ := List.forall₂_cons_left_iff.1 hbefore
          exact ⟨before, x, after, ys, rfl, hbefore, hx⟩

namespace Fix

/-- One of the fix's edits has a column that is too large, and those before it
resolve. -/
def Overflows (cs : List Char) (f : Fix) : Prop :=
  ∃ before e after splices, f.edits = before ++ e :: after ∧
    Edit.Resolution cs before splices ∧ e.Overflows cs

/-- All edits of the fix resolve, and their ranges collide neither with each
other nor with a range of a fix taken before. -/
def FitsBeside (cs : List Char) (taken : List Fix) (f : Fix) : Prop :=
  ∃ splices, Edit.Resolution cs f.edits splices ∧
    (splices.Pairwise fun s t => ¬ s.range.Collides t.range) ∧
    ∀ g ∈ taken, ∀ e ∈ g.edits, ∀ t, e.Resolves cs t → ∀ s ∈ splices, ¬ t.range.Collides s.range

theorem splices?_eq_ok_iff {cs : List Char} {f : Fix} {splices : List Splice} :
    f.splices? cs = .ok splices ↔ Edit.Resolution cs f.edits splices := by
  rw [splices?, mapM_eq_ok_iff]
  simp only [TextEdit.splice?_eq_ok_iff]
  rfl

theorem splices?_eq_overflow_iff {cs : List Char} {f : Fix} :
    f.splices? cs = .error .overflow ↔ f.Overflows cs := by
  rw [splices?, mapM_eq_error_iff]
  simp only [TextEdit.splice?_eq_ok_iff, TextEdit.splice?_eq_overflow_iff]
  rfl

theorem clash_eq_false_iff {splices : List Splice} :
    clash splices = false ↔ splices.Pairwise Edit.NoOverlap := by
  induction splices with
  | nil => simp [clash]
  | cons s splices ih =>
    rw [clash, Bool.or_eq_false_iff, ih, List.pairwise_cons]
    apply and_congr_left
    intro _
    rw [List.any_eq_false]
    constructor
    · intro h t ht
      rw [Edit.NoOverlap, ByteRange.overlaps_comm]
      exact Bool.eq_false_iff.2 (h t ht)
    · intro h t ht
      rw [ByteRange.overlaps_comm]
      exact Bool.eq_false_iff.1 (h t ht)

theorem fitting?_eq_error_iff {cs : List Char} {accepted : List Splice} {f : Fix} :
    f.fitting? cs accepted = .error ⟨⟩ ↔ f.Overflows cs := by
  rw [← splices?_eq_overflow_iff, fitting?]
  cases f.splices? cs with
  | error failure => cases failure <;> simp
  | ok splices =>
    simp only [reduceCtorEq, iff_false]
    split <;> simp

theorem fitting?_eq_some_iff {cs : List Char} {accepted splices : List Splice} {f : Fix} :
    f.fitting? cs accepted = .ok (some splices) ↔
      Edit.Resolution cs f.edits splices ∧ splices.Pairwise Edit.NoOverlap ∧
        ∀ t ∈ accepted, ∀ s ∈ splices, Edit.NoOverlap t s := by
  rw [← splices?_eq_ok_iff, ← clash_eq_false_iff, fitting?]
  cases hsplices : f.splices? cs with
  | error failure => cases failure <;> simp
  | ok found =>
    simp only [Except.ok.injEq]
    constructor
    · intro h
      split at h
      · cases h
      · next hno =>
        cases h
        rw [Bool.not_eq_true, Bool.or_eq_false_iff] at hno
        refine ⟨rfl, hno.1, ?_⟩
        intro t ht s hs
        have hany := List.any_eq_false.1 hno.2 s hs
        rw [Bool.not_eq_true] at hany
        exact Bool.eq_false_iff.2 (List.any_eq_false.1 hany t ht)
    · rintro ⟨rfl, hclash, hno⟩
      rw [if_neg]
      rw [Bool.not_eq_true, Bool.or_eq_false_iff]
      refine ⟨hclash, List.any_eq_false.2 fun s hs => ?_⟩
      rw [Bool.not_eq_true]
      exact List.any_eq_false.2 fun t ht => Bool.eq_false_iff.1 (hno t ht s hs)

/-- Beside the fixes taken, a fix that does not overflow fits or is left out. -/
theorem fitting?_cases {cs : List Char} {f : Fix} (accepted : List Splice)
    (hsmall : ¬ f.Overflows cs) :
    (∃ splices, f.fitting? cs accepted = .ok (some splices)) ∨
      f.fitting? cs accepted = .ok none := by
  cases hfitting : f.fitting? cs accepted with
  | error overflow => exact absurd (fitting?_eq_error_iff.1 hfitting) hsmall
  | ok found =>
    cases found with
    | none => exact .inr rfl
    | some splices => exact .inl ⟨splices, rfl⟩

end Fix

/-! ## Going through the fixes -/

namespace Edit

/-- What is chosen from a list of fixes after those taken: each fix that fits
beside all before it, and no other. -/
inductive Chosen (cs : List Char) : List Fix → List Fix → List Fix → Prop
  | done (taken : List Fix) : Chosen cs taken [] []
  | take {taken fixes chosen : List Fix} {f : Fix} (hfits : f.FitsBeside cs taken)
      (hrest : Chosen cs (taken ++ [f]) fixes chosen) : Chosen cs taken (f :: fixes) (f :: chosen)
  | skip {taken fixes chosen : List Fix} {f : Fix} (hfits : ¬ f.FitsBeside cs taken)
      (hrest : Chosen cs taken fixes chosen) : Chosen cs taken (f :: fixes) chosen

namespace Selection

/-- The selection holds what the edits of the fixes taken resolve to, without
overlaps. -/
structure Holds (cs : List Char) (taken : List Fix) (s : Selection) : Prop where
  resolution : Resolution cs (taken.flatMap (·.edits)) s.accepted
  apart : s.accepted.Pairwise NoOverlap

/-- Beside what is held, a fix fits exactly when it fits beside the fixes taken. -/
theorem Holds.fitsBeside_iff {cs : List Char} {taken : List Fix} {s : Selection}
    (h : Holds cs taken s) (f : Fix) :
    f.FitsBeside cs taken ↔ ∃ splices, f.fitting? cs s.accepted = .ok (some splices) := by
  constructor
  · rintro ⟨splices, hresolution, hpairwise, hbeside⟩
    refine ⟨splices, Fix.fitting?_eq_some_iff.2
      ⟨hresolution, hresolution.pairwise_iff.2 hpairwise, ?_⟩⟩
    intro t ht u hu
    obtain ⟨e, he, hresolves⟩ := h.resolution.exists_edit ht
    obtain ⟨g, hg, heg⟩ := List.mem_flatMap.1 he
    have hno := hbeside g hg e heg t hresolves u hu
    rw [← ByteRange.overlaps_iff_collides hresolves.forward (hresolution.fitsIn hu).1,
      Bool.not_eq_true] at hno
    exact hno
  · rintro ⟨splices, hfitting⟩
    obtain ⟨hresolution, hpairwise, hbeside⟩ := Fix.fitting?_eq_some_iff.1 hfitting
    refine ⟨splices, hresolution, hresolution.pairwise_iff.1 hpairwise, ?_⟩
    intro g hg e he t hresolves u hu
    have hmem : t ∈ s.accepted :=
      h.resolution.mem_of_resolves (List.mem_flatMap.2 ⟨g, hg, he⟩) hresolves
    rw [← ByteRange.overlaps_iff_collides hresolves.forward (hresolution.fitsIn hu).1,
      Bool.not_eq_true]
    exact hbeside t hmem u hu

/-- A fix that fits is taken in as a whole. -/
theorem Holds.append {cs : List Char} {taken : List Fix} {s : Selection} {f : Fix}
    {splices : List Splice} (h : Holds cs taken s)
    (hfitting : f.fitting? cs s.accepted = .ok (some splices)) :
    Holds cs (taken ++ [f])
      { s with accepted := s.accepted ++ splices, applied := s.applied + 1 } := by
  obtain ⟨hresolution, hpairwise, hbeside⟩ := Fix.fitting?_eq_some_iff.1 hfitting
  refine ⟨?_, ?_⟩
  · rw [List.flatMap_append, List.flatMap_singleton]
    exact h.resolution.append hresolution
  · exact List.pairwise_append.2 ⟨h.apart, hpairwise, hbeside⟩

/-- Going through a list of fixes, none of which overflows, takes the chosen ones in and counts
all. -/
theorem Holds.foldlM_select {cs : List Char} {taken : List Fix} {s : Selection}
    (h : Holds cs taken s) {fixes : List Fix} (hsmall : ∀ f ∈ fixes, ¬ f.Overflows cs) :
    ∃ chosen last, fixes.foldlM (select cs) s = .ok last ∧ Chosen cs taken fixes chosen ∧
      Holds cs (taken ++ chosen) last ∧ last.applied = s.applied + chosen.length ∧
      last.applied + last.skipped = s.applied + s.skipped + fixes.length := by
  induction fixes generalizing taken s with
  | nil =>
    refine ⟨[], s, rfl, .done taken, ?_, rfl, rfl⟩
    rw [List.append_nil]
    exact h
  | cons f fixes ih =>
    obtain ⟨hfirst, hsmall⟩ := List.forall_mem_cons.1 hsmall
    rw [List.foldlM_cons, List.length_cons]
    rcases Fix.fitting?_cases s.accepted hfirst with ⟨splices, hfitting⟩ | hfitting
    · have hfits : f.FitsBeside cs taken := (h.fitsBeside_iff f).2 ⟨splices, hfitting⟩
      obtain ⟨chosen, last, hlast, hchosen, hholds, happlied, hcount⟩ :=
        ih (h.append hfitting) hsmall
      dsimp only at happlied hcount
      refine ⟨f :: chosen, last, ?_, .take hfits hchosen, ?_, ?_, ?_⟩
      · rw [select, hfitting]
        exact hlast
      · rw [List.append_cons]
        exact hholds
      · rw [happlied, List.length_cons]
        omega
      · omega
    · have hfits : ¬ f.FitsBeside cs taken := by
        intro hfits
        obtain ⟨splices, hsome⟩ := (h.fitsBeside_iff f).1 hfits
        rw [hfitting] at hsome
        cases hsome
      have hkept : Holds cs taken { s with skipped := s.skipped + 1 } := ⟨h.resolution, h.apart⟩
      obtain ⟨chosen, last, hlast, hchosen, hholds, happlied, hcount⟩ := ih hkept hsmall
      dsimp only at happlied hcount
      refine ⟨chosen, last, ?_, .skip hfits hchosen, hholds, happlied, by omega⟩
      rw [select, hfitting]
      exact hlast

end Selection

/-- A fix that overflows stops the walk, wherever it is listed. -/
theorem foldlM_select_of_overflows {cs : List Char} {fixes : List Fix} {f : Fix} (hf : f ∈ fixes)
    (hlarge : f.Overflows cs) (s : Selection) : fixes.foldlM (select cs) s = .error ⟨⟩ := by
  induction fixes generalizing s with
  | nil => cases hf
  | cons first fixes ih =>
    rw [List.foldlM_cons, select]
    rcases List.mem_cons.1 hf with rfl | hf
    · rw [Fix.fitting?_eq_error_iff.2 hlarge]
      rfl
    · cases first.fitting? cs s.accepted with
      | error overflow => rfl
      | ok found =>
        cases found with
        | none => exact ih hf _
        | some splices => exact ih hf _

theorem applyFixes_eq_ok {source : String} {fixes : List Fix}
    (hsmall : ∀ f ∈ fixes, ¬ f.Overflows source.toList) :
    ∃ chosen outcome, applyFixes source fixes = .ok outcome ∧
      Chosen source.toList [] (fixes.mergeSort Fix.startsBefore) chosen ∧
      outcome.applied = chosen.length ∧ outcome.applied + outcome.skipped = fixes.length ∧
      apply source (chosen.flatMap (·.edits)) = .ok outcome.content := by
  have hempty : Selection.Holds source.toList [] ⟨[], 0, 0⟩ := ⟨.nil, .nil⟩
  have hsmall' : ∀ f ∈ fixes.mergeSort Fix.startsBefore, ¬ f.Overflows source.toList := by
    intro f hf
    exact hsmall f (List.mem_mergeSort.1 hf)
  obtain ⟨chosen, last, hlast, hchosen, hholds, happlied, hcount⟩ := hempty.foldlM_select hsmall'
  rw [Nat.zero_add] at happlied
  rw [Nat.add_zero, Nat.zero_add, List.length_mergeSort] at hcount
  let content := String.ofList (Splice.applyAll source.toList last.accepted)
  refine ⟨chosen, ⟨content, last.applied, last.skipped⟩, ?_, hchosen, happlied, hcount, ?_⟩
  · rw [applyFixes, hlast]
    rfl
  · exact apply_eq_ok_iff.2 ⟨_, hholds.resolution, hholds.apart, rfl⟩

theorem applyFixes_eq_error_iff {source : String} {fixes : List Fix} :
    applyFixes source fixes = .error ⟨⟩ ↔ ∃ f ∈ fixes, f.Overflows source.toList := by
  constructor
  · intro hstop
    by_contra hnone
    have hsmall : ∀ f ∈ fixes, ¬ f.Overflows source.toList :=
      fun f hf hlarge => hnone ⟨f, hf, hlarge⟩
    obtain ⟨_, outcome, hok, -⟩ := applyFixes_eq_ok hsmall
    rw [hstop] at hok
    cases hok
  · rintro ⟨f, hf, hlarge⟩
    rw [applyFixes, foldlM_select_of_overflows (List.mem_mergeSort.2 hf) hlarge]
    rfl

/-- Fixes are gone through in the order of their first edits, equal ones as
they are listed, and each is taken as a whole exactly if it fits beside those
taken before it.  The content is the source with the edits of the fixes taken,
which apply as if they were one fix; every other fix is counted as skipped.
A fix whose column is too large is not skipped: the program stops there. -/
theorem applyFixes_spec (source : String) (fixes : List Fix) :
    ((∃ f ∈ fixes, f.Overflows source.toList) → applyFixes source fixes = .error ⟨⟩) ∧
    ((∀ f ∈ fixes, ¬ f.Overflows source.toList) →
      ∃ ordered chosen outcome, applyFixes source fixes = .ok outcome ∧
        StablyOrdered Fix.startsBefore fixes ordered ∧
        (∀ f g : Fix, f.startsBefore g = true ↔ f.NoLater g) ∧
        Chosen source.toList [] ordered chosen ∧
        outcome.applied = chosen.length ∧ outcome.applied + outcome.skipped = fixes.length ∧
        apply source (chosen.flatMap (·.edits)) = .ok outcome.content) := by
  refine ⟨applyFixes_eq_error_iff.2, fun hsmall => ?_⟩
  obtain ⟨chosen, outcome, hok, hchosen, happlied, hcount, happly⟩ := applyFixes_eq_ok hsmall
  have hordered := stablyOrdered_mergeSort Fix.startsBefore_trans Fix.startsBefore_total fixes
  exact ⟨_, chosen, outcome, hok, hordered, Fix.startsBefore_iff_noLater, hchosen, happlied, hcount,
    happly⟩

/-- Two fixes that collide, the second of which starts first. -/
def crossedFixes : List Fix :=
  [⟨"later", [⟨1, 2, 1, 4, "X"⟩]⟩, ⟨"earlier", [⟨1, 1, 1, 3, "Y"⟩]⟩]

/-- The fix that starts first is taken, though it is listed behind the other. -/
theorem applyFixes_spec_crossed :
    (∀ f ∈ crossedFixes, ¬ f.Overflows "abcd".toList) ∧
      applyFixes "abcd" crossedFixes = .ok ⟨"Ycd", 1, 1⟩ ∧
      ∃ ordered chosen, StablyOrdered Fix.startsBefore crossedFixes ordered ∧
        ordered = crossedFixes.reverse ∧ Chosen "abcd".toList [] ordered chosen ∧
        chosen.length = 1 ∧ apply "abcd" (chosen.flatMap (·.edits)) = .ok "Ycd" := by
  have hsorted : crossedFixes.mergeSort Fix.startsBefore = crossedFixes.reverse :=
    mergeSort_pair_of_not_le (by decide)
  have hresult : applyFixes "abcd" crossedFixes = .ok ⟨"Ycd", 1, 1⟩ := by
    rw [applyFixes, hsorted]
    decide +kernel
  have hsmall : ∀ f ∈ crossedFixes, ¬ f.Overflows "abcd".toList := by
    intro f hf hlarge
    rw [applyFixes_eq_error_iff.2 ⟨f, hf, hlarge⟩] at hresult
    cases hresult
  refine ⟨hsmall, hresult, ?_⟩
  obtain ⟨ordered, chosen, outcome, hok, hordered, -, hchosen, happlied, -, happly⟩ :=
    (applyFixes_spec "abcd" crossedFixes).2 hsmall
  obtain rfl : outcome = ⟨"Ycd", 1, 1⟩ := Except.ok.inj (hok.symm.trans hresult)
  have hreverse : ordered = crossedFixes.reverse := by
    rw [← hsorted]
    exact hordered.unique Fix.startsBefore_total
      (stablyOrdered_mergeSort Fix.startsBefore_trans Fix.startsBefore_total _)
  exact ⟨ordered, chosen, hordered, hreverse, hchosen, happlied.symm, happly⟩

/-- A fix with an edit that does not resolve is not skipped if the column is too large. -/
theorem fix_in_last_column_stops :
    let f : Fix := ⟨"", [.insert 2 (Position.wordSize - 1) "X"]⟩
    ¬ f.FitsBeside "ab\ncd".toList [] ∧ applyFixes "ab\ncd" [f] = .error ⟨⟩ := by
  intro f
  have hlarge := Position.overflows_last_column
  constructor
  · rintro ⟨_, hresolution, -⟩
    obtain ⟨_, _, hs, -, -⟩ := List.forall₂_cons_left_iff.1 hresolution
    exact hlarge.not_locates (by decide) hs.start
  · exact applyFixes_eq_error_iff.2
      ⟨f, List.mem_singleton_self f, [], _, [], [], rfl, .nil, .inl hlarge⟩

end Edit

end TestLint
