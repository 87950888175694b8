import Mathlib.Algebra.Ring.Nat
import Mathlib.Data.List.Pairwise
import TestLint.Proofs.Edit.Selection

/-!
# Fixes that are listed once more

A fix that stands in a list already is put at its end once more (`Edit.applyFixes_again`).  In
the order of the fixes the copy comes after all that begin no later, the fix itself among them,
and fits beside those taken exactly if the fix was taken and its edits are all insertions
(`Edit.Chosen.fitsBeside_iff`): a range that is not empty overlaps itself, an empty one does not.
So the text changes exactly if such a fix inserts anything (`Splice.applyAll_insertions_iff`); for
a fix that replaces or removes something the copy is skipped.
-/

namespace TestLint

open Text

/-! ## Insertions -/

namespace Splice

/-- The splice puts nothing in the place of nothing. -/
def Idle (s : Splice) : Prop := s.range.start = s.range.stop ∧ s.text = []

instance (s : Splice) : Decidable s.Idle := inferInstanceAs (Decidable (_ ∧ _))

theorem Idle.apply_eq {s : Splice} (h : s.Idle) {cs : List Char} (hfits : s.range.FitsIn cs) :
    s.apply cs = cs := by
  obtain ⟨hempty, htext⟩ := h
  obtain ⟨before, after, rfl, hsize⟩ := isBoundary_iff.1 hfits.2.1
  have hmade := apply_parts s (b := []) (c := after) hsize
    (by rw [List.append_nil, hsize, hempty])
  rw [htext, List.append_nil] at hmade
  exact hmade

/-- Idle splices can be left out. -/
theorem foldl_apply_filter {cs : List Char} {splices : List Splice}
    (h : MadeSafely cs splices) :
    (splices.filter fun s => ¬ s.Idle).foldl apply cs = splices.foldl apply cs := by
  induction splices generalizing cs with
  | nil => rfl
  | cons s splices ih =>
    obtain ⟨hfits, hsafe⟩ := h
    rw [List.foldl_cons, ← ih hsafe]
    by_cases hidle : s.Idle
    · rw [List.filter_cons_of_neg (by simpa using hidle), hidle.apply_eq hfits]
    · rw [List.filter_cons_of_pos (by simpa using hidle), List.foldl_cons]

/-- What the ranges take from the source and the texts bring to it, in bytes. -/
theorem Joined.byteSize_add {offset : Nat} {splices : List Splice} {cs out : List Char}
    (h : Joined offset splices cs out) :
    byteSize out + (splices.map fun s => s.range.stop - s.range.start).sum =
      byteSize cs + (splices.map fun s => byteSize s.text).sum := by
  induction h with
  | rest => rfl
  | cut _ hstop _ ih =>
    rw [List.map_cons, List.map_cons, List.sum_cons, List.sum_cons, byteSize_append,
      byteSize_append, byteSize_append, byteSize_append]
    omega

section

variable {source : List Char} {splices : List Splice}

theorem byteSize_applyAll (hfits : ∀ s ∈ splices, s.range.FitsIn source)
    (hapart : splices.Pairwise Edit.NoOverlap) :
    byteSize (applyAll source splices) + (splices.map fun s => s.range.stop - s.range.start).sum =
      byteSize source + (splices.map fun s => byteSize s.text).sum := by
  obtain ⟨ordered, hordered, hjoined, -⟩ := applyAll_joined hfits hapart
  have hperm : ordered.Perm splices := hordered.perm.trans (List.reverse_perm splices)
  have hsize := hjoined.byteSize_add
  rw [(hperm.map _).sum_nat, (hperm.map _).sum_nat] at hsize
  exact hsize

theorem applyAll_filter (hfits : ∀ s ∈ splices, s.range.FitsIn source)
    (hapart : splices.Pairwise Edit.NoOverlap) :
    applyAll source (splices.filter fun s => ¬ s.Idle) = applyAll source splices := by
  obtain ⟨_, -, -, hsafe⟩ := applyAll_joined hfits hapart
  rw [applyAll, applyAll, ← foldl_apply_filter hsafe, filter_mergeSort]
  · exact fun a b c hab hbc => ByteRange.le_trans _ _ _ hbc hab
  · exact fun a b => ByteRange.le_total _ _

/-- Further insertions change nothing exactly if they insert nothing. -/
theorem applyAll_insertions_iff {insertions later : List Splice}
    (hfits : ∀ s ∈ splices ++ (insertions ++ later), s.range.FitsIn source)
    (hapart : (splices ++ (insertions ++ later)).Pairwise Edit.NoOverlap)
    (hempty : ∀ s ∈ insertions, s.range.start = s.range.stop) :
    applyAll source (splices ++ (insertions ++ later)) = applyAll source (splices ++ later) ↔
      ∀ s ∈ insertions, s.text = [] := by
  have hsub : (splices ++ later).Sublist (splices ++ (insertions ++ later)) :=
    List.Sublist.append_left (List.sublist_append_right insertions later) splices
  have hfits' : ∀ s ∈ splices ++ later, s.range.FitsIn source := fun s hs =>
    hfits s (hsub.mem hs)
  constructor
  · intro heq s hs
    have hsize := byteSize_applyAll hfits hapart
    have hsize' := byteSize_applyAll hfits' (hapart.sublist hsub)
    have hremoved : (insertions.map fun s => s.range.stop - s.range.start).sum = 0 := by
      refine List.sum_eq_zero_iff_forall_eq_nat.2 (List.forall_mem_map.2 fun s hs => ?_)
      rw [hempty s hs, Nat.sub_self]
    rw [heq] at hsize
    simp only [List.map_append, List.sum_append_nat, hremoved] at hsize hsize'
    have hadded : (insertions.map fun s => byteSize s.text).sum = 0 := by omega
    exact byteSize_eq_zero_iff.1
      (List.forall_mem_map.1 (List.sum_eq_zero_iff_forall_eq_nat.1 hadded) s hs)
  · intro htext
    rw [← applyAll_filter hfits hapart, ← applyAll_filter hfits' (hapart.sublist hsub)]
    have hnone : insertions.filter (fun s => ¬ s.Idle) = [] := by
      refine List.filter_eq_nil_iff.2 fun s hs => ?_
      have hidle : s.Idle := ⟨hempty s hs, htext s hs⟩
      simpa using hidle
    rw [List.filter_append, List.filter_append, hnone, List.nil_append, List.filter_append]

end

end Splice

/-! ## The copy of a fix -/

namespace Fix

variable {cs : List Char} {taken taken' : List Fix} {f : Fix}

/-- Every edit of the fix has an empty range. -/
def OnlyInserts (cs : List Char) (f : Fix) : Prop :=
  ∀ e ∈ f.edits, ∀ s, e.Resolves cs s → s.range.start = s.range.stop

/-- What fits beside many fixes fits beside some of them. -/
theorem FitsBeside.anti (h : f.FitsBeside cs taken) (hsub : taken' ⊆ taken) :
    f.FitsBeside cs taken' := by
  obtain ⟨splices, hresolution, hapart, hbeside⟩ := h
  exact ⟨splices, hresolution, hapart, fun g hg => hbeside g (hsub hg)⟩

/-- A fix that fits beside itself has insertions only. -/
theorem FitsBeside.onlyInserts (h : f.FitsBeside cs taken) (hf : f ∈ taken) :
    f.OnlyInserts cs := by
  obtain ⟨splices, hresolution, -, hbeside⟩ := h
  intro e he s hs
  by_contra hempty
  refine hbeside f hf e he s hs s (hresolution.mem_of_resolves he hs) (.inl ⟨s.range.start, ?_⟩)
  have hforward := hs.forward
  omega

end Fix

namespace Edit

/-- The fixes are gone through to their end, and the fix is among those that are applied. -/
def Takes (source : String) (fixes : List Fix) (f : Fix) : Prop :=
  (∀ g ∈ fixes, ¬ g.Overflows source.toList) ∧
    ∃ ordered chosen, StablyOrdered Fix.startsBefore fixes ordered ∧
      Chosen source.toList [] ordered chosen ∧ f ∈ chosen

section

variable {cs : List Char} {edits edits' : List TextEdit}
  {taken taken' fixes fixes' chosen chosen' : List Fix} {f : Fix}

instance : Std.Symm NoOverlap where
  symm _ _ h := h.symm

theorem Resolution.exists_splice {splices : List Splice} (h : Resolution cs edits splices)
    {e : TextEdit} (he : e ∈ edits) : ∃ s ∈ splices, e.Resolves cs s := by
  induction h with
  | nil => cases he
  | @cons _ s _ _ hs _ ih =>
    rcases List.mem_cons.1 he with rfl | he
    · exact ⟨s, List.mem_cons_self, hs⟩
    · obtain ⟨t, ht, hresolves⟩ := ih he
      exact ⟨t, List.mem_cons_of_mem s ht, hresolves⟩

theorem Resolution.exists_append {splices : List Splice}
    (h : Resolution cs (edits ++ edits') splices) :
    ∃ first later, splices = first ++ later ∧ Resolution cs edits first ∧
      Resolution cs edits' later := by
  induction edits generalizing splices with
  | nil => exact ⟨[], splices, rfl, .nil, h⟩
  | cons e edits ih =>
    cases h with
    | @cons _ s _ _ hs htail =>
      obtain ⟨first, later, rfl, hfirst, hlater⟩ := ih htail
      exact ⟨s :: first, later, rfl, .cons hs hfirst, hlater⟩

/-- Nothing is held before the first fix. -/
theorem Selection.holds_nil : Selection.Holds cs [] ⟨[], 0, 0⟩ :=
  ⟨.nil, .nil⟩

/-- Among the fixes taken, different ranges do not collide. -/
theorem Selection.Holds.not_collides {s : Selection} (h : Selection.Holds cs taken s) {f g : Fix}
    (hf : f ∈ taken) {e e' : TextEdit} (he : e ∈ f.edits) {t u : Splice} (ht : e.Resolves cs t)
    (hg : g ∈ taken) (he' : e' ∈ g.edits) (hu : e'.Resolves cs u) (htu : t ≠ u) :
    ¬ t.range.Collides u.range := by
  have ht' := h.resolution.mem_of_resolves (List.mem_flatMap.2 ⟨f, hf, he⟩) ht
  have hu' := h.resolution.mem_of_resolves (List.mem_flatMap.2 ⟨g, hg, he'⟩) hu
  rw [← ByteRange.overlaps_iff_collides ht.forward hu.forward, Bool.not_eq_true]
  exact h.apart.forall ht' hu' htu

namespace Chosen

theorem subset (h : Chosen cs taken fixes chosen) : chosen ⊆ fixes := by
  induction h with
  | done => exact List.nil_subset []
  | take _ _ ih => exact List.cons_subset_cons _ ih
  | skip _ _ ih => exact List.subset_cons_of_subset _ ih

/-- Each fix chosen fits beside some. -/
theorem exists_fitsBeside (h : Chosen cs taken fixes chosen) (hf : f ∈ chosen) :
    ∃ before, f.FitsBeside cs before := by
  induction h with
  | done => cases hf
  | take hfits _ ih =>
    rcases List.mem_cons.1 hf with rfl | hf
    · exact ⟨_, hfits⟩
    · exact ih hf
  | skip _ _ ih => exact ih hf

/-- It matters only which fixes are taken, not in which order and how often. -/
theorem congr (h : Chosen cs taken fixes chosen) (hmem : ∀ g, g ∈ taken ↔ g ∈ taken') :
    Chosen cs taken' fixes chosen := by
  induction h generalizing taken' with
  | done => exact .done taken'
  | take hfits _ ih =>
    refine .take (hfits.anti fun g => (hmem g).2) (ih fun g => ?_)
    rw [List.mem_append, List.mem_append, hmem]
  | skip hfits _ ih =>
    exact .skip (fun hfits' => hfits (hfits'.anti fun g => (hmem g).1)) (ih hmem)

theorem append (h : Chosen cs taken fixes chosen)
    (h' : Chosen cs (taken ++ chosen) fixes' chosen') :
    Chosen cs taken (fixes ++ fixes') (chosen ++ chosen') := by
  induction h with
  | done =>
    rw [List.append_nil] at h'
    exact h'
  | take hfits _ ih =>
    refine .take hfits (ih ?_)
    rw [List.append_assoc]
    exact h'
  | skip hfits _ ih => exact .skip hfits (ih h')

theorem exists_append (h : Chosen cs taken (fixes ++ fixes') chosen) :
    ∃ first later, chosen = first ++ later ∧ Chosen cs taken fixes first ∧
      Chosen cs (taken ++ first) fixes' later := by
  induction fixes generalizing taken chosen with
  | nil =>
    refine ⟨[], chosen, rfl, .done taken, ?_⟩
    rw [List.append_nil]
    exact h
  | cons g fixes ih =>
    cases h with
    | take hfits hrest =>
      obtain ⟨first, later, rfl, hfirst, hlater⟩ := ih hrest
      refine ⟨g :: first, later, rfl, .take hfits hfirst, ?_⟩
      rw [List.append_cons]
      exact hlater
    | skip hfits hrest =>
      obtain ⟨first, later, rfl, hfirst, hlater⟩ := ih hrest
      exact ⟨first, later, rfl, .skip hfits hfirst, hlater⟩

/-- There is one choice at most. -/
theorem unique (h : Chosen cs taken fixes chosen) (h' : Chosen cs taken fixes chosen') :
    chosen = chosen' := by
  induction h generalizing chosen' with
  | done =>
    cases h'
    rfl
  | take hfits _ ih =>
    cases h' with
    | take _ hrest' => rw [ih hrest']
    | skip hno _ => exact absurd hfits hno
  | skip hno _ ih =>
    cases h' with
    | take hfits _ => exact absurd hfits hno
    | skip _ hrest' => exact ih hrest'

/-- A fix that fits beside all that is chosen is chosen. -/
theorem mem_of_fitsBeside (h : Chosen cs taken fixes chosen) (hf : f ∈ fixes)
    (hfits : f.FitsBeside cs (taken ++ chosen)) : f ∈ chosen := by
  induction h with
  | done => cases hf
  | take _ _ ih =>
    rcases List.mem_cons.1 hf with rfl | hf
    · exact List.mem_cons_self
    · rw [List.append_cons] at hfits
      exact List.mem_cons_of_mem _ (ih hf hfits)
  | skip hno _ ih =>
    rcases List.mem_cons.1 hf with rfl | hf
    · exact absurd (hfits.anti (List.subset_append_left _ _)) hno
    · exact ih hf hfits

theorem exists_holds (h : Chosen cs taken fixes chosen) {s : Selection}
    (hs : Selection.Holds cs taken s) : ∃ last, Selection.Holds cs (taken ++ chosen) last := by
  induction h generalizing s with
  | done taken =>
    refine ⟨s, ?_⟩
    rw [List.append_nil]
    exact hs
  | take hfits _ ih =>
    obtain ⟨splices, hfitting⟩ := (hs.fitsBeside_iff _).1 hfits
    obtain ⟨last, hlast⟩ := ih (hs.append hfitting)
    refine ⟨last, ?_⟩
    rw [List.append_cons]
    exact hlast
  | skip _ _ ih => exact ih hs

/-- A fix fits once more beside what is chosen exactly if it is chosen itself and only inserts. -/
theorem fitsBeside_iff (h : Chosen cs [] fixes chosen) (hf : f ∈ fixes) :
    f.FitsBeside cs chosen ↔ f ∈ chosen ∧ f.OnlyInserts cs := by
  constructor
  · intro hfits
    have hmem := h.mem_of_fitsBeside hf hfits
    exact ⟨hmem, hfits.onlyInserts hmem⟩
  · rintro ⟨hmem, hinserts⟩
    obtain ⟨_, splices, hresolution, hapart, -⟩ := h.exists_fitsBeside hmem
    obtain ⟨s, hholds⟩ := h.exists_holds Selection.holds_nil
    rw [List.nil_append] at hholds
    refine ⟨splices, hresolution, hapart, fun g hg e he t ht u hu => ?_⟩
    obtain ⟨e', he', hu'⟩ := hresolution.exists_edit hu
    by_cases htu : t = u
    · have hempty := hinserts e' he' u hu'
      rw [htu, ByteRange.Collides]
      omega
    · exact hholds.not_collides hg he ht hmem he' hu' htu

/-- After a fix is listed once more, the same fixes are chosen and, exactly if the fix is chosen
and only inserts, its copy. -/
theorem again (h : Chosen cs [] (fixes ++ fixes') chosen) (hf : f ∈ fixes) (hlater : f ∉ fixes') :
    ∃ first later, chosen = first ++ later ∧
      (f ∈ chosen ∧ f.OnlyInserts cs →
        Chosen cs [] (fixes ++ f :: fixes') (first ++ f :: later)) ∧
      (¬ (f ∈ chosen ∧ f.OnlyInserts cs) → Chosen cs [] (fixes ++ f :: fixes') chosen) := by
  obtain ⟨first, later, rfl, hfirst, hrest⟩ := h.exists_append
  have hmem : f ∈ first ++ later ↔ f ∈ first := by
    rw [List.mem_append]
    exact or_iff_left fun hf' => hlater (hrest.subset hf')
  have hfits : f.FitsBeside cs ([] ++ first) ↔ f ∈ first ++ later ∧ f.OnlyInserts cs := by
    rw [List.nil_append, hmem]
    exact hfirst.fitsBeside_iff hf
  refine ⟨first, later, rfl, fun hagain => ?_, fun hnot => ?_⟩
  · refine hfirst.append (.take (hfits.2 hagain) (hrest.congr fun g => ?_))
    rw [List.nil_append, List.mem_append, List.mem_singleton]
    exact (or_iff_left_of_imp fun hg => hg ▸ hmem.1 hagain.1).symm
  · exact hfirst.append (.skip (fun hagain => hnot (hfits.1 hagain)) hrest)

end Chosen

/-- Insertions that are made besides other edits change what comes out exactly if one of them
inserts something. -/
theorem apply_insertions_iff {source out out' : String} {insertions later : List TextEdit}
    (h : apply source (edits ++ later) = .ok out)
    (h' : apply source (edits ++ (insertions ++ later)) = .ok out')
    (hempty : ∀ e ∈ insertions, ∀ s, e.Resolves source.toList s → s.range.start = s.range.stop) :
    out' = out ↔ ∀ e ∈ insertions, e.replacement = "" := by
  obtain ⟨splices, hresolution, -, rfl⟩ := apply_eq_ok_iff.1 h
  obtain ⟨_, hresolution', hapart, rfl⟩ := apply_eq_ok_iff.1 h'
  obtain ⟨a, _, rfl, ha, hrest⟩ := hresolution'.exists_append
  obtain ⟨b, c, rfl, hb, hc⟩ := hrest.exists_append
  rw [hresolution.unique (ha.append hc), String.ofList_inj,
    Splice.applyAll_insertions_iff (fun _ => hresolution'.fitsIn) hapart]
  · constructor
    · intro htext e he
      obtain ⟨s, hs, hresolves⟩ := hb.exists_splice he
      exact String.toList_eq_nil_iff.1 (hresolves.text ▸ htext s hs)
    · intro hreplacement s hs
      obtain ⟨e, he, hresolves⟩ := hb.exists_edit hs
      rw [hresolves.text, hreplacement e he]
      rfl
  · intro s hs
    obtain ⟨e, he, hresolves⟩ := hb.exists_edit hs
    exact hempty e he s hresolves

theorem applyFixes_content {source : String} {ordered : List Fix}
    (hsmall : ∀ f ∈ fixes, ¬ f.Overflows source.toList)
    (hordered : StablyOrdered Fix.startsBefore fixes ordered)
    (hchosen : Chosen source.toList [] ordered chosen) :
    ∃ outcome, applyFixes source fixes = .ok outcome ∧
      apply source (chosen.flatMap (·.edits)) = .ok outcome.content := by
  obtain ⟨chosen', outcome, hok, hchosen', -, -, happly⟩ := applyFixes_eq_ok hsmall
  have hsorted := stablyOrdered_mergeSort Fix.startsBefore_trans Fix.startsBefore_total fixes
  rw [← hsorted.unique Fix.startsBefore_total hordered] at hchosen
  rw [hchosen.unique hchosen']
  exact ⟨outcome, hok, happly⟩

theorem takes_iff {source : String} {ordered : List Fix}
    (hsmall : ∀ g ∈ fixes, ¬ g.Overflows source.toList)
    (hordered : StablyOrdered Fix.startsBefore fixes ordered)
    (hchosen : Chosen source.toList [] ordered chosen) : Takes source fixes f ↔ f ∈ chosen := by
  constructor
  · rintro ⟨-, ordered', chosen', hordered', hchosen', hmem⟩
    rw [hordered'.unique Fix.startsBefore_total hordered] at hchosen'
    rw [hchosen.unique hchosen']
    exact hmem
  · exact fun hmem => ⟨hsmall, ordered, chosen, hordered, hchosen, hmem⟩

end

theorem exists_outcomes_again {source : String} {fixes : List Fix} {f : Fix} (hf : f ∈ fixes)
    (hsmall : ∀ g ∈ fixes, ¬ g.Overflows source.toList) :
    ∃ outcome outcome', applyFixes source fixes = .ok outcome ∧
      applyFixes source (fixes ++ [f]) = .ok outcome' ∧
      (outcome'.content = outcome.content ↔ ¬ (Takes source fixes f ∧
        f.OnlyInserts source.toList ∧ ∃ e ∈ f.edits, e.replacement ≠ "")) := by
  have hordered := stablyOrdered_mergeSort Fix.startsBefore_trans Fix.startsBefore_total fixes
  obtain ⟨chosen, _, -, hchosen, -⟩ := applyFixes_eq_ok hsmall
  obtain ⟨before, after, hsplit, -, hgreater, hordered'⟩ :=
    hordered.exists_append Fix.startsBefore_trans Fix.startsBefore_total f
  rw [hsplit] at hordered hchosen
  -- the fix is not greater than itself, so it comes before its copy
  have hlater : f ∉ after := by
    intro hf'
    have hself := Fix.startsBefore_total f f
    rw [hgreater f hf'] at hself
    cases hself
  have hbefore : f ∈ before :=
    (List.mem_append.1 (hordered.perm.mem_iff.2 hf)).resolve_right hlater
  have hsmall' : ∀ g ∈ fixes ++ [f], ¬ g.Overflows source.toList := by
    intro g hg
    rcases List.mem_append.1 hg with hg | hg
    · exact hsmall g hg
    · exact List.mem_singleton.1 hg ▸ hsmall f hf
  obtain ⟨outcome, hok, hcontent⟩ := applyFixes_content hsmall hordered hchosen
  rw [takes_iff hsmall hordered hchosen, ← and_assoc]
  obtain ⟨first, later, rfl, hagain, hskipped⟩ := hchosen.again hbefore hlater
  by_cases htwice : f ∈ first ++ later ∧ f.OnlyInserts source.toList
  · obtain ⟨outcome', hok', hcontent'⟩ := applyFixes_content hsmall' hordered' (hagain htwice)
    refine ⟨outcome, outcome', hok, hok', ?_⟩
    rw [List.flatMap_append] at hcontent hcontent'
    rw [List.flatMap_cons] at hcontent'
    rw [apply_insertions_iff hcontent hcontent' htwice.2]
    simp [htwice]
  · obtain ⟨outcome', hok', hcontent'⟩ := applyFixes_content hsmall' hordered' (hskipped htwice)
    refine ⟨outcome, outcome', hok, hok', ?_⟩
    rw [hcontent, Except.ok.injEq] at hcontent'
    exact iff_of_true hcontent'.symm fun h => htwice h.1

/-- A fix that is listed once more has no further effect, unless it was applied, all its edits are
insertions and one of them inserts something: these are made twice. -/
theorem applyFixes_again (source : String) {fixes : List Fix} {f : Fix} (hf : f ∈ fixes) :
    (applyFixes source (fixes ++ [f])).map (·.content) =
        (applyFixes source fixes).map (·.content) ↔
      ¬ (Takes source fixes f ∧ f.OnlyInserts source.toList ∧
        ∃ e ∈ f.edits, e.replacement ≠ "") := by
  by_cases hsmall : ∀ g ∈ fixes, ¬ g.Overflows source.toList
  · obtain ⟨outcome, outcome', hok, hok', hiff⟩ := exists_outcomes_again hf hsmall
    rw [hok, hok', ← hiff, Except.map, Except.map, Except.ok.injEq]
  · -- the fix that overflows stops both walks
    obtain ⟨g, hg, hlarge⟩ : ∃ g ∈ fixes, g.Overflows source.toList := by
      simpa using hsmall
    rw [applyFixes_eq_error_iff.2 ⟨g, hg, hlarge⟩,
      applyFixes_eq_error_iff.2 ⟨g, List.mem_append_left [f] hg, hlarge⟩]
    exact iff_of_true rfl fun h => hsmall h.1.1

/-- The access keyword of a method is rewritten. -/
def rewriteAccess : Fix := ⟨"Make the member 'public'", [⟨1, 1, 1, 8, "public"⟩]⟩

theorem applyFixes_again_rewriteAccess :
    rewriteAccess ∈ [rewriteAccess] ∧
      (applyFixes "private void M();" ([rewriteAccess] ++ [rewriteAccess])).map (·.content) =
        (applyFixes "private void M();" [rewriteAccess]).map (·.content) := by
  have hmem : rewriteAccess ∈ [rewriteAccess] := List.mem_singleton_self _
  refine ⟨hmem, (applyFixes_again _ hmem).2 fun ⟨_, hinserts, _⟩ => ?_⟩
  have hresolves : TextEdit.Resolves "private void M();".toList ⟨1, 1, 1, 8, "public"⟩
      ⟨⟨0, 7⟩, "public".toList⟩ := TextEdit.splice?_eq_ok_iff.1 (by decide)
  have hempty := hinserts _ List.mem_cons_self _ hresolves
  cases hempty

/-- The keyword is put before a method without one as often as the fix is listed. -/
theorem insertion_is_made_twice :
    let f : Fix := ⟨"Make the member 'public'", [.insert 1 1 "public "]⟩
    f ∈ [f] ∧
      applyFixes "void M();" [f] = .ok ⟨"public void M();", 1, 0⟩ ∧
      applyFixes "void M();" ([f] ++ [f]) = .ok ⟨"public public void M();", 2, 0⟩ := by
  intro f
  refine ⟨List.mem_singleton_self f, by decide +kernel, ?_⟩
  let s : Splice := ⟨⟨0, 0⟩, "public ".toList⟩
  have hselected : [f, f].foldlM (select "void M();".toList) ⟨[], 0, 0⟩ = .ok ⟨[s, s], 2, 0⟩ := by
    decide +kernel
  have happlied : Splice.applyAll "void M();".toList [s, s] = "public public void M();".toList := by
    rw [Splice.applyAll, List.mergeSort_of_pairwise (by decide)]
    decide +kernel
  rw [applyFixes, List.mergeSort_of_pairwise (by decide), List.singleton_append, hselected]
  simp only [bind, Except.bind, happlied, String.ofList_toList]
  rfl

end Edit

end TestLint
