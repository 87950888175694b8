import TestLint.Proofs.Edit.Apply

/-!
# Edits made one after the other

Edits that apply together can be made one by one, the one whose range comes last first, each
resolved in the text as it then is (`Edit.apply_eq_applyEach`).

What comes before a range stays as it was while later ranges are replaced, so the positions of
an earlier edit go on to locate the same offsets (`TextEdit.Resolves.congr`): the invariant of
the walk over the edits (`Edit.applyEach_eq`).
-/

namespace TestLint

open Text

namespace Edit

/-- The edits with what they resolve to, the one whose range comes last first, equal ranges as
they are listed. -/
def Descending (source : List Char) (edits : List TextEdit)
    (resolved : List (TextEdit × Splice)) : Prop :=
  ∃ splices, Resolution source edits splices ∧
    StablyOrdered (fun a b => b.2.range.le a.2.range) (edits.zip splices) resolved

/-- The text with the edits made one after the other, each in the text that the one before it
gives. -/
def applyEach (text : String) (edits : List TextEdit) : Except EditFailure String :=
  edits.foldlM (fun text e => apply text [e]) text

theorem apply_singleton {text : List Char} {e : TextEdit} {s : Splice} (h : e.Resolves text s) :
    apply (String.ofList text) [e] = .ok (String.ofList (s.apply text)) := by
  refine apply_eq_ok_iff.2 ⟨[s], ?_, List.pairwise_singleton _ _, ?_⟩
  · rw [String.toList_ofList]
    exact .cons h .nil
  · rw [String.toList_ofList, Splice.applyAll, List.mergeSort_singleton]
    rfl

theorem Resolution.resolves_of_mem_zip {cs : List Char} {edits : List TextEdit}
    {splices : List Splice} (h : Resolution cs edits splices) {x : TextEdit × Splice}
    (hx : x ∈ edits.zip splices) : x.1.Resolves cs x.2 :=
  (List.forall₂_iff_zip.1 h).2 hx

theorem Resolution.map_snd_zip {cs : List Char} {edits : List TextEdit} {splices : List Splice}
    (h : Resolution cs edits splices) : (edits.zip splices).map (·.2) = splices :=
  List.map_snd_zip (Nat.le_of_eq (List.Forall₂.length_eq h).symm)

section

variable {source : List Char} {edits : List TextEdit} {splices : List Splice}
  {resolved : List (TextEdit × Splice)}

theorem descending_trans (x y z : TextEdit × Splice) (hxy : y.2.range.le x.2.range = true)
    (hyz : z.2.range.le y.2.range = true) : z.2.range.le x.2.range = true :=
  ByteRange.le_trans _ _ _ hyz hxy

theorem descending_total (x y : TextEdit × Splice) :
    (y.2.range.le x.2.range || x.2.range.le y.2.range) = true :=
  ByteRange.le_total _ _

theorem descending_mergeSort (h : Resolution source edits splices) :
    Descending source edits ((edits.zip splices).mergeSort fun x y => y.2.range.le x.2.range) :=
  ⟨splices, h, stablyOrdered_mergeSort descending_trans descending_total _⟩

/-- The ranges are in the order in which they are replaced when all edits are made at once. -/
theorem Descending.map_snd (h : Descending source edits resolved)
    (hsplices : Resolution source edits splices) :
    resolved.map (·.2) = splices.mergeSort fun a b => b.range.le a.range := by
  obtain ⟨splices', hsplices', hordered⟩ := h
  obtain rfl : splices' = splices := hsplices'.unique hsplices
  have hsorted := hordered.unique descending_total
    (stablyOrdered_mergeSort descending_trans descending_total _)
  let later (a b : Splice) : Bool := b.range.le a.range
  calc resolved.map (·.2)
      = ((edits.zip splices').mergeSort fun x y => later x.2 y.2).map (·.2) := by rw [hsorted]
    _ = ((edits.zip splices').map (·.2)).mergeSort later :=
        List.map_mergeSort fun _ _ _ _ => rfl
    _ = splices'.mergeSort later := by rw [hsplices.map_snd_zip]

theorem Descending.resolves (h : Descending source edits resolved) {x : TextEdit × Splice}
    (hx : x ∈ resolved) : x.1 ∈ edits ∧ x.1.Resolves source x.2 := by
  obtain ⟨splices, hsplices, hordered⟩ := h
  have hzip := hordered.perm.mem_iff.1 hx
  exact ⟨(List.of_mem_zip hzip).1, hsplices.resolves_of_mem_zip hzip⟩

/-- Of two edits that do not overlap, the one made later ends before the other begins. -/
theorem Descending.stop_le (h : Descending source edits resolved)
    (hsplices : Resolution source edits splices) (hapart : splices.Pairwise NoOverlap) :
    resolved.Pairwise fun x y => y.2.range.stop ≤ x.2.range.start := by
  have hapart' : (resolved.map (·.2)).Pairwise NoOverlap := by
    rw [h.map_snd hsplices]
    exact ((List.mergeSort_perm _ _).pairwise_iff NoOverlap.symm).2 hapart
  obtain ⟨_, -, hordered⟩ := id h
  refine (hordered.sorted.and (List.pairwise_map.1 hapart')).imp_of_mem fun {x y} hx _ hxy => ?_
  exact ByteRange.stop_le_of_le (h.resolves hx).2.forward hxy.1 hxy.2.symm

end

/-- One after the other, edits in descending order replace the ranges that they had at first. -/
theorem applyEach_eq {resolved : List (TextEdit × Splice)} {text : List Char}
    (hresolves : ∀ x ∈ resolved, x.1.Resolves text x.2)
    (hdescending : resolved.Pairwise fun x y => y.2.range.stop ≤ x.2.range.start) :
    applyEach (String.ofList text) (resolved.map (·.1)) =
      .ok (String.ofList ((resolved.map (·.2)).foldl Splice.apply text)) := by
  induction resolved generalizing text with
  | nil => rfl
  | cons x rest ih =>
    obtain ⟨e, s⟩ := x
    obtain ⟨hlater, hdescending⟩ := List.pairwise_cons.1 hdescending
    have hhead := hresolves (e, s) List.mem_cons_self
    obtain ⟨hforward, hstart, hstop⟩ := hhead.fitsIn
    obtain ⟨a, b, c, rfl, ha, hab⟩ := exists_parts_of_isBoundary hstart hstop hforward
    have hmade : s.apply (a ++ b ++ c) = a ++ (s.text ++ c) := by
      rw [Splice.apply_parts s ha hab, List.append_assoc]
    have hkept : ∀ x ∈ rest, x.1.Resolves (a ++ (s.text ++ c)) x.2 := by
      intro x hx
      have hx' := hresolves x (List.mem_cons_of_mem _ hx)
      rw [List.append_assoc] at hx'
      exact hx'.congr (ha ▸ hlater x hx)
    rw [List.map_cons, List.map_cons, List.foldl_cons, hmade, ← ih hkept hdescending, applyEach,
      List.foldlM_cons, apply_singleton hhead, hmade]
    rfl

/-- Edits that apply can be made one after the other, in descending order of their ranges, and
give the same text. -/
theorem apply_eq_applyEach {source out : String} {edits : List TextEdit}
    (happly : apply source edits = .ok out) :
    (∃ resolved, Descending source.toList edits resolved) ∧
      ∀ resolved, Descending source.toList edits resolved →
        applyEach source (resolved.map (·.1)) = .ok out := by
  obtain ⟨splices, hsplices, hapart, rfl⟩ := apply_eq_ok_iff.1 happly
  refine ⟨⟨_, descending_mergeSort hsplices⟩, fun resolved hresolved => ?_⟩
  have heach := applyEach_eq (fun x hx => (hresolved.resolves hx).2)
    (hresolved.stop_le hsplices hapart)
  rw [String.ofList_toList, hresolved.map_snd hsplices] at heach
  exact heach

/-- A newline is taken out of the first line, and a letter put into the last. -/
def joinLines : List TextEdit := [⟨1, 2, 2, 1, ""⟩, .insert 3 1 "x"]

theorem apply_eq_applyEach_joinLines :
    apply "a\nb\nc" joinLines = .ok "ab\nxc" ∧
      applyEach "a\nb\nc" joinLines.reverse = .ok "ab\nxc" := by
  have hresolution : Resolution "a\nb\nc".toList joinLines [⟨⟨1, 2⟩, []⟩, ⟨⟨4, 4⟩, ['x']⟩] :=
    .cons (TextEdit.splice?_eq_ok_iff.1 (by decide))
      (.cons (TextEdit.splice?_eq_ok_iff.1 (by decide)) .nil)
  have hdescending := descending_mergeSort hresolution
  have happly : apply "a\nb\nc" joinLines = .ok "ab\nxc" := by
    refine apply_eq_ok_iff.2 ⟨_, hresolution, List.pairwise_pair.2 rfl, ?_⟩
    rw [Splice.applyAll, mergeSort_pair_of_not_le (by decide)]
    decide
  have heach := (apply_eq_applyEach happly).2 _ hdescending
  rw [joinLines, List.zip_cons_cons, List.zip_cons_cons, List.zip_nil_left,
    mergeSort_pair_of_not_le (by decide)] at heach
  exact ⟨happly, heach⟩

end Edit

end TestLint
