import TestLint.Edit
import TestLint.Proofs.StableOrder
import TestLint.Proofs.Text.Boundary

/-!
# Splicing from the last range to the first

`Splice.applyAll` replaces ranges of a text in descending order, with offsets
that were found in the text as it was.  This is right because what stands
before a range is still as it was when the range is replaced: the invariant of
the walk over the splices in ascending order (`exists_joined`).

The result is said without offsets into changed texts: the source is cut at the
ranges in ascending order, and the texts take the places of the parts cut out
(`Splice.Joined`).
-/

namespace TestLint

open Text

/-! ## Ranges -/

namespace ByteRange

/-- The range goes forward between two boundaries of the text. -/
def FitsIn (r : ByteRange) (cs : List Char) : Prop :=
  r.start ≤ r.stop ∧ isBoundary r.start cs = true ∧ isBoundary r.stop cs = true

/-- The ranges share a byte, or one is a point strictly inside the other. -/
def Collides (a b : ByteRange) : Prop :=
  (∃ n, (a.start ≤ n ∧ n < a.stop) ∧ b.start ≤ n ∧ n < b.stop) ∨
    (a.start = a.stop ∧ b.start < a.start ∧ a.start < b.stop) ∨
    (b.start = b.stop ∧ a.start < b.start ∧ b.start < a.stop)

theorem overlaps_iff (a b : ByteRange) :
    a.overlaps b = true ↔ a.start < b.stop ∧ b.start < a.stop := by
  rw [overlaps, Bool.and_eq_true, decide_eq_true_eq, decide_eq_true_eq]

/-- For forward ranges the test of the ends finds exactly the collisions. -/
theorem overlaps_iff_collides {a b : ByteRange} (ha : a.start ≤ a.stop) (hb : b.start ≤ b.stop) :
    a.overlaps b = true ↔ a.Collides b := by
  rw [overlaps_iff]
  constructor
  · intro h
    by_cases hea : a.start = a.stop
    · exact .inr (.inl ⟨hea, by omega⟩)
    · by_cases heb : b.start = b.stop
      · exact .inr (.inr ⟨heb, by omega⟩)
      · exact .inl ⟨max a.start b.start, by omega⟩
  · rintro (⟨n, hn⟩ | h | h) <;> omega

theorem overlaps_comm (a b : ByteRange) : a.overlaps b = b.overlaps a :=
  Bool.and_comm _ _

theorem le_iff (a b : ByteRange) :
    a.le b = true ↔ a.start < b.start ∨ (a.start = b.start ∧ a.stop ≤ b.stop) := by
  rw [le, Bool.or_eq_true, Bool.and_eq_true, beq_iff_eq, decide_eq_true_eq, decide_eq_true_eq]

theorem le_trans (a b c : ByteRange) (hab : a.le b = true) (hbc : b.le c = true) :
    a.le c = true := by
  rw [le_iff] at *
  omega

theorem le_total (a b : ByteRange) : (a.le b || b.le a) = true := by
  rw [Bool.or_eq_true, le_iff, le_iff]
  omega

/-- Of two ranges that do not overlap, the one that comes first ends first. -/
theorem stop_le_of_le {a b : ByteRange} (hb : b.start ≤ b.stop) (hle : a.le b = true)
    (hapart : a.overlaps b = false) : a.stop ≤ b.start := by
  rw [Bool.eq_false_iff, ne_eq, overlaps_iff] at hapart
  rw [le_iff] at hle
  omega

end ByteRange

/-! ## Cutting and joining -/

namespace Splice

/-- The text `out` is the rest of a source from an offset on, cut at the ranges
of the splices in their order, each range replaced by its text. -/
inductive Joined : Nat → List Splice → List Char → List Char → Prop
  | rest (offset : Nat) (cs : List Char) : Joined offset [] cs cs
  | cut {offset : Nat} {s : Splice} {splices : List Splice} {kept removed cs out : List Char}
      (hstart : s.range.start = offset + byteSize kept)
      (hstop : s.range.stop = s.range.start + byteSize removed)
      (htail : Joined s.range.stop splices cs out) :
      Joined offset (s :: splices) (kept ++ removed ++ cs) (kept ++ s.text ++ out)

/-- Every splice, when its turn comes, fits the text as it then is. -/
def MadeSafely (cs : List Char) : List Splice → Prop
  | [] => True
  | s :: splices => s.range.FitsIn cs ∧ MadeSafely (apply cs s) splices

theorem madeSafely_append {cs : List Char} (splices later : List Splice) :
    MadeSafely cs (splices ++ later) ↔
      MadeSafely cs splices ∧ MadeSafely (splices.foldl apply cs) later := by
  induction splices generalizing cs with
  | nil => exact iff_of_eq (true_and _).symm
  | cons s splices ih =>
    rw [List.cons_append, MadeSafely, MadeSafely, ih, List.foldl_cons, and_assoc]

/-- A splice replaces the part between two others. -/
theorem apply_parts (s : Splice) {a b c : List Char} (hstart : byteSize a = s.range.start)
    (hstop : byteSize (a ++ b) = s.range.stop) : apply (a ++ b ++ c) s = a ++ s.text ++ c := by
  unfold apply
  rw [← hstop, dropBytes_byteSize, ← hstart, List.append_assoc a b c, takeBytes_byteSize]

/-- The walk over splices in ascending order, of which the last is made first.
All of the source up to the first range stays as it was, so every splice finds
its range where it was resolved. -/
theorem exists_joined {source : List Char} {ordered : List Splice}
    (hfits : ∀ s ∈ ordered, s.range.FitsIn source)
    (hordered : ordered.Pairwise fun a b => a.range.stop ≤ b.range.start) :
    ∀ done rest, done ++ rest = source → (∀ s ∈ ordered, byteSize done ≤ s.range.start) →
      ∃ out, Joined (byteSize done) ordered rest out ∧
        ordered.reverse.foldl apply source = done ++ out ∧
        MadeSafely source ordered.reverse := by
  induction ordered with
  | nil =>
    intro done rest hsource _
    exact ⟨rest, .rest _ _, hsource.symm, trivial⟩
  | cons s ordered ih =>
    intro done rest hsource hstart
    obtain ⟨hforward, hboundary, hboundary'⟩ := hfits s List.mem_cons_self
    obtain ⟨a, b, c, hparts, ha, hab⟩ :=
      exists_parts_of_isBoundary hboundary hboundary' hforward
    obtain ⟨kept, rfl⟩ : ∃ kept, a = done ++ kept := by
      have hle : byteSize done ≤ byteSize a := ha ▸ hstart s List.mem_cons_self
      exact exists_append_of_byteSize_le (hsource.trans (by rw [← hparts, List.append_assoc])) hle
    have hrest : rest = kept ++ b ++ c := by
      rw [← hparts] at hsource
      simpa only [List.append_assoc, List.append_cancel_left_eq] using hsource
    obtain ⟨hfirst, htail⟩ := List.pairwise_cons.1 hordered
    obtain ⟨out, hjoined, hfold, hsafe⟩ :=
      ih (fun t ht => hfits t (List.mem_cons_of_mem s ht)) htail (done ++ kept ++ b) c hparts
        (fun t ht => hab ▸ hfirst t ht)
    have happly := apply_parts s (c := out) ha hab
    refine ⟨kept ++ s.text ++ out, ?_, ?_, ?_⟩
    · rw [hrest]
      refine .cut ?_ ?_ (hab ▸ hjoined)
      · rw [← ha, byteSize_append]
      · rw [← ha, ← hab, byteSize_append (done ++ kept)]
    · rw [List.reverse_cons, List.foldl_append, hfold, List.foldl_cons, List.foldl_nil, happly]
      simp only [List.append_assoc]
    · rw [List.reverse_cons, madeSafely_append, hfold]
      refine ⟨hsafe, ⟨hforward, ?_, ?_⟩, trivial⟩
      · rw [← ha, List.append_assoc (done ++ kept)]
        exact isBoundary_byteSize _ _
      · rw [← hab]
        exact isBoundary_byteSize _ _

/-- Splices in ascending order of their ranges. -/
def Ascending (splices ordered : List Splice) : Prop :=
  StablyOrdered (fun a b => a.range.le b.range) splices.reverse ordered

/-- Making splices that fit a text and do not overlap joins the text anew, with
of insertions at one point the one that is first in the list made first. -/
theorem applyAll_joined {source : List Char} {splices : List Splice}
    (hfits : ∀ s ∈ splices, s.range.FitsIn source)
    (hapart : splices.Pairwise fun a b => a.range.overlaps b.range = false) :
    ∃ ordered, Ascending splices ordered ∧
      Joined 0 ordered source (applyAll source splices) ∧
      MadeSafely source (splices.mergeSort fun a b => b.range.le a.range) := by
  let descending := splices.mergeSort fun a b => b.range.le a.range
  have hstable : StablyOrdered (fun a b => b.range.le a.range) splices descending :=
    stablyOrdered_mergeSort
      (fun a b c hab hbc => ByteRange.le_trans c.range b.range a.range hbc hab)
      (fun a b => ByteRange.le_total b.range a.range) splices
  have hascending : Ascending splices descending.reverse := hstable.reverse
  have hfits' : ∀ s ∈ descending.reverse, s.range.FitsIn source := by
    intro s hs
    exact hfits s (hstable.perm.mem_iff.1 (List.mem_reverse.1 hs))
  have hapart' : descending.reverse.Pairwise fun a b => a.range.overlaps b.range = false := by
    refine (List.Perm.pairwise_iff ?_ ((List.reverse_perm _).trans hstable.perm)).2 hapart
    intro a b h
    rw [ByteRange.overlaps_comm]
    exact h
  have hends : descending.reverse.Pairwise fun a b => a.range.stop ≤ b.range.start := by
    refine (hascending.sorted.and hapart').imp_of_mem ?_
    intro a b _ hb h
    exact ByteRange.stop_le_of_le (hfits' b hb).1 h.1 h.2
  obtain ⟨out, hjoined, hfold, hsafe⟩ :=
    exists_joined hfits' hends [] source rfl (fun s _ => Nat.zero_le _)
  rw [List.reverse_reverse] at hfold hsafe
  refine ⟨descending.reverse, hascending, ?_, hsafe⟩
  have hall : applyAll source splices = out := hfold
  rw [hall]
  exact hjoined

end Splice

end TestLint
