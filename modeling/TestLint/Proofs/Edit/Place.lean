import TestLint.Proofs.Edit.BottomUp

/-!
# Edits at places of a source

Checks write edits at the places of what they have read.  A place that was made
from two boundaries of the source leads back to them (`Location.Covers`), so an
edit at such a place resolves, and a fix applies as soon as its edits lie
apart (`Fix.Applies`).

Offsets are held in a machine word.  A source is shorter than the word counts,
which every lemma about edits here asks for.
-/

namespace TestLint

open Text

/-! ## Places -/

namespace Location

/-- The place is that of the range, which fits the source. -/
structure Covers (source : List Char) (loc : Location) (r : ByteRange) : Prop where
  eq : loc = .ofOffsets r.start r.stop source
  fits : r.FitsIn source

/-- The first place ends before the second begins, or where it begins. -/
def Before (source : List Char) (a b : Location) : Prop :=
  ∃ r s, a.Covers source r ∧ b.Covers source s ∧ r.stop ≤ s.start

end Location

theorem Position.locates_of_fitsIn {source : List Char} {r : ByteRange} (h : r.FitsIn source) :
    (Position.ofOffset r.start source).Locates source r.start ∧
      (Position.ofOffset r.stop source).Locates source r.stop :=
  ⟨locates_iff.2 ⟨h.2.1, rfl⟩, locates_iff.2 ⟨h.2.2, rfl⟩⟩

/-- A source that a word can count has all its offsets in the word. -/
theorem ByteRange.FitsIn.stop_lt {source : List Char} {r : ByteRange} (h : r.FitsIn source)
    (hsize : byteSize source < Position.wordSize) : r.stop < Position.wordSize :=
  Nat.lt_of_le_of_lt (le_byteSize_of_isBoundary h.2.2) hsize

theorem Location.between_inj {p q p' q' : Position} (h : between p q = between p' q') :
    p = p' ∧ q = q' := by
  obtain ⟨line, column⟩ := p
  obtain ⟨line', column'⟩ := p'
  obtain ⟨endLine, endColumn⟩ := q
  obtain ⟨endLine', endColumn'⟩ := q'
  cases h
  exact ⟨rfl, rfl⟩

/-- The part between two others is covered by its place. -/
theorem Location.covers_between (a b c : List Char) :
    (Location.ofOffsets (byteSize a) (byteSize (a ++ b)) (a ++ b ++ c)).Covers (a ++ b ++ c)
      ⟨byteSize a, byteSize (a ++ b)⟩ := by
  refine ⟨rfl, ?_, ?_, isBoundary_byteSize _ _⟩
  · rw [byteSize_append]
    exact Nat.le_add_right _ _
  · rw [List.append_assoc]
    exact isBoundary_byteSize _ _

/-- A place covers one range at most. -/
theorem Location.Covers.unique {source : List Char} {loc : Location} {r s : ByteRange}
    (h : loc.Covers source r) (h' : loc.Covers source s) : r = s := by
  obtain ⟨hstart, hstop⟩ := Position.locates_of_fitsIn h.fits
  obtain ⟨hstart', hstop'⟩ := Position.locates_of_fitsIn h'.fits
  obtain ⟨hfirst, hlast⟩ := between_inj (h.eq.symm.trans h'.eq)
  rw [hfirst] at hstart
  rw [hlast] at hstop
  obtain ⟨start, stop⟩ := r
  obtain ⟨start', stop'⟩ := s
  exact congr (congrArg ByteRange.mk (hstart.unique hstart')) (hstop.unique hstop')

namespace TextEdit

variable {source : List Char} (hsize : byteSize source < Position.wordSize)

include hsize in
theorem resolves_replaceSpan {a b : Location} {r s : ByteRange} (ha : a.Covers source r)
    (hb : b.Covers source s) (hle : r.start ≤ s.stop) (text : String) :
    (replaceSpan a b text).Resolves source ⟨⟨r.start, s.stop⟩, text.toList⟩ := by
  obtain ⟨rfl, hr⟩ := ha
  obtain ⟨rfl, hs⟩ := hb
  exact ⟨(Position.locates_of_fitsIn hr).1, (Position.locates_of_fitsIn hs).2, hle,
    hs.stop_lt hsize, rfl⟩

include hsize in
theorem resolves_replace {a : Location} {r : ByteRange} (ha : a.Covers source r) (text : String) :
    (replace a text).Resolves source ⟨r, text.toList⟩ :=
  resolves_replaceSpan hsize ha ha ha.fits.1 text

include hsize in
theorem resolves_insert {a : Location} {r : ByteRange} (ha : a.Covers source r) (text : String) :
    (insert a.line a.column text).Resolves source ⟨⟨r.start, r.start⟩, text.toList⟩ := by
  obtain ⟨rfl, hr⟩ := ha
  have hlocates := (Position.locates_of_fitsIn hr).1
  exact ⟨hlocates, hlocates, Nat.le_refl _, Nat.lt_of_le_of_lt hr.1 (hr.stop_lt hsize), rfl⟩

end TextEdit

/-- An edit of the part between two others gives its place to the new text. -/
theorem Edit.apply_between {a b c : List Char} {e : TextEdit} {s : Splice}
    (h : e.Resolves (a ++ b ++ c) s) (hstart : byteSize a = s.range.start)
    (hstop : byteSize (a ++ b) = s.range.stop) :
    apply (String.ofList (a ++ b ++ c)) [e] = .ok (String.ofList (a ++ s.text ++ c)) := by
  rw [apply_singleton h, Splice.apply_parts s hstart hstop]

/-- An insertion where the second of two parts begins. -/
theorem Edit.apply_insert_between {a c : List Char} {loc : Location} {r : ByteRange}
    (hsize : byteSize (a ++ c) < Position.wordSize) (hcovers : loc.Covers (a ++ c) r)
    (hstart : byteSize a = r.start) (text : String) :
    apply (String.ofList (a ++ c)) [.insert loc.line loc.column text] =
      .ok (String.ofList (a ++ text.toList ++ c)) := by
  have hresolves := TextEdit.resolves_insert hsize hcovers text
  rw [← List.append_nil a] at hresolves ⊢
  rw [apply_between hresolves hstart (by rw [List.append_nil, hstart]), List.append_nil]

/-! ## Fixes that apply -/

namespace Fix

/-- The edits of the fix can be made in the source. -/
def Applies (source : List Char) (fix : Fix) : Prop :=
  ∃ out, Edit.apply (String.ofList source) fix.edits = .ok out

theorem applies_of_resolution {source : List Char} {fix : Fix} {splices : List Splice}
    (h : Edit.Resolution source fix.edits splices) (hapart : splices.Pairwise Edit.NoOverlap) :
    fix.Applies source := by
  refine ⟨_, Edit.apply_eq_ok_iff.2 ⟨splices, ?_, hapart, rfl⟩⟩
  rw [String.toList_ofList]
  exact h

theorem applies_single {source : List Char} {description : String} {e : TextEdit} {s : Splice}
    (h : e.Resolves source s) : Applies source ⟨description, [e]⟩ :=
  applies_of_resolution (.cons h .nil) (List.pairwise_singleton _ _)

/-- Two edits that are made apart from each other, in either order, apply. -/
theorem applies_pair {source : List Char} {description : String} {e e' : TextEdit} {s s' : Splice}
    (h : e.Resolves source s) (h' : e'.Resolves source s')
    (hapart : s.range.stop ≤ s'.range.start ∨ s'.range.stop ≤ s.range.start) :
    Applies source ⟨description, [e, e']⟩ := by
  refine applies_of_resolution (.cons h (.cons h' .nil)) (List.pairwise_pair.2 ?_)
  rw [Edit.NoOverlap, Bool.eq_false_iff, ne_eq, ByteRange.overlaps_iff]
  omega

end Fix

end TestLint
