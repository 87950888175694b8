import Mathlib.Data.List.Forall2
import TestLint.Proofs.Edit.Offset
import TestLint.Proofs.Edit.Splicing

/-!
# When edits apply, and to what

The edits of one fix apply exactly when each of them resolves to a forward range
of the source and no two of the ranges collide.  The result is then the source
cut at the ranges and joined anew with the replacements (`apply_spec`).

`Edit.resolve` goes through the edits in order and compares each with all
before it; `resolve_eq_ok_iff` says what it has found when it comes to the end,
for any splices taken before it starts, and `resolve_eq_overflow_iff` when it
stops at a column that is too large.
-/

namespace TestLint

open Text

/-! ## What an edit resolves to -/

namespace TextEdit

/-- The splice replaces what lies between the two positions of the edit, of
which the second is not before the first, by the edit's text.  Its offsets are
machine words. -/
structure Resolves (cs : List Char) (e : TextEdit) (s : Splice) : Prop where
  start : (Position.mk e.startLine e.startColumn).Locates cs s.range.start
  stop : (Position.mk e.endLine e.endColumn).Locates cs s.range.stop
  forward : s.range.start ≤ s.range.stop
  word : s.range.stop < Position.wordSize
  text : s.text = e.replacement.toList

/-- The first column of the edit is too large, or, after a first position that
is in the text, the second. -/
def Overflows (cs : List Char) (e : TextEdit) : Prop :=
  (Position.mk e.startLine e.startColumn).Overflows cs ∨
    (∃ start < Position.wordSize, (Position.mk e.startLine e.startColumn).Locates cs start) ∧
      (Position.mk e.endLine e.endColumn).Overflows cs

theorem Resolves.fitsIn {cs : List Char} {e : TextEdit} {s : Splice} (h : e.Resolves cs s) :
    s.range.FitsIn cs :=
  ⟨h.forward, h.start.isBoundary, h.stop.isBoundary⟩

/-- What comes after the range does not matter. -/
theorem Resolves.congr {before after after' : List Char} {e : TextEdit} {s : Splice}
    (h : e.Resolves (before ++ after) s) (hle : s.range.stop ≤ byteSize before) :
    e.Resolves (before ++ after') s :=
  ⟨h.start.congr (Nat.le_trans h.forward hle), h.stop.congr hle, h.forward, h.word, h.text⟩

theorem range?_eq_ok_iff {cs : List Char} {e : TextEdit} {r : ByteRange} :
    e.range? cs = .ok r ↔
      (Position.mk e.startLine e.startColumn).offset? cs = .ok r.start ∧
        (Position.mk e.endLine e.endColumn).offset? cs = .ok r.stop ∧ r.start ≤ r.stop := by
  obtain ⟨start, stop⟩ := r
  unfold range?
  cases hstart : (Position.mk e.startLine e.startColumn).offset? cs with
  | error failure => simp [bind, Except.bind]
  | ok m =>
    cases hstop : (Position.mk e.endLine e.endColumn).offset? cs with
    | error failure => simp [bind, Except.bind]
    | ok n =>
      simp only [bind, Except.bind]
      by_cases hlt : n < m
      · rw [if_pos hlt]
        constructor
        · intro h
          cases h
        · rintro ⟨hm, hn, hle⟩
          cases hm
          cases hn
          exact absurd hlt (Nat.not_lt_of_le hle)
      · rw [if_neg hlt]
        constructor
        · intro h
          cases h
          exact ⟨rfl, rfl, Nat.le_of_not_lt hlt⟩
        · rintro ⟨hm, hn, -⟩
          cases hm
          cases hn
          rfl

theorem range?_eq_overflow_iff {cs : List Char} {e : TextEdit} :
    e.range? cs = .error .overflow ↔ e.Overflows cs := by
  simp only [Overflows, ← Position.offset?_eq_overflow_iff]
  have hlocated : (∃ start < Position.wordSize,
      (Position.mk e.startLine e.startColumn).Locates cs start) ↔
      ∃ start, (Position.mk e.startLine e.startColumn).offset? cs = .ok start :=
    exists_congr fun start => by rw [Position.offset?_eq_ok_iff, and_comm]
  rw [hlocated]
  unfold range?
  cases hstart : (Position.mk e.startLine e.startColumn).offset? cs with
  | error failure => simp [bind, Except.bind]
  | ok m =>
    cases hstop : (Position.mk e.endLine e.endColumn).offset? cs with
    | error failure => simp [bind, Except.bind]
    | ok n =>
      simp only [bind, Except.bind]
      split <;> simp

theorem splice?_eq_ok_iff {cs : List Char} {e : TextEdit} {s : Splice} :
    e.splice? cs = .ok s ↔ e.Resolves cs s := by
  have hresolves : e.Resolves cs s ↔ e.range? cs = .ok s.range ∧ s.text = e.replacement.toList := by
    simp only [range?_eq_ok_iff, Position.offset?_eq_ok_iff]
    constructor
    · intro h
      have hstart := Nat.lt_of_le_of_lt h.forward h.word
      exact ⟨⟨⟨h.start, hstart⟩, ⟨h.stop, h.word⟩, h.forward⟩, h.text⟩
    · rintro ⟨⟨⟨hstart, -⟩, ⟨hstop, hword⟩, hforward⟩, htext⟩
      exact ⟨hstart, hstop, hforward, hword, htext⟩
  obtain ⟨range, text⟩ := s
  rw [hresolves, splice?]
  cases hrange : e.range? cs with
  | error failure => simp [Except.map]
  | ok r =>
    simp only [Except.map, Except.ok.injEq, Splice.mk.injEq]
    exact and_congr_right' eq_comm

theorem splice?_eq_overflow_iff {cs : List Char} {e : TextEdit} :
    e.splice? cs = .error .overflow ↔ e.Overflows cs := by
  rw [← range?_eq_overflow_iff, splice?]
  cases e.range? cs <;> simp [Except.map]

theorem Overflows.not_resolves {cs : List Char} {e : TextEdit} {s : Splice} (h : e.Overflows cs) :
    ¬ e.Resolves cs s := by
  rw [← splice?_eq_ok_iff, splice?_eq_overflow_iff.2 h]
  exact nofun

/-- An edit resolves to one splice at most. -/
theorem Resolves.unique {cs : List Char} {e : TextEdit} {s s' : Splice} (h : e.Resolves cs s)
    (h' : e.Resolves cs s') : s = s' := by
  have hok := splice?_eq_ok_iff.2 h
  rw [splice?_eq_ok_iff.2 h'] at hok
  cases hok
  rfl

end TextEdit

namespace Edit

/-- The edits resolve to the splices, each to the one in its place. -/
def Resolution (cs : List Char) (edits : List TextEdit) (splices : List Splice) : Prop :=
  List.Forall₂ (TextEdit.Resolves cs) edits splices

/-- Edits resolve in one way at most. -/
theorem Resolution.unique {cs : List Char} {edits : List TextEdit} {splices splices' : List Splice}
    (h : Resolution cs edits splices) (h' : Resolution cs edits splices') :
    splices = splices' := by
  induction h generalizing splices' with
  | nil =>
    cases h'
    rfl
  | cons hs _ ih =>
    cases h' with
    | cons hs' htail' => rw [hs.unique hs', ih htail']

theorem Resolution.append {cs : List Char} {edits edits' : List TextEdit}
    {splices splices' : List Splice} (h : Resolution cs edits splices)
    (h' : Resolution cs edits' splices') :
    Resolution cs (edits ++ edits') (splices ++ splices') := by
  induction h with
  | nil => exact h'
  | cons hs _ ih => exact .cons hs ih

theorem Resolution.exists_edit {cs : List Char} {edits : List TextEdit} {splices : List Splice}
    (h : Resolution cs edits splices) {s : Splice} (hs : s ∈ splices) :
    ∃ e ∈ edits, e.Resolves cs s := by
  induction h with
  | nil => cases hs
  | @cons e _ _ _ he _ ih =>
    rcases List.mem_cons.1 hs with rfl | hs
    · exact ⟨e, List.mem_cons_self, he⟩
    · obtain ⟨e', he', hresolves⟩ := ih hs
      exact ⟨e', List.mem_cons_of_mem e he', hresolves⟩

theorem Resolution.mem_of_resolves {cs : List Char} {edits : List TextEdit} {splices : List Splice}
    (h : Resolution cs edits splices) {e : TextEdit} (he : e ∈ edits) {s : Splice}
    (hs : e.Resolves cs s) : s ∈ splices := by
  induction h with
  | nil => cases he
  | @cons _ s' _ _ hs' _ ih =>
    rcases List.mem_cons.1 he with rfl | he
    · rw [hs.unique hs']
      exact List.mem_cons_self
    · exact List.mem_cons_of_mem s' (ih he)

theorem Resolution.fitsIn {cs : List Char} {edits : List TextEdit} {splices : List Splice}
    (h : Resolution cs edits splices) {s : Splice} (hs : s ∈ splices) : s.range.FitsIn cs := by
  obtain ⟨_, -, hresolves⟩ := h.exists_edit hs
  exact hresolves.fitsIn

/-! ## Going through the edits -/

/-- The ranges of the splices do not overlap. -/
def NoOverlap (s t : Splice) : Prop := s.range.overlaps t.range = false

theorem NoOverlap.symm {s t : Splice} (h : NoOverlap s t) : NoOverlap t s := by
  rw [NoOverlap, ByteRange.overlaps_comm]
  exact h

/-- All that can become of the first edit: the walk goes on with its splice taken as well, or it
stops there. -/
theorem resolve_cons_cases (cs : List Char) (taken : List Splice) (e : TextEdit)
    (edits : List TextEdit) :
    (∃ s, e.Resolves cs s ∧ (∀ t ∈ taken, NoOverlap t s) ∧
      resolve cs taken (e :: edits) = resolve cs (taken ++ [s]) edits) ∨
    (e.Overflows cs ∧ resolve cs taken (e :: edits) = .error .overflow) ∨
    ((∀ s, e.Resolves cs s → ∃ t ∈ taken, ¬ NoOverlap t s) ∧ ¬ e.Overflows cs ∧
      ∃ cause, resolve cs taken (e :: edits) = .error (.refused cause)) := by
  simp only [← TextEdit.splice?_eq_ok_iff, ← TextEdit.splice?_eq_overflow_iff, resolve]
  cases e.splice? cs with
  | error failure => cases failure <;> simp [bind, Except.bind]
  | ok s =>
    simp only [bind, Except.bind]
    by_cases hany : (taken.any fun t => t.range.overlaps s.range) = true
    · obtain ⟨t, ht, hover⟩ := List.any_eq_true.1 hany
      rw [if_pos hany]
      refine .inr (.inr ⟨?_, nofun, _, rfl⟩)
      rintro _ ⟨⟩
      refine ⟨t, ht, ?_⟩
      rw [NoOverlap, hover]
      exact nofun
    · rw [if_neg hany]
      refine .inl ⟨s, rfl, fun t ht => ?_, rfl⟩
      cases hover : t.range.overlaps s.range with
      | false => exact hover
      | true => exact absurd (List.any_eq_true.2 ⟨t, ht, hover⟩) hany

theorem resolve_cons {cs : List Char} {taken : List Splice} {e : TextEdit} {edits : List TextEdit}
    {s : Splice} (hs : e.Resolves cs s) (hno : ∀ t ∈ taken, NoOverlap t s) :
    resolve cs taken (e :: edits) = resolve cs (taken ++ [s]) edits := by
  rcases resolve_cons_cases cs taken e edits with ⟨s', hs', -, heq⟩ | ⟨hlarge, -⟩ | ⟨hnone, -⟩
  · rw [heq, hs'.unique hs]
  · exact absurd hs hlarge.not_resolves
  · obtain ⟨t, ht, hover⟩ := hnone s hs
    exact absurd (hno t ht) hover

theorem resolve_cons_eq_ok_iff {cs : List Char} {taken all : List Splice} {e : TextEdit}
    {edits : List TextEdit} : resolve cs taken (e :: edits) = .ok all ↔
      ∃ s, e.Resolves cs s ∧ (∀ t ∈ taken, NoOverlap t s) ∧
        resolve cs (taken ++ [s]) edits = .ok all := by
  constructor
  · intro h
    rcases resolve_cons_cases cs taken e edits with ⟨s, hs, hno, heq⟩ | ⟨-, heq⟩ |
      ⟨-, -, cause, heq⟩
    · exact ⟨s, hs, hno, heq.symm.trans h⟩
    · cases heq.symm.trans h
    · cases heq.symm.trans h
  · rintro ⟨s, hs, hno, h⟩
    rwa [resolve_cons hs hno]

theorem resolve_eq_ok_iff {cs : List Char} {taken all : List Splice} {edits : List TextEdit} :
    resolve cs taken edits = .ok all ↔
      ∃ splices, all = taken ++ splices ∧ Resolution cs edits splices ∧
        splices.Pairwise NoOverlap ∧ ∀ t ∈ taken, ∀ s ∈ splices, NoOverlap t s := by
  induction edits generalizing taken with
  | nil =>
    rw [resolve]
    constructor
    · intro h
      cases h
      exact ⟨[], (List.append_nil _).symm, .nil, .nil, fun t _ => List.forall_mem_nil _⟩
    · rintro ⟨splices, rfl, hresolution, -, -⟩
      cases hresolution
      rw [List.append_nil]
  | cons e edits ih =>
    simp only [resolve_cons_eq_ok_iff, ih]
    constructor
    · rintro ⟨s, hs, hno, splices, rfl, hresolution, hpairwise, htaken⟩
      have hfirst := htaken s (List.mem_append_right taken List.mem_cons_self)
      refine ⟨s :: splices, by simp, .cons hs hresolution,
        List.pairwise_cons.2 ⟨hfirst, hpairwise⟩, fun t ht => List.forall_mem_cons.2 ⟨hno t ht, ?_⟩⟩
      exact htaken t (List.mem_append_left [s] ht)
    · rintro ⟨_, rfl, hresolution, hpairwise, htaken⟩
      cases hresolution with
      | @cons _ s _ splices hs hresolution =>
        obtain ⟨hfirst, hpairwise⟩ := List.pairwise_cons.1 hpairwise
        refine ⟨s, hs, fun t ht => htaken t ht s List.mem_cons_self, splices, by simp, hresolution,
          hpairwise, fun t ht u hu => ?_⟩
        rcases List.mem_append.1 ht with ht | ht
        · exact htaken t ht u (List.mem_cons_of_mem s hu)
        · rw [List.mem_singleton.1 ht]
          exact hfirst u hu

/-- Edits that overflow: one that does, behind some that the walk passes. -/
theorem resolve_eq_overflow_iff {cs : List Char} {taken : List Splice} {edits : List TextEdit} :
    resolve cs taken edits = .error .overflow ↔
      ∃ before e after all, edits = before ++ e :: after ∧ resolve cs taken before = .ok all ∧
        e.Overflows cs := by
  constructor
  · intro hstop
    induction edits generalizing taken with
    | nil => cases hstop
    | cons first rest ih =>
      rcases resolve_cons_cases cs taken first rest with ⟨s, hs, hno, heq⟩ | ⟨hlarge, -⟩ |
        ⟨-, -, cause, heq⟩
      · obtain ⟨before, e, after, all, rfl, hresolve, hlarge⟩ := ih (heq.symm.trans hstop)
        exact ⟨first :: before, e, after, all, rfl,
          resolve_cons_eq_ok_iff.2 ⟨s, hs, hno, hresolve⟩, hlarge⟩
      · exact ⟨[], first, rest, taken, rfl, rfl, hlarge⟩
      · cases heq.symm.trans hstop
  · rintro ⟨before, e, after, all, rfl, hresolve, hlarge⟩
    induction before generalizing taken with
    | nil =>
      rcases resolve_cons_cases cs taken e after with ⟨s, hs, -⟩ | ⟨-, heq⟩ | ⟨-, hsmall, -⟩
      · exact absurd hs hlarge.not_resolves
      · exact heq
      · exact absurd hlarge hsmall
    | cons first before ih =>
      obtain ⟨s, hs, hno, hresolve⟩ := resolve_cons_eq_ok_iff.1 hresolve
      exact (resolve_cons hs hno).trans (ih hresolve)

theorem Resolution.pairwise_iff {cs : List Char} {edits : List TextEdit} {splices : List Splice}
    (h : Resolution cs edits splices) :
    splices.Pairwise NoOverlap ↔ splices.Pairwise fun s t => ¬ s.range.Collides t.range := by
  have hiff : ∀ s ∈ splices, ∀ t ∈ splices, NoOverlap s t ↔ ¬ s.range.Collides t.range := by
    intro s hs t ht
    rw [← ByteRange.overlaps_iff_collides (h.fitsIn hs).1 (h.fitsIn ht).1,
      Bool.not_eq_true, NoOverlap]
  constructor
  · exact List.Pairwise.imp_of_mem fun hs ht => (hiff _ hs _ ht).1
  · exact List.Pairwise.imp_of_mem fun hs ht => (hiff _ hs _ ht).2

/-! ## Applying the edits -/

theorem apply_eq_ok_iff {source out : String} {edits : List TextEdit} :
    apply source edits = .ok out ↔
      ∃ splices, Resolution source.toList edits splices ∧ splices.Pairwise NoOverlap ∧
        out = String.ofList (Splice.applyAll source.toList splices) := by
  unfold apply
  cases hresolve : resolve source.toList [] edits with
  | error cause =>
    constructor
    · intro h
      cases h
    · rintro ⟨splices, hresolution, hpairwise, -⟩
      have hok : resolve source.toList [] edits = .ok splices :=
        resolve_eq_ok_iff.2 ⟨splices, rfl, hresolution, hpairwise, by simp⟩
      rw [hresolve] at hok
      cases hok
  | ok all =>
    obtain ⟨splices, rfl, hresolution, hpairwise, -⟩ := resolve_eq_ok_iff.1 hresolve
    constructor
    · intro h
      cases h
      exact ⟨_, hresolution, hpairwise, rfl⟩
    · rintro ⟨splices', hresolution', -, rfl⟩
      rw [hresolution'.unique hresolution]
      rfl

/-- One of the edits has a column that is too large, and those before it resolve and do not
collide. -/
def Overflows (cs : List Char) (edits : List TextEdit) : Prop :=
  ∃ before e after splices, edits = before ++ e :: after ∧ Resolution cs before splices ∧
    (splices.Pairwise fun s t => ¬ s.range.Collides t.range) ∧ e.Overflows cs

theorem apply_eq_overflow_iff {source : String} {edits : List TextEdit} :
    apply source edits = .error .overflow ↔ Overflows source.toList edits := by
  have hresolve : apply source edits = .error .overflow ↔
      resolve source.toList [] edits = .error .overflow := by
    unfold apply
    cases resolve source.toList [] edits <;> simp [bind, Except.bind]
  rw [hresolve, resolve_eq_overflow_iff]
  refine exists_congr fun before => exists_congr fun e => exists_congr fun after =>
    exists_congr fun splices => and_congr_right' ?_
  rw [resolve_eq_ok_iff, ← and_assoc]
  refine and_congr_left' ⟨?_, fun ⟨hresolution, hapart⟩ => ?_⟩
  · rintro ⟨_, rfl, hresolution, hpairwise, -⟩
    exact ⟨hresolution, hresolution.pairwise_iff.1 hpairwise⟩
  · exact ⟨splices, rfl, hresolution, hresolution.pairwise_iff.2 hapart, by simp⟩

/-- Edits apply exactly when each resolves to a forward range of the source and no
two ranges collide.  The source is then cut at the ranges in ascending order,
of insertions at one point the last in the list first, and joined anew; every
replacement on the way is made between two boundaries of the text as it is.
Otherwise they are refused, unless the program stops at a column that is too
large. -/
theorem apply_spec (source : String) (edits : List TextEdit) :
    (∀ splices, Resolution source.toList edits splices →
      (splices.Pairwise fun s t => ¬ s.range.Collides t.range) →
      ∃ out ordered, apply source edits = .ok out ∧ Splice.Ascending splices ordered ∧
        Splice.Joined 0 ordered source.toList out.toList ∧
        Splice.MadeSafely source.toList (splices.mergeSort fun a b => b.range.le a.range)) ∧
    (Overflows source.toList edits → apply source edits = .error .overflow) ∧
    ((¬ ∃ splices, Resolution source.toList edits splices ∧
        splices.Pairwise fun s t => ¬ s.range.Collides t.range) →
      ¬ Overflows source.toList edits → ∃ cause, apply source edits = .error (.refused cause)) := by
  refine ⟨?_, apply_eq_overflow_iff.2, ?_⟩
  · intro splices hresolution hapart
    have hpairwise := hresolution.pairwise_iff.2 hapart
    obtain ⟨ordered, hordered, hjoined, hsafe⟩ :=
      Splice.applyAll_joined (fun _ => hresolution.fitsIn) hpairwise
    refine ⟨_, ordered, apply_eq_ok_iff.2 ⟨splices, hresolution, hpairwise, rfl⟩, hordered, ?_,
      hsafe⟩
    rw [String.toList_ofList]
    exact hjoined
  · intro hnone hsmall
    cases happly : apply source edits with
    | error failure =>
      cases failure with
      | refused cause => exact ⟨cause, rfl⟩
      | overflow => exact absurd (apply_eq_overflow_iff.1 happly) hsmall
    | ok out =>
      obtain ⟨splices, hresolution, hpairwise, -⟩ := apply_eq_ok_iff.1 happly
      exact absurd ⟨splices, hresolution, hresolution.pairwise_iff.1 hpairwise⟩ hnone

/-- An insertion in a column that is in no line does not resolve, and still is not refused. -/
theorem insertion_in_last_column_stops :
    let edits : List TextEdit := [.insert 2 (Position.wordSize - 1) "X"]
    (¬ ∃ splices, Resolution "ab\ncd".toList edits splices) ∧
      apply "ab\ncd" edits = .error .overflow := by
  intro edits
  have hlarge := Position.overflows_last_column
  constructor
  · rintro ⟨_, hresolution⟩
    obtain ⟨_, _, hs, -, -⟩ := List.forall₂_cons_left_iff.1 hresolution
    exact hlarge.not_locates (by decide) hs.start
  · exact apply_eq_overflow_iff.2 ⟨[], _, [], [], rfl, .nil, .nil, .inl hlarge⟩

end Edit

end TestLint
