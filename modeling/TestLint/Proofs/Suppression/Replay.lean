import TestLint.Proofs.Suppression.Line

/-!
# Replaying the lines of a source

The rules that are open one by one are held in no order of their own: a source may
gather its directives with any order of them in every line (`Gathers`), and the
replay is one of these runs (`gathers_ofSource`). What holds before the first line
and is kept by every line holds after the last one (`Invariant.of_gathers`).
-/

namespace TestLint.Directives

/-- The same state, the open rules being held in another order. -/
structure Reordered (r r' : Replay) : Prop where
  gathered_eq : r'.gathered = r.gathered
  openAll_eq : r'.openAll = r.openAll
  openRules_perm : r'.openRules.Perm r.openRules

theorem Reordered.refl (r : Replay) : Reordered r r :=
  ⟨rfl, rfl, .refl _⟩

/-- A replay from one state to another of what the lines from this one on say,
in which the open rules may be reordered before every line and at the end. -/
inductive Replays : Nat → Replay → List (Option Directive) → Replay → Prop
  | done {line : Nat} {r r' : Replay} (horder : Reordered r r') : Replays line r [] r'
  | skip {line : Nat} {r r' : Replay} {ds : List (Option Directive)}
      (hrest : Replays (line + 1) r ds r') : Replays line r (none :: ds) r'
  | step {line : Nat} {r r₁ r' : Replay} {d : Directive} {ds : List (Option Directive)}
      (horder : Reordered r r₁) (hrest : Replays (line + 1) (r₁.step line d) ds r') :
      Replays line r (some d :: ds) r'

/-- The source silences this when its open rules are held in some order. -/
def Gathers (source : List Char) (d : Directives) : Prop :=
  ∃ r, Replays 1 .start ((Text.lines source).map Directive.ofLine?) r ∧
    (r.close (max (Text.lines source).length 1)).gathered = d

theorem replays_replay {ds : List (Option Directive)} : ∀ {line : Nat} {r : Replay},
    Replays line r ds (replay r line ds) := by
  induction ds with
  | nil => exact .done (.refl _)
  | cons d? ds ih =>
    intro line r
    cases d? with
    | none => exact .skip ih
    | some d => exact .step (.refl r) ih

theorem gathers_ofSource (source : List Char) : Gathers source (ofSource source) :=
  ⟨_, replays_replay, rfl⟩

/-! ## Invariants -/

/-- What holds after the first `k` lines of a source, for every `k`. -/
structure Invariant (source : List Char) (holds : Nat → Replay → Prop) : Prop where
  start : holds 0 .start
  reordered : ∀ {k r r'}, Reordered r r' → holds k r → holds k r'
  skip : ∀ {k r}, directiveAt? source (k + 1) = none → holds k r → holds (k + 1) r
  step : ∀ {k r d}, directiveAt? source (k + 1) = some d → holds k r →
    holds (k + 1) (r.step (k + 1) d)

namespace Invariant

variable {source : List Char} {holds : Nat → Replay → Prop}

theorem run (h : Invariant source holds) {ds : List (Option Directive)} {k : Nat}
    {r r' : Replay} (hds : ∀ i d?, ds[i]? = some d? → directiveAt? source (k + i + 1) = d?)
    (hr : holds k r) (hrun : Replays (k + 1) r ds r') : holds (k + ds.length) r' := by
  induction ds generalizing k r with
  | nil =>
    cases hrun with
    | done horder => exact h.reordered horder hr
  | cons d? ds ih =>
    have hfirst : directiveAt? source (k + 1) = d? := hds 0 d? rfl
    have hrest : ∀ i d?, ds[i]? = some d? → directiveAt? source (k + 1 + i + 1) = d? := by
      intro i d? hd
      rw [Nat.add_right_comm k 1 i]
      exact hds (i + 1) d? hd
    rw [List.length_cons, Nat.add_comm ds.length, ← Nat.add_assoc]
    cases hrun with
    | skip hrun => exact ih hrest (h.skip hfirst hr) hrun
    | step horder hrun => exact ih hrest (h.step hfirst (h.reordered horder hr)) hrun

theorem of_gathers (h : Invariant source holds) {d : Directives} (hd : Gathers source d) :
    ∃ r, holds (Text.lines source).length r ∧
      (r.close (max (Text.lines source).length 1)).gathered = d := by
  obtain ⟨r, hrun, hd⟩ := hd
  have hr := h.run (k := 0) (fun i d? hd => by rw [Nat.zero_add, directiveAt?_succ hd]) h.start hrun
  rw [Nat.zero_add, List.length_map] at hr
  exact ⟨r, hr, hd⟩

end Invariant

end TestLint.Directives
