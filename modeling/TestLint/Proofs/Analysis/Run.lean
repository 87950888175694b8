import Mathlib.Algebra.GroupWithZero.Nat
import TestLint.Analysis.Run

/-!
# How often a run looks

A run that fails for no other reason looks a fixed number of times and ends with a fixed
value (`Run.Takes`): when it is cancelled has no influence on either, only on whether it
comes to its end.  The lemmas say so for the ways in which runs are put together.  Such a
run gives its whole value or none of it (`Run.Takes.allOrNothing`).
-/

namespace TestLint

namespace Patience

/-- The patience lasts for so many looks. -/
def Lasts (looks : Nat) : Patience → Prop
  | none => True
  | some left => looks ≤ left

instance (looks : Nat) : (patience : Patience) → Decidable (patience.Lasts looks)
  | none => .isTrue trivial
  | some left => inferInstanceAs (Decidable (looks ≤ left))

/-- What is left of the patience after so many looks. -/
def spend (looks : Nat) (patience : Patience) : Except AnalysisError Patience :=
  if patience.Lasts looks then .ok (patience.map (· - looks)) else .error .cancelled

theorem lasts_add_iff {looks looks' : Nat} {patience : Patience} :
    patience.Lasts (looks + looks') ↔
      patience.Lasts looks ∧ Lasts looks' (patience.map (· - looks)) := by
  cases patience with
  | none => exact ⟨fun _ => ⟨trivial, trivial⟩, fun _ => trivial⟩
  | some left =>
    change looks + looks' ≤ left ↔ looks ≤ left ∧ looks' ≤ left - looks
    omega

theorem spend_add (looks looks' : Nat) (patience : Patience) :
    patience.spend (looks + looks') = patience.spend looks >>= (·.spend looks') := by
  rw [spend, spend]
  by_cases hfirst : patience.Lasts looks
  · rw [if_pos hfirst, if_congr (lasts_add_iff.trans (and_iff_right hfirst)) rfl rfl]
    change _ = spend looks' (patience.map (· - looks))
    rw [spend, Option.map_map]
    simp only [Function.comp_def, Nat.sub_sub]
  · rw [if_neg hfirst, if_neg fun h => hfirst (lasts_add_iff.1 h).1]
    rfl

end Patience

/-- Of two outcomes, that of a run that may be cancelled and that of the same run without
cancellation, the first is an error if a look notices the cancellation, and else the second. -/
inductive AllOrNothing {α : Type} (notices : Prop) (r r' : Except AnalysisError α) : Prop
  | nothing (h : notices) (hr : r = .error .cancelled)
  | all (h : ¬notices) (a : α) (hr : r = .ok a) (hr' : r' = .ok a)

namespace Run

variable {α β : Type}

/-- If it is not cancelled, the run ends with this value. -/
def Gives (run : Run α) (a : α) : Prop :=
  StateT.run run none = .ok (a, none)

/-- The run looks so many times and ends with this value, unless its patience ends before. -/
def Takes (run : Run α) (looks : Nat) (a : α) : Prop :=
  ∀ patience, StateT.run run patience = (patience.spend looks).map (a, ·)

theorem Gives.result {run : Run α} {a : α} (h : Gives run a) : result none run = .ok a := by
  rw [Run.result, h]
  rfl

theorem takes_look : Takes look 1 () := by
  intro patience
  match patience with
  | none => rfl
  | some 0 => rfl
  | some (left + 1) => rfl

theorem takes_pure (a : α) : Takes (pure a) 0 a := by
  intro patience
  cases patience <;> rfl

namespace Takes

variable {run : Run α} {looks : Nat} {a : α}

theorem bind {next : α → Run β} {looks' : Nat} {b : β} (hrun : Takes run looks a)
    (hnext : Takes (next a) looks' b) : Takes (run >>= next) (looks + looks') b := by
  intro patience
  rw [StateT.run_bind, hrun patience, Patience.spend_add]
  cases patience.spend looks with
  | error e => rfl
  | ok left => exact hnext left

theorem map (h : Takes run looks a) (f : α → β) :
    Takes (run >>= fun a => pure (f a)) looks (f a) :=
  have hadd : Takes (run >>= fun a => pure (f a)) (looks + 0) (f a) := h.bind (takes_pure (f a))
  hadd

theorem mapM {f : α → Run β} {looks : α → Nat} {g : α → β} (h : ∀ a, Takes (f a) (looks a) (g a))
    (as : List α) : Takes (as.mapM f) (as.map looks).sum (as.map g) := by
  induction as with
  | nil =>
    rw [List.mapM_nil]
    exact takes_pure []
  | cons a as ih =>
    rw [List.mapM_cons, List.map_cons, List.sum_cons]
    exact (h a).bind (ih.map (g a :: ·))

theorem gives (h : Takes run looks a) : Gives run a :=
  h none

theorem result_eq (h : Takes run looks a) (patience : Patience) :
    result patience run = if patience.Lasts looks then .ok a else .error .cancelled := by
  rw [Run.result, h patience, Patience.spend]
  split <;> rfl

theorem allOrNothing (h : Takes run looks a) (patience : Patience) :
    AllOrNothing (¬patience.Lasts looks) (result patience run) (result none run) := by
  by_cases hlasts : patience.Lasts looks
  · exact .all (not_not.2 hlasts) a (by rw [h.result_eq, if_pos hlasts]) h.gives.result
  · exact .nothing hlasts (by rw [h.result_eq, if_neg hlasts])

end Takes

/-- What is done after a look at each member can be done after all of them. -/
theorem mapM_look (f : α → β) (as : List α) :
    (as.mapM fun a => look >>= fun _ => pure (f a)) =
      (as.mapM fun _ => look) >>= fun _ => pure (as.map f) := by
  induction as with
  | nil => rw [List.mapM_nil, List.mapM_nil, pure_bind, List.map_nil]
  | cons a as ih =>
    rw [List.mapM_cons, List.mapM_cons, ih, List.map_cons]
    simp only [bind_assoc, pure_bind]

theorem result_map (f : α → β) (run : Run α) (patience : Patience) :
    result patience (f <$> run) = (result patience run).map f := by
  rw [result, StateT.run_map, result]
  cases StateT.run run patience <;> rfl

end Run

end TestLint
