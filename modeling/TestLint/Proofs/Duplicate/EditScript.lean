/-!
# Edit scripts

A script turns one sequence into another by single edits, each of them at any
place.  The least number of edits is computed from the front of both sequences
(`leastEdits`): a script of this cost exists (`exists_script_leastEdits`), and
no script costs less (`leastEdits_le_cost`), because one edit brings a sequence
at most one edit closer to any other.
-/

namespace TestLint.Duplicate

variable {α : Type}

/-- A way to turn one sequence into another: each step inserts, deletes or
replaces one element. -/
inductive Script : List α → List α → Type
  | done (xs : List α) : Script xs xs
  | insert (before after : List α) (y : α) {zs : List α}
      (rest : Script (before ++ y :: after) zs) : Script (before ++ after) zs
  | delete (before after : List α) (x : α) {zs : List α}
      (rest : Script (before ++ after) zs) : Script (before ++ x :: after) zs
  | substitute (before after : List α) (x y : α) {zs : List α}
      (rest : Script (before ++ y :: after) zs) : Script (before ++ x :: after) zs

namespace Script

variable {xs ys : List α}

/-- The number of edits. -/
@[simp]
def cost {xs ys : List α} : Script xs ys → Nat
  | done _ => 0
  | insert _ _ _ rest => rest.cost + 1
  | delete _ _ _ rest => rest.cost + 1
  | substitute _ _ _ _ rest => rest.cost + 1

/-- The same edits behind one more element. -/
@[simp]
def cons (a : α) {xs ys : List α} : Script xs ys → Script (a :: xs) (a :: ys)
  | done xs => done (a :: xs)
  | insert before after y rest => insert (a :: before) after y (rest.cons a)
  | delete before after x rest => delete (a :: before) after x (rest.cons a)
  | substitute before after x y rest => substitute (a :: before) after x y (rest.cons a)

@[simp]
theorem cost_cons (a : α) (s : Script xs ys) : (s.cons a).cost = s.cost := by
  induction s with
  | done => rfl
  | insert before after y rest ih => simp [ih]
  | delete before after x rest ih => simp [ih]
  | substitute before after x y rest ih => simp [ih]

theorem exists_of_nil (ys : List α) : ∃ s : Script [] ys, s.cost = ys.length := by
  induction ys with
  | nil => exact ⟨done [], rfl⟩
  | cons y ys ih =>
    obtain ⟨s, hs⟩ := ih
    exact ⟨insert [] [] y (s.cons y), by simp [hs]⟩

theorem exists_to_nil (xs : List α) : ∃ s : Script xs [], s.cost = xs.length := by
  induction xs with
  | nil => exact ⟨done [], rfl⟩
  | cons x xs ih =>
    obtain ⟨s, hs⟩ := ih
    exact ⟨delete [] xs x s, by simp [hs]⟩

/-- Read from the back, a script is one for the sequences read from the back. -/
theorem exists_reverse (s : Script xs ys) :
    ∃ r : Script xs.reverse ys.reverse, r.cost = s.cost := by
  induction s with
  | done xs => exact ⟨done _, rfl⟩
  | insert before after y rest ih =>
    rw [List.reverse_append, List.reverse_cons, List.append_assoc] at ih
    rw [List.reverse_append]
    obtain ⟨r, hr⟩ := ih
    exact ⟨insert after.reverse before.reverse y r, by rw [cost, cost, hr]⟩
  | delete before after x rest ih =>
    rw [List.reverse_append] at ih
    rw [List.reverse_append, List.reverse_cons, List.append_assoc]
    obtain ⟨r, hr⟩ := ih
    exact ⟨delete after.reverse before.reverse x r, by rw [cost, cost, hr]⟩
  | substitute before after x y rest ih =>
    rw [List.reverse_append, List.reverse_cons, List.append_assoc] at ih ⊢
    obtain ⟨r, hr⟩ := ih
    exact ⟨substitute after.reverse before.reverse x y r, by rw [cost, cost, hr]⟩

end Script

/-! ## The least number of edits -/

variable [DecidableEq α]

/-- The least cost of a script: the first elements of both sequences are
replaced by each other (for nothing if they are equal), or one of them is
deleted or inserted. -/
def leastEdits : List α → List α → Nat
  | [], ys => ys.length
  | x :: xs, [] => (x :: xs).length
  | x :: xs, y :: ys =>
    min (min (leastEdits xs (y :: ys) + 1) (leastEdits (x :: xs) ys + 1))
      (leastEdits xs ys + if x = y then 0 else 1)
termination_by xs ys => xs.length + ys.length

theorem leastEdits_nil_left (ys : List α) : leastEdits [] ys = ys.length := by
  rw [leastEdits]

theorem leastEdits_nil_right (xs : List α) : leastEdits xs [] = xs.length := by
  cases xs with
  | nil => exact leastEdits_nil_left []
  | cons x xs => rw [leastEdits]

theorem leastEdits_cons_cons (x y : α) (xs ys : List α) :
    leastEdits (x :: xs) (y :: ys) =
      min (min (leastEdits xs (y :: ys) + 1) (leastEdits (x :: xs) ys + 1))
        (leastEdits xs ys + if x = y then 0 else 1) := by
  rw [leastEdits]

theorem leastEdits_self (xs : List α) : leastEdits xs xs = 0 := by
  induction xs with
  | nil => rw [leastEdits_nil_left, List.length_nil]
  | cons x xs ih => simp [leastEdits_cons_cons, ih]

theorem exists_script_leastEdits (xs ys : List α) :
    ∃ s : Script xs ys, s.cost = leastEdits xs ys := by
  induction xs, ys using leastEdits.induct with
  | case1 ys =>
    rw [leastEdits_nil_left]
    exact Script.exists_of_nil ys
  | case2 x xs =>
    rw [leastEdits_nil_right]
    exact Script.exists_to_nil (x :: xs)
  | case3 x xs y ys ihDelete ihInsert ihBoth =>
    obtain ⟨deletion, hdelete⟩ := ihDelete
    obtain ⟨insertion, hinsert⟩ := ihInsert
    obtain ⟨both, hboth⟩ := ihBoth
    -- the script begins with whatever the least of the three costs is for
    have hleast : leastEdits (x :: xs) (y :: ys) = leastEdits xs (y :: ys) + 1 ∨
        leastEdits (x :: xs) (y :: ys) = leastEdits (x :: xs) ys + 1 ∨
        leastEdits (x :: xs) (y :: ys) = leastEdits xs ys + if x = y then 0 else 1 := by
      rw [leastEdits_cons_cons]
      omega
    rcases hleast with hleast | hleast | hleast <;> rw [hleast]
    · exact ⟨.delete [] xs x deletion, by rw [Script.cost, hdelete]⟩
    · refine ⟨.insert [] (x :: xs) y (insertion.cons y), ?_⟩
      rw [Script.cost, Script.cost_cons, hinsert]
    · by_cases hxy : x = y
      · subst hxy
        exact ⟨both.cons x, by rw [Script.cost_cons, hboth, if_pos rfl, Nat.add_zero]⟩
      · refine ⟨.substitute [] xs x y (both.cons y), ?_⟩
        rw [Script.cost, Script.cost_cons, hboth, if_neg hxy]

/-! ## One edit -/

/-- The one sequence is at most one edit further from any third than the other. -/
def WithinOne (xs ys : List α) : Prop :=
  ∀ zs, leastEdits xs zs ≤ leastEdits ys zs + 1

theorem leastEdits_cons_right_le (xs ys : List α) (y : α) :
    leastEdits xs (y :: ys) ≤ leastEdits xs ys + 1 := by
  cases xs with
  | nil => simp [leastEdits_nil_left]
  | cons x xs =>
    rw [leastEdits_cons_cons]
    omega

theorem withinOne_insert (x : α) (xs : List α) : WithinOne (x :: xs) xs := by
  intro zs
  cases zs with
  | nil => simp [leastEdits_nil_right]
  | cons z zs =>
    rw [leastEdits_cons_cons]
    omega

theorem withinOne_delete (x : α) (xs : List α) : WithinOne xs (x :: xs) := by
  intro zs
  induction zs with
  | nil =>
    simp only [leastEdits_nil_right, List.length_cons]
    omega
  | cons z zs ih =>
    have hright := leastEdits_cons_right_le xs zs z
    rw [leastEdits_cons_cons]
    omega

theorem withinOne_substitute (x y : α) (xs : List α) : WithinOne (x :: xs) (y :: xs) := by
  intro zs
  induction zs with
  | nil => simp [leastEdits_nil_right]
  | cons z zs ih =>
    rw [leastEdits_cons_cons, leastEdits_cons_cons]
    have hcost : (if x = z then 0 else 1) ≤ 1 := by split <;> omega
    omega

theorem WithinOne.cons {xs ys : List α} (h : WithinOne xs ys) (a : α) :
    WithinOne (a :: xs) (a :: ys) := by
  intro zs
  induction zs with
  | nil =>
    have hnil := h []
    rw [leastEdits_nil_right, leastEdits_nil_right] at hnil ⊢
    rw [List.length_cons, List.length_cons]
    omega
  | cons z zs ih =>
    have hdelete := h (z :: zs)
    have hboth := h zs
    rw [leastEdits_cons_cons, leastEdits_cons_cons]
    omega

theorem WithinOne.append_left {xs ys : List α} (h : WithinOne xs ys) (before : List α) :
    WithinOne (before ++ xs) (before ++ ys) := by
  induction before with
  | nil => exact h
  | cons a before ih => exact ih.cons a

/-! ## No script costs less -/

variable {xs ys : List α}

theorem leastEdits_le_cost (s : Script xs ys) : leastEdits xs ys ≤ s.cost := by
  induction s with
  | done xs => exact Nat.le_of_eq (leastEdits_self xs)
  | @insert before after y zs rest ih =>
    have hone := (withinOne_delete y after).append_left before zs
    rw [Script.cost]
    omega
  | @delete before after x zs rest ih =>
    have hone := (withinOne_insert x after).append_left before zs
    rw [Script.cost]
    omega
  | @substitute before after x y zs rest ih =>
    have hone := (withinOne_substitute x y after).append_left before zs
    rw [Script.cost]
    omega

theorem leastEdits_reverse_le (xs ys : List α) :
    leastEdits xs.reverse ys.reverse ≤ leastEdits xs ys := by
  obtain ⟨s, hs⟩ := exists_script_leastEdits xs ys
  obtain ⟨r, hr⟩ := s.exists_reverse
  rw [← hs, ← hr]
  exact leastEdits_le_cost r

/-- It is all the same from which end the sequences are compared. -/
theorem leastEdits_reverse (xs ys : List α) :
    leastEdits xs.reverse ys.reverse = leastEdits xs ys := by
  refine Nat.le_antisymm (leastEdits_reverse_le xs ys) ?_
  have h := leastEdits_reverse_le xs.reverse ys.reverse
  rwa [List.reverse_reverse, List.reverse_reverse] at h

end TestLint.Duplicate
