import TestLint.Duplicate.Distance
import TestLint.Proofs.Duplicate.EditScript

/-!
# The table of distances

* Cells of one row and column have one place in the array (`cell_inj`), inside
  it (`cell_lt`).
* Invariant of the loops (`Table.Holds`): the table has its size, and the cells
  filled so far hold the least number of edits between two beginnings. A cell
  is filled from three that are filled already (`Holds.fillCell?`).
* The last cell is therefore the least cost of a script, and no cell outside the
  table is ever asked for (`distance_spec`).
-/

namespace TestLint.Duplicate

/-! ## Cells -/

theorem cell_lt {n m i j : Nat} (hi : i ≤ n) (hj : j ≤ m) :
    i * (m + 1) + j < (n + 1) * (m + 1) := by
  have hrow : i * (m + 1) ≤ n * (m + 1) := Nat.mul_le_mul_right _ hi
  rw [Nat.succ_mul]
  omega

theorem cell_inj {m i j i' j' : Nat} (hj : j ≤ m) (hj' : j' ≤ m)
    (h : i * (m + 1) + j = i' * (m + 1) + j') : i = i' ∧ j = j' := by
  have hrow : i = i' := by
    have hdiv := congrArg (· / (m + 1)) h
    simp only [Nat.mul_comm _ (m + 1), Nat.mul_add_div (Nat.succ_pos m)] at hdiv
    rwa [Nat.div_eq_of_lt (by omega), Nat.div_eq_of_lt (by omega)] at hdiv
  subst hrow
  exact ⟨rfl, by omega⟩

/-! ## Loops -/

/-- A loop over the numbers below `n` that fails nowhere and keeps an invariant. -/
theorem exists_foldlM_range {β : Type} {f : β → Nat → Option β} (holds : Nat → β → Prop)
    {n : Nat} (hstep : ∀ k < n, ∀ b, holds k b → ∃ b', f b k = some b' ∧ holds (k + 1) b')
    {b : β} (hstart : holds 0 b) :
    ∃ b', (List.range n).foldlM f b = some b' ∧ holds n b' := by
  induction n with
  | zero => exact ⟨b, rfl, hstart⟩
  | succ n ih =>
    obtain ⟨before, hfold, hbefore⟩ := ih fun k hk => hstep k (by omega)
    obtain ⟨after, hlast, hafter⟩ := hstep n (by omega) before hbefore
    refine ⟨after, ?_, hafter⟩
    rw [List.range_succ, List.foldlM_append, hfold]
    simp [hlast]

/-! ## The entries -/

variable {α : Type} [DecidableEq α]

/-- The least number of edits between the first `i` and the first `j` elements.
They are compared from their ends, where the table goes on. -/
def entry (xs ys : List α) (i j : Nat) : Nat :=
  leastEdits (xs.take i).reverse (ys.take j).reverse

theorem entry_zero_right {xs ys : List α} {i : Nat} (hi : i ≤ xs.length) :
    entry xs ys i 0 = i := by
  rw [entry, List.take_zero, List.reverse_nil, leastEdits_nil_right, List.length_reverse,
    List.length_take, Nat.min_eq_left hi]

theorem entry_zero_left {xs ys : List α} {j : Nat} (hj : j ≤ ys.length) :
    entry xs ys 0 j = j := by
  rw [entry, List.take_zero, List.reverse_nil, leastEdits_nil_left, List.length_reverse,
    List.length_take, Nat.min_eq_left hj]

theorem entry_succ_succ {xs ys : List α} {i j : Nat} {x y : α} (hx : xs[i]? = some x)
    (hy : ys[j]? = some y) :
    entry xs ys (i + 1) (j + 1) =
      min (min (entry xs ys i (j + 1) + 1) (entry xs ys (i + 1) j + 1))
        (entry xs ys i j + if x = y then 0 else 1) := by
  have hxs : (xs.take (i + 1)).reverse = x :: (xs.take i).reverse := by
    rw [List.take_add_one, hx, Option.toList_some, List.reverse_append, List.reverse_singleton,
      List.singleton_append]
  have hys : (ys.take (j + 1)).reverse = y :: (ys.take j).reverse := by
    rw [List.take_add_one, hy, Option.toList_some, List.reverse_append, List.reverse_singleton,
      List.singleton_append]
  simp only [entry, hxs, hys, leastEdits_cons_cons]

theorem entry_length (xs ys : List α) : entry xs ys xs.length ys.length = leastEdits xs ys := by
  rw [entry, List.take_length, List.take_length, leastEdits_reverse]

/-! ## Filling the table -/

namespace Table

/-- The table of two sequences has its full size, and all cells that are known
hold their entries. -/
structure Holds (xs ys : List α) (known : Nat → Nat → Prop) (t : Table) : Prop where
  width : t.width = ys.length + 1
  size : t.cells.size = (xs.length + 1) * (ys.length + 1)
  get?_eq : ∀ i ≤ xs.length, ∀ j ≤ ys.length, known i j → t.get? i j = some (entry xs ys i j)

variable {xs ys : List α} {known known' : Nat → Nat → Prop} {t : Table} {i j : Nat}

/-- Less is known; what is said of cells outside the table does not matter. -/
theorem Holds.mono (h : Holds xs ys known t)
    (hknown : ∀ i j, i ≤ xs.length → j ≤ ys.length → known' i j → known i j) :
    Holds xs ys known' t :=
  ⟨h.width, h.size, fun i hi j hj hij => h.get?_eq i hi j hj (hknown i j hi hj hij)⟩

theorem holds_zeros (xs ys : List α) :
    Holds xs ys (fun _ _ => False) (zeros xs.length ys.length) := by
  refine ⟨rfl, ?_, fun i _ j _ hfalse => hfalse.elim⟩
  rw [zeros, Array.size_replicate]

theorem Holds.set? (h : Holds xs ys known t) (hi : i ≤ xs.length) (hj : j ≤ ys.length) :
    ∃ t', t.set? i j (entry xs ys i j) = some t' ∧
      Holds xs ys (fun i' j' => known i' j' ∨ (i' = i ∧ j' = j)) t' := by
  have hcell : i * t.width + j < t.cells.size := by
    rw [h.width, h.size]
    exact cell_lt hi hj
  refine ⟨_, dif_pos hcell, h.width, ?_, fun i' hi' j' hj' hij => ?_⟩
  · rw [Array.size_set]
    exact h.size
  · rw [Table.get?, Array.getElem?_set]
    by_cases hsame : i * t.width + j = i' * t.width + j'
    · rw [if_pos hsame]
      rw [h.width] at hsame
      obtain ⟨rfl, rfl⟩ := cell_inj hj hj' hsame
      rfl
    · rw [if_neg hsame]
      rcases hij with hij | ⟨rfl, rfl⟩
      · exact h.get?_eq i' hi' j' hj' hij
      · exact absurd rfl hsame

/-- A cell is filled once the three cells are known that it depends on. -/
theorem Holds.fillCell? (h : Holds xs ys known t) (hi : i < xs.length) (hj : j < ys.length)
    (habove : known i (j + 1)) (hbefore : known (i + 1) j) (hboth : known i j) :
    ∃ t', t.fillCell? xs.toArray ys.toArray i j = some t' ∧
      Holds xs ys (fun i' j' => known i' j' ∨ (i' = i + 1 ∧ j' = j + 1)) t' := by
  have hx : xs[i]? = some xs[i] := List.getElem?_eq_getElem hi
  have hy : ys[j]? = some ys[j] := List.getElem?_eq_getElem hj
  obtain ⟨t', hset, ht'⟩ := h.set? (i := i + 1) (j := j + 1) hi hj
  refine ⟨t', ?_, ht'⟩
  rw [entry_succ_succ hx hy] at hset
  simp only [Table.fillCell?, List.getElem?_toArray, hx, hy,
    h.get?_eq i (by omega) (j + 1) hj habove, h.get?_eq (i + 1) hi j (by omega) hbefore,
    h.get?_eq i (by omega) j (by omega) hboth, Option.bind_eq_bind, Option.bind_some]
  exact hset

/-- The first loop: the distances to nothing. -/
theorem exists_firstColumn (xs ys : List α) :
    ∃ t, (List.range (xs.length + 1)).foldlM (fun t i => t.set? i 0 i)
        (zeros xs.length ys.length) = some t ∧
      Holds xs ys (fun _ j => j = 0) t := by
  obtain ⟨t, hfold, ht⟩ := exists_foldlM_range (n := xs.length + 1)
    (f := fun t i => t.set? i 0 i) (fun k => Holds xs ys fun i j => i < k ∧ j = 0)
    (fun k hk t ht => by
      obtain ⟨t', hset, ht'⟩ := ht.set? (i := k) (j := 0) (by omega) (by omega)
      rw [entry_zero_right (by omega)] at hset
      exact ⟨t', hset, ht'.mono fun i j _ _ => by omega⟩)
    ((holds_zeros xs ys).mono fun i j _ _ => by omega)
  exact ⟨t, hfold, ht.mono fun i j _ _ => by omega⟩

/-- The second loop: the distances from nothing. -/
theorem Holds.firstRow (h : Holds xs ys (fun _ j => j = 0) t) :
    ∃ t', (List.range (ys.length + 1)).foldlM (fun t j => t.set? 0 j j) t = some t' ∧
      Holds xs ys (fun i j => i ≤ 0 ∨ j = 0) t' := by
  obtain ⟨t', hfold, ht'⟩ := exists_foldlM_range (n := ys.length + 1)
    (f := fun t j => t.set? 0 j j)
    (fun k => Holds xs ys fun i j => j = 0 ∨ (i = 0 ∧ j < k))
    (fun k hk t ht => by
      obtain ⟨t', hset, ht'⟩ := ht.set? (i := 0) (j := k) (by omega) (by omega)
      rw [entry_zero_left (by omega)] at hset
      exact ⟨t', hset, ht'.mono fun i j _ _ => by omega⟩)
    (h.mono fun i j _ _ => by omega)
  exact ⟨t', hfold, ht'.mono fun i j _ _ => by omega⟩

/-- The inner loop: row `k + 1` from row `k`. -/
theorem Holds.nextRow {k : Nat} (hk : k < xs.length)
    (h : Holds xs ys (fun i j => i ≤ k ∨ j = 0) t) :
    ∃ t', (List.range ys.length).foldlM
        (fun t j => t.fillCell? xs.toArray ys.toArray k j) t = some t' ∧
      Holds xs ys (fun i j => i ≤ k + 1 ∨ j = 0) t' := by
  obtain ⟨t', hfold, ht'⟩ := exists_foldlM_range (n := ys.length)
    (fun l => Holds xs ys fun i j => i ≤ k ∨ j = 0 ∨ (i = k + 1 ∧ j ≤ l))
    (fun l hl t ht => by
      obtain ⟨t', hfill, ht'⟩ := ht.fillCell? hk hl (by omega) (by omega) (by omega)
      exact ⟨t', hfill, ht'.mono fun i j _ _ => by omega⟩)
    (h.mono fun i j _ _ => by omega)
  exact ⟨t', hfold, ht'.mono fun i j _ _ => by omega⟩

/-- All cells are filled, and none is asked for outside the table. -/
theorem exists_filled (xs ys : List α) :
    ∃ t, filled? xs.toArray ys.toArray = some t ∧ Holds xs ys (fun _ _ => True) t := by
  obtain ⟨t₁, hcolumn, ht₁⟩ := exists_firstColumn xs ys
  obtain ⟨t₂, hrow, ht₂⟩ := ht₁.firstRow
  obtain ⟨t₃, hrest, ht₃⟩ := exists_foldlM_range (n := xs.length)
    (fun k => Holds xs ys fun i j => i ≤ k ∨ j = 0)
    (fun k hk t ht => ht.nextRow hk) ht₂
  refine ⟨t₃, ?_, ht₃.mono fun i j hi _ _ => .inl hi⟩
  simp only [filled?, List.size_toArray, hcolumn, hrow, hrest, Option.bind_eq_bind,
    Option.bind_some]

end Table

/-! ## The distance -/

theorem distance_eq_leastEdits (xs ys : List α) : distance xs ys = leastEdits xs ys := by
  obtain ⟨t, hfilled, ht⟩ := Table.exists_filled xs ys
  rw [distance, hfilled, Option.bind_some,
    ht.get?_eq _ (Nat.le_refl _) _ (Nat.le_refl _) trivial, Option.getD_some, entry_length]

theorem distance_nil_right (xs : List α) : distance xs [] = xs.length := by
  rw [distance_eq_leastEdits, leastEdits_nil_right]

theorem distance_nil_left (ys : List α) : distance [] ys = ys.length := by
  rw [distance_eq_leastEdits, leastEdits_nil_left]

/-- The distance of two texts is what stands in the last cell of their table,
whose cells are all there when they are asked for. It is the cost of some script
between the UTF-16 units of the texts, and no script costs less. -/
theorem distance_spec (a b : String) :
    (∃ t, Table.filled? (Text.units16 a).toArray (Text.units16 b).toArray = some t ∧
      t.get? (Text.units16 a).length (Text.units16 b).length =
        some (distance (Text.units16 a) (Text.units16 b))) ∧
    (∃ s : Script (Text.units16 a) (Text.units16 b),
      s.cost = distance (Text.units16 a) (Text.units16 b)) ∧
    ∀ s : Script (Text.units16 a) (Text.units16 b),
      distance (Text.units16 a) (Text.units16 b) ≤ s.cost := by
  rw [distance_eq_leastEdits]
  refine ⟨?_, exists_script_leastEdits _ _, leastEdits_le_cost⟩
  obtain ⟨t, hfilled, ht⟩ := Table.exists_filled (Text.units16 a) (Text.units16 b)
  refine ⟨t, hfilled, ?_⟩
  rw [ht.get?_eq _ (Nat.le_refl _) _ (Nat.le_refl _) trivial, entry_length]

example : distance (Text.units16 "kitten") (Text.units16 "sitting") = 3 := by decide +kernel

/-- A character outside the basic plane is two units, the first of which many share. -/
example : Text.units16 "a😀" = [0x61, 0xD83D, 0xDE00] ∧
    distance (Text.units16 "a") (Text.units16 "😀") = 2 ∧
    distance (Text.units16 "😁") (Text.units16 "😀") = 1 := by decide +kernel

end TestLint.Duplicate
