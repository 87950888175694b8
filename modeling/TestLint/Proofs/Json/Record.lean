import TestLint.Proofs.Json.Spelling
import TestLint.Report.Json

/-!
# The fields of an object

What each way to read a field gives for a field that was written: the required ones, those
that are left out when there is nothing to say (`fieldIf`), lists and maps.
-/

namespace TestLint

/-! ## Numbers, lists and maps -/

namespace Json

theorem word?_ofNat {n : Nat} (h : n < wordSize) : (ofNat n).word? = some n := by
  have hvalue : Nat.ofDigitChars 10 n.repr.toList 0 = n := by
    rw [Nat.toList_repr]
    exact Nat.ofDigitChars_ten_toDigits
  have hdigits : n.repr.toList.all Char.isDigit = true :=
    List.all_eq_true.2 fun _ => isDigit_of_mem_repr
  have hne : n.repr.toList ≠ [] := by
    obtain ⟨c, cs, hcs, -⟩ := exists_repr_eq_cons n
    rw [hcs]
    exact List.cons_ne_nil c cs
  unfold ofNat word?
  dsimp only
  rw [hvalue, if_pos ⟨hne, hdigits, h⟩]

theorem listOf_ofList {α : Type} {read : Json → Option α} {write : α → Json} {items : List α}
    (h : ∀ item ∈ items, read (write item) = some item) :
    listOf read (ofList write items) = some items := by
  unfold listOf ofList
  exact mapM_map_eq_some h

/-- A list is read item by item, whatever is read of each. -/
theorem listOf_map {α β : Type} {read : Json → Option β} {write : α → Json} {f : α → β}
    {items : List α} (h : ∀ item ∈ items, read (write item) = some (f item)) :
    listOf read (.array (items.map write)) = some (items.map f) := by
  change (items.map write).mapM read = some (items.map f)
  induction items with
  | nil => rfl
  | cons item items ih =>
    obtain ⟨hitem, hitems⟩ := List.forall_mem_cons.1 h
    rw [List.map_cons, List.mapM_cons, hitem, ih hitems]
    rfl

/-- Pairs with keys of their own are kept as they are. -/
theorem foldl_keep {α : Type} (kept : List (String × α)) {later : List (String × α)}
    (h : ((kept ++ later).map (·.1)).Nodup) :
    later.foldl (fun kept pair =>
      if kept.any (·.1 == pair.1) then
        kept.map fun old => if old.1 == pair.1 then (pair.1, pair.2) else old
      else
        kept ++ [(pair.1, pair.2)]) kept = kept ++ later := by
  induction later generalizing kept with
  | nil => rw [List.foldl_nil, List.append_nil]
  | cons pair later ih =>
    have hnew : kept.any (·.1 == pair.1) = false := by
      rw [List.map_append, List.map_cons, List.nodup_append] at h
      rw [List.any_eq_false]
      intro old hold heq
      exact h.2.2 old.1 (List.mem_map_of_mem hold) pair.1 List.mem_cons_self (by simpa using heq)
    rw [List.foldl_cons, hnew, if_neg Bool.false_ne_true, ih _ (by simpa using h),
      List.append_assoc, List.singleton_append]

/-- A map is read back as it was written if no key is written twice. -/
theorem mapOf_map {α : Type} {read : Json → Option α} (write : α → Json)
    {pairs : List (String × α)} (h : ∀ pair ∈ pairs, read (write pair.2) = some pair.2)
    (hkeys : (pairs.map (·.1)).Nodup) :
    mapOf read (.object (pairs.map fun pair => (pair.1, write pair.2))) = some pairs := by
  have hread : (pairs.map fun pair => (pair.1, write pair.2)).mapM
      (fun field => (read field.2).map (field.1, ·)) = some pairs := by
    refine mapM_map_eq_some fun pair hpair => ?_
    rw [h pair hpair, Option.map_some]
  unfold mapOf
  refine Option.bind_eq_some_iff.2 ⟨pairs, hread, ?_⟩
  exact congrArg some (foldl_keep [] hkeys)

/-! ## The value of a key -/

@[simp]
theorem field?_nil (key : String) : (object []).field? key = none := rfl

@[simp]
theorem field?_append (key : String) (as bs : List (String × Json)) :
    (object (as ++ bs)).field? key = ((object bs).field? key).or ((object as).field? key) := by
  simp only [field?, List.reverse_append, List.find?_append, Option.map_or]

@[simp]
theorem field?_cons (key name : String) (value : Json) (fields : List (String × Json)) :
    (object ((name, value) :: fields)).field? key =
      ((object fields).field? key).or (if name = key then some value else none) := by
  rw [← List.singleton_append, field?_append]
  by_cases h : name = key <;> simp [field?, h]

@[simp]
theorem field?_fieldIf (present : Bool) (key name : String) (value : Json) :
    (object (fieldIf present name value)).field? key =
      if present = true ∧ name = key then some value else none := by
  unfold fieldIf
  cases present <;> simp

theorem required_eq {α : Type} {key : String} {read : Json → Option α} {value v : Json} {a : α}
    (hfield : value.field? key = some v) (hread : read v = some a) :
    value.required key read = some a := by
  unfold required
  rw [hfield]
  exact hread

theorem required_word {key : String} {value : Json} {n : Nat} (h : n < wordSize)
    (hfield : value.field? key = some (ofNat n)) : value.required key word? = some n :=
  required_eq hfield (word?_ofNat h)

theorem required_text {key : String} {value : Json} {s : String}
    (hfield : value.field? key = some (.string s)) : value.required key text? = some s :=
  required_eq hfield rfl

theorem ofOption_map {α β : Type} (write : β → Json) (f : α → β) (a? : Option α) :
    ofOption write (a?.map f) = ofOption (fun a => write (f a)) a? := by
  cases a? <;> rfl

/-- A field that was written for no value, or not at all, is read as no value. -/
theorem optional_eq {α : Type} {key : String} {read : Json → Option α} (write : α → Json)
    {value : Json} {a? : Option α} (hread : ∀ a ∈ a?, read (write a) = some a)
    (hnull : ∀ a, write a ≠ .null)
    (hfield : value.field? key = some (ofOption write a?) ∨
      value.field? key = if a?.isSome then some (ofOption write a?) else none) :
    value.optional key read = some a? := by
  unfold optional
  cases a? with
  | none => rcases hfield with hfield | hfield <;> simp [hfield, ofOption]
  | some a =>
    have ha : value.field? key = some (write a) := by simpa [ofOption] using hfield
    rw [ha]
    split
    case h_1 heq => cases heq
    case h_2 heq => exact absurd (Option.some.inj heq) (hnull a)
    case h_3 heq =>
      rw [← Option.some.inj heq, hread a rfl]
      rfl

/-- A list that is left out when it is empty is read as the empty one then. -/
theorem withDefault_eq {α : Type} {key : String} {read : Json → Option (List α)} {value v : Json}
    {items : List α} (hread : read v = some items)
    (hfield : value.field? key = if items.isEmpty then none else some v) :
    value.withDefault key [] read = some items := by
  unfold withDefault
  cases items with
  | nil => simp [hfield]
  | cons item items => simp [hfield, hread]

/-! ## Objects as a whole -/

theorem record?_of_nodup {needed : Nat} {known : List String} {fields : List (String × Json)}
    (h : (fields.map (·.1)).Nodup) :
    (object fields).record? needed known = some (.object fields) := by
  have honce : known.all (fun key => fields.countP (·.1 == key) ≤ 1) = true := by
    rw [List.all_eq_true]
    intro key _
    have hcount := List.nodup_iff_count.1 h key
    rw [List.count, List.countP_map] at hcount
    exact decide_eq_true hcount
  unfold record?
  dsimp only
  rw [if_pos honce]

end Json

theorem keys_fieldIf_sublist (present : Bool) (key : String) (value : Json) :
    ((fieldIf present key value).map (·.1)).Sublist [key] := by
  unfold fieldIf
  cases present
  · exact List.nil_sublist [key]
  · exact List.Sublist.refl [key]

end TestLint
