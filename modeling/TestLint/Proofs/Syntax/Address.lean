import Mathlib.Data.List.Lex
import TestLint.Proofs.Syntax.WellFormed

/-!
# Addresses

Two nodes of a tree may be equal.  What tells them apart is the address, the place of a child at
every step down from the root (`Tree.at?`).  A node comes before those below it, and what is below
one child before what is below the next: this is the lexicographic order of the addresses, in
which a walk in pre-order meets the nodes of the code (`Tree.pairwise_codeAddresses`).
-/

namespace TestLint.Tree

/-- The node at an address. -/
def at? : Tree → List Nat → Option Tree
  | t, [] => some t
  | t, place :: address => t.children[place]?.bind fun child => child.at? address

@[simp]
theorem at?_nil (t : Tree) : t.at? [] = some t :=
  rfl

theorem at?_cons_eq_some_iff {t n : Tree} {place : Nat} {address : List Nat} :
    t.at? (place :: address) = some n ↔
      ∃ child, t.children[place]? = some child ∧ child.at? address = some n :=
  Option.bind_eq_some_iff

theorem holds_of_at? {t n : Tree} {address : List Nat} (h : t.at? address = some n) :
    t.Holds n := by
  induction address generalizing t with
  | nil =>
    cases h
    exact .self n
  | cons place address ih =>
    obtain ⟨child, hchild, h⟩ := at?_cons_eq_some_iff.1 h
    exact .inner (List.mem_of_getElem? hchild) (ih h)

theorem Holds.exists_at? {t n : Tree} (h : t.Holds n) : ∃ address, t.at? address = some n := by
  induction h with
  | self t => exact ⟨[], rfl⟩
  | inner hchild _ ih =>
    obtain ⟨address, haddress⟩ := ih
    obtain ⟨place, hplace⟩ := List.getElem?_of_mem hchild
    exact ⟨place :: address, at?_cons_eq_some_iff.2 ⟨_, hplace, haddress⟩⟩

/-- The nodes above the one at an address, the nearest first. -/
def above : Tree → List Nat → List Tree
  | _, [] => []
  | t, place :: address => t.children[place]?.elim [] (fun child => child.above address) ++ [t]

theorem above_cons {t child : Tree} {place : Nat} (h : t.children[place]? = some child)
    (address : List Nat) : t.above (place :: address) = child.above address ++ [t] := by
  rw [above, h, Option.elim_some]

/-! ## The code of a tree -/

/-- The node at an address to which all steps lead through the code. -/
inductive CodeAt : Tree → List Nat → Tree → Prop
  | self (t : Tree) : CodeAt t [] t
  | inner {t child n : Tree} {place : Nat} {address : List Nat}
      (hchild : t.children[place]? = some child) (hcode : child.isCode = true)
      (h : CodeAt child address n) : CodeAt t (place :: address) n

theorem CodeAt.at?_eq {t n : Tree} {address : List Nat} (h : t.CodeAt address n) :
    t.at? address = some n := by
  induction h with
  | self t => rfl
  | inner hchild _ _ ih => exact at?_cons_eq_some_iff.2 ⟨_, hchild, ih⟩

mutual

/-- The addresses of the code of a tree in pre-order. -/
def codeAddresses : Tree → List (List Nat)
  | .node _ children => [] :: codeAddressesAmong 0 children

/-- The addresses of the code of children that stand one after the other from a place on. -/
def codeAddressesAmong (place : Nat) : List Tree → List (List Nat)
  | [] => []
  | child :: rest =>
    (if child.isCode then (codeAddresses child).map (place :: ·) else []) ++
      codeAddressesAmong (place + 1) rest

end

theorem codeAddressesAmong_eq (place : Nat) (ts : List Tree) : codeAddressesAmong place ts =
    (ts.zipIdx place).flatMap fun (child, place) =>
      if child.isCode then child.codeAddresses.map (place :: ·) else [] := by
  induction ts generalizing place with
  | nil => rfl
  | cons child rest ih => rw [codeAddressesAmong, ih, List.zipIdx_cons, List.flatMap_cons]

theorem codeAddresses_eq (t : Tree) : t.codeAddresses =
    [] :: t.children.zipIdx.flatMap fun (child, place) =>
      if child.isCode then child.codeAddresses.map (place :: ·) else [] := by
  obtain ⟨info, children⟩ := t
  rw [codeAddresses, codeAddressesAmong_eq]
  rfl

theorem mem_codeAddresses_cons {t : Tree} {place : Nat} {address : List Nat} :
    place :: address ∈ t.codeAddresses ↔ ∃ child, t.children[place]? = some child ∧
      child.isCode = true ∧ address ∈ child.codeAddresses := by
  rw [codeAddresses_eq, List.mem_cons, List.mem_flatMap]
  constructor
  · rintro (h | ⟨⟨child, place'⟩, hmem, h⟩)
    · cases h
    · dsimp only at h
      split at h
      case isFalse => cases h
      case isTrue hcode =>
        obtain ⟨address', haddress, heq⟩ := List.mem_map.1 h
        cases heq
        exact ⟨child, List.mem_zipIdx_iff_getElem?.1 hmem, hcode, haddress⟩
  · rintro ⟨child, hchild, hcode, haddress⟩
    refine .inr ⟨(child, place), List.mem_zipIdx_iff_getElem?.2 hchild, ?_⟩
    dsimp only
    rw [if_pos hcode]
    exact List.mem_map_of_mem haddress

theorem mem_codeAddresses_iff {t : Tree} {address : List Nat} :
    address ∈ t.codeAddresses ↔ ∃ n, t.CodeAt address n := by
  induction address generalizing t with
  | nil =>
    rw [codeAddresses_eq]
    exact ⟨fun _ => ⟨t, .self t⟩, fun _ => List.mem_cons_self⟩
  | cons place address ih =>
    rw [mem_codeAddresses_cons]
    constructor
    · rintro ⟨child, hchild, hcode, haddress⟩
      obtain ⟨n, hn⟩ := ih.1 haddress
      exact ⟨n, .inner hchild hcode hn⟩
    · rintro ⟨n, hn⟩
      cases hn with
      | inner hchild hcode hn => exact ⟨_, hchild, hcode, ih.2 ⟨n, hn⟩⟩

theorem pairwise_codeAddresses (t : Tree) : t.codeAddresses.Pairwise (· < ·) := by
  induction t using induction_on with
  | node info children ih =>
    have hplaces : children.zipIdx.Pairwise (·.2 < ·.2) := by
      rw [← List.pairwise_map, List.zipIdx_map_snd]
      exact List.pairwise_lt_range'
    rw [codeAddresses_eq, List.pairwise_cons, List.pairwise_flatMap]
    refine ⟨?_, ?_, ?_⟩
    · -- The node itself comes first.
      intro address haddress
      obtain ⟨⟨child, place⟩, -, haddress⟩ := List.mem_flatMap.1 haddress
      dsimp only at haddress
      split at haddress
      case isFalse => cases haddress
      case isTrue =>
        obtain ⟨address', -, rfl⟩ := List.mem_map.1 haddress
        exact List.nil_lt_cons _ _
    · rintro ⟨child, place⟩ hmem
      dsimp only
      split
      case isFalse => exact .nil
      case isTrue =>
        have hchild := List.mem_of_getElem? (List.mem_zipIdx_iff_getElem?.1 hmem)
        refine List.pairwise_map.2 ((ih child hchild).imp fun h => ?_)
        exact List.cons_lt_cons_iff.2 (.inr ⟨rfl, h⟩)
    · refine hplaces.imp ?_
      rintro ⟨child, place⟩ ⟨child', place'⟩ hlt address haddress address' haddress'
      dsimp only at hlt haddress haddress'
      split at haddress
      case isFalse => cases haddress
      case isTrue =>
        split at haddress'
        case isFalse => cases haddress'
        case isTrue =>
          obtain ⟨_, -, rfl⟩ := List.mem_map.1 haddress
          obtain ⟨_, -, rfl⟩ := List.mem_map.1 haddress'
          exact List.cons_lt_cons_iff.2 (.inl hlt)

end TestLint.Tree
