import TestLint.Compilation
import TestLint.Proofs.Syntax.Address

/-!
# Handles

A handle keeps of a node no more than the bytes that it covers, and other nodes may cover the same
bytes.  The node that a handle leads to is looked for on the way down from the root that takes the
first child around the bytes at every step (`Tree.descent`), from the end of the way back to the
root (`Tree.nodeAt?_eq_find?_descent`).

Where children stand inside their parent and one after the other (`Tree.InOrder`), the way goes
through every node that covers the bytes, as soon as these are not empty
(`Tree.descent_of_holds`).  So the handle of the innermost of these nodes leads back to it, whatever
stands around it and beside it.
-/

namespace TestLint

namespace Tree

/-! ## Ranges in order -/

/-- At every node of the tree, the children stand inside it, one after the other. -/
def InOrder (t : Tree) : Prop :=
  ∀ n, t.Holds n → (∀ c ∈ n.children, n.start ≤ c.start ∧ c.stop ≤ n.stop) ∧
    n.children.Pairwise fun a b => a.stop ≤ b.start

/-- No node below covers the same bytes. -/
def IsInnermost (n : Tree) : Prop :=
  ∀ child ∈ n.children, ∀ m, child.Holds m → m.range ≠ n.range

instance (t : Tree) : Decidable t.InOrder :=
  decidable_of_iff (t.all fun n => decide
    ((∀ c ∈ n.children, n.start ≤ c.start ∧ c.stop ≤ n.stop) ∧
      n.children.Pairwise fun a b => a.stop ≤ b.start)) <| by
    rw [all_iff]
    simp only [decide_eq_true_eq]
    rfl

instance (n : Tree) : Decidable n.IsInnermost :=
  decidable_of_iff (allOf (fun m => decide (m.range ≠ n.range)) n.children) <| by
    rw [allOf_iff]
    simp only [decide_eq_true_eq]
    rfl

/-- The node covers the bytes from `start` to `stop`. -/
def Covers (start stop : Nat) (t : Tree) : Prop :=
  t.start ≤ start ∧ stop ≤ t.stop

instance (start stop : Nat) (t : Tree) : Decidable (t.Covers start stop) :=
  inferInstanceAs (Decidable (_ ∧ _))

namespace InOrder

variable {t n : Tree}

theorem of_mem (h : t.InOrder) {child : Tree} (hchild : child ∈ t.children) : child.InOrder :=
  fun n hn => h n (.inner hchild hn)

theorem inside (h : t.InOrder) {child : Tree} (hchild : child ∈ t.children) :
    t.start ≤ child.start ∧ child.stop ≤ t.stop :=
  (h t (.self t)).1 child hchild

theorem covers_of_holds (h : t.InOrder) (hn : t.Holds n) : t.Covers n.start n.stop :=
  inside_of_holds (fun m hm => (h m hm).1) hn

/-- Bytes that two children cover are none. -/
theorem eq_of_covers (h : t.InOrder) {i j : Nat} {a b : Tree} (ha : t.children[i]? = some a)
    (hb : t.children[j]? = some b) {start stop : Nat} (hne : start < stop)
    (hca : a.Covers start stop) (hcb : b.Covers start stop) : i = j := by
  have hordered := List.pairwise_iff_getElem.1 (h t (.self t)).2
  obtain ⟨hi, rfl⟩ := List.getElem?_eq_some_iff.1 ha
  obtain ⟨hj, rfl⟩ := List.getElem?_eq_some_iff.1 hb
  obtain ⟨hastart, hastop⟩ := hca
  obtain ⟨hbstart, hbstop⟩ := hcb
  rcases Nat.lt_trichotomy i j with hij | hij | hij
  · have := hordered i j hi hj hij
    omega
  · exact hij
  · have := hordered j i hj hi hij
    omega

end InOrder

/-! ## The way down and back -/

mutual

/-- The nodes on the way down that takes the first child around the bytes at every step, the last
one first. -/
def descent (start stop : Nat) : Tree → List Tree
  | .node info children => descentAmong start stop children ++ [.node info children]

/-- The way down from the first node of a list that covers the bytes. -/
def descentAmong (start stop : Nat) : List Tree → List Tree
  | [] => []
  | child :: rest =>
    if child.Covers start stop then descent start stop child else descentAmong start stop rest

end

variable {start stop : Nat} {t n : Tree}

theorem find?_covers_eq_none {ts : List Tree} (h : ∀ c ∈ ts, ¬c.Covers start stop) :
    ts.find? (fun c => c.Covers start stop) = none :=
  List.find?_eq_none.2 fun c hc => by simpa using h c hc

theorem descentAmong_eq (ts : List Tree) : descentAmong start stop ts =
    (ts.find? fun c => c.Covers start stop).elim [] (descent start stop) := by
  induction ts with
  | nil => rfl
  | cons child rest ih =>
    rw [descentAmong, List.find?_cons]
    by_cases hchild : child.Covers start stop
    · simp [hchild]
    · simp [hchild, ih]

theorem descent_eq (t : Tree) : descent start stop t =
    (t.children.find? fun c => c.Covers start stop).elim [] (descent start stop) ++ [t] := by
  obtain ⟨info, children⟩ := t
  rw [descent, descentAmong_eq]
  rfl

mutual

theorem nodeAt?_eq_of_covers (t : Tree) (h : t.Covers start stop) : t.nodeAt? start stop =
    (descent start stop t).find? (·.range = ⟨start, stop⟩) := by
  obtain ⟨info, children⟩ := t
  have hcovers : info.start ≤ start ∧ stop ≤ info.stop := h
  rw [nodeAt?, if_pos hcovers, nodeAtIn?_eq children, descent, List.find?_append]
  cases (descentAmong start stop children).find? (·.range = ⟨start, stop⟩) with
  | some found => rfl
  | none =>
    by_cases hhere : info.start = start ∧ info.stop = stop <;>
      simp [range, Tree.start, Tree.stop, Tree.info, hhere]

theorem nodeAtIn?_eq (ts : List Tree) : nodeAtIn? start stop ts =
    (descentAmong start stop ts).find? (·.range = ⟨start, stop⟩) := by
  match ts with
  | [] => rfl
  | child :: rest =>
    rw [nodeAtIn?, descentAmong]
    by_cases hchild : child.start ≤ start ∧ stop ≤ child.stop
    · rw [if_pos hchild, if_pos (show child.Covers start stop from hchild),
        nodeAt?_eq_of_covers child hchild]
    · rw [if_neg hchild, if_neg (show ¬child.Covers start stop from hchild), nodeAtIn?_eq rest]

end

/-- The node that is found is the first one on the way back that covers just the bytes. -/
theorem nodeAt?_eq_find?_descent (h : t.InOrder) (start stop : Nat) : t.nodeAt? start stop =
    (descent start stop t).find? (·.range = ⟨start, stop⟩) := by
  by_cases hcovers : t.Covers start stop
  · exact nodeAt?_eq_of_covers t hcovers
  -- As the root does not cover the bytes, none of its children does.
  have hchildren : t.children.find? (fun c => c.Covers start stop) = none := by
    refine find?_covers_eq_none fun child hchild hcovered => hcovers ?_
    have hinside := h.inside hchild
    exact ⟨hinside.1.trans hcovered.1, hcovered.2.trans hinside.2⟩
  have hrange : t.range ≠ ⟨start, stop⟩ := by
    intro hrange
    rw [range, ByteRange.mk.injEq] at hrange
    exact hcovers ⟨hrange.1.le, hrange.2.ge⟩
  rw [descent_eq, hchildren, Option.elim_none, List.nil_append, List.find?_singleton,
    if_neg (by simpa using hrange)]
  obtain ⟨info, children⟩ := t
  have hnot : ¬(info.start ≤ start ∧ stop ≤ info.stop) := hcovers
  rw [nodeAt?, if_neg hnot]

/-! ## What the way down meets -/

theorem holds_of_mem_descent (t : Tree) (h : n ∈ descent start stop t) : t.Holds n := by
  induction t using induction_on with
  | node info children ih =>
    rw [descent_eq, List.mem_append, List.mem_singleton] at h
    rcases h with h | rfl
    · cases hchild : (Tree.node info children).children.find? (fun c => c.Covers start stop) with
      | none =>
        rw [hchild] at h
        cases h
      | some child =>
        rw [hchild] at h
        have hmem := List.mem_of_find?_eq_some hchild
        exact .inner hmem (ih child hmem h)
    · exact .self _

/-- The first child around the bytes of a node is the child that the node stands in. -/
theorem find?_covers_eq_some (ht : t.InOrder) {child : Tree} (hchild : child ∈ t.children)
    (hn : child.Holds n) (hne : n.start < n.stop) :
    t.children.find? (fun c => c.Covers n.start n.stop) = some child := by
  have hcovers := (ht.of_mem hchild).covers_of_holds hn
  obtain ⟨place, hplace⟩ := List.getElem?_of_mem hchild
  cases hfound : t.children.find? (fun c => c.Covers n.start n.stop) with
  | none =>
    have hnone := List.find?_eq_none.1 hfound child hchild
    exact absurd (decide_eq_true hcovers) hnone
  | some found =>
    obtain ⟨place', hplace'⟩ := List.getElem?_of_mem (List.mem_of_find?_eq_some hfound)
    have hfoundCovers : found.Covers n.start n.stop := by simpa using List.find?_some hfound
    have heq := ht.eq_of_covers hplace hplace' hne hcovers hfoundCovers
    rw [← heq, hplace] at hplace'
    exact hplace'.symm

/-- The way down to the bytes of a node leads through the node. -/
theorem descent_of_holds (ht : t.InOrder) (hn : t.Holds n) (hne : n.start < n.stop) :
    ∃ above, descent n.start n.stop t = descent n.start n.stop n ++ above := by
  -- Every step from the root to the node goes to the one child that covers its bytes.
  induction hn with
  | self t => exact ⟨[], (List.append_nil _).symm⟩
  | @inner t child n hchild hn ih =>
    obtain ⟨above, habove⟩ := ih (ht.of_mem hchild) hne
    refine ⟨above ++ [t], ?_⟩
    rw [descent_eq t, find?_covers_eq_some ht hchild hn hne, Option.elim_some, habove,
      List.append_assoc]

/-- The way down ends at the innermost node. -/
theorem descent_of_isInnermost (hn : n.InOrder) (hinner : n.IsInnermost) :
    descent n.start n.stop n = [n] := by
  have hnone : n.children.find? (fun c => c.Covers n.start n.stop) = none := by
    refine find?_covers_eq_none fun child hchild hcovers => ?_
    refine hinner child hchild child (.self child) ?_
    have hinside := hn.inside hchild
    exact congrArg₂ ByteRange.mk (Nat.le_antisymm hcovers.1 hinside.1)
      (Nat.le_antisymm hinside.2 hcovers.2)
  rw [descent_eq, hnone, Option.elim_none, List.nil_append]

/-- An innermost node stands at one address only. -/
theorem address_unique (ht : t.InOrder) (hne : n.start < n.stop) (hinner : n.IsInnermost)
    {a b : List Nat} (ha : t.at? a = some n) (hb : t.at? b = some n) : a = b := by
  -- The node does not stand below itself: it would share its bytes there.
  have hself : ∀ {place address}, n.at? (place :: address) ≠ some n := by
    intro place address h
    obtain ⟨child, hchild, h⟩ := at?_cons_eq_some_iff.1 h
    exact hinner child (List.mem_of_getElem? hchild) n (holds_of_at? h) rfl
  induction a generalizing t b with
  | nil =>
    cases ha
    cases b with
    | nil => rfl
    | cons place b => exact absurd hb hself
  | cons place a ih =>
    cases b with
    | nil =>
      cases hb
      exact absurd ha hself
    | cons place' b =>
      obtain ⟨child, hchild, ha⟩ := at?_cons_eq_some_iff.1 ha
      obtain ⟨child', hchild', hb⟩ := at?_cons_eq_some_iff.1 hb
      have hmem := List.mem_of_getElem? hchild
      have hplace : place = place' :=
        ht.eq_of_covers hchild hchild' hne
          ((ht.of_mem hmem).covers_of_holds (holds_of_at? ha))
          ((ht.of_mem (List.mem_of_getElem? hchild')).covers_of_holds (holds_of_at? hb))
      rw [← hplace, hchild, Option.some.injEq] at hchild'
      rw [← hplace, ih (ht.of_mem hmem) ha (hchild' ▸ hb)]

theorem nodeAt?_of_isInnermost (ht : t.InOrder) (hn : t.Holds n) (hne : n.start < n.stop)
    (hinner : n.IsInnermost) : t.nodeAt? n.start n.stop = some n := by
  obtain ⟨above, habove⟩ := descent_of_holds ht hn hne
  have hbelow := descent_of_isInnermost (fun m hm => ht m (hn.trans hm)) hinner
  rw [nodeAt?_eq_find?_descent ht, habove, hbelow, List.singleton_append,
    List.find?_cons_of_pos (by simp [range])]

theorem nodeAt?_eq_none (ht : t.InOrder) (h : ∀ n, t.Holds n → n.range ≠ ⟨start, stop⟩) :
    t.nodeAt? start stop = none := by
  rw [nodeAt?_eq_find?_descent ht]
  refine List.find?_eq_none.2 fun n hn => ?_
  simpa using h n (holds_of_mem_descent t hn)

end Tree

namespace Compilation

/-- In a file whose nodes are in order, the handle of the innermost of the nodes that cover some
bytes leads back to this node and to no other, and a handle on bytes that no node covers leads
nowhere. -/
theorem nodeAt?_handle (c : Compilation) {id : FileId} {file : SourceFile}
    (hfile : c.file? id = some file) (hordered : file.tree.InOrder) :
    (∀ address n, file.tree.at? address = some n → n.start < n.stop → n.IsInnermost →
      c.nodeAt? ⟨id, n.start, n.stop⟩ = some n ∧
        ∀ other, file.tree.at? other = some n → other = address) ∧
    ∀ start stop, (∀ address n, file.tree.at? address = some n → n.range ≠ ⟨start, stop⟩) →
      c.nodeAt? ⟨id, start, stop⟩ = none := by
  have hlookup : ∀ start stop, c.nodeAt? ⟨id, start, stop⟩ = file.tree.nodeAt? start stop :=
    fun start stop => by simp only [nodeAt?, hfile, Option.bind_eq_bind, Option.bind_some]
  refine ⟨fun address n hn hne hinner => ⟨?_, fun other hother => ?_⟩, fun start stop h => ?_⟩
  · rw [hlookup]
    exact Tree.nodeAt?_of_isInnermost hordered (Tree.holds_of_at? hn) hne hinner
  · exact Tree.address_unique hordered hne hinner hother hn
  · rw [hlookup]
    refine Tree.nodeAt?_eq_none hordered fun n hn => ?_
    obtain ⟨address, haddress⟩ := hn.exists_at?
    exact h address n haddress

/-- The tree of `class{}`: the file covers what its class covers, and the name that is missing
covers nothing, just before the body. -/
def namelessTree : Tree :=
  .node ⟨"compilation_unit", none, true, false, 0, 7⟩
    [.node ⟨"class_declaration", none, true, false, 0, 7⟩
      [.node ⟨"class", none, false, false, 0, 5⟩ [],
       .node ⟨"identifier", some "name", true, true, 5, 5⟩ [],
       .node ⟨"declaration_list", some "body", true, false, 5, 7⟩ []]]

def namelessClass : Compilation :=
  .ofSources (fun _ => namelessTree) [(⟨"A.cs"⟩, "class\x7b\x7d")] .empty

/-- The class is found and not the file, and its body behind the missing name. -/
theorem nodeAt?_handle_namelessClass :
    (namelessClass.nodeAt? ⟨0, 0, 7⟩).map (·.kind) = some "class_declaration" ∧
      (namelessClass.nodeAt? ⟨0, 5, 7⟩).map (·.kind) = some "declaration_list" ∧
      namelessClass.nodeAt? ⟨0, 0, 6⟩ = none := by
  obtain ⟨hfound, hnone⟩ :=
    @nodeAt?_handle namelessClass 0 _ rfl (by decide : namelessTree.InOrder)
  have hclass := (hfound [0] _ rfl (by decide) (by decide)).1
  have hbody := (hfound [0, 2] _ rfl (by decide) (by decide)).1
  refine ⟨congrArg _ hclass, congrArg _ hbody, hnone 0 6 fun address n hn hrange => ?_⟩
  have hall : namelessTree.all (fun n => decide (n.range ≠ ⟨0, 6⟩)) = true := by decide
  have hne := (Tree.all_iff _ _).1 hall n (Tree.holds_of_at? hn)
  exact of_decide_eq_true hne hrange

end Compilation

end TestLint
