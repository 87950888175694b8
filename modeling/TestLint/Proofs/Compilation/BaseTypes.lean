import Mathlib.Data.List.Nodup
import TestLint.Proofs.Compilation.Resolving
import TestLint.Proofs.DepthFirst

/-!
# The base types of a type

A type derives from another if one of its parts writes a base that means the other where
the type's first part stands (`Compilation.Derives`).  The walk over base lists comes to
an end on every graph of types, cycles included, and finds all parts of the types that the
given one derives from, directly or through others: each type once, and the given type
never (`Compilation.baseTypes_spec`).

A list is gone through for every type that is met, so what the walk has met derives only
from what it has met or is still to go through (`BaseWalk.Covers`).
-/

namespace TestLint.Compilation

open Relation (ReflTransGen TransGen)

variable {c : Compilation}

/-- Some part of the type writes a base that means the other type, read where the first
part of the type stands. -/
def Derives (c : Compilation) (fullName base : String) : Prop :=
  ∃ written ∈ pooledBases (c.typeParts fullName), c.Means (c.type? fullName) written base

/-- The bases that the parts of a type write. -/
def basesOf (c : Compilation) (fullName : String) : PendingBases :=
  ⟨pooledBases (c.typeParts fullName), fullName⟩

namespace BaseWalk

/-! ## One base list -/

/-- The walk after more types have been met, in the given order. -/
def meet (c : Compilation) (w : BaseWalk) (names : List String) : BaseWalk where
  pending := (names.map c.basesOf).reverse ++ w.pending
  visited := names.reverse ++ w.visited
  found := w.found ++ names.flatMap c.typeParts

variable {w : BaseWalk} {context : Option TypeDeclaration}

@[simp]
theorem meet_nil : w.meet c [] = w := by
  simp [meet]

theorem meet_meet (names names' : List String) :
    (w.meet c names).meet c names' = w.meet c (names ++ names') := by
  simp [meet]

/-- A base that means nothing, or a type that has been met, changes nothing. -/
theorem add_of_visited {base : String} (h : ∀ n, c.Means context base n → n ∈ w.visited) :
    add c context w base = w := by
  unfold add
  cases hparts : c.resolve base context with
  | nil => rfl
  | cons first others =>
    have hmem : first.fullName ∈ w.visited := by
      apply h
      refine ⟨first, ?_, rfl⟩
      rw [hparts]
      exact List.mem_cons_self
    simp [hmem]

theorem add_of_means {base fullName : String} (h : c.Means context base fullName)
    (hnew : fullName ∉ w.visited) : add c context w base = w.meet c [fullName] := by
  have hresolve := h.resolve_eq
  obtain ⟨part, hpart, rfl⟩ := h
  unfold add
  cases hparts : c.resolve base context with
  | nil =>
    rw [hparts] at hpart
    cases hpart
  | cons first others =>
    have hname : first.fullName = part.fullName := by
      have hfirst : first ∈ c.typeParts part.fullName := by
        rw [← hresolve, hparts]
        exact List.mem_cons_self
      exact (mem_typeParts.1 hfirst).2
    rw [hparts] at hresolve
    simp [hname, hnew, hresolve, meet, basesOf]

/-- Going through a base list meets the types that its names mean, those that have been
met aside, each once. -/
theorem foldl_add (context : Option TypeDeclaration) (bases : List String) (w : BaseWalk) :
    ∃ names : List String, bases.foldl (add c context) w = w.meet c names ∧ names.Nodup ∧
      (∀ n ∈ names, n ∉ w.visited ∧ ∃ base ∈ bases, c.Means context base n) ∧
      ∀ base ∈ bases, ∀ n, c.Means context base n → n ∈ names ∨ n ∈ w.visited := by
  induction bases generalizing w with
  | nil => exact ⟨[], by simp⟩
  | cons base rest ih =>
    rw [List.foldl_cons]
    by_cases hnew : ∃ n, c.Means context base n ∧ n ∉ w.visited
    · obtain ⟨n, hmeans, hnew⟩ := hnew
      rw [add_of_means hmeans hnew]
      obtain ⟨names, hwalk, hnodup, hmet, hall⟩ := ih (w.meet c [n])
      have hvisited : ∀ m, m ∈ (w.meet c [n]).visited ↔ m = n ∨ m ∈ w.visited := by
        simp [meet]
      refine ⟨n :: names, ?_, ?_, ?_, ?_⟩
      · rw [hwalk, meet_meet, List.singleton_append]
      · refine List.nodup_cons.2 ⟨fun hmem => ?_, hnodup⟩
        exact (hmet n hmem).1 ((hvisited n).2 (.inl rfl))
      · intro m hm
        rcases List.mem_cons.1 hm with rfl | hm
        · exact ⟨hnew, base, List.mem_cons_self, hmeans⟩
        · obtain ⟨hnot, base', hbase', hmeans'⟩ := hmet m hm
          refine ⟨fun hmem => hnot ((hvisited m).2 (.inr hmem)), base', ?_, hmeans'⟩
          exact List.mem_cons_of_mem base hbase'
      · intro base' hbase' m hm
        rcases List.mem_cons.1 hbase' with rfl | hbase'
        · rw [hm.unique hmeans]
          exact .inl List.mem_cons_self
        · rcases hall base' hbase' m hm with hmem | hmem
          · exact .inl (List.mem_cons_of_mem n hmem)
          · rcases (hvisited m).1 hmem with rfl | hmem
            · exact .inl List.mem_cons_self
            · exact .inr hmem
    · have hold : ∀ n, c.Means context base n → n ∈ w.visited := by
        intro n hmeans
        by_contra hnot
        exact hnew ⟨n, hmeans, hnot⟩
      rw [add_of_visited hold]
      obtain ⟨names, hwalk, hnodup, hmet, hall⟩ := ih w
      refine ⟨names, hwalk, hnodup, ?_, ?_⟩
      · intro m hm
        obtain ⟨hnot, base', hbase', hmeans'⟩ := hmet m hm
        exact ⟨hnot, base', List.mem_cons_of_mem base hbase', hmeans'⟩
      · intro base' hbase' m hm
        rcases List.mem_cons.1 hbase' with rfl | hbase'
        · exact .inr (hold m hm)
        · exact hall base' hbase' m hm

/-! ## What the walk keeps -/

/-- What holds of a walk from `root` that has met the types of these names. -/
structure Covers (c : Compilation) (root : String) (names : List String) (w : BaseWalk) : Prop where
  visited : w.visited = names.reverse ++ [root]
  found : w.found = names.flatMap c.typeParts
  nodup : w.visited.Nodup
  reached : ∀ n ∈ w.visited, ReflTransGen c.Derives root n
  pending : ∀ p ∈ w.pending, ∃ n ∈ w.visited, p = c.basesOf n
  /-- A type that is not waiting derives only from types that have been met. -/
  closed : ∀ n ∈ w.visited, c.basesOf n ∈ w.pending ∨ ∀ m, c.Derives n m → m ∈ w.visited

variable {root : String} {names : List String} {rest : List PendingBases} {next : PendingBases}

/-- Going through the next base list keeps it. -/
theorem Covers.step (h : w.Covers c root names) (hpending : w.pending = next :: rest) :
    ∃ new : List String,
      next.bases.foldl (add c (c.type? next.writer)) { w with pending := rest } =
        { w with pending := rest }.meet c new ∧
      new.Nodup ∧ (∀ n ∈ new, n ∉ w.visited ∧ n ∈ c.types.map (·.fullName)) ∧
      Covers c root (names ++ new) ({ w with pending := rest }.meet c new) := by
  obtain ⟨n, hn, rfl⟩ := h.pending next (by rw [hpending]; exact List.mem_cons_self)
  obtain ⟨new, hwalk, hnodup, hnew, hall⟩ :=
    foldl_add (c := c) (c.type? n) (c.basesOf n).bases { w with pending := rest }
  have hderives : ∀ m ∈ new, c.Derives n m := fun m hm => (hnew m hm).2
  have hmet : ∀ m, c.Derives n m → m ∈ new ∨ m ∈ w.visited := by
    rintro m ⟨written, hwritten, hmeans⟩
    exact hall written hwritten m hmeans
  have hvisited : ∀ m, m ∈ ({ w with pending := rest }.meet c new).visited ↔
      m ∈ new ∨ m ∈ w.visited := by
    simp [meet]
  have hwaiting : ∀ p, p ∈ ({ w with pending := rest }.meet c new).pending ↔
      (∃ m ∈ new, c.basesOf m = p) ∨ p ∈ rest := by
    simp [meet]
  refine ⟨new, hwalk, hnodup, ?_, ?_, ?_, ?_, ?_, ?_, ?_⟩
  · intro m hm
    obtain ⟨hnot, base, -, hmeans⟩ := hnew m hm
    exact ⟨hnot, hmeans.mem_types⟩
  · simp [meet, h.visited]
  · simp [meet, h.found]
  · refine List.nodup_append.2 ⟨List.nodup_reverse.2 hnodup, h.nodup, ?_⟩
    rintro m hm k hk rfl
    exact (hnew m (List.mem_reverse.1 hm)).1 hk
  · intro m hm
    rcases (hvisited m).1 hm with hm | hm
    · exact (h.reached n hn).tail (hderives m hm)
    · exact h.reached m hm
  · intro p hp
    rcases (hwaiting p).1 hp with ⟨m, hm, rfl⟩ | hp
    · exact ⟨m, (hvisited m).2 (.inl hm), rfl⟩
    · obtain ⟨m, hm, rfl⟩ := h.pending p (by rw [hpending]; exact List.mem_cons_of_mem _ hp)
      exact ⟨m, (hvisited m).2 (.inr hm), rfl⟩
  · intro m hm
    rcases (hvisited m).1 hm with hm | hm
    · exact .inl ((hwaiting _).2 (.inl ⟨m, hm, rfl⟩))
    · rcases h.closed m hm with hwaits | hclosed
      · rw [hpending, List.mem_cons] at hwaits
        rcases hwaits with heq | hwaits
        · -- its own list is the one that has just been gone through
          obtain rfl : m = n := congrArg PendingBases.writer heq
          exact .inr fun k hk => (hvisited k).2 (hmet k hk)
        · exact .inl ((hwaiting _).2 (.inr hwaits))
      · exact .inr fun k hk => (hvisited k).2 (.inr (hclosed k hk))

/-! ## The whole walk -/

/-- What is left to do: the lists that wait, and one for each type not met so far. -/
def left (c : Compilation) (w : BaseWalk) : Nat :=
  w.pending.length + DepthFirst.unmet (c.types.map (·.fullName)) w.visited

theorem left_meet (w : BaseWalk) {new : List String} (hnodup : new.Nodup)
    (hnew : ∀ n ∈ new, n ∉ w.visited ∧ n ∈ c.types.map (·.fullName)) :
    (w.meet c new).left c ≤ w.left c := by
  induction new generalizing w with
  | nil => rw [meet_nil]
  | cons n new ih =>
    obtain ⟨hn, hnodup⟩ := List.nodup_cons.1 hnodup
    obtain ⟨hnot, htypes⟩ := hnew n List.mem_cons_self
    have hless := DepthFirst.unmet_cons_lt htypes hnot
    have hone : (w.meet c [n]).left c ≤ w.left c := by
      simp only [left, meet, List.map_cons, List.map_nil, List.reverse_singleton,
        List.singleton_append, List.length_cons]
      omega
    have hrest : ((w.meet c [n]).meet c new).left c ≤ (w.meet c [n]).left c := by
      refine ih (w.meet c [n]) hnodup fun m hm => ?_
      obtain ⟨hold, hmem⟩ := hnew m (List.mem_cons_of_mem n hm)
      refine ⟨fun h => ?_, hmem⟩
      have hcases : m = n ∨ m ∈ w.visited := by simpa [meet] using h
      rcases hcases with rfl | h
      · exact hn hm
      · exact hold h
    rw [meet_meet, List.singleton_append] at hrest
    exact Nat.le_trans hrest hone

/-- With enough fuel the walk comes to its end, and keeps what it keeps at each step. -/
theorem Covers.run {fuel : Nat} (h : w.Covers c root names) (hfuel : w.left c ≤ fuel) :
    ∃ names', Covers c root names' (run c fuel w) ∧ (run c fuel w).pending = [] := by
  induction fuel generalizing w names with
  | zero =>
    have hpending : w.pending.length = 0 := by
      unfold left at hfuel
      omega
    exact ⟨names, h, List.length_eq_zero_iff.1 hpending⟩
  | succ fuel ih =>
    unfold BaseWalk.run
    cases hpending : w.pending with
    | nil => exact ⟨names, h, hpending⟩
    | cons next rest =>
      obtain ⟨new, hwalk, hnodup, hnew, hcovers⟩ := h.step hpending
      dsimp only
      rw [hwalk]
      refine ih hcovers ?_
      have hleft := left_meet (c := c) { w with pending := rest } hnodup hnew
      unfold left at hleft hfuel ⊢
      rw [hpending, List.length_cons] at hfuel
      dsimp only at hleft
      omega

/-- At its end the walk has met what can be reached from the root, and nothing else. -/
theorem Covers.mem_iff (h : w.Covers c root names) (hend : w.pending = []) (n : String) :
    n ∈ names ↔ n ≠ root ∧ TransGen c.Derives root n := by
  have hvisited : ∀ m, m ∈ w.visited ↔ m ∈ names ∨ m = root := by
    intro m
    rw [h.visited, List.mem_append, List.mem_reverse, List.mem_singleton]
  have hall : ∀ m, ReflTransGen c.Derives root m → m ∈ w.visited := by
    intro m hm
    induction hm with
    | refl => exact (hvisited root).2 (.inr rfl)
    | tail _ hderives ih =>
      rcases h.closed _ ih with hwaits | hclosed
      · rw [hend] at hwaits
        cases hwaits
      · exact hclosed _ hderives
  have hroot : root ∉ names := by
    have hnodup := h.nodup
    rw [h.visited, List.nodup_append] at hnodup
    intro hmem
    exact hnodup.2.2 root (List.mem_reverse.2 hmem) root List.mem_cons_self rfl
  constructor
  · intro hn
    have hne : n ≠ root := fun heq => hroot (heq ▸ hn)
    rcases Relation.reflTransGen_iff_eq_or_transGen.1
      (h.reached n ((hvisited n).2 (.inl hn))) with heq | htrans
    · exact absurd heq hne
    · exact ⟨hne, htrans⟩
  · rintro ⟨hne, htrans⟩
    exact ((hvisited n).1 (hall n htrans.to_reflTransGen)).resolve_right hne

/-- The walk before its first step, at a type of the compilation. -/
def start (c : Compilation) (fullName : String) : BaseWalk :=
  ⟨[c.basesOf fullName], [fullName], []⟩

theorem covers_start (c : Compilation) (fullName : String) :
    (start c fullName).Covers c fullName [] where
  visited := rfl
  found := rfl
  nodup := List.nodup_singleton _
  reached n hn := by
    rw [List.mem_singleton.1 hn]
  pending p hp := ⟨fullName, List.mem_cons_self, List.mem_singleton.1 hp⟩
  closed n hn := by
    rw [List.mem_singleton.1 hn]
    exact .inl List.mem_cons_self

end BaseWalk

/-! ## Base types -/

/-- The base types of a declared type are what the walk finds that starts at the type. -/
theorem baseTypes_eq {t : TypeDeclaration} (ht : t ∈ c.types) :
    c.baseTypes t = (BaseWalk.run c (c.types.length + 1) (.start c t.fullName)).found := by
  unfold baseTypes
  by_cases hpooled : pooledBases (c.typeParts t.fullName) = []
  · have hown : t.baseTypes = [] :=
      List.flatMap_eq_nil_iff.1 hpooled t (mem_typeParts.2 ⟨ht, rfl⟩)
    simp only [hpooled, hown, BaseWalk.start, basesOf, List.isEmpty_nil, if_true]
  · simp only [List.isEmpty_iff, hpooled, if_false, BaseWalk.start, basesOf]

/-- There is fuel for every type. -/
theorem BaseWalk.left_start_le (c : Compilation) (fullName : String) :
    (BaseWalk.start c fullName).left c ≤ c.types.length + 1 := by
  have hunmet : DepthFirst.unmet (c.types.map (·.fullName)) [fullName] ≤
      (c.types.map (·.fullName)).length := List.countP_le_length
  rw [List.length_map] at hunmet
  have hpending : (BaseWalk.start c fullName).pending.length = 1 := rfl
  have hvisited : (BaseWalk.start c fullName).visited = [fullName] := rfl
  unfold BaseWalk.left
  rw [hpending, hvisited]
  omega

theorem mem_baseTypes_iff {t base : TypeDeclaration} (ht : t ∈ c.types) :
    base ∈ c.baseTypes t ↔ base ∈ c.types ∧ base.fullName ≠ t.fullName ∧
      TransGen c.Derives t.fullName base.fullName := by
  obtain ⟨names, hcovers, hend⟩ :=
    (BaseWalk.covers_start c t.fullName).run (BaseWalk.left_start_le c t.fullName)
  rw [baseTypes_eq ht, hcovers.found, List.mem_flatMap]
  simp only [mem_typeParts, hcovers.mem_iff hend]
  constructor
  · rintro ⟨n, hn, hbase, rfl⟩
    exact ⟨hbase, hn⟩
  · rintro ⟨hbase, hn⟩
    exact ⟨base.fullName, hn, hbase, rfl⟩

/-- The walk over base lists comes to an end, and gives all parts of the types that a type
derives from, directly or through others, each type once and the type itself never. -/
theorem baseTypes_spec {t : TypeDeclaration} (ht : t ∈ c.types) :
    (BaseWalk.run c (c.types.length + 1) (.start c t.fullName)).pending = [] ∧
      ∃ names : List String, c.baseTypes t = names.flatMap c.typeParts ∧ names.Nodup ∧
        ∀ n, n ∈ names ↔ n ≠ t.fullName ∧ TransGen c.Derives t.fullName n := by
  obtain ⟨names, hcovers, hend⟩ :=
    (BaseWalk.covers_start c t.fullName).run (BaseWalk.left_start_le c t.fullName)
  refine ⟨hend, names, ?_, ?_, hcovers.mem_iff hend⟩
  · rw [baseTypes_eq ht, hcovers.found]
  · have hnodup := hcovers.nodup
    rw [hcovers.visited, List.nodup_append, List.nodup_reverse] at hnodup
    exact hnodup.1

/-! ## Types that derive from each other -/

/-- A class without members, its name and base written at these bytes. -/
def cyclicClass (start : Nat) : Tree :=
  .node ⟨"class_declaration", none, true, false, start, start + 11⟩
    [.node ⟨"identifier", some "name", true, false, start + 6, start + 7⟩ [],
     .node ⟨"base_list", none, true, false, start + 7, start + 9⟩
      [.node ⟨"identifier", none, true, false, start + 8, start + 9⟩ []],
     .node ⟨"declaration_list", some "body", true, false, start + 9, start + 11⟩ []]

def cyclicClasses : Compilation :=
  let tree := .node ⟨"compilation_unit", none, true, false, 0, 33⟩
    [cyclicClass 0, cyclicClass 11, cyclicClass 22]
  .ofSources (fun _ => tree)
    [(⟨"A.cs"⟩, "class A:B\x7b\x7dclass B:A\x7b\x7dclass C:B\x7b\x7d")] .empty

theorem baseTypes_spec_cyclic :
    ∃ t ∈ cyclicClasses.types, t.fullName = "C" ∧
      (cyclicClasses.baseTypes t).map (·.fullName) = ["B", "A"] ∧
      TransGen cyclicClasses.Derives "C" "A" := by
  have hlast : cyclicClasses.types.getLast?.map (·.fullName) = some "C" := by decide +kernel
  obtain ⟨t, hlast, hname⟩ := Option.map_eq_some_iff.1 hlast
  have hbases : (cyclicClasses.types.getLast?.map fun t =>
      (cyclicClasses.baseTypes t).map (·.fullName)) = some ["B", "A"] := by
    decide +kernel
  rw [hlast, Option.map_some, Option.some.injEq] at hbases
  have ht : t ∈ cyclicClasses.types := List.mem_of_getLast? hlast
  obtain ⟨-, names, hfound, -, hmem⟩ := baseTypes_spec ht
  have hparts : "A" ∈ (names.flatMap cyclicClasses.typeParts).map (·.fullName) := by
    rw [← hfound, hbases]
    simp
  obtain ⟨part, hpart, hA⟩ := List.mem_map.1 hparts
  obtain ⟨n, hn, hpart⟩ := List.mem_flatMap.1 hpart
  obtain rfl : n = "A" := (mem_typeParts.1 hpart).2.symm.trans hA
  refine ⟨t, ht, hname, hbases, ?_⟩
  rw [← hname]
  exact ((hmem "A").1 hn).2

end TestLint.Compilation
