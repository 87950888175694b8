import Mathlib.Order.Lattice.Nat
import TestLint.Proofs.Compilation.BaseTypes

/-!
# How far away base types are

The distance of a type is the least number of steps from a type to one of its bases that lead
to it.  The walk over base lists goes on with the list met last, so its order is that of the
distances only as long as types that are equally far away lead on to the same types
(`Compilation.LeadsAlike`).  Up to the distance where they begin to differ, nearer types come
first (`baseTypes_nearestFirst`); the direct bases always do.  Where they differ, a type that
is farther away may come before a nearer one (`farther_base_comes_first`).

The walk that has met all types up to a distance, and no others, meets all types of the next
distance in one step (`BaseWalk.Layers.step`).
-/

namespace TestLint.Compilation

open Relation (ReflTransGen)

variable {c : Compilation} {root n m : String} {k : Nat}

/-! ## Distances -/

/-- The types that the bases of a type mean. -/
def directBases (c : Compilation) (fullName : String) : List String :=
  (pooledBases (c.typeParts fullName)).flatMap fun written =>
    (c.resolve written (c.type? fullName)).map (·.fullName)

/-- The types that are so many steps away, a step leading from a type to one of its bases. -/
def stepsFrom (c : Compilation) (root : String) : Nat → List String
  | 0 => [root]
  | k + 1 => (stepsFrom c root k).flatMap c.directBases

/-- The least number of steps that lead to the type. -/
noncomputable def distance (c : Compilation) (root n : String) : Nat :=
  sInf {k | n ∈ c.stepsFrom root k}

theorem mem_directBases : m ∈ c.directBases n ↔ c.Derives n m := by
  simp only [directBases, List.mem_flatMap, List.mem_map, Derives, Means]

theorem mem_stepsFrom_succ :
    m ∈ c.stepsFrom root (k + 1) ↔ ∃ n ∈ c.stepsFrom root k, c.Derives n m := by
  simp only [stepsFrom, List.mem_flatMap, mem_directBases]

theorem reached_of_mem_stepsFrom (h : n ∈ c.stepsFrom root k) :
    ReflTransGen c.Derives root n := by
  induction k generalizing n with
  | zero =>
    rw [List.mem_singleton.1 h]
  | succ k ih =>
    obtain ⟨m, hm, hderives⟩ := mem_stepsFrom_succ.1 h
    exact (ih hm).tail hderives

theorem exists_mem_stepsFrom (h : ReflTransGen c.Derives root n) :
    ∃ k, n ∈ c.stepsFrom root k := by
  induction h with
  | refl => exact ⟨0, List.mem_singleton_self root⟩
  | tail _ hderives ih =>
    obtain ⟨k, hk⟩ := ih
    exact ⟨k + 1, mem_stepsFrom_succ.2 ⟨_, hk, hderives⟩⟩

theorem mem_stepsFrom_distance (h : ReflTransGen c.Derives root n) :
    n ∈ c.stepsFrom root (c.distance root n) :=
  Nat.sInf_mem (exists_mem_stepsFrom h)

theorem distance_le (h : n ∈ c.stepsFrom root k) : c.distance root n ≤ k :=
  Nat.sInf_le h

theorem distance_eq (h : n ∈ c.stepsFrom root k) (hleast : ∀ j < k, n ∉ c.stepsFrom root j) :
    c.distance root n = k := by
  have hmem := mem_stepsFrom_distance (reached_of_mem_stepsFrom h)
  refine Nat.le_antisymm (distance_le h) ?_
  by_contra hlt
  exact hleast _ (Nat.lt_of_not_le hlt) hmem

@[simp]
theorem distance_root : c.distance root root = 0 :=
  Nat.le_zero.1 (distance_le (List.mem_singleton_self root))

theorem eq_root_of_distance (h : ReflTransGen c.Derives root n) (hzero : c.distance root n = 0) :
    n = root := by
  have hmem := mem_stepsFrom_distance h
  rw [hzero] at hmem
  exact List.mem_singleton.1 hmem

/-- A base is at most one step farther away. -/
theorem Derives.distance_le (h : c.Derives n m) (hn : ReflTransGen c.Derives root n) :
    c.distance root m ≤ c.distance root n + 1 :=
  Compilation.distance_le (mem_stepsFrom_succ.2 ⟨n, mem_stepsFrom_distance hn, h⟩)

/-- A type is a base of one that is nearer by one step. -/
theorem exists_nearer (hm : ReflTransGen c.Derives root m) (hk : c.distance root m = k + 1) :
    ∃ n, ReflTransGen c.Derives root n ∧ c.distance root n = k ∧ c.Derives n m := by
  have hmem := mem_stepsFrom_distance hm
  rw [hk] at hmem
  obtain ⟨n, hn, hderives⟩ := mem_stepsFrom_succ.1 hmem
  have hreached := reached_of_mem_stepsFrom hn
  have hle := distance_le hn
  have hstep := hderives.distance_le hreached
  exact ⟨n, hreached, by omega, hderives⟩

/-- On the way to a type there is one at every smaller distance. -/
theorem exists_distance_eq (hm : ReflTransGen c.Derives root m) (hk : k ≤ c.distance root m) :
    ∃ n, ReflTransGen c.Derives root n ∧ c.distance root n = k := by
  obtain ⟨i, hi⟩ := Nat.exists_eq_add_of_le hk
  induction i generalizing m with
  | zero => exact ⟨m, hm, hi⟩
  | succ i ih =>
    obtain ⟨n, hn, hdistance, -⟩ := exists_nearer (k := k + i) hm hi
    exact ih hn (by omega) hdistance

/-! ## Types that lead on alike -/

/-- A type at this distance that has a base one step farther away has all types there as
bases. -/
def LeadsAlike (c : Compilation) (root : String) (k : Nat) : Prop :=
  ∀ n m m', ReflTransGen c.Derives root n → c.distance root n = k →
    c.Derives n m → c.distance root m = k + 1 →
    ReflTransGen c.Derives root m' → c.distance root m' = k + 1 → c.Derives n m'

theorem leadsAlike_zero : c.LeadsAlike root 0 := by
  intro n m m' hn hzero _ _ hm' hone
  obtain ⟨n', hn', hzero', hderives⟩ := exists_nearer hm' hone
  rw [eq_root_of_distance hn hzero, ← eq_root_of_distance hn' hzero']
  exact hderives

/-- The first type is not farther away than the second, or the second is out of reach. -/
def NoFarther (c : Compilation) (root : String) (reach : Nat) (m n : String) : Prop :=
  c.distance root m ≤ c.distance root n ∨ reach < c.distance root n

/-! ## The walk -/

namespace BaseWalk

variable {w : BaseWalk} {names new : List String} {reach level : Nat}

/-- What holds of a walk that has met all types up to the level and, before the level is that
of its reach, no others. -/
structure Layers (c : Compilation) (root : String) (reach level : Nat) (names : List String)
    (w : BaseWalk) : Prop where
  level_le : level ≤ reach
  met : ∀ n, ReflTransGen c.Derives root n → c.distance root n ≤ level → n ∈ w.visited
  near : level < reach → ∀ n ∈ w.visited, c.distance root n ≤ level
  ordered : names.Pairwise (c.NoFarther root reach)

theorem mem_visited_meet {rest : List PendingBases} :
    m ∈ ({ w with pending := rest }.meet c new).visited ↔ m ∈ new ∨ m ∈ w.visited := by
  simp [BaseWalk.meet]

theorem Layers.lt_distance (h : w.Layers c root reach level names)
    (hm : ReflTransGen c.Derives root m) (hnot : m ∉ w.visited) : level < c.distance root m := by
  by_contra hle
  exact hnot (h.met m hm (Nat.le_of_not_lt hle))

theorem Layers.meet_nil (h : w.Layers c root reach level names) {rest : List PendingBases} :
    ({ w with pending := rest }.meet c []).Layers c root reach level (names ++ []) := by
  rw [List.append_nil]
  refine ⟨h.level_le, fun m hm hle => mem_visited_meet.2 (.inr (h.met m hm hle)), ?_, h.ordered⟩
  intro hlt m hm
  exact h.near hlt m ((mem_visited_meet.1 hm).resolve_left List.not_mem_nil)

/-- Once the reach is met, whatever is met is out of reach. -/
theorem Layers.meet_beyond (h : w.Layers c root reach reach names)
    (hfar : ∀ m ∈ new, reach < c.distance root m) {rest : List PendingBases} :
    ({ w with pending := rest }.meet c new).Layers c root reach reach (names ++ new) where
  level_le := Nat.le_refl _
  met m hm hle := mem_visited_meet.2 (.inr (h.met m hm hle))
  near hlt := absurd hlt (Nat.lt_irrefl _)
  ordered := by
    refine List.pairwise_append.2 ⟨h.ordered, ?_, fun _ _ m hm => .inr (hfar m hm)⟩
    exact List.pairwise_of_forall_mem_list fun _ _ m hm => .inr (hfar m hm)

/-- All types of the next distance, and no others, are the next level. -/
theorem Layers.meet_next (h : w.Layers c root reach level names) (hlt : level < reach)
    (hnames : ∀ m ∈ names, m ∈ w.visited) (hnext : ∀ m ∈ new, c.distance root m = level + 1)
    (hall : ∀ m, ReflTransGen c.Derives root m → c.distance root m = level + 1 →
      m ∈ new ∨ m ∈ w.visited) {rest : List PendingBases} :
    ({ w with pending := rest }.meet c new).Layers c root reach (level + 1) (names ++ new) where
  level_le := hlt
  met m hm hle := by
    refine mem_visited_meet.2 ?_
    rcases Nat.eq_or_lt_of_le hle with heq | hless
    · exact hall m hm heq
    · exact .inr (h.met m hm (Nat.le_of_lt_succ hless))
  near _ m hm := by
    rcases mem_visited_meet.1 hm with hm | hm
    · exact (hnext m hm).le
    · exact Nat.le_succ_of_le (h.near hlt m hm)
  ordered := by
    refine List.pairwise_append.2 ⟨h.ordered, ?_, fun m hm m' hm' => .inl ?_⟩
    · refine List.pairwise_of_forall_mem_list fun m hm m' hm' => .inl ?_
      rw [hnext m hm, hnext m' hm']
    · rw [hnext m' hm']
      exact Nat.le_succ_of_le (h.near hlt m (hnames m hm))

/-- Meeting the bases of a type keeps it, perhaps for the next level. -/
theorem Layers.meet (h : w.Layers c root reach level names) (hcovers : w.Covers c root names)
    (halike : ∀ k < reach, c.LeadsAlike root k) (hn : n ∈ w.visited)
    (hnew : ∀ m ∈ new, m ∉ w.visited ∧ c.Derives n m)
    (hall : ∀ m, c.Derives n m → m ∈ new ∨ m ∈ w.visited) (rest : List PendingBases) :
    ∃ level',
      ({ w with pending := rest }.meet c new).Layers c root reach level' (names ++ new) := by
  have hreached := hcovers.reached n hn
  have hfar : ∀ m ∈ new, level < c.distance root m := fun m hm =>
    h.lt_distance (hreached.tail (hnew m hm).2) (hnew m hm).1
  rcases Nat.eq_or_lt_of_le h.level_le with rfl | hlt
  · exact ⟨level, h.meet_beyond hfar⟩
  cases new with
  | nil => exact ⟨level, h.meet_nil⟩
  | cons first others =>
    have hnear := h.near hlt n hn
    have hnext : ∀ m ∈ first :: others, c.distance root m = level + 1 := by
      intro m hm
      have hbeyond := hfar m hm
      have hstep := (hnew m hm).2.distance_le hreached
      omega
    have hfirst := hnew first List.mem_cons_self
    have hdistance : c.distance root n = level := by
      have hbeyond := hfar first List.mem_cons_self
      have hstep := hfirst.2.distance_le hreached
      omega
    have hnames : ∀ m ∈ names, m ∈ w.visited := by
      intro m hm
      rw [hcovers.visited, List.mem_append, List.mem_reverse]
      exact .inl hm
    refine ⟨level + 1, h.meet_next hlt hnames hnext fun m hm heq => ?_⟩
    -- the type leads to one of the next types, so it leads to all of them
    exact hall m (halike level hlt n first m hreached hdistance hfirst.2
      (hnext first List.mem_cons_self) hm heq)

theorem meet_inj {names' : List String} (h : w.meet c names = w.meet c names') :
    names = names' := by
  have hvisited := congrArg BaseWalk.visited h
  exact List.reverse_inj.1 (List.append_cancel_right hvisited)

/-- Going through the next base list keeps it. -/
theorem Layers.step (h : w.Layers c root reach level names) (hcovers : w.Covers c root names)
    (halike : ∀ k < reach, c.LeadsAlike root k) {next : PendingBases} {rest : List PendingBases}
    (hpending : w.pending = next :: rest) :
    ∃ new level',
      let w' := next.bases.foldl (add c (c.type? next.writer)) { w with pending := rest }
      w'.Covers c root (names ++ new) ∧ w'.Layers c root reach level' (names ++ new) := by
  obtain ⟨new, hwalk, -, -, hcovers'⟩ := hcovers.step hpending
  obtain ⟨n, hn, rfl⟩ := hcovers.pending next (by rw [hpending]; exact List.mem_cons_self)
  obtain ⟨new', hwalk', -, hnew, hall⟩ :=
    foldl_add (c := c) (c.type? n) (c.basesOf n).bases { w with pending := rest }
  obtain rfl : new = new' := meet_inj (hwalk.symm.trans hwalk')
  obtain ⟨level', hlayers⟩ := h.meet hcovers halike hn (fun m hm => hnew m hm)
    (fun m ⟨written, hwritten, hmeans⟩ => hall written hwritten m hmeans) rest
  exact ⟨new, level', hwalk ▸ hcovers', hwalk ▸ hlayers⟩

theorem Layers.run (fuel : Nat) (h : w.Layers c root reach level names)
    (hcovers : w.Covers c root names) (halike : ∀ k < reach, c.LeadsAlike root k) :
    ∃ names', (run c fuel w).Covers c root names' ∧
      names'.Pairwise (c.NoFarther root reach) := by
  induction fuel generalizing w names level with
  | zero => exact ⟨names, hcovers, h.ordered⟩
  | succ fuel ih =>
    unfold BaseWalk.run
    cases hpending : w.pending with
    | nil => exact ⟨names, hcovers, h.ordered⟩
    | cons next rest =>
      obtain ⟨new, level', hcovers', hlayers⟩ := h.step hcovers halike hpending
      exact ih hlayers hcovers'

theorem layers_start (c : Compilation) (root : String) (reach : Nat) :
    (start c root).Layers c root reach 0 [] where
  level_le := Nat.zero_le _
  met n hn hzero := by
    rw [eq_root_of_distance hn (Nat.le_zero.1 hzero)]
    exact List.mem_singleton_self root
  near _ n hn := by
    rw [List.mem_singleton.1 hn, distance_root]
  ordered := .nil

end BaseWalk

/-! ## Base types -/

/-- No type in the list is farther away than one after it. -/
def NearestFirst (c : Compilation) (root : String) (types : List TypeDeclaration) : Prop :=
  types.Pairwise fun a b => c.distance root a.fullName ≤ c.distance root b.fullName

/-- What is found first is found in a type that is as near as any. -/
theorem NearestFirst.exists_nearest {α : Type} {types : List TypeDeclaration}
    (h : c.NearestFirst root types) {look : TypeDeclaration → Option α} {found : α}
    (hfound : types.findSome? look = some found) :
    ∃ a ∈ types, look a = some found ∧ ∀ b ∈ types, (look b).isSome = true →
      c.distance root a.fullName ≤ c.distance root b.fullName := by
  obtain ⟨before, a, after, rfl, ha, hbefore⟩ := List.findSome?_eq_some_iff.1 hfound
  refine ⟨a, by simp, ha, fun b hb hsome => ?_⟩
  rcases List.mem_append.1 hb with hb | hb
  · rw [hbefore b hb] at hsome
    cases hsome
  · rcases List.mem_cons.1 hb with rfl | hb
    · exact Nat.le_refl _
    · exact (List.pairwise_cons.1 (List.pairwise_append.1 h).2.1).1 b hb

variable {t : TypeDeclaration}

theorem reached_of_mem_baseTypes (ht : t ∈ c.types) {a : TypeDeclaration}
    (ha : a ∈ c.baseTypes t) : ReflTransGen c.Derives t.fullName a.fullName := by
  obtain ⟨names, hcovers, -⟩ := (BaseWalk.layers_start c t.fullName 0).run
    (c.types.length + 1) (BaseWalk.covers_start c t.fullName) (by simp)
  rw [baseTypes_eq ht, hcovers.found] at ha
  obtain ⟨n, hn, ha⟩ := List.mem_flatMap.1 ha
  rw [(mem_typeParts.1 ha).2]
  refine hcovers.reached n ?_
  rw [hcovers.visited, List.mem_append, List.mem_reverse]
  exact .inl hn

/-- Up to a distance before which types lead on alike, nearer types come first. -/
theorem pairwise_noFarther (ht : t ∈ c.types) {reach : Nat}
    (halike : ∀ k < reach, 0 < k → c.LeadsAlike t.fullName k) :
    (c.baseTypes t).Pairwise fun a b => c.NoFarther t.fullName reach a.fullName b.fullName := by
  have halike' : ∀ k < reach, c.LeadsAlike t.fullName k := by
    intro k hk
    rcases Nat.eq_zero_or_pos k with rfl | hpos
    · exact leadsAlike_zero
    · exact halike k hk hpos
  obtain ⟨names, hcovers, hordered⟩ := (BaseWalk.layers_start c t.fullName reach).run
    (c.types.length + 1) (BaseWalk.covers_start c t.fullName) halike'
  rw [baseTypes_eq ht, hcovers.found, List.pairwise_flatMap]
  refine ⟨fun n _ => ?_, hordered.imp fun {m n} h a ha b hb => ?_⟩
  · refine List.pairwise_of_forall_mem_list fun a ha b hb => .inl ?_
    rw [(mem_typeParts.1 ha).2, (mem_typeParts.1 hb).2]
  · rw [(mem_typeParts.1 ha).2, (mem_typeParts.1 hb).2]
    exact h

/-- Only types that are followed by others two steps farther away need lead on alike. -/
theorem nearestFirst_baseTypes (ht : t ∈ c.types)
    (halike : ∀ k, 0 < k → c.LeadsAlike t.fullName k ∨
      ∀ n, ReflTransGen c.Derives t.fullName n → c.distance t.fullName n ≠ k + 2) :
    c.NearestFirst t.fullName (c.baseTypes t) := by
  rw [NearestFirst, List.pairwise_iff_getElem]
  intro i j hi hj hij
  by_contra hlt
  have hreached := reached_of_mem_baseTypes ht (List.getElem_mem hi)
  -- what is nearer than the first of the two by two steps or more leads on alike
  have halike' : ∀ k < c.distance t.fullName (c.baseTypes t)[i].fullName - 1, 0 < k →
      c.LeadsAlike t.fullName k := by
    intro k hk hpos
    refine (halike k hpos).resolve_right fun hnone => ?_
    obtain ⟨n, hn, hdistance⟩ := exists_distance_eq (k := k + 2) hreached (by omega)
    exact hnone n hn hdistance
  have hordered := List.pairwise_iff_getElem.1 (pairwise_noFarther ht halike') i j hi hj hij
  unfold NoFarther at hordered
  omega

/-- Up to a distance before which types lead on alike, nearer base types come first; so the
direct bases always do.  If types lead on alike as long as there is one two steps farther
away, all base types are in the order of their distance, and what is looked up in the type and
its base types is found where it is nearest. -/
theorem baseTypes_nearestFirst (ht : t ∈ c.types) :
    (∀ reach, (∀ k < reach, 0 < k → c.LeadsAlike t.fullName k) →
      (c.baseTypes t).Pairwise fun a b => c.NoFarther t.fullName reach a.fullName b.fullName) ∧
    ((∀ k, 0 < k → c.LeadsAlike t.fullName k ∨
        ∀ n, ReflTransGen c.Derives t.fullName n → c.distance t.fullName n ≠ k + 2) →
      c.NearestFirst t.fullName (c.baseTypes t) ∧
      ∀ (α : Type) (look : TypeDeclaration → Option α) (found : α),
        (c.typeParts t.fullName ++ c.baseTypes t).findSome? look = some found →
        ∃ a ∈ c.typeParts t.fullName ++ c.baseTypes t, look a = some found ∧
          ∀ b ∈ c.typeParts t.fullName ++ c.baseTypes t, (look b).isSome = true →
            c.distance t.fullName a.fullName ≤ c.distance t.fullName b.fullName) := by
  refine ⟨fun _ => pairwise_noFarther ht, fun halike => ?_⟩
  have hnearest := nearestFirst_baseTypes ht halike
  have hown : ∀ a ∈ c.typeParts t.fullName, c.distance t.fullName a.fullName = 0 := by
    intro a ha
    rw [(mem_typeParts.1 ha).2, distance_root]
  have hall : c.NearestFirst t.fullName (c.typeParts t.fullName ++ c.baseTypes t) := by
    refine List.pairwise_append.2 ⟨?_, hnearest, fun a ha b _ => ?_⟩
    · exact List.pairwise_of_forall_mem_list fun a ha b _ => (hown a ha).le.trans (Nat.zero_le _)
    · exact (hown a ha).le.trans (Nat.zero_le _)
  exact ⟨hnearest, fun _ _ _ => hall.exists_nearest⟩

/-! ## Types with several bases -/

theorem leadsAlike_of_stepsFrom
    (h : ∀ n ∈ c.stepsFrom root k, ∀ m ∈ c.stepsFrom root (k + 1), m ∈ c.directBases n) :
    c.LeadsAlike root k := by
  intro n _ m hn hk _ _ hm hk'
  refine mem_directBases.1 (h n ?_ m ?_)
  · rw [← hk]
    exact mem_stepsFrom_distance hn
  · rw [← hk']
    exact mem_stepsFrom_distance hm

theorem stepsFrom_add_eq_nil (h : c.stepsFrom root k = []) (i : Nat) :
    c.stepsFrom root (k + i) = [] := by
  induction i with
  | zero => exact h
  | succ i ih =>
    rw [← Nat.add_assoc, stepsFrom, ih, List.flatMap_nil]

/-- An interface without members, its name and its bases one letter each. -/
def letterInterface (start stop : Nat) (bases : List Nat) : Tree :=
  .node ⟨"interface_declaration", none, true, false, start, stop⟩
    [.node ⟨"identifier", some "name", true, false, start + 10, start + 11⟩ [],
     .node ⟨"base_list", none, true, false, start + 11, stop - 2⟩
      (bases.map fun base => .node ⟨"identifier", none, true, false, base, base + 1⟩ []),
     .node ⟨"declaration_list", some "body", true, false, stop - 2, stop⟩ []]

/-- Two interfaces with one base in common, which has a base itself. -/
def sharedBase : Compilation :=
  let tree := .node ⟨"compilation_unit", none, true, false, 0, 75⟩
    [letterInterface 0 17 [12, 14], letterInterface 17 32 [29], letterInterface 32 47 [44],
     letterInterface 47 62 [59], letterInterface 62 75 []]
  let text := "interface T:A,B\x7b\x7dinterface A:C\x7b\x7dinterface B:C\x7b\x7d" ++
    "interface C:D\x7b\x7dinterface D\x7b\x7d"
  .ofSources (fun _ => tree) [(⟨"A.cs"⟩, text)] .empty

theorem baseTypes_nearestFirst_shared :
    ∃ t ∈ sharedBase.types, t.fullName = "T" ∧
      (sharedBase.baseTypes t).map (·.fullName) = ["A", "B", "C", "D"] ∧
      sharedBase.NearestFirst "T" (sharedBase.baseTypes t) := by
  have hfirst : sharedBase.types.head?.map (fun t =>
      (t.fullName, (sharedBase.baseTypes t).map (·.fullName))) =
        some ("T", ["A", "B", "C", "D"]) := by
    decide +kernel
  obtain ⟨t, hhead, hfirst⟩ := Option.map_eq_some_iff.1 hfirst
  obtain ⟨hname, hbases⟩ := Prod.mk.inj hfirst
  have ht : t ∈ sharedBase.types := List.mem_of_mem_head? hhead
  have hsteps : (∀ n ∈ sharedBase.stepsFrom "T" 1, ∀ m ∈ sharedBase.stepsFrom "T" 2,
      m ∈ sharedBase.directBases n) ∧ sharedBase.stepsFrom "T" 4 = [] := by
    decide +kernel
  refine ⟨t, ht, hname, hbases, hname ▸ ((baseTypes_nearestFirst ht).2 fun k hk => ?_).1⟩
  rw [hname]
  rcases Nat.eq_or_lt_of_le hk with rfl | hk
  · exact .inl (leadsAlike_of_stepsFrom hsteps.1)
  · -- nothing is four steps away
    refine .inr fun n hn hdistance => ?_
    obtain ⟨i, rfl⟩ := Nat.exists_eq_add_of_le hk
    have hmem := mem_stepsFrom_distance hn
    rw [hdistance, show Nat.succ 1 + i + 2 = 4 + i by omega, stepsFrom_add_eq_nil hsteps.2] at hmem
    exact List.not_mem_nil hmem

/-- Two interfaces with bases of their own, one of which has a base itself. -/
def forkedBases : Compilation :=
  let tree := .node ⟨"compilation_unit", none, true, false, 0, 88⟩
    [letterInterface 0 17 [12, 14], letterInterface 17 32 [29], letterInterface 32 47 [44],
     letterInterface 47 60 [], letterInterface 60 75 [72], letterInterface 75 88 []]
  let text := "interface T:A,B\x7b\x7dinterface A:C\x7b\x7dinterface B:D\x7b\x7d" ++
    "interface C\x7b\x7dinterface D:E\x7b\x7dinterface E\x7b\x7d"
  .ofSources (fun _ => tree) [(⟨"A.cs"⟩, text)] .empty

/-- The base that is three steps away comes before one that is two steps away. -/
theorem farther_base_comes_first :
    ∃ t ∈ forkedBases.types, t.fullName = "T" ∧
      (forkedBases.baseTypes t).map (·.fullName) = ["A", "B", "D", "E", "C"] ∧
      forkedBases.distance "T" "E" = 3 ∧ forkedBases.distance "T" "C" = 2 ∧
      ¬ forkedBases.NearestFirst "T" (forkedBases.baseTypes t) := by
  have hfirst : forkedBases.types.head?.map (fun t =>
      (t.fullName, (forkedBases.baseTypes t).map (·.fullName))) =
        some ("T", ["A", "B", "D", "E", "C"]) := by
    decide +kernel
  obtain ⟨t, hhead, hfirst⟩ := Option.map_eq_some_iff.1 hfirst
  obtain ⟨hname, hbases⟩ := Prod.mk.inj hfirst
  have hsteps : ("E" ∈ forkedBases.stepsFrom "T" 3 ∧ ∀ k < 3, "E" ∉ forkedBases.stepsFrom "T" k) ∧
      "C" ∈ forkedBases.stepsFrom "T" 2 ∧ ∀ k < 2, "C" ∉ forkedBases.stepsFrom "T" k := by
    decide +kernel
  have hE : forkedBases.distance "T" "E" = 3 := distance_eq hsteps.1.1 hsteps.1.2
  have hC : forkedBases.distance "T" "C" = 2 := distance_eq hsteps.2.1 hsteps.2.2
  refine ⟨t, List.mem_of_mem_head? hhead, hname, hbases, hE, hC, fun hnearest => ?_⟩
  have hnames : ["A", "B", "D", "E", "C"].Pairwise fun m n =>
      forkedBases.distance "T" m ≤ forkedBases.distance "T" n := by
    rw [← hbases, List.pairwise_map]
    exact hnearest
  have hle : forkedBases.distance "T" "E" ≤ forkedBases.distance "T" "C" := by
    simp only [List.pairwise_cons, List.mem_cons] at hnames
    exact hnames.2.2.2.1 "C" (.inl rfl)
  rw [hE, hC] at hle
  omega

end TestLint.Compilation
