import Mathlib.Data.List.Lex
import Mathlib.Logic.Relation

/-!
# Depth-first search with one set of visited nodes

A search goes down from a site: the site is a leaf, which has a result or none, or it
stands for a node, from which the search goes on with a list of sites, the first one
first.  Nodes that have been met are not gone into again, whichever branch met them.

The set that all branches share hides nothing: when a branch gives no result, all that
it has met is done with (`Done`, `Exhausts`), so a way through it comes back to a node
above (`Leads.avoiding`).  Hence a result is found if a leaf with a result can be
reached at all (`search_isSome_iff`), and it is the one at the end of the first of all
ways that meet no node twice (`search_eq_some_iff`).
-/

namespace TestLint.DepthFirst

variable {S K R : Type}

section ways

variable (expand : S → Option (K × List S)) (leaf : S → Option R)

def Step (s s' : S) : Prop :=
  ∃ k next, expand s = some (k, next) ∧ s' ∈ next

/-- Some leaf with this result can be reached. -/
def Reaches (s : S) (r : R) : Prop :=
  ∃ s', Relation.ReflTransGen (Step expand) s s' ∧ expand s' = none ∧ leaf s' = some r

/-- Taking these turns leads to a leaf with a result, past the nodes that are to be
avoided and through no node twice. -/
inductive Leads : List K → S → List Nat → R → Prop
  | leaf {avoid : List K} {s : S} {r : R} (hexpand : expand s = none) (hleaf : leaf s = some r) :
      Leads avoid s [] r
  | turn {avoid : List K} {s s' : S} {k : K} {next : List S} {i : Nat} {turns : List Nat} {r : R}
      (hexpand : expand s = some (k, next)) (hk : k ∉ avoid) (hi : next[i]? = some s')
      (h : Leads (k :: avoid) s' turns r) : Leads avoid s (i :: turns) r

/-- The result is at the end of the first way, in the order of the turns. -/
def First (avoid : List K) (s : S) (r : R) : Prop :=
  ∃ turns, Leads expand leaf avoid s turns r ∧
    ∀ turns' r', Leads expand leaf avoid s turns' r' → turns ≤ turns'

/-- A leaf without a result, or a node that has been met. -/
structure Done (met : List K) (s : S) : Prop where
  leaf_eq : expand s = none → leaf s = none
  mem : ∀ k next, expand s = some (k, next) → k ∈ met

/-- What has been met since `avoid` leads only to what has been met. -/
structure Exhausts (avoid met : List K) : Prop where
  subset : avoid ⊆ met
  done : ∀ s k next, expand s = some (k, next) → k ∈ met → k ∉ avoid →
    ∀ s' ∈ next, Done expand leaf met s'

end ways

variable {expand : S → Option (K × List S)} {leaf : S → Option R} {avoid met met' : List K}
  {s s' : S} {r r' : R} {turns : List Nat}

/-! ## Ways -/

/-- The earlier turn decides. -/
theorem turns_le_iff {i j : Nat} {turns turns' : List Nat} :
    i :: turns ≤ j :: turns' ↔ i < j ∨ i = j ∧ turns ≤ turns' := by
  rw [← not_lt, ← not_lt, List.cons_lt_cons_iff]
  rcases Nat.lt_trichotomy i j with h | rfl | h
  · simp [h, Nat.lt_asymm h, Nat.ne_of_gt h]
  · simp
  · simp [h, Nat.lt_asymm h, Nat.ne_of_gt h]

theorem Leads.unique (h : Leads expand leaf avoid s turns r)
    (h' : Leads expand leaf avoid s turns r') : r = r' := by
  induction h with
  | leaf hexpand hleaf =>
    cases h' with
    | leaf _ hleaf' =>
      rw [hleaf] at hleaf'
      exact Option.some.inj hleaf'
  | turn hexpand hk hi _ ih =>
    cases h' with
    | turn hexpand' _ hi' h' =>
      rw [hexpand] at hexpand'
      cases hexpand'
      rw [hi] at hi'
      cases hi'
      exact ih h'

theorem First.unique (h : First expand leaf avoid s r) (h' : First expand leaf avoid s r') :
    r = r' := by
  obtain ⟨turns, hturns, hfirst⟩ := h
  obtain ⟨turns', hturns', hfirst'⟩ := h'
  have heq : turns = turns' := le_antisymm (hfirst _ _ hturns') (hfirst' _ _ hturns)
  rw [← heq] at hturns'
  exact hturns.unique hturns'

theorem Leads.of_subset (h : Leads expand leaf met s turns r) (hsub : avoid ⊆ met) :
    Leads expand leaf avoid s turns r := by
  induction h generalizing avoid with
  | leaf hexpand hleaf => exact .leaf hexpand hleaf
  | turn hexpand hk hi _ ih =>
    exact .turn hexpand (fun hmem => hk (hsub hmem)) hi (ih (List.cons_subset_cons _ hsub))

theorem Leads.reaches (h : Leads expand leaf avoid s turns r) : Reaches expand leaf s r := by
  induction h with
  | leaf hexpand hleaf => exact ⟨_, .refl, hexpand, hleaf⟩
  | turn hexpand _ hi _ ih =>
    obtain ⟨s', hsteps, hend⟩ := ih
    exact ⟨s', .head ⟨_, _, hexpand, List.mem_of_getElem? hi⟩ hsteps, hend⟩

/-- Where one search goes on, the other does so in a like way, and leaves are alike. -/
theorem Reaches.simulates {S' : Type} {expand' : S' → Option (K × List S')}
    {leaf' : S' → Option R} (sim : S → S' → Prop)
    (hleaf : ∀ s u, sim s u → expand s = none → expand' u = none ∧ leaf' u = leaf s)
    (hstep : ∀ s u s', sim s u → Step expand s s' → ∃ u', Step expand' u u' ∧ sim s' u')
    {u : S'} (hsim : sim s u) (h : Reaches expand leaf s r) : Reaches expand' leaf' u r := by
  obtain ⟨s', hsteps, hexpand, hr⟩ := h
  induction hsteps using Relation.ReflTransGen.head_induction_on generalizing u with
  | refl =>
    obtain ⟨hexpand', hleaf'⟩ := hleaf _ u hsim hexpand
    exact ⟨u, .refl, hexpand', hleaf'.trans hr⟩
  | head hfirst _ ih =>
    obtain ⟨u', hu, hsim'⟩ := hstep _ u _ hsim hfirst
    obtain ⟨u'', hsteps', hend⟩ := ih hsim'
    exact ⟨u'', .head hu hsteps', hend⟩

section agreement

variable {expand' : S → Option (K × List S)}
  (hagree : ∀ s', Relation.ReflTransGen (Step expand) s s' → expand' s' = expand s')

include hagree in
theorem Leads.congr (h : Leads expand leaf avoid s turns r) :
    Leads expand' leaf avoid s turns r := by
  induction h with
  | leaf hexpand hleaf => exact .leaf ((hagree _ .refl).trans hexpand) hleaf
  | turn hexpand hk hi _ ih =>
    have hstep : Step expand _ _ := ⟨_, _, hexpand, List.mem_of_getElem? hi⟩
    exact .turn ((hagree _ .refl).trans hexpand) hk hi
      (ih fun s'' hsteps => hagree s'' (.head hstep hsteps))

include hagree in
theorem steps_of_agree (h : Relation.ReflTransGen (Step expand') s s') :
    Relation.ReflTransGen (Step expand) s s' := by
  induction h with
  | refl => exact .refl
  | tail _ hstep ih =>
    obtain ⟨k, next, hexpand, hmem⟩ := hstep
    exact .tail ih ⟨k, next, (hagree _ ih).symm.trans hexpand, hmem⟩

include hagree in
theorem agree_symm : ∀ s', Relation.ReflTransGen (Step expand') s s' → expand s' = expand' s' :=
  fun s' hsteps => (hagree s' (steps_of_agree hagree hsteps)).symm

include hagree in
theorem First.congr_iff : First expand leaf avoid s r ↔ First expand' leaf avoid s r := by
  have hback := agree_symm hagree
  constructor
  · rintro ⟨turns, hturns, hfirst⟩
    exact ⟨turns, hturns.congr hagree, fun turns' r' h' => hfirst turns' r' (h'.congr hback)⟩
  · rintro ⟨turns, hturns, hfirst⟩
    exact ⟨turns, hturns.congr hback, fun turns' r' h' => hfirst turns' r' (h'.congr hagree)⟩

include hagree in
theorem Reaches.congr_iff : Reaches expand leaf s r ↔ Reaches expand' leaf s r := by
  constructor
  · rintro ⟨s', hsteps, hexpand, hleaf⟩
    have hsteps' := steps_of_agree (agree_symm hagree) hsteps
    exact ⟨s', hsteps', (hagree s' hsteps).trans hexpand, hleaf⟩
  · rintro ⟨s', hsteps, hexpand, hleaf⟩
    have hsteps' := steps_of_agree hagree hsteps
    exact ⟨s', hsteps', (hagree s' hsteps').symm.trans hexpand, hleaf⟩

end agreement

/-! ## What a search without a result has met -/

theorem Done.mono (h : Done expand leaf met s) (hsub : met ⊆ met') : Done expand leaf met' s :=
  ⟨h.leaf_eq, fun k next hexpand => hsub (h.mem k next hexpand)⟩

theorem Exhausts.refl (avoid : List K) : Exhausts expand leaf avoid avoid :=
  ⟨List.Subset.refl _, fun _ _ _ _ hk hnot => absurd hk hnot⟩

theorem Exhausts.trans (h : Exhausts expand leaf avoid met) (h' : Exhausts expand leaf met met') :
    Exhausts expand leaf avoid met' := by
  refine ⟨List.Subset.trans h.subset h'.subset, fun s k next hexpand hk hnot s' hs' => ?_⟩
  by_cases hmet : k ∈ met
  · exact (h.done s k next hexpand hmet hnot s' hs').mono h'.subset
  · exact h'.done s k next hexpand hk hmet s' hs'

theorem Exhausts.cons (h : Exhausts expand leaf avoid met) (k : K) :
    Exhausts expand leaf (k :: avoid) (k :: met) := by
  refine ⟨List.cons_subset_cons _ h.subset, fun s k' next hexpand hk hnot s' hs' => ?_⟩
  rw [List.mem_cons, not_or] at hnot
  have hmet : k' ∈ met := (List.mem_cons.1 hk).resolve_left hnot.1
  exact (h.done s k' next hexpand hmet hnot.2 s' hs').mono (List.subset_cons_self _ _)

/-- No way leads through what is done with, unless it comes back to what it is to avoid. -/
theorem Leads.not_done (h : Leads expand leaf avoid s turns r)
    (hmet : ∀ s k next, expand s = some (k, next) → k ∈ met → k ∉ avoid →
      ∀ s' ∈ next, Done expand leaf met s') : ¬Done expand leaf met s := by
  induction h with
  | leaf hexpand hleaf =>
    intro hdone
    rw [hdone.leaf_eq hexpand] at hleaf
    cases hleaf
  | turn hexpand hk hi _ ih =>
    intro hdone
    have hnext := hmet _ _ _ hexpand (hdone.mem _ _ hexpand) hk _ (List.mem_of_getElem? hi)
    refine ih (fun s k' next hexpand' hk' hnot => ?_) hnext
    exact hmet s k' next hexpand' hk' fun hmem => hnot (List.mem_cons_of_mem _ hmem)

/-- Ways need not go through what has been met without a result. -/
theorem Leads.avoiding (h : Leads expand leaf avoid s turns r)
    (hmet : Exhausts expand leaf avoid met) : Leads expand leaf met s turns r := by
  induction h generalizing met with
  | leaf hexpand hleaf => exact .leaf hexpand hleaf
  | @turn avoid s s' k next i turns r hexpand hk hi h ih =>
    refine .turn hexpand (fun hmem => ?_) hi (ih (hmet.cons k))
    have hdone : Done expand leaf met s := by
      refine ⟨fun hnone => ?_, fun k' next' hexpand' => ?_⟩
      · rw [hnone] at hexpand
        cases hexpand
      · rw [hexpand] at hexpand'
        cases hexpand'
        exact hmem
    exact (Leads.turn hexpand hk hi h).not_done hmet.done hdone

theorem Exhausts.not_reaches (h : Exhausts expand leaf [] met) (hdone : Done expand leaf met s) :
    ¬Reaches expand leaf s r := by
  rintro ⟨s', hsteps, hexpand, hleaf⟩
  have hend : Done expand leaf met s' := by
    clear hexpand hleaf
    induction hsteps with
    | refl => exact hdone
    | tail _ hstep ih =>
      obtain ⟨k, next, hexpand, hmem⟩ := hstep
      exact h.done _ k next hexpand (ih.mem k next hexpand) List.not_mem_nil _ hmem
  rw [hend.leaf_eq hexpand] at hleaf
  cases hleaf

/-! ## The search -/

/-- The first result that looking at the sites of a list one by one gives. -/
def firstOf (look : S → List K → Option R × List K) : List S → List K → Option R × List K
  | [], met => (none, met)
  | s :: rest, met =>
    match look s met with
    | (some r, met) => (some r, met)
    | (none, met) => firstOf look rest met

/-- The result of the search from a site, and the nodes met by then. -/
def search [BEq K] (expand : S → Option (K × List S)) (leaf : S → Option R) :
    Nat → S → List K → Option R × List K
  | 0, _, met => (none, met)
  | fuel + 1, s, met =>
    match expand s with
    | none => (leaf s, met)
    | some (k, next) =>
      if met.contains k then (none, met) else firstOf (search expand leaf fuel) next (k :: met)

/-- A fold that keeps a result, and looks at the next site as long as there is none. -/
theorem foldl_eq_firstOf {α : Type} {look : S → List K → Option R × List K} {site : α → S}
    {step : Option R × List K → α → Option R × List K}
    (hfound : ∀ r met a, step (some r, met) a = (some r, met))
    (hlook : ∀ met a, step (none, met) a = look (site a) met) (as : List α) (met : List K) :
    as.foldl step (none, met) = firstOf look (as.map site) met := by
  have hkeeps (as : List α) (r : R) (met : List K) :
      as.foldl step (some r, met) = (some r, met) := by
    induction as with
    | nil => rfl
    | cons a as ih => rw [List.foldl_cons, hfound, ih]
  induction as generalizing met with
  | nil => rfl
  | cons a as ih =>
    rw [List.foldl_cons, hlook, List.map_cons, firstOf]
    cases look (site a) met with
    | mk found met' =>
      cases found with
      | none => exact ih met'
      | some r => exact hkeeps as r met'

variable (expand leaf) in
/-- What a search from a site may give: the result of the first way, or no result after
all has been met that the site leads to. -/
def Answers (avoid : List K) (s : S) : Option R × List K → Prop
  | (some r, _) => First expand leaf avoid s r
  | (none, met) => Exhausts expand leaf avoid met ∧ Done expand leaf met s

variable (expand leaf) in
/-- The turns lead from the site that the first of them takes. -/
def LeadsAmong (avoid : List K) (next : List S) : List Nat → R → Prop
  | [], _ => False
  | i :: turns, r => ∃ s, next[i]? = some s ∧ Leads expand leaf avoid s turns r

variable (expand leaf) in
/-- What a search among the sites of a list may give. -/
def AnswersAmong (avoid : List K) (next : List S) : Option R × List K → Prop
  | (some r, _) => ∃ turns, LeadsAmong expand leaf avoid next turns r ∧
      ∀ turns' r', LeadsAmong expand leaf avoid next turns' r' → turns ≤ turns'
  | (none, met) => Exhausts expand leaf avoid met ∧ ∀ s ∈ next, Done expand leaf met s

theorem firstOf_answers {look : S → List K → Option R × List K} {next : List S}
    (hlook : ∀ s met, avoid ⊆ met → Answers expand leaf met s (look s met)) :
    AnswersAmong expand leaf avoid next (firstOf look next avoid) := by
  induction next generalizing avoid with
  | nil => exact ⟨.refl _, fun s hs => by cases hs⟩
  | cons s rest ih =>
    rw [firstOf]
    have hs := hlook s avoid (List.Subset.refl _)
    cases hanswer : look s avoid with
    | mk found met =>
    rw [hanswer] at hs
    cases found with
    | some r =>
      obtain ⟨turns, hturns, hfirst⟩ := hs
      refine ⟨0 :: turns, ⟨s, rfl, hturns⟩, fun turns' r' hturns' => ?_⟩
      match turns', hturns' with
      | 0 :: turns', ⟨s', hs', h'⟩ =>
        cases hs'
        exact turns_le_iff.2 (.inr ⟨rfl, hfirst _ _ h'⟩)
      | (i + 1) :: turns', _ => exact turns_le_iff.2 (.inl (Nat.succ_pos i))
    | none =>
      obtain ⟨hmet, hdone⟩ := hs
      have hrest := ih fun s' met' hsub => hlook s' met' (List.Subset.trans hmet.subset hsub)
      dsimp only
      cases hfound : firstOf look rest met with
      | mk found met' =>
      rw [hfound] at hrest
      cases found with
      | none =>
        obtain ⟨hmet', hdone'⟩ := hrest
        refine ⟨hmet.trans hmet', List.forall_mem_cons.2 ⟨hdone.mono hmet'.subset, hdone'⟩⟩
      | some r =>
        obtain ⟨turns, hturns, hfirst⟩ := hrest
        match turns, hturns with
        | i :: turns, ⟨s', hs', h⟩ =>
        refine ⟨(i + 1) :: turns, ⟨s', hs', h.of_subset hmet.subset⟩, fun turns' r' hturns' => ?_⟩
        match turns', hturns' with
        | 0 :: turns', ⟨s'', hs'', h'⟩ =>
          cases hs''
          exact absurd hdone (h'.not_done hmet.done)
        | (j + 1) :: turns', ⟨s'', hs'', h'⟩ =>
          have hle := hfirst (j :: turns') r' ⟨s'', hs'', h'.avoiding hmet⟩
          rw [turns_le_iff] at hle ⊢
          exact hle.imp Nat.succ_lt_succ fun ⟨heq, hle⟩ => ⟨congrArg Nat.succ heq, hle⟩

variable (hsame : ∀ s s' k next next', expand s = some (k, next) → expand s' = some (k, next') →
  next = next')

include hsame in
/-- What is found among the sites that a new node goes on with is found from the node. -/
theorem AnswersAmong.node {k : K} {next : List S} {answer : Option R × List K}
    (h : AnswersAmong expand leaf (k :: avoid) next answer)
    (hexpand : expand s = some (k, next)) (hk : k ∉ avoid) :
    Answers expand leaf avoid s answer := by
  have hnode {k' next'} (h : expand s = some (k', next')) : k' = k ∧ next' = next := by
    rw [hexpand] at h
    cases h
    exact ⟨rfl, rfl⟩
  obtain ⟨found, met⟩ := answer
  cases found with
  | none =>
    obtain ⟨hmet, hdone⟩ := h
    have hmem : k ∈ met := hmet.subset List.mem_cons_self
    have hleaf (hnone : expand s = none) : leaf s = none := by
      rw [hexpand] at hnone
      cases hnone
    refine ⟨⟨fun k' hk' => hmet.subset (List.mem_cons_of_mem k hk'), ?_⟩, hleaf,
      fun k' next' h => (hnode h).1 ▸ hmem⟩
    intro s' k' next' hexpand' hk' hnot s'' hs''
    by_cases hkk : k' = k
    · subst hkk
      obtain rfl := hsame s s' k' next next' hexpand hexpand'
      exact hdone s'' hs''
    · refine hmet.done s' k' next' hexpand' hk' (fun hmem => ?_) s'' hs''
      exact (List.mem_cons.1 hmem).elim hkk hnot
  | some r =>
    obtain ⟨turns, hturns, hfirst⟩ := h
    match turns, hturns with
    | i :: turns, ⟨s', hi, h⟩ =>
    refine ⟨i :: turns, .turn hexpand hk hi h, fun turns' r' h' => ?_⟩
    cases h' with
    | leaf hnone _ =>
      rw [hexpand] at hnone
      cases hnone
    | turn hexpand' _ hi' h' =>
      obtain ⟨rfl, rfl⟩ := hnode hexpand'
      exact hfirst _ _ ⟨_, hi', h'⟩

/-! ## The search ends -/

section finite

variable [BEq K] [LawfulBEq K] {nodes : List K}

/-- The number of nodes that have not been met. -/
def unmet (nodes met : List K) : Nat :=
  nodes.countP fun k => !met.contains k

theorem unmet_anti (h : met ⊆ met') : unmet nodes met' ≤ unmet nodes met := by
  refine List.countP_mono_left fun k _ hk => ?_
  simp only [Bool.not_eq_true', List.contains_eq_mem, decide_eq_false_iff_not] at hk ⊢
  exact fun hmem => hk (h hmem)

theorem unmet_cons_lt {k : K} (hk : k ∈ nodes) (hmet : k ∉ met) :
    unmet nodes (k :: met) < unmet nodes met := by
  obtain ⟨before, after, rfl⟩ := List.append_of_mem hk
  have hbefore : unmet before (k :: met) ≤ unmet before met :=
    unmet_anti (List.subset_cons_self _ _)
  have hafter : unmet after (k :: met) ≤ unmet after met := unmet_anti (List.subset_cons_self _ _)
  have hcontains : met.contains k = false := by simpa using hmet
  simp only [unmet, List.countP_append, List.countP_cons, hcontains, List.contains_cons,
    BEq.rfl, Bool.true_or, Bool.not_true, Bool.not_false, if_true] at hbefore hafter ⊢
  simp only [Bool.false_eq_true, if_false]
  omega

variable (hnodes : ∀ s k next, expand s = some (k, next) → k ∈ nodes)

include hnodes hsame in
theorem search_answers {fuel : Nat} (hfuel : unmet nodes avoid < fuel) :
    Answers expand leaf avoid s (search expand leaf fuel s avoid) := by
  induction fuel generalizing s avoid with
  | zero => exact absurd hfuel (Nat.not_lt_zero _)
  | succ fuel ih =>
    rw [search]
    cases hexpand : expand s with
    | none =>
      cases hleaf : leaf s with
      | none =>
        refine ⟨.refl _, fun _ => hleaf, fun k next h => ?_⟩
        rw [hexpand] at h
        cases h
      | some r =>
        exact ⟨[], .leaf hexpand hleaf, fun turns' _ _ => not_lt.1 (List.not_lt_nil turns')⟩
    | some node =>
      obtain ⟨k, next⟩ := node
      dsimp only
      by_cases hk : k ∈ avoid
      · rw [if_pos (by simpa using hk)]
        refine ⟨.refl _, fun h => ?_, fun k' next' h => ?_⟩
        · rw [hexpand] at h
          cases h
        · rw [hexpand] at h
          cases h
          exact hk
      · rw [if_neg (by simpa using hk)]
        have hless := unmet_cons_lt (hnodes s k next hexpand) hk
        have hnext : AnswersAmong expand leaf (k :: avoid) next
            (firstOf (search expand leaf fuel) next (k :: avoid)) := by
          refine firstOf_answers fun s' met hsub => ih ?_
          have hle : unmet nodes met ≤ unmet nodes (k :: avoid) := unmet_anti hsub
          omega
        exact hnext.node hsame hexpand hk

include hnodes hsame in
theorem search_isSome_iff {fuel : Nat} (hfuel : nodes.length < fuel) :
    (search expand leaf fuel s []).1.isSome = true ↔ ∃ r, Reaches expand leaf s r := by
  have hunmet : unmet nodes [] < fuel := Nat.lt_of_le_of_lt List.countP_le_length hfuel
  have hanswer : Answers expand leaf [] s (search expand leaf fuel s []) :=
    search_answers hsame hnodes hunmet
  cases hsearch : search expand leaf fuel s [] with
  | mk found met =>
  rw [hsearch] at hanswer
  cases found with
  | none =>
    have hnone : ¬∃ r, Reaches expand leaf s r := fun ⟨r, hr⟩ =>
      hanswer.1.not_reaches hanswer.2 hr
    exact iff_of_false Bool.false_ne_true hnone
  | some r =>
    obtain ⟨turns, hturns, -⟩ := hanswer
    exact iff_of_true rfl ⟨r, hturns.reaches⟩

include hnodes hsame in
theorem search_eq_some_iff {fuel : Nat} (hfuel : nodes.length < fuel) :
    (search expand leaf fuel s []).1 = some r ↔ First expand leaf [] s r := by
  have hunmet : unmet nodes [] < fuel := Nat.lt_of_le_of_lt List.countP_le_length hfuel
  have hanswer : Answers expand leaf [] s (search expand leaf fuel s []) :=
    search_answers hsame hnodes hunmet
  have hsome : (search expand leaf fuel s []).1.isSome = true ↔ ∃ r, Reaches expand leaf s r :=
    search_isSome_iff hsame hnodes hfuel
  cases hsearch : search expand leaf fuel s [] with
  | mk found met =>
  rw [hsearch] at hanswer hsome
  cases found with
  | none =>
    refine iff_of_false (fun h => by cases h) fun ⟨turns, hturns, _⟩ => ?_
    exact absurd (hsome.2 ⟨r, hturns.reaches⟩) Bool.false_ne_true
  | some r' =>
    rw [Option.some.injEq]
    exact ⟨fun h => h ▸ hanswer, fun h => First.unique hanswer h⟩

end finite

end TestLint.DepthFirst
