import TestLint.Duplicate.Detection
import TestLint.Proofs.Analysis.Run
import TestLint.Proofs.Duplicate.Similarity
import TestLint.Proofs.PathOrder
import TestLint.Proofs.SortedNames

/-!
# The pairs of duplicates

What a run over the candidates finds, if it is not cancelled (`pairs_spec`): all
pairs of methods of one type with different names and like bodies, and each of
them once.  A body is read off the node that the method's handle leads to
(`Candidate.HasBody`).  Of two candidates at different places sorting puts one strictly
before the other (`Candidate.pairwise_before`), and each candidate is paired
with those behind it, so that no pair is lost and none is found from both ends.
-/

namespace TestLint.Duplicate

/-! ## The order of candidates -/

namespace Candidate

/-- Both stand at one place: their paths have the same components, and they
start at the same byte. -/
def SamePlace (a b : Candidate) : Prop :=
  a.filePath.same b.filePath = true ∧ a.handle.start = b.handle.start

instance (a b : Candidate) : Decidable (SamePlace a b) :=
  inferInstanceAs (Decidable (_ ∧ _))

/-- No two of the candidates stand at one place. -/
def Apart (candidates : List Candidate) : Prop :=
  candidates.Pairwise fun a b => ¬a.SamePlace b

instance (candidates : List Candidate) : Decidable (Apart candidates) :=
  inferInstanceAs (Decidable (candidates.Pairwise _))

/-- The one stands before the other: by path, and in one file by its start. -/
def Before (a b : Candidate) : Prop :=
  a.filePath.compare b.filePath = .lt ∨
    a.filePath.same b.filePath = true ∧ a.handle.start < b.handle.start

def order : Candidate → Candidate → Ordering :=
  compareLex (fun a b => a.filePath.compare b.filePath) (compareOn (·.handle.start))

instance : Std.TransCmp fun a b : Candidate => a.filePath.compare b.filePath where
  eq_swap := Path.compare_swap _ _
  isLE_trans h h' := @Std.TransCmp.isLE_trans _ Path.compare _ _ _ _ h h'

instance : Std.TransCmp order :=
  inferInstanceAs (Std.TransCmp (compareLex _ _))

variable {a b : Candidate}

theorem order_swap (a b : Candidate) : order a b = (order b a).swap :=
  Std.OrientedCmp.eq_swap

theorem before_iff : a.Before b ↔ order a b = .lt := by
  rw [Before, order, compareLex, Ordering.then_eq_lt, Path.compare_eq_eq_iff.symm]
  simp only [compareOn, Nat.compare_eq_lt]

theorem samePlace_iff : a.SamePlace b ↔ order a b = .eq := by
  rw [SamePlace, order, compareLex_eq_eq, Path.compare_eq_eq_iff.symm]
  simp only [compareOn, Nat.compare_eq_eq]

theorem notAfter_eq (a b : Candidate) : a.notAfter b = (order a b).isLE := by
  rw [notAfter, order, compareLex]
  cases a.filePath.compare b.filePath with
  | lt => rfl
  | gt => rfl
  | eq => exact Bool.eq_iff_iff.2 (by simp [compareOn, Nat.isLE_compare])

theorem Before.asymm (h : a.Before b) : ¬b.Before a := by
  rw [before_iff] at h ⊢
  rw [order_swap, h]
  exact fun h' => by cases h'

theorem not_before_self (a : Candidate) : ¬a.Before a :=
  fun h => h.asymm h

theorem SamePlace.symm (h : a.SamePlace b) : b.SamePlace a := by
  rw [samePlace_iff] at h ⊢
  rw [order_swap, h]
  rfl

theorem Apart.filter {candidates : List Candidate} (h : Apart candidates)
    (keep : Candidate → Bool) : Apart (candidates.filter keep) :=
  List.Pairwise.filter keep h

theorem Apart.perm {candidates candidates' : List Candidate} (h : Apart candidates)
    (hperm : candidates.Perm candidates') : Apart candidates' :=
  hperm.pairwise h fun hplace hplace' => hplace hplace'.symm

theorem before_of_notAfter (h : a.notAfter b = true) (hplace : ¬a.SamePlace b) : a.Before b := by
  rw [notAfter_eq] at h
  rw [samePlace_iff] at hplace
  rw [before_iff]
  cases horder : order a b with
  | lt => rfl
  | eq => exact absurd horder hplace
  | gt =>
    rw [horder] at h
    cases h

theorem pairwise_notAfter (methods : List Candidate) :
    (methods.mergeSort notAfter).Pairwise fun a b => a.notAfter b = true := by
  refine List.pairwise_mergeSort (fun a b c h h' => ?_) (fun a b => ?_) methods
  · rw [notAfter_eq] at h h' ⊢
    exact Std.TransCmp.isLE_trans h h'
  · rw [notAfter_eq, notAfter_eq, order_swap]
    cases order b a <;> rfl

theorem pairwise_before {methods : List Candidate} (hapart : Apart methods) :
    (methods.mergeSort notAfter).Pairwise Before := by
  -- sorting leaves no two at one place, so what is not after is strictly before
  have hplaces := hapart.perm (List.mergeSort_perm methods notAfter).symm
  exact ((pairwise_notAfter methods).and hplaces).imp fun h => before_of_notAfter h.1 h.2

/-- The text is what the method is compared by: the normalized body of the node in its file that
its handle leads to, or nothing where the handle leads to no node. -/
inductive HasBody (c : Compilation) (m : Candidate) : String → Prop
  | node {file : SourceFile} {node : Tree} (hfile : c.file? m.handle.file = some file)
      (hnode : file.tree.nodeAt? m.handle.start m.handle.stop = some node) :
      HasBody c m (normalizedBody file.source node)
  | none (h : c.nodeAt? m.handle = none) : HasBody c m ""

theorem hasBody_iff {c : Compilation} {m : Candidate} {text : String} :
    m.HasBody c text ↔ text = m.body c := by
  constructor
  · rintro (⟨hfile, hnode⟩ | h)
    · have hhandle : c.nodeAt? m.handle = some _ :=
        Option.bind_eq_some_iff.2 ⟨_, hfile, hnode⟩
      simp only [body, hhandle, hfile]
    · simp only [body, h]
  · rintro rfl
    unfold body
    cases hhandle : c.nodeAt? m.handle with
    | none => exact .none hhandle
    | some node =>
      obtain ⟨file, hfile, hnode⟩ := Option.bind_eq_some_iff.1 hhandle
      simp only [hfile]
      exact .node hfile hnode

theorem hasBody_body (c : Compilation) (m : Candidate) : m.HasBody c (m.body c) :=
  hasBody_iff.2 rfl

end Candidate

/-! ## Pairs of a list -/

theorem pair?_eq_some_iff {x y : Candidate × String} {p : Pair} :
    pair? x y = some p ↔ x.1.name ≠ y.1.name ∧
      (x.2 = y.2 ∨ threshold < similarity x.2 y.2) ∧
        p = ⟨x.1, y.1, .ofTexts x.2 y.2⟩ := by
  have hmatch : ((Score.ofTexts x.2 y.2).isNear || x.2 == y.2) = true ↔
      x.2 = y.2 ∨ threshold < similarity x.2 y.2 := by
    rw [← Score.value_ofTexts, ← Score.isNear_iff, Bool.or_eq_true, beq_iff_eq, or_comm]
  rw [pair?, ← hmatch]
  by_cases hname : x.1.name = y.1.name
  · rw [if_pos hname]
    exact ⟨nofun, fun h => absurd hname h.1⟩
  · rw [if_neg hname]
    by_cases hlike : ((Score.ofTexts x.2 y.2).isNear || x.2 == y.2) = true
    · rw [if_pos hlike, Option.some.injEq, eq_comm]
      exact ⟨fun h => ⟨hname, hlike, h⟩, fun h => h.2.2⟩
    · rw [if_neg hlike]
      exact ⟨nofun, fun h => absurd h.2.1 hlike⟩

/-- The pairs of a list, each candidate with all later ones. -/
def pairsAmong : List (Candidate × String) → List Pair
  | [] => []
  | first :: rest => rest.filterMap (pair? first) ++ pairsAmong rest

theorem pairsAmong_of_length_lt {ms : List (Candidate × String)} (h : ms.length < 2) :
    pairsAmong ms = [] := by
  match ms with
  | [] => rfl
  | [_] => rfl
  | _ :: _ :: rest =>
    rw [List.length_cons, List.length_cons] at h
    omega

theorem pairsOf_takes (ms : List (Candidate × String)) :
    (pairsOf ms).Takes ms.length (pairsAmong ms) := by
  induction ms with
  | nil => exact Run.takes_pure []
  | cons first rest ih =>
    rw [List.length_cons, Nat.add_comm]
    exact Run.takes_look.bind (ih.map _)

theorem mem_pairsAmong {ms : List (Candidate × String)}
    (hms : ms.Pairwise fun x y => x.1.Before y.1) {p : Pair} :
    p ∈ pairsAmong ms ↔ ∃ x ∈ ms, ∃ y ∈ ms, x.1.Before y.1 ∧ pair? x y = some p := by
  induction ms with
  | nil => simp [pairsAmong]
  | cons first rest ih =>
    obtain ⟨hfirst, hrest⟩ := List.pairwise_cons.1 hms
    rw [pairsAmong, List.mem_append, List.mem_filterMap, ih hrest]
    constructor
    · rintro (⟨y, hy, hp⟩ | ⟨x, hx, y, hy, hbefore, hp⟩)
      · exact ⟨first, List.mem_cons_self, y, List.mem_cons_of_mem _ hy, hfirst y hy, hp⟩
      · exact ⟨x, List.mem_cons_of_mem _ hx, y, List.mem_cons_of_mem _ hy, hbefore, hp⟩
    · rintro ⟨x, hx, y, hy, hbefore, hp⟩
      rcases List.mem_cons.1 hx with rfl | hxrest <;> rcases List.mem_cons.1 hy with rfl | hyrest
      · exact absurd hbefore (Candidate.not_before_self _)
      · exact .inl ⟨y, hyrest, hp⟩
      · exact absurd hbefore (hfirst x hxrest).asymm
      · exact .inr ⟨x, hxrest, y, hyrest, hbefore, hp⟩

/-- The pair comes before the other: by type, and then by the places of both methods. -/
def Pair.Precedes (p q : Pair) : Prop :=
  p.first.containingType < q.first.containingType ∨
    p.first.containingType = q.first.containingType ∧
      (p.first.Before q.first ∨ p.first = q.first ∧ p.second.Before q.second)

theorem Pair.not_precedes_self (p : Pair) : ¬p.Precedes p := by
  rintro (htype | ⟨-, hfirst | ⟨-, hsecond⟩⟩)
  · exact String.lt_irrefl _ htype
  · exact Candidate.not_before_self _ hfirst
  · exact Candidate.not_before_self _ hsecond

theorem pairwise_pairsAmong {ms : List (Candidate × String)} {typeName : String}
    (hms : ms.Pairwise fun x y => x.1.Before y.1)
    (htype : ∀ x ∈ ms, x.1.containingType = typeName) :
    (pairsAmong ms).Pairwise Pair.Precedes := by
  induction ms with
  | nil => exact List.Pairwise.nil
  | cons first rest ih =>
    obtain ⟨hfirst, hrest⟩ := List.pairwise_cons.1 hms
    obtain ⟨htypeFirst, htypeRest⟩ := List.forall_mem_cons.1 htype
    rw [pairsAmong, List.pairwise_append]
    refine ⟨?_, ih hrest htypeRest, ?_⟩
    · rw [List.pairwise_filterMap]
      refine hrest.imp fun {x y} hbefore p hp q hq => ?_
      obtain ⟨-, -, rfl⟩ := pair?_eq_some_iff.1 hp
      obtain ⟨-, -, rfl⟩ := pair?_eq_some_iff.1 hq
      exact .inr ⟨rfl, .inr ⟨rfl, hbefore⟩⟩
    · intro p hp q hq
      obtain ⟨y, hy, hp⟩ := List.mem_filterMap.1 hp
      obtain ⟨x, hx, z, hz, -, hq⟩ := (mem_pairsAmong hrest).1 hq
      obtain ⟨-, -, rfl⟩ := pair?_eq_some_iff.1 hp
      obtain ⟨-, -, rfl⟩ := pair?_eq_some_iff.1 hq
      exact .inr ⟨htypeFirst.trans (htypeRest x hx).symm, .inl (hfirst x hx)⟩

/-! ## Types -/

theorem mem_typeNames {candidates : List Candidate} {typeName : String} :
    typeName ∈ typeNames candidates ↔ ∃ m ∈ candidates, m.containingType = typeName := by
  rw [typeNames, List.mem_eraseDups, List.mem_mergeSort, List.mem_map]

theorem pairwise_typeNames (candidates : List Candidate) :
    (typeNames candidates).Pairwise (· < ·) :=
  pairwise_sortedNames _

/-! ## All pairs -/

/-- The candidates of one type in the order of their places, with their bodies. -/
abbrev rankedOfType (c : Compilation) (candidates : List Candidate) (typeName : String) :
    List (Candidate × String) :=
  ranked c (candidates.filter (·.containingType == typeName))

/-- The pairs of all types. -/
abbrev allPairs (c : Compilation) (candidates : List Candidate) : List Pair :=
  (typeNames candidates).flatMap fun typeName => pairsAmong (rankedOfType c candidates typeName)

/-- How often the run looks that finds the pairs of a type: once for the type, and once for
each of its methods if there are several. -/
def looksOfType (candidates : List Candidate) (typeName : String) : Nat :=
  let methods := candidates.filter (·.containingType == typeName)
  if methods.length < 2 then 1 else 1 + methods.length

/-- How often the run looks that finds all pairs. -/
def looks (candidates : List Candidate) : Nat :=
  ((typeNames candidates).map (looksOfType candidates)).sum

theorem pairsOfType_takes (c : Compilation) (candidates : List Candidate) (typeName : String) :
    (pairsOfType c candidates typeName).Takes (looksOfType candidates typeName)
      (pairsAmong (rankedOfType c candidates typeName)) := by
  rw [pairsOfType, looksOfType]
  dsimp only
  split
  case isTrue hfew =>
    rw [pairsAmong_of_length_lt (by simpa [ranked] using hfew)]
    exact Run.takes_look.map fun _ => []
  case isFalse =>
    have hlength : (rankedOfType c candidates typeName).length =
        (candidates.filter (·.containingType == typeName)).length := by
      simp [ranked]
    rw [← hlength]
    exact Run.takes_look.bind (pairsOf_takes _)

theorem pairs_takes (c : Compilation) (candidates : List Candidate) :
    (pairs c candidates).Takes (looks candidates) (allPairs c candidates) :=
  (Run.Takes.mapM (pairsOfType_takes c candidates) _).map List.flatten

theorem pairs_gives (c : Compilation) (candidates : List Candidate) :
    (pairs c candidates).Gives (allPairs c candidates) :=
  (pairs_takes c candidates).gives

section Places

variable {c : Compilation} {candidates : List Candidate} {typeName : String}

theorem mem_rankedOfType {x : Candidate × String} :
    x ∈ rankedOfType c candidates typeName ↔
      x.1 ∈ candidates ∧ x.1.containingType = typeName ∧ x.2 = x.1.body c := by
  simp only [ranked, List.mem_map, List.mem_mergeSort, List.mem_filter, beq_iff_eq]
  constructor
  · rintro ⟨m, ⟨hm, htype⟩, rfl⟩
    exact ⟨hm, htype, rfl⟩
  · rintro ⟨hm, htype, hbody⟩
    exact ⟨x.1, ⟨hm, htype⟩, by rw [← hbody]⟩

theorem pairwise_rankedOfType (hapart : Candidate.Apart candidates) :
    (rankedOfType c candidates typeName).Pairwise fun x y => x.1.Before y.1 :=
  List.pairwise_map.2 (Candidate.pairwise_before (hapart.filter _))

/-- A pair of duplicates among candidates: two of one type with different names
and bodies that are equal or nearly so, the earlier one first, with their score. -/
structure IsDuplicate (c : Compilation) (candidates : List Candidate) (p : Pair) : Prop where
  first_mem : p.first ∈ candidates
  second_mem : p.second ∈ candidates
  same_type : p.first.containingType = p.second.containingType
  other_name : p.first.name ≠ p.second.name
  before : p.first.Before p.second
  alike : ∃ text text', p.first.HasBody c text ∧ p.second.HasBody c text' ∧
    (text = text' ∨ threshold < similarity text text') ∧ p.score = .ofTexts text text'

theorem isDuplicate_iff {p : Pair} : IsDuplicate c candidates p ↔
    p.first ∈ candidates ∧ p.second ∈ candidates ∧
      p.first.containingType = p.second.containingType ∧ p.first.Before p.second ∧
      pair? (p.first, p.first.body c) (p.second, p.second.body c) = some p := by
  rw [pair?_eq_some_iff]
  constructor
  · rintro ⟨hfirst, hsecond, htype, hname, hbefore, text, text', hbody, hbody', halike, hscore⟩
    obtain rfl := Candidate.hasBody_iff.1 hbody
    obtain rfl := Candidate.hasBody_iff.1 hbody'
    exact ⟨hfirst, hsecond, htype, hbefore, hname, halike, by rw [← hscore]⟩
  · rintro ⟨hfirst, hsecond, htype, hbefore, hname, halike, hp⟩
    exact ⟨hfirst, hsecond, htype, hname, hbefore, _, _, Candidate.hasBody_body c p.first,
      Candidate.hasBody_body c p.second, halike, congrArg Pair.score hp⟩

theorem exists_mem_pairsAmong_iff (hapart : Candidate.Apart candidates) {p : Pair} :
    (∃ typeName ∈ typeNames candidates,
      p ∈ pairsAmong (rankedOfType c candidates typeName)) ↔ IsDuplicate c candidates p := by
  rw [isDuplicate_iff]
  constructor
  · rintro ⟨typeName, -, hp⟩
    obtain ⟨x, hx, y, hy, hbefore, hp⟩ := (mem_pairsAmong (pairwise_rankedOfType hapart)).1 hp
    obtain ⟨hxmem, hxtype, hxbody⟩ := mem_rankedOfType.1 hx
    obtain ⟨hymem, hytype, hybody⟩ := mem_rankedOfType.1 hy
    have hpair := hp
    obtain ⟨-, -, rfl⟩ := pair?_eq_some_iff.1 hp
    refine ⟨hxmem, hymem, hxtype.trans hytype.symm, hbefore, ?_⟩
    rwa [← hxbody, ← hybody]
  · rintro ⟨hfirst, hsecond, htype, hbefore, hp⟩
    refine ⟨p.first.containingType, mem_typeNames.2 ⟨p.first, hfirst, rfl⟩, ?_⟩
    have hfirst' : (p.first, p.first.body c) ∈
        rankedOfType c candidates p.first.containingType :=
      mem_rankedOfType.2 ⟨hfirst, rfl, rfl⟩
    have hsecond' : (p.second, p.second.body c) ∈
        rankedOfType c candidates p.first.containingType :=
      mem_rankedOfType.2 ⟨hsecond, htype.symm, rfl⟩
    exact (mem_pairsAmong (pairwise_rankedOfType hapart)).2
      ⟨_, hfirst', _, hsecond', hbefore, hp⟩

theorem pairwise_precedes (hapart : Candidate.Apart candidates) :
    ((typeNames candidates).flatMap fun typeName =>
      pairsAmong (rankedOfType c candidates typeName)).Pairwise Pair.Precedes := by
  have htype : ∀ {typeName p}, p ∈ pairsAmong (rankedOfType c candidates typeName) →
      p.first.containingType = typeName := by
    intro typeName p hp
    obtain ⟨x, hx, y, -, -, hp⟩ := (mem_pairsAmong (pairwise_rankedOfType hapart)).1 hp
    obtain ⟨-, -, rfl⟩ := pair?_eq_some_iff.1 hp
    exact (mem_rankedOfType.1 hx).2.1
  rw [List.pairwise_flatMap]
  refine ⟨fun typeName _ => ?_, (pairwise_typeNames candidates).imp fun hlt p hp q hq => .inl ?_⟩
  · exact pairwise_pairsAmong (pairwise_rankedOfType hapart)
      fun x hx => (mem_rankedOfType.1 hx).2.1
  · rw [htype hp, htype hq]
    exact hlt

end Places

/-- Of candidates at different places, a run that is not cancelled finds all
pairs of duplicates and nothing else, each once, in the order of their types and
places. -/
theorem pairs_spec (c : Compilation) (candidates : List Candidate)
    (hapart : Candidate.Apart candidates) :
    ∃ found, Run.result none (pairs c candidates) = .ok found ∧
      (∀ p, p ∈ found ↔ IsDuplicate c candidates p) ∧ found.Nodup ∧
      found.Pairwise Pair.Precedes := by
  have hordered := pairwise_precedes (c := c) hapart
  refine ⟨_, (pairs_gives c candidates).result, fun p => ?_, hordered.imp ?_, hordered⟩
  · rw [List.mem_flatMap]
    exact exists_mem_pairsAmong_iff hapart
  · rintro p q hpq rfl
    exact p.not_precedes_self hpq

/-! ## Methods of one class -/

/-- A token of a source. -/
def token (kind : String) (start stop : Nat) : Tree :=
  .node ⟨kind, none, false, false, start, stop⟩ []

/-- A method, its name and the expression that it returns, which is made of these nodes. -/
def methodTree (start name arrow stop : Nat) (children : List Tree) : Tree :=
  .node ⟨"method_declaration", none, true, false, start, stop⟩
    [.node ⟨"predefined_type", some "returns", true, false, start, start + 3⟩ [],
     .node ⟨"identifier", some "name", true, false, name, name + 1⟩ [],
     .node ⟨"parameter_list", some "parameters", true, false, name + 1, name + 3⟩ [],
     .node ⟨"arrow_expression_clause", some "body", true, false, arrow, stop - 1⟩ children]

/-- A class with three methods: two that differ in their layout and a comment, and one that
returns another number. -/
def threeMethods : Compilation :=
  let source := "class T\x7bint A()=>1;int B() => /*x*/ 1;int C()=>2;\x7d"
  let a := methodTree 8 12 15 19 [token "=>" 15 17, token "integer_literal" 17 18]
  let b := methodTree 19 23 27 38
    [token "=>" 27 29, token "comment" 30 35, token "integer_literal" 36 37]
  let c := methodTree 38 42 45 49 [token "=>" 45 47, token "integer_literal" 47 48]
  let tree : Tree := .node ⟨"compilation_unit", none, true, false, 0, 50⟩
    [.node ⟨"class_declaration", none, true, false, 0, 50⟩
      [.node ⟨"identifier", some "name", true, false, 6, 7⟩ [],
       .node ⟨"declaration_list", some "body", true, false, 7, 50⟩ [a, b, c]]]
  .ofSources (fun _ => tree) [(⟨"T.cs"⟩, source)] .empty

/-- One of the methods of the class. -/
def methodOfT (name : String) (start stop : Nat) : Candidate :=
  ⟨name, "T", ⟨"T.cs"⟩, default, ⟨0, start, stop⟩⟩

/-- The methods of the class, the last one first. -/
def methodsOfT : List Candidate :=
  [methodOfT "C" 38 49, methodOfT "B" 19 38, methodOfT "A" 8 19]

theorem pairs_spec_threeMethods :
    Candidate.Apart methodsOfT ∧
      ∃ found, Run.result none (pairs threeMethods methodsOfT) = .ok found ∧
        ⟨methodOfT "A" 8 19, methodOfT "B" 19 38, ⟨0, 4⟩⟩ ∈ found ∧
        ∀ p ∈ found, p.first = methodOfT "A" 8 19 ∧ p.second = methodOfT "B" 19 38 := by
  have hapart : Candidate.Apart methodsOfT := by decide
  have hbefore : (methodOfT "A" 8 19).Before (methodOfT "B" 19 38) := .inr ⟨rfl, by decide⟩
  have hothers : ∀ x ∈ methodsOfT, ∀ y ∈ methodsOfT,
      x = methodOfT "A" 8 19 ∧ y = methodOfT "B" 19 38 ∨
        x = methodOfT "B" 19 38 ∧ y = methodOfT "A" 8 19 ∨
        pair? (x, x.body threeMethods) (y, y.body threeMethods) = none := by
    decide +kernel
  obtain ⟨found, hresult, hmem, -, -⟩ := pairs_spec threeMethods methodsOfT hapart
  refine ⟨hapart, found, hresult, (hmem _).2 ?_, fun p hp => ?_⟩
  · exact isDuplicate_iff.2 ⟨by decide, by decide, rfl, hbefore, by decide +kernel⟩
  · obtain ⟨hfirst, hsecond, -, hordered, hpair⟩ := isDuplicate_iff.1 ((hmem p).1 hp)
    rcases hothers p.first hfirst p.second hsecond with h | ⟨hx, hy⟩ | hnone
    · exact h
    · rw [hx, hy] at hordered
      exact absurd hbefore hordered.asymm
    · rw [hnone] at hpair
      cases hpair

end TestLint.Duplicate
