import TestLint.Proofs.Duplicate.Pairs
import Mathlib.Logic.Relation

/-!
# Duplicates do not depend on scheduling

Files are gone through by several workers at once, and each pushes the
candidates it comes upon to one queue, so the order of the queue is a matter of
chance.  Whatever the order, the queue ends with the candidates of all workers
(`Collects.perm`), and sorting makes the pairs of all such queues the same
(`pairs_perm`).
-/

namespace TestLint.Duplicate

/-! ## Workers and their queue -/

/-- What has been pushed so far, and what each worker has still to push. -/
structure Collection where
  queue : List Candidate
  waiting : List (List Candidate)

/-- Some worker pushes its next candidate. -/
inductive Push : Collection → Collection → Prop
  | push (queue : List Candidate) (before after : List (List Candidate)) (next : Candidate)
      (rest : List Candidate) :
      Push ⟨queue, before ++ (next :: rest) :: after⟩ ⟨queue ++ [next], before ++ rest :: after⟩

/-- Workers with these candidates to push can leave the queue like this, all of
them done. -/
def Collects (work : List (List Candidate)) (queue : List Candidate) : Prop :=
  ∃ waiting, Relation.ReflTransGen Push ⟨[], work⟩ ⟨queue, waiting⟩ ∧ ∀ left ∈ waiting, left = []

/-- All candidates of a collection, whether they have been pushed or not. -/
def Collection.all (s : Collection) : List Candidate :=
  s.queue ++ s.waiting.flatten

theorem Push.perm {s s' : Collection} (h : Push s s') : s'.all.Perm s.all := by
  cases h with
  | push queue before after next rest =>
    simp only [Collection.all, List.flatten_append, List.flatten_cons, List.cons_append,
      List.append_assoc, List.nil_append]
    exact List.perm_middle.symm.append_left queue

theorem perm_of_pushes {s s' : Collection} (h : Relation.ReflTransGen Push s s') :
    s'.all.Perm s.all := by
  induction h with
  | refl => exact .refl _
  | tail _ hpush ih => exact hpush.perm.trans ih

theorem Collects.perm {work : List (List Candidate)} {queue : List Candidate}
    (h : Collects work queue) : queue.Perm work.flatten := by
  obtain ⟨waiting, hrun, hdone⟩ := h
  have hall := perm_of_pushes hrun
  rw [Collection.all, Collection.all, List.flatten_eq_nil_iff.2 hdone, List.append_nil] at hall
  exact hall

/-! Workers can always be done: one after the other, for one. -/

theorem pushes_worker (queue own : List Candidate) (before after : List (List Candidate)) :
    Relation.ReflTransGen Push ⟨queue, before ++ own :: after⟩
      ⟨queue ++ own, before ++ [] :: after⟩ := by
  induction own generalizing queue with
  | nil => rw [List.append_nil]
  | cons next rest ih =>
    have hrest := ih (queue ++ [next])
    rw [List.append_assoc, List.singleton_append] at hrest
    exact .head (.push queue before after next rest) hrest

theorem pushes_all (queue : List Candidate) (before work : List (List Candidate)) :
    Relation.ReflTransGen Push ⟨queue, before ++ work⟩
      ⟨queue ++ work.flatten, before ++ work.map fun _ => []⟩ := by
  induction work generalizing queue before with
  | nil =>
    simp only [List.flatten_nil, List.map_nil, List.append_nil]
    exact .refl
  | cons own work ih =>
    have hwork := ih (queue ++ own) (before ++ [[]])
    simp only [List.append_assoc, List.singleton_append] at hwork
    exact (pushes_worker queue own before work).trans hwork

theorem collects_flatten (work : List (List Candidate)) : Collects work work.flatten :=
  ⟨work.map fun _ => [], pushes_all [] [] work, by simp⟩

/-! ## The pairs of a queue -/

theorem mergeSort_notAfter_perm {methods methods' : List Candidate} (h : methods.Perm methods')
    (hapart : Candidate.Apart methods) :
    methods.mergeSort Candidate.notAfter = methods'.mergeSort Candidate.notAfter := by
  refine List.Perm.eq_of_pairwise (fun a b _ _ hab hba => absurd hba hab.asymm)
    (Candidate.pairwise_before hapart) (Candidate.pairwise_before (hapart.perm h)) ?_
  exact (List.mergeSort_perm _ _).trans (h.trans (List.mergeSort_perm _ _).symm)

variable {candidates candidates' : List Candidate}

theorem typeNames_perm (h : candidates.Perm candidates') :
    typeNames candidates = typeNames candidates' :=
  sortedNames_congr fun _ => (h.map _).mem_iff

theorem pairsOfType_perm (c : Compilation) (h : candidates.Perm candidates')
    (hapart : Candidate.Apart candidates) (typeName : String) :
    pairsOfType c candidates typeName = pairsOfType c candidates' typeName := by
  have hmethods := h.filter (·.containingType == typeName)
  rw [pairsOfType, pairsOfType]
  simp only [ranked, hmethods.length_eq, mergeSort_notAfter_perm hmethods (hapart.filter _)]

theorem pairs_perm (c : Compilation) (h : candidates.Perm candidates')
    (hapart : Candidate.Apart candidates) :
    pairs c candidates = pairs c candidates' := by
  rw [pairs, pairs, typeNames_perm h, funext (pairsOfType_perm c h hapart)]

/-- However the same candidates are handed out to workers, and in whatever order
the workers push them, the same pairs are found, in the same order and with the
same scores, and the run is cancelled at the same looks. -/
theorem pairs_of_collects (c : Compilation) {work work' : List (List Candidate)}
    {queue queue' : List Candidate} (hwork : work.flatten.Perm work'.flatten)
    (hapart : Candidate.Apart work.flatten) (hqueue : Collects work queue)
    (hqueue' : Collects work' queue') : pairs c queue = pairs c queue' :=
  pairs_perm c (hqueue.perm.trans (hwork.trans hqueue'.perm.symm))
    (hapart.perm hqueue.perm.symm)

/-- A test method of one type whose node is not found. -/
def bodiless (name : String) (start : Nat) : Candidate :=
  ⟨name, "T", ⟨"T.cs"⟩, default, ⟨0, start, start + 1⟩⟩

/-- Two methods pushed by two workers, or by one in the other order. -/
theorem pairs_of_collects_two :
    Collects [[bodiless "A" 10], [bodiless "B" 20]] [bodiless "A" 10, bodiless "B" 20] ∧
      Collects [[bodiless "B" 20, bodiless "A" 10]] [bodiless "B" 20, bodiless "A" 10] ∧
      pairs ⟨[], .empty⟩ [bodiless "A" 10, bodiless "B" 20] =
        pairs ⟨[], .empty⟩ [bodiless "B" 20, bodiless "A" 10] := by
  have hwork : [[bodiless "A" 10], [bodiless "B" 20]].flatten.Perm
      [[bodiless "B" 20, bodiless "A" 10]].flatten := .swap _ _ []
  have hqueue := collects_flatten [[bodiless "A" 10], [bodiless "B" 20]]
  have hqueue' := collects_flatten [[bodiless "B" 20, bodiless "A" 10]]
  exact ⟨hqueue, hqueue',
    pairs_of_collects ⟨[], .empty⟩ hwork (by decide) hqueue hqueue'⟩

end TestLint.Duplicate
