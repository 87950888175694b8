import TestLint.Proofs.Analysis.Results

/-!
# Cancellation is all or nothing

Several workers go through the files at once.  They share a queue, to which each pushes the
test methods of its file one by one, and a flag, which anyone may set at any time to cancel
the analysis.  The flag is looked at before each file; once all workers are done, it is looked
at again and again while the pairs of the queue are found.

* A step of a pass is what happens next in any of its workers (`Pass.Step`); a course is any
  sequence of steps (`Pass.Course`).
* A worker is stopped exactly if it looks after the flag has been set (`Course.stopped_iff`),
  and then the analysis is an error.  Otherwise no worker has seen anything of the flag, and
  the same steps without its setting lead to the same queue and the same findings
  (`Course.uncancelled`).
* What the pairs of the queue are, and how often is looked until they are found, does not
  depend on the flag either (`Duplicate.pairs_takes`).

So an analysis gives what it gives when it is never cancelled, or no results at all
(`Compilation.cancellation_allOrNothing`).
-/

namespace TestLint

/-- How far the work on a file has come. -/
inductive Task where
  | waiting
  /-- The file has been checked; these of its candidates are still to be pushed. -/
  | pushing (found : FileFindings) (left : List Duplicate.Candidate)
  /-- The look before the file saw that the analysis is cancelled. -/
  | stopped
  /-- The file is left out, another one having been stopped. -/
  | skipped

namespace Task

def isStopped : Task → Bool
  | stopped => true
  | _ => false

/-- Nothing is left to do for the file. -/
def isOver : Task → Bool
  | waiting => false
  | pushing _ left => left.isEmpty
  | stopped => true
  | skipped => true

def found? : Task → Option FileFindings
  | pushing found _ => some found
  | _ => none

end Task

/-- What happens in a pass: it is cancelled, or something is done for the file at a place. -/
inductive Event where
  | cancel
  | look (place : Nat)
  | push (place : Nat)
  | skip (place : Nat)
  deriving DecidableEq

/-- A pass over all files: how far it has come, and whether it has been cancelled. -/
structure Pass where
  tasks : List (SourceFile × Task)
  queue : List Duplicate.Candidate
  cancelled : Bool

namespace Pass

def start (files : List SourceFile) : Pass :=
  ⟨files.map fun file => (file, .waiting), [], false⟩

/-- The same state of the pass, had it not been cancelled. -/
def uncancelled (s : Pass) : Pass :=
  { s with cancelled := false }

def stopped (s : Pass) : Bool :=
  s.tasks.any fun (_, task) => task.isStopped

def isOver (s : Pass) : Bool :=
  s.tasks.all fun (_, task) => task.isOver

/-- The looks for the pairs that see nothing, if the flag is set only after so many of them. -/
def remaining (s : Pass) (patience : Patience) : Patience :=
  if s.cancelled then some 0 else patience

/-- Some look sees that the analysis is cancelled: one before a file, or one for the pairs. -/
def Notices (s : Pass) (patience : Patience) : Prop :=
  s.stopped = true ∨ ¬(s.remaining patience).Lasts (Duplicate.looks s.queue)

/-! ## Steps -/

/-- One step of the pass. The flag may be set at any time; a look before a file reads it. -/
inductive Step (found : SourceFile → FileFindings) : Pass → Event → Pass → Prop
  | cancel (s : Pass) : Step found s .cancel { s with cancelled := true }
  | check (before after : List (SourceFile × Task)) (file : SourceFile)
      (queue : List Duplicate.Candidate) :
      Step found ⟨before ++ (file, .waiting) :: after, queue, false⟩ (.look before.length)
        ⟨before ++ (file, .pushing (found file) (found file).candidates) :: after, queue, false⟩
  | stop (before after : List (SourceFile × Task)) (file : SourceFile)
      (queue : List Duplicate.Candidate) :
      Step found ⟨before ++ (file, .waiting) :: after, queue, true⟩ (.look before.length)
        ⟨before ++ (file, .stopped) :: after, queue, true⟩
  | push (before after : List (SourceFile × Task)) (file : SourceFile) (own : FileFindings)
      (next : Duplicate.Candidate) (left queue : List Duplicate.Candidate) (cancelled : Bool) :
      Step found ⟨before ++ (file, .pushing own (next :: left)) :: after, queue, cancelled⟩
        (.push before.length)
        ⟨before ++ (file, .pushing own left) :: after, queue ++ [next], cancelled⟩
  | skip (before after : List (SourceFile × Task)) (file : SourceFile)
      (queue : List Duplicate.Candidate) (cancelled : Bool)
      (h : stopped ⟨before ++ (file, .waiting) :: after, queue, cancelled⟩ = true) :
      Step found ⟨before ++ (file, .waiting) :: after, queue, cancelled⟩ (.skip before.length)
        ⟨before ++ (file, .skipped) :: after, queue, cancelled⟩

/-- A look comes after the setting of the flag. -/
def LooksLate (events : List Event) : Prop :=
  ∃ i, [.cancel, .look i].Sublist events

/-- Steps of the pass, one after the other. -/
inductive Course (found : SourceFile → FileFindings) : Pass → List Event → Pass → Prop
  | nil (s : Pass) : Course found s [] s
  | cons {s s' s'' : Pass} {e : Event} {events : List Event} (step : Step found s e s')
      (rest : Course found s' events s'') : Course found s (e :: events) s''

variable {found : SourceFile → FileFindings} {s s' s'' : Pass} {e : Event}
  {events events' : List Event}

theorem Step.cancelled_iff (h : Step found s e s') :
    s'.cancelled = true ↔ s.cancelled = true ∨ e = .cancel := by
  cases h <;> simp

/-- A worker is stopped by a look at the set flag, and by nothing else. -/
theorem Step.stopped_iff (h : Step found s e s') :
    s'.stopped = true ↔ s.stopped = true ∨ s.cancelled = true ∧ ∃ i, e = .look i := by
  cases h <;> simp [stopped, Task.isStopped]

/-- What happens would happen without the flag as well, if no worker is stopped by then. -/
theorem Step.uncancelled (h : Step found s e s') (hstopped : s'.stopped = false)
    (hcancel : e ≠ .cancel) : Step found s.uncancelled e s'.uncancelled := by
  have hbefore : s.stopped ≠ true := fun hs => by
    rw [h.stopped_iff.2 (.inl hs)] at hstopped
    cases hstopped
  cases h with
  | cancel => exact absurd rfl hcancel
  | check before after file queue => exact .check before after file queue
  | stop before after file queue => simp [stopped, Task.isStopped] at hstopped
  | push before after file own next left queue cancelled =>
    exact .push before after file own next left queue false
  | skip before after file queue cancelled h => exact absurd h hbefore

/-! ## Courses -/

theorem Course.append (h : Course found s events s') (h' : Course found s' events' s'') :
    Course found s (events ++ events') s'' := by
  induction h with
  | nil s => exact h'
  | cons step _ ih => exact .cons step (ih h')

theorem Course.stopped_of_stopped (h : Course found s events s') (hs : s.stopped = true) :
    s'.stopped = true := by
  induction h with
  | nil s => exact hs
  | cons step _ ih => exact ih (step.stopped_iff.2 (.inl hs))

theorem looksLate_cons_iff : LooksLate (e :: events) ↔
    LooksLate events ∨ e = .cancel ∧ ∃ i, .look i ∈ events := by
  simp only [LooksLate, List.sublist_cons_iff, exists_or]
  refine or_congr_right ⟨?_, ?_⟩
  · rintro ⟨i, rest, heq, h⟩
    cases heq
    exact ⟨rfl, i, List.singleton_sublist.1 h⟩
  · rintro ⟨rfl, i, h⟩
    exact ⟨i, _, rfl, List.singleton_sublist.2 h⟩

/-- A worker is stopped in the course of a pass exactly if a look comes after the flag has
been set. -/
theorem Course.stopped_iff (h : Course found s events s') :
    s'.stopped = true ↔ s.stopped = true ∨ (s.cancelled = true ∧ ∃ i, .look i ∈ events) ∨
      LooksLate events := by
  induction h with
  | nil s => simp [LooksLate]
  | @cons s s' s'' e events step rest ih =>
    rw [ih, step.stopped_iff, step.cancelled_iff]
    simp only [looksLate_cons_iff, List.mem_cons, exists_or]
    grind

/-- As long as no worker is stopped, the steps of a course lead to the same state without
those that set the flag. -/
theorem Course.uncancelled (h : Course found s events s') (hstopped : s'.stopped = false) :
    Course found s.uncancelled (events.filter (· != .cancel)) s'.uncancelled := by
  induction h with
  | nil s => exact .nil _
  | @cons s s' s'' e events step rest ih =>
    have hnext : s'.stopped = false := Bool.eq_false_iff.2 fun hs => by
      rw [rest.stopped_of_stopped hs] at hstopped
      cases hstopped
    by_cases hcancel : e = .cancel
    · subst hcancel
      cases step
      exact ih hstopped
    · rw [List.filter_cons, if_pos (bne_iff_ne.2 hcancel)]
      exact .cons (step.uncancelled hnext hcancel) (ih hstopped)

/-! ## Workers that take turns -/

/-- A worker pushes all that is left of its candidates. -/
theorem course_push (found : SourceFile → FileFindings)
    (before after : List (SourceFile × Task)) (file : SourceFile) (own : FileFindings)
    (left queue : List Duplicate.Candidate) (cancelled : Bool) :
    ∃ events, Course found ⟨before ++ (file, .pushing own left) :: after, queue, cancelled⟩ events
      ⟨before ++ (file, .pushing own []) :: after, queue ++ left, cancelled⟩ := by
  induction left generalizing queue with
  | nil =>
    rw [List.append_nil]
    exact ⟨[], .nil _⟩
  | cons next left ih =>
    obtain ⟨events, hrest⟩ := ih (queue ++ [next])
    rw [List.append_assoc, List.singleton_append] at hrest
    exact ⟨_, .cons (.push before after file own next left queue cancelled) hrest⟩

/-- The worker of a file that is gone through. -/
def worked (found : SourceFile → FileFindings) (file : SourceFile) : SourceFile × Task :=
  (file, .pushing (found file) [])

/-- Files are gone through one after the other, if the pass is not cancelled. -/
theorem course_files (found : SourceFile → FileFindings)
    (before after : List (SourceFile × Task)) (files : List SourceFile)
    (queue : List Duplicate.Candidate) :
    ∃ events, Course found
      ⟨before ++ (files.map fun file => (file, .waiting)) ++ after, queue, false⟩ events
      ⟨before ++ files.map (worked found) ++ after,
        queue ++ files.flatMap fun file => (found file).candidates, false⟩ := by
  induction files generalizing before queue with
  | nil =>
    simp only [List.map_nil, List.flatMap_nil, List.append_nil]
    exact ⟨[], .nil _⟩
  | cons file files ih =>
    obtain ⟨pushes, hpushes⟩ := course_push found before
      ((files.map fun file => (file, .waiting)) ++ after) file (found file)
      (found file).candidates queue false
    obtain ⟨events, hrest⟩ := ih (before ++ [worked found file])
      (queue ++ (found file).candidates)
    simp only [List.map_cons, List.flatMap_cons, List.append_assoc, List.cons_append,
      List.nil_append] at hrest ⊢
    exact ⟨_, .cons (.check before _ file queue) (hpushes.append hrest)⟩

/-- Once a worker is stopped, the remaining files are left out. -/
theorem course_skip (found : SourceFile → FileFindings) (before : List (SourceFile × Task))
    (files : List SourceFile) (queue : List Duplicate.Candidate) (cancelled : Bool)
    (hstopped : (before.any fun (_, task) => task.isStopped) = true) :
    ∃ events, Course found
      ⟨before ++ files.map fun file => (file, .waiting), queue, cancelled⟩ events
      ⟨before ++ files.map fun file => (file, .skipped), queue, cancelled⟩ := by
  induction files generalizing before with
  | nil => exact ⟨[], .nil _⟩
  | cons file files ih =>
    obtain ⟨events, hrest⟩ := ih (before ++ [(file, .skipped)])
      (by rw [List.any_append, hstopped, Bool.true_or])
    simp only [List.map_cons, List.append_assoc, List.cons_append, List.nil_append] at hrest ⊢
    refine ⟨_, .cons (.skip before _ file queue cancelled ?_) hrest⟩
    rw [stopped, List.any_append, hstopped, Bool.true_or]

/-- The flag is set after so many files have been gone through; the next one is stopped, and
the others are left out. -/
theorem course_stop (found : SourceFile → FileFindings) {files : List SourceFile} {left : Nat}
    (hleft : left < files.length) :
    ∃ events s, Course found (start files) events s ∧ s.stopped = true ∧ s.isOver = true := by
  let waiting (file : SourceFile) : SourceFile × Task := (file, .waiting)
  let done := (files.take left).map (worked found)
  let queue := (files.take left).flatMap fun file => (found file).candidates
  let rest := files.drop (left + 1)
  let next := waiting files[left]
  have hstart : start files =
      ⟨[] ++ (files.take left).map waiting ++ next :: rest.map waiting, [], false⟩ := by
    have hdrop : next :: rest.map waiting = (files.drop left).map waiting := by
      rw [List.drop_eq_getElem_cons hleft, List.map_cons]
    rw [hdrop, List.nil_append, ← List.map_append, List.take_append_drop]
    rfl
  obtain ⟨events, hdone⟩ :=
    course_files found [] (next :: rest.map waiting) (files.take left) []
  obtain ⟨skips, hskips⟩ := course_skip found (done ++ [(files[left], .stopped)]) rest queue true
    (by simp [Task.isStopped])
  rw [List.append_assoc, List.singleton_append] at hskips
  refine ⟨_, _, hstart ▸ hdone.append (.cons (.cancel _) (.cons (.stop done _ _ queue) hskips)),
    ?_, ?_⟩
  · simp [stopped, Task.isStopped]
  · have hover : done.all (fun (_, task) => task.isOver) = true :=
      List.all_eq_true.2 fun t ht => by
        obtain ⟨file, -, rfl⟩ := List.mem_map.1 ht
        rfl
    rw [isOver, List.all_append, List.all_append, hover]
    simp [Task.isOver]

end Pass

/-! ## Analyses -/

namespace Compilation

variable (globs : Globs) (c : Compilation) (config : Config)

/-- The outcome of an analysis whose pass has come to this state. If the flag is not set yet,
`patience` says when it is. -/
def conclude (s : Pass) (patience : Patience) : Except AnalysisError (List AnalysisResult) :=
  if s.stopped then
    .error .cancelled
  else
    Run.result (s.remaining patience) do
      let pairs ← Duplicate.pairs c s.queue
      return s.tasks.filterMap fun (file, task) =>
        task.found?.map fun found => fileResult globs config file found pairs

/-- A pass over all files of the compilation ends like this, after these steps. -/
structure Passes (framework : Framework) (events : List Event) (s : Pass) : Prop where
  resolved : Framework.ofCompilation? c = some framework
  course : Pass.Course (c.found globs framework config) (.start c.files) events s
  isOver : s.isOver = true

variable {globs c config} {framework : Framework} {events : List Event} {s : Pass}

theorem conclude_of_stopped (h : s.stopped = true) (patience : Patience) :
    c.conclude globs config s patience = .error .cancelled := by
  rw [conclude, if_pos h]

/-- What a pass that has not stopped concludes, and how often it looks on the way. -/
theorem conclude_eq (h : s.stopped = false) (patience : Patience) :
    c.conclude globs config s patience =
      if (s.remaining patience).Lasts (Duplicate.looks s.queue) then
        .ok (s.tasks.filterMap fun (file, task) => task.found?.map fun found =>
          fileResult globs config file found (Duplicate.allPairs c s.queue))
      else
        .error .cancelled := by
  rw [conclude, h, if_neg Bool.false_ne_true]
  exact ((Duplicate.pairs_takes c s.queue).map _).result_eq _

theorem conclude_allOrNothing (s : Pass) (patience : Patience) :
    AllOrNothing (s.Notices patience) (c.conclude globs config s patience)
      (c.conclude globs config s.uncancelled none) := by
  cases hstopped : s.stopped with
  | true => exact .nothing (.inl hstopped) (conclude_of_stopped hstopped patience)
  | false =>
    have hfull := @conclude_eq globs c config s.uncancelled hstopped none
    rw [if_pos (show (s.uncancelled.remaining none).Lasts _ from trivial)] at hfull
    by_cases hlasts : (s.remaining patience).Lasts (Duplicate.looks s.queue)
    · refine .all ?_ _ ((conclude_eq hstopped patience).trans (if_pos hlasts)) hfull
      rw [Pass.Notices, hstopped]
      exact fun h => h.elim Bool.false_ne_true (· hlasts)
    · exact .nothing (.inr hlasts) ((conclude_eq hstopped patience).trans (if_neg hlasts))

theorem Passes.stopped_iff (h : c.Passes globs config framework events s) :
    s.stopped = true ↔ Pass.LooksLate events := by
  have hstart : (Pass.start c.files).stopped = false := by
    simp [Pass.stopped, Pass.start, Task.isStopped]
  rw [h.course.stopped_iff, hstart]
  simp [Pass.start]

theorem Passes.uncancelled (h : c.Passes globs config framework events s)
    (hstopped : s.stopped = false) :
    c.Passes globs config framework (events.filter (· != .cancel)) s.uncancelled :=
  ⟨h.resolved, h.course.uncancelled hstopped, h.isOver⟩

variable (globs c config) in
/-- An analysis that goes through the files in their order looks so often, and ends so. -/
theorem exists_takes_analyze : ∃ looks results, (c.analyze globs config).Takes looks results := by
  cases hframework : Framework.ofCompilation? c with
  | none =>
    rw [analyze_eq_of_none hframework]
    exact ⟨_, _, Run.takes_pure _⟩
  | some framework =>
    rw [analyze_eq hframework, map_eq_pure_bind]
    exact ⟨_, _, (foundPairs_takes c framework).map _⟩

variable (globs config) in
/-- The analysis that goes through the files in their order is what some pass concludes, with
the flag set when the patience ends. -/
theorem exists_passes (hframework : Framework.ofCompilation? c = some framework)
    (patience : Patience) :
    ∃ events s patience', c.Passes globs config framework events s ∧
      c.conclude globs config s patience' = Run.result patience (c.analyze globs config) := by
  let queue := c.comparedMethods framework
  have hanalyze : Run.result patience (c.analyze globs config) =
      if patience.Lasts (c.files.length + Duplicate.looks queue) then
        .ok (c.files.map (c.outcome globs framework config (Duplicate.allPairs c queue)))
      else
        .error .cancelled := by
    rw [analyze_eq hframework, map_eq_pure_bind]
    exact ((foundPairs_takes c framework).map _).result_eq patience
  by_cases hfiles : patience.Lasts c.files.length
  · -- all files are gone through, and what is left of the patience is for the pairs
    obtain ⟨events, hcourse⟩ :=
      Pass.course_files (c.found globs framework config) [] [] c.files []
    rw [List.nil_append, List.nil_append, List.append_nil, List.append_nil] at hcourse
    refine ⟨events, _, patience.map (· - c.files.length), ⟨hframework, hcourse, ?_⟩, ?_⟩
    · simp [Pass.isOver, Pass.worked, Task.isOver]
    · rw [conclude_eq (by simp [Pass.stopped, Pass.worked, Task.isStopped]), hanalyze,
        if_congr (Patience.lasts_add_iff.trans (and_iff_right hfiles)) rfl rfl]
      simp only [List.filterMap_map, Pass.worked, Function.comp_def, Task.found?, Option.map_some,
        List.filterMap_eq_map']
      rfl
  · -- the flag is set when the patience ends, and the next file is not gone through
    obtain ⟨left, rfl⟩ : ∃ left, patience = some left :=
      Option.ne_none_iff_exists'.1 fun hnone => hfiles (hnone ▸ trivial)
    have hleft : left < c.files.length := Nat.lt_of_not_le hfiles
    obtain ⟨events, s, hcourse, hstopped, hover⟩ :=
      Pass.course_stop (c.found globs framework config) hleft
    refine ⟨events, s, none, ⟨hframework, hcourse, hover⟩, ?_⟩
    rw [conclude_of_stopped hstopped, hanalyze,
      if_neg fun hlasts => hfiles (Patience.lasts_add_iff.1 hlasts).1]

/-- An analysis is all or nothing. Finding the pairs of candidates, going through the files in
their order and going through them in parallel, in any order of the steps and with the flag
set at any time, all give what they give without cancellation, or else an error, the latter
exactly if some look notices the cancellation. To go through the files in their order is one of
the ways of going through them in parallel. -/
theorem cancellation_allOrNothing (globs : Globs) (c : Compilation) (config : Config) :
    (∀ candidates patience, AllOrNothing (¬patience.Lasts (Duplicate.looks candidates))
      (Run.result patience (Duplicate.pairs c candidates))
      (Run.result none (Duplicate.pairs c candidates))) ∧
    (∃ looks, ∀ patience, AllOrNothing (¬patience.Lasts looks)
      (Run.result patience (c.analyze globs config)) (Run.result none (c.analyze globs config))) ∧
    (∀ framework, Framework.ofCompilation? c = some framework → ∀ patience,
      ∃ events s patience', c.Passes globs config framework events s ∧
        c.conclude globs config s patience' = Run.result patience (c.analyze globs config)) ∧
    ∀ framework events s, c.Passes globs config framework events s →
      (s.stopped = true ↔ Pass.LooksLate events) ∧
      (s.stopped = false →
        c.Passes globs config framework (events.filter (· != .cancel)) s.uncancelled) ∧
      ∀ patience, AllOrNothing (s.Notices patience) (c.conclude globs config s patience)
        (c.conclude globs config s.uncancelled none) := by
  refine ⟨fun candidates => (Duplicate.pairs_takes c candidates).allOrNothing, ?_,
    fun framework => exists_passes globs config, ?_⟩
  · obtain ⟨looks, results, htakes⟩ := exists_takes_analyze globs c config
    exact ⟨looks, htakes.allOrNothing⟩
  · exact fun framework events s h => ⟨h.stopped_iff, h.uncancelled, conclude_allOrNothing s⟩

/-- A test class with one test method. -/
def testTree : Tree :=
  .node ⟨"compilation_unit", none, true, false, 0, 42⟩
    [.node ⟨"class_declaration", none, true, false, 0, 42⟩
      [.node ⟨"attribute_list", none, true, false, 0, 11⟩
        [.node ⟨"attribute", none, true, false, 1, 10⟩
          [.node ⟨"identifier", some "name", true, false, 1, 10⟩ []]],
       .node ⟨"identifier", some "name", true, false, 17, 18⟩ [],
       .node ⟨"declaration_list", some "body", true, false, 18, 42⟩
        [.node ⟨"method_declaration", none, true, false, 19, 41⟩
          [.node ⟨"attribute_list", none, true, false, 19, 31⟩
            [.node ⟨"attribute", none, true, false, 20, 30⟩
              [.node ⟨"identifier", some "name", true, false, 20, 30⟩ []]],
           .node ⟨"predefined_type", some "returns", true, false, 31, 35⟩ [],
           .node ⟨"identifier", some "name", true, false, 36, 37⟩ [],
           .node ⟨"parameter_list", some "parameters", true, false, 37, 39⟩ [],
           .node ⟨"block", some "body", true, false, 39, 41⟩ []]]]]

/-- The test class as the only file of a project that refers to the framework. -/
def testClass : Compilation :=
  let source := "[TestClass]class T\x7b[TestMethod]void M()\x7b\x7d\x7d"
  ofSources (fun _ => testTree) [(⟨"T.cs"⟩, source)] ⟨[], some true, true⟩

/-- The flag is set when the file has been looked at, and the test method is then pushed. The
look for the pairs notices it; without its setting, the same steps lead to results. -/
theorem cancellation_allOrNothing_pushed_late :
    ∃ s, testClass.Passes Glob.matcher? .empty ⟨true⟩ [.look 0, .cancel, .push 0] s ∧
      s.stopped = false ∧
      testClass.conclude Glob.matcher? .empty s none = .error .cancelled ∧
      testClass.Passes Glob.matcher? .empty ⟨true⟩ [.look 0, .push 0] s.uncancelled ∧
      ∃ results, testClass.conclude Glob.matcher? .empty s.uncancelled none = .ok results := by
  let file : SourceFile := testClass.files.headD default
  let own := testClass.found Glob.matcher? ⟨true⟩ .empty file
  have hframework : Framework.ofCompilation? testClass = some ⟨true⟩ := by decide +kernel
  obtain ⟨hlength, hlooks⟩ : own.candidates.length = 1 ∧ Duplicate.looks own.candidates = 1 := by
    decide +kernel
  obtain ⟨m, hm⟩ := List.length_eq_one_iff.1 hlength
  let s : Pass := ⟨[(file, .pushing own [])], [m], true⟩
  have hcheck : Pass.Step (testClass.found Glob.matcher? ⟨true⟩ .empty)
      (.start testClass.files) (.look 0) ⟨[(file, .pushing own [m])], [], false⟩ :=
    hm ▸ Pass.Step.check [] [] file []
  have hpush : Pass.Step (testClass.found Glob.matcher? ⟨true⟩ .empty)
      ⟨[(file, .pushing own [m])], [], true⟩ (.push 0) s := .push [] [] file own m [] [] true
  have hpasses : testClass.Passes Glob.matcher? .empty ⟨true⟩ [.look 0, .cancel, .push 0] s :=
    ⟨hframework, .cons hcheck (.cons (.cancel _) (.cons hpush (.nil s))), rfl⟩
  obtain ⟨-, huncancelled, hconclude⟩ :=
    (cancellation_allOrNothing Glob.matcher? testClass .empty).2.2.2 ⟨true⟩ _ s hpasses
  have hnotices : s.Notices none := by
    rw [Pass.Notices, show s.queue = own.candidates from hm.symm, hlooks]
    exact .inr (Nat.not_succ_le_zero 0)
  have hquiet : ¬s.uncancelled.Notices none := fun h => h.elim Bool.false_ne_true (· trivial)
  obtain ⟨-, hr⟩ | ⟨h, -⟩ := hconclude none
  case all => exact absurd hnotices h
  obtain ⟨h, -⟩ | ⟨-, results, hresults, -⟩ :=
    ((cancellation_allOrNothing Glob.matcher? testClass .empty).2.2.2 ⟨true⟩ _ _
      (huncancelled rfl)).2.2 none
  case nothing => exact absurd h hquiet
  exact ⟨s, hpasses, rfl, hr, huncancelled rfl, results, hresults⟩

end Compilation
end TestLint
