import Mathlib.Data.Prod.Lex
import Mathlib.Data.String.Basic
import TestLint.Proofs.Analysis.Noninterference
import TestLint.Proofs.Check.FixesApply
import TestLint.Proofs.Compilation.Numbering

/-!
# What results hold

A diagnostic comes to the result of its file from the check of a rule in the file, or
from a pair of duplicates, once all files have been gone through.  On both ways it is
dropped if the file silences it, and gets the configured severity
(`Compilation.analyze_results`).
-/

namespace TestLint

/-! ## Fixes -/

namespace Rule

variable {rule : Rule} {ctx : CheckedFile}

open Check in
/-- The check of a rule that is not fixable proposes nothing. -/
theorem check_unfixed (h : rule.isFixable = false) :
    AllFixes (fun _ => False) (rule.check ctx) := by
  cases rule with
  | testClassShouldBeValid => exact testClassShouldBeValid_allFixes
  | testContextShouldBeValid => exact testContextShouldBeValid_allFixes
  | avoidExpectedExceptionAttribute => exact avoidExpectedExceptionAttribute_allFixes
  | useAttributeOnTestMethod => exact useAttributeOnTestMethod_allFixes
  | dataRowShouldBeValid => exact dataRowShouldBeValid_allFixes
  | testMethodShouldNotBeIgnored => exact testMethodShouldNotBeIgnored_allFixes
  | testClassShouldHaveTestMethod => exact testClassShouldHaveTestMethod_allFixes
  | dynamicDataShouldBeValid => exact dynamicDataShouldBeValid_allFixes
  | assertionArgsShouldAvoidConditionalAccess =>
    exact assertionArgsShouldAvoidConditionalAccess_allFixes
  | publicMethodShouldBeTestMethod => exact publicMethodShouldBeTestMethod_allFixes
  | typeContainingTestMethodShouldBeATestClass =>
    exact typeContainingTestMethodShouldBeATestClass_allFixes
  | reviewAlwaysTrueAssertCondition => exact reviewAlwaysTrueAssertCondition_allFixes
  | avoidUsingAssertsInAsyncVoidContext => exact avoidUsingAssertsInAsyncVoidContext_allFixes
  | duplicateDataRow => exact duplicateDataRow_allFixes
  | avoidDuplicateTestMethods => exact AllFixes.nil
  | _ => cases h

theorem isFixable_of_mem_check {finding : Finding} (h : finding ∈ rule.check ctx)
    (hfix : finding.fix ≠ none) : rule.isFixable = true := by
  cases hfixable : rule.isFixable with
  | true => rfl
  | false =>
    obtain ⟨fix, hfix⟩ := Option.ne_none_iff_exists'.1 hfix
    exact (check_unfixed hfixable finding h fix hfix).elim

end Rule

/-! ## Order -/

/-- What diagnostics are ordered by: line, column and rule id. -/
def Diagnostic.rank (d : Diagnostic) : ℕ ×ₗ ℕ ×ₗ String :=
  toLex (d.location.line, toLex (d.location.column, d.rule.id))

theorem Diagnostic.notAfter_iff_rank {a b : Diagnostic} :
    a.notAfter b = true ↔ a.rank ≤ b.rank := by
  rw [notAfter_iff, rank, rank, Prod.Lex.toLex_le_toLex, Prod.Lex.toLex_le_toLex]

/-! ## Pairs of duplicates -/

/-- How a pair is reported in a file, unless its rule is off or silenced there. -/
def Duplicate.Pair.shown? (globs : Globs) (config : Config) (file : SourceFile)
    (p : Duplicate.Pair) : Option Diagnostic :=
  if file.directives.silences p.second.nameLocation.line .avoidDuplicateTestMethods then
    none
  else
    (config.severityFor? globs file.path .avoidDuplicateTestMethods).map
      (p.finding.report .avoidDuplicateTestMethods)

namespace Duplicate

variable {globs : Globs} {c : Compilation} {candidates : List Candidate} {config : Config}
  {file : SourceFile}

theorem sublist_of_mem_pairsAmong {ms : List (Candidate × String)} {p : Pair}
    (hp : p ∈ pairsAmong ms) : [p.first, p.second].Sublist (ms.map (·.1)) := by
  induction ms with
  | nil => cases hp
  | cons first rest ih =>
    rw [pairsAmong, List.mem_append, List.mem_filterMap] at hp
    rw [List.map_cons]
    rcases hp with ⟨second, hsecond, hp⟩ | hp
    · obtain ⟨-, -, rfl⟩ := pair?_eq_some_iff.1 hp
      have hmem : second.1 ∈ rest.map (·.1) := List.mem_map_of_mem hsecond
      exact (List.singleton_sublist.2 hmem).cons_cons _
    · exact (ih hp).cons _

/-- The second method of a pair is a candidate, and the first does not come after it. -/
theorem later_of_mem_pairsAmong {typeName : String} {p : Pair}
    (hp : p ∈ pairsAmong (rankedOfType c candidates typeName)) :
    p.second ∈ candidates ∧ p.first.notAfter p.second = true := by
  have hsub := sublist_of_mem_pairsAmong hp
  have hfst (ms : List Candidate) : (ranked c ms).map (·.1) = ms.mergeSort Candidate.notAfter := by
    simp only [ranked, List.map_map, Function.comp_def, List.map_id']
  rw [hfst] at hsub
  refine ⟨?_, ?_⟩
  · have hmem := hsub.subset (List.mem_cons_of_mem _ List.mem_cons_self)
    exact (List.mem_filter.1 (List.mem_mergeSort.1 hmem)).1
  · have hsorted := Candidate.pairwise_notAfter (candidates.filter (·.containingType == typeName))
    exact List.rel_of_pairwise_cons (hsorted.sublist hsub) List.mem_cons_self

theorem reported_eq (pairs : List Pair) :
    file.reported globs config .avoidDuplicateTestMethods (pairs.map (·.finding)) =
      pairs.filterMap (Pair.shown? globs config file) := by
  rw [SourceFile.reported]
  cases hseverity : config.severityFor? globs file.path .avoidDuplicateTestMethods with
  | none => simp [Pair.shown?, hseverity]
  | some severity =>
    induction pairs with
    | nil => rfl
    | cons p pairs ih =>
      have hline : p.finding.location = p.second.nameLocation := rfl
      by_cases hsilenced :
          file.directives.silences p.second.nameLocation.line .avoidDuplicateTestMethods = true
      · simpa [Pair.shown?, hline, hsilenced, hseverity] using ih
      · simpa [Pair.shown?, hline, hsilenced, hseverity] using ih

end Duplicate

/-! ## One file -/

/-- What the result of a file holds when these are the pairs of duplicates. -/
structure ResultOf (globs : Globs) (config : Config) (pairs : List Duplicate.Pair)
    (file : SourceFile) (r : AnalysisResult) : Prop where
  filePath_eq : r.filePath = file.path
  sorted : r.diagnostics.Pairwise fun a b => a.rank ≤ b.rank
  severity : ∀ d ∈ r.diagnostics, config.severityFor? globs file.path d.rule = some d.severity
  notSilenced : ∀ d ∈ r.diagnostics, file.directives.silences d.location.line d.rule = false
  fixable : ∀ d ∈ r.diagnostics, d.fix ≠ none → d.rule.isFixable = true
  /-- The pairs of the file are in its result, each once, and no others. -/
  duplicates : (r.diagnostics.filter (·.rule == .avoidDuplicateTestMethods)).Perm
    ((pairs.filter (·.file == file.id)).filterMap (Duplicate.Pair.shown? globs config file))

namespace Compilation

variable {globs : Globs} {c : Compilation} {framework : Framework} {config : Config}
  {file : SourceFile} {pairs : List Duplicate.Pair}

/-- A diagnostic is what a rule finds or what a pair of duplicates says, in a line
that the file does not silence. -/
theorem exists_of_mem_outcome {d : Diagnostic}
    (h : d ∈ (c.outcome globs framework config pairs file).diagnostics) :
    file.directives.silences d.location.line d.rule = false ∧
      (d.toFinding ∈ d.rule.check ⟨c, framework, file⟩ ∨
        d.rule = .avoidDuplicateTestMethods ∧ ∃ p ∈ pairs, d.toFinding = p.finding) := by
  have hreported {rule : Rule} {findings : List Finding}
      (hd : d ∈ file.reported globs config rule findings) :
      file.directives.silences d.location.line d.rule = false ∧ d.rule = rule ∧
        d.toFinding ∈ findings := by
    obtain ⟨rfl, hseverity⟩ := SourceFile.of_mem_reported hd
    rw [SourceFile.reported, hseverity, List.mem_map] at hd
    obtain ⟨f, hf, hd⟩ := hd
    rw [← hd]
    rw [List.mem_filter, Bool.not_eq_true'] at hf
    exact ⟨by rw [← hd] at hf; exact hf.2, rfl, hf.1⟩
  rw [outcome, fileResult, List.mem_mergeSort, List.mem_append] at h
  rcases h with h | h
  · obtain ⟨rule, -, hd⟩ := List.mem_flatMap.1 h
    obtain ⟨hline, rfl, hd⟩ := hreported hd
    exact ⟨hline, .inl hd⟩
  · obtain ⟨hline, hrule, hd⟩ := hreported h
    obtain ⟨p, hp, hd⟩ := List.mem_map.1 hd
    exact ⟨hline, .inr ⟨hrule, p, List.mem_of_mem_filter hp, hd.symm⟩⟩

/-- The rules that are checked file by file report no duplicates. -/
theorem filter_diagnostics_duplicates (ctx : CheckedFile) :
    (ctx.diagnostics globs config).filter (·.rule == .avoidDuplicateTestMethods) = [] := by
  rw [List.filter_eq_nil_iff]
  intro d hd hrule
  obtain ⟨rule, -, hd⟩ := List.mem_flatMap.1 hd
  obtain ⟨rfl, hseverity⟩ := SourceFile.of_mem_reported hd
  rw [beq_iff_eq] at hrule
  rw [SourceFile.reported, hseverity, hrule] at hd
  cases hd

theorem duplicates_outcome :
    ((c.outcome globs framework config pairs file).diagnostics.filter
      (·.rule == .avoidDuplicateTestMethods)).Perm
    ((pairs.filter (·.file == file.id)).filterMap (Duplicate.Pair.shown? globs config file)) := by
  have hown : ∀ d ∈ file.reported globs config .avoidDuplicateTestMethods
      ((pairs.filter (·.file == file.id)).map (·.finding)),
      (d.rule == .avoidDuplicateTestMethods) = true := by
    intro d hd
    rw [(SourceFile.of_mem_reported hd).1, beq_self_eq_true]
  rw [← Duplicate.reported_eq, ← List.filter_eq_self.2 hown]
  refine ((List.mergeSort_perm _ _).filter _).trans ?_
  rw [List.filter_append, found, filter_diagnostics_duplicates, List.nil_append]

theorem resultOf_outcome :
    ResultOf globs config pairs file (c.outcome globs framework config pairs file) where
  filePath_eq := rfl
  sorted := by
    have hsorted := List.pairwise_mergeSort Diagnostic.notAfter_trans Diagnostic.notAfter_total
    exact (hsorted _).imp Diagnostic.notAfter_iff_rank.1
  severity d hd := severity_of_mem_outcome hd
  notSilenced d hd := (exists_of_mem_outcome hd).1
  fixable d hd hfix := by
    obtain ⟨-, hd | ⟨-, p, -, hd⟩⟩ := exists_of_mem_outcome hd
    · exact Rule.isFixable_of_mem_check hd hfix
    · -- a pair comes without a fix
      rw [hd] at hfix
      exact absurd rfl hfix
  duplicates := duplicates_outcome

/-! ## All files -/

variable (c framework) in
/-- The test methods of all files, which are compared with each other. -/
def comparedMethods : List Duplicate.Candidate :=
  c.files.flatMap fun file => CheckedFile.candidates ⟨c, framework, file⟩

variable (globs config) in
theorem analyze_gives (hframework : Framework.ofCompilation? c = some framework) :
    ∃ pairs, Run.result none (Duplicate.pairs c (c.comparedMethods framework)) = .ok pairs ∧
      Run.result none (c.analyze globs config) =
        .ok (c.files.map (c.outcome globs framework config pairs)) ∧
      ∀ p ∈ pairs, p.second ∈ c.comparedMethods framework ∧ p.first.notAfter p.second = true := by
  have hpairs := Duplicate.pairs_gives c (c.comparedMethods framework)
  refine ⟨_, hpairs.result, ?_, fun p hp => ?_⟩
  · rw [analyze_eq hframework, Run.result_map, (foundPairs_takes c framework).gives.result]
    rfl
  · obtain ⟨typeName, -, hp⟩ := List.mem_flatMap.1 hp
    exact Duplicate.later_of_mem_pairsAmong hp

/-- A test method that is compared belongs to the one file that has its number. -/
theorem Numbered.file_of_mem (h : c.Numbered) {m : Duplicate.Candidate}
    (hm : m ∈ c.comparedMethods framework) :
    ∃ file, c.files.filter (·.id == m.handle.file) = [file] ∧
      m ∈ CheckedFile.candidates ⟨c, framework, file⟩ := by
  obtain ⟨file, hfile, hm⟩ := List.mem_flatMap.1 hm
  refine ⟨file, ?_, hm⟩
  obtain ⟨t, ht, hm⟩ := List.mem_flatMap.1 hm
  obtain ⟨method, hmethod, rfl⟩ := List.mem_map.1 hm
  have hid : method.handle.file = file.id :=
    h.methodFile file hfile t (List.mem_of_mem_filter ht) method (List.mem_of_mem_filter hmethod)
  rw [Duplicate.Candidate.ofMethod, hid, h.filter_id hfile]

/-- An analysis that is not cancelled gives one result for each file, in the order of
the files, with what the file shows of its own diagnostics and of the pairs of
duplicates whose later method is in it.  Every pair has one such file. -/
theorem analyze_results (globs : Globs) (parse : Parser) (sources : List (Path × String))
    (project : ProjectFacts) (config : Config) (framework : Framework)
    (hframework : Framework.ofCompilation? (ofSources parse sources project) = some framework) :
    let c := ofSources parse sources project
    ∃ pairs results,
      Run.result none (Duplicate.pairs c (c.comparedMethods framework)) = .ok pairs ∧
      Run.result none (c.analyze globs config) = .ok results ∧
      List.Forall₂ (ResultOf globs config pairs) c.files results ∧
      ∀ p ∈ pairs, p.first.notAfter p.second = true ∧
        ∃ file, c.files.filter (·.id == p.file) = [file] ∧
          p.second ∈ CheckedFile.candidates ⟨c, framework, file⟩ := by
  intro c
  obtain ⟨pairs, hpairs, hresults, hlater⟩ := analyze_gives globs config hframework
  refine ⟨pairs, _, hpairs, hresults, ?_, fun p hp => ?_⟩
  · rw [List.forall₂_map_right_iff, List.forall₂_same]
    exact fun file _ => resultOf_outcome
  · obtain ⟨hmem, hfirst⟩ := hlater p hp
    exact ⟨hfirst, (numbered_ofSources parse sources project).file_of_mem hmem⟩

open Check (negatedSource negatedTree) in
/-- The class with a negated condition, in a project that refers to the framework. -/
theorem analyze_results_negated :
    let c := ofSources (fun _ => negatedTree) [(⟨"T.cs"⟩, negatedSource)] ⟨[], some true, true⟩
    Framework.ofCompilation? c = some ⟨true⟩ ∧ ∃ pairs results,
      Run.result none (c.analyze Glob.matcher? .empty) = .ok results ∧
        List.Forall₂ (ResultOf Glob.matcher? .empty pairs) c.files results := by
  intro c
  have hframework : Framework.ofCompilation? c = some ⟨true⟩ := by decide +kernel
  obtain ⟨pairs, results, -, hresults, heach, -⟩ :=
    analyze_results Glob.matcher? (fun _ => negatedTree) [(⟨"T.cs"⟩, negatedSource)]
      ⟨[], some true, true⟩ .empty ⟨true⟩ hframework
  exact ⟨hframework, pairs, results, hresults, heach⟩

end Compilation

end TestLint
