import TestLint.Analysis.OfCompilation
import TestLint.Proofs.Analysis.Run
import TestLint.Proofs.Duplicate.Pairs
import TestLint.Proofs.StableOrder

/-!
# Rules do not interfere

* What is found in a compilation does not depend on the configuration
  (`Compilation.analyze_eq`): it only says which of it is reported, and how gravely.
* Sorting the diagnostics of a file does not mix those of different rules up, so the
  diagnostics of a set of rules are what they are without the others.
* So two configurations give results that differ, file by file, in the rules on
  which they differ for the file (`Compilation.analyze_noninterfering`).
-/

namespace TestLint

/-! ## The order of diagnostics -/

namespace Diagnostic

theorem notAfter_iff {a b : Diagnostic} : a.notAfter b = true ↔
    a.location.line < b.location.line ∨ (a.location.line = b.location.line ∧
      (a.location.column < b.location.column ∨
        (a.location.column = b.location.column ∧ a.rule.id ≤ b.rule.id))) := by
  simp only [notAfter, Bool.or_eq_true, Bool.and_eq_true, decide_eq_true_eq, beq_iff_eq]

theorem notAfter_trans (a b c : Diagnostic) (hab : a.notAfter b = true)
    (hbc : b.notAfter c = true) : a.notAfter c = true := by
  have hid : a.rule.id ≤ b.rule.id → b.rule.id ≤ c.rule.id → a.rule.id ≤ c.rule.id :=
    String.le_trans
  rw [notAfter_iff] at *
  grind

theorem notAfter_total (a b : Diagnostic) : (a.notAfter b || b.notAfter a) = true := by
  have hid : a.rule.id ≤ b.rule.id ∨ b.rule.id ≤ a.rule.id := String.le_total _ _
  rw [Bool.or_eq_true, notAfter_iff, notAfter_iff]
  grind

end Diagnostic

/-! ## One file -/

/-- The two configurations say the same about the rules of this set for a path. -/
def AgreeOn (globs : Globs) (config config' : Config) (path : Path) (rules : Rule → Bool) : Prop :=
  ∀ rule, rules rule = true →
    config.severityFor? globs path rule = config'.severityFor? globs path rule

/-- The rule is off for a path under the second configuration, and there the two
say the same about all others. -/
structure SwitchesOff (globs : Globs) (config config' : Config) (path : Path) (rule : Rule) :
    Prop where
  off : config'.severityFor? globs path rule = none
  others : AgreeOn globs config config' path (· != rule)

/-- The results of a file under two configurations. -/
structure Noninterfering (globs : Globs) (config config' : Config) (file : SourceFile)
    (r r' : AnalysisResult) : Prop where
  filePath_eq : r.filePath = file.path ∧ r'.filePath = file.path
  stats_eq : r.stats = r'.stats
  /-- Rules for which the configurations agree have the same diagnostics in the same order. -/
  filter_eq : ∀ rules, AgreeOn globs config config' file.path rules →
    r.diagnostics.filter (rules ·.rule) = r'.diagnostics.filter (rules ·.rule)
  /-- Without a rule, its diagnostics are missing and nothing else changes. -/
  switchedOff : ∀ rule, SwitchesOff globs config config' file.path rule →
    r'.diagnostics = r.diagnostics.filter (·.rule != rule)

namespace SourceFile

variable {globs : Globs} {file : SourceFile} {config config' : Config} {rule : Rule}
  {rules : Rule → Bool} {findings : List Finding} {d : Diagnostic}

/-- What is reported has the severity that the configuration gives its rule. -/
theorem of_mem_reported (h : d ∈ file.reported globs config rule findings) :
    d.rule = rule ∧ config.severityFor? globs file.path rule = some d.severity := by
  rw [reported] at h
  cases hseverity : config.severityFor? globs file.path rule with
  | none =>
    rw [hseverity] at h
    cases h
  | some severity =>
    rw [hseverity, List.mem_map] at h
    obtain ⟨f, -, rfl⟩ := h
    exact ⟨rfl, rfl⟩

theorem reported_congr
    (h : config.severityFor? globs file.path rule = config'.severityFor? globs file.path rule) :
    file.reported globs config rule findings = file.reported globs config' rule findings := by
  rw [reported, h, reported]

theorem filter_reported_eq (h : AgreeOn globs config config' file.path rules) :
    (file.reported globs config rule findings).filter (rules ·.rule) =
      (file.reported globs config' rule findings).filter (rules ·.rule) := by
  by_cases hrule : rules rule = true
  · rw [reported_congr (h rule hrule)]
  · have hnone (c : Config) : (file.reported globs c rule findings).filter (rules ·.rule) = [] := by
      rw [List.filter_eq_nil_iff]
      intro d hd
      rwa [(of_mem_reported hd).1]
    rw [hnone, hnone]

end SourceFile

namespace CheckedFile

variable {globs : Globs} (ctx : CheckedFile) {config config' : Config} {rules : Rule → Bool}

theorem severity_of_mem_diagnostics {d : Diagnostic} (h : d ∈ ctx.diagnostics globs config) :
    config.severityFor? globs ctx.file.path d.rule = some d.severity := by
  obtain ⟨rule, -, hd⟩ := List.mem_flatMap.1 h
  obtain ⟨rfl, hseverity⟩ := SourceFile.of_mem_reported hd
  exact hseverity

theorem filter_diagnostics_eq (h : AgreeOn globs config config' ctx.file.path rules) :
    (ctx.diagnostics globs config).filter (rules ·.rule) =
      (ctx.diagnostics globs config').filter (rules ·.rule) := by
  simp only [diagnostics, List.filter_flatMap, SourceFile.filter_reported_eq h]

end CheckedFile

namespace Compilation

variable (globs : Globs) (c : Compilation) (framework : Framework) (config config' : Config)

/-- What is found in a file and reported under the configuration, but for duplicates. -/
def found (file : SourceFile) : FileFindings :=
  let ctx : CheckedFile := ⟨c, framework, file⟩
  ⟨ctx.diagnostics globs config, ctx.stats, ctx.candidates⟩

/-- What the file results in when these are the pairs of duplicates. -/
def outcome (pairs : List Duplicate.Pair) (file : SourceFile) : AnalysisResult :=
  fileResult globs config file (c.found globs framework config file) pairs

variable {globs c framework config config'} {file : SourceFile} {pairs : List Duplicate.Pair}
  {rules : Rule → Bool}

theorem severity_of_mem_outcome {d : Diagnostic}
    (h : d ∈ (c.outcome globs framework config pairs file).diagnostics) :
    config.severityFor? globs file.path d.rule = some d.severity := by
  rw [outcome, fileResult, List.mem_mergeSort, List.mem_append] at h
  rcases h with h | h
  · exact CheckedFile.severity_of_mem_diagnostics ⟨c, framework, file⟩ h
  · obtain ⟨hrule, hseverity⟩ := SourceFile.of_mem_reported h
    rw [hrule, hseverity]

theorem filter_outcome_eq (h : AgreeOn globs config config' file.path rules) :
    (c.outcome globs framework config pairs file).diagnostics.filter (rules ·.rule) =
      (c.outcome globs framework config' pairs file).diagnostics.filter (rules ·.rule) := by
  have hown := CheckedFile.filter_diagnostics_eq ⟨c, framework, file⟩ h
  simp only [outcome, fileResult, found, filter_mergeSort Diagnostic.notAfter_trans
    Diagnostic.notAfter_total, List.filter_append, SourceFile.filter_reported_eq h, hown]

theorem noninterfering_outcome : Noninterfering globs config config' file
    (c.outcome globs framework config pairs file)
    (c.outcome globs framework config' pairs file) := by
  refine ⟨⟨rfl, rfl⟩, rfl, fun rules h => filter_outcome_eq h, fun rule h => ?_⟩
  rw [filter_outcome_eq h.others, eq_comm, List.filter_eq_self]
  intro d hd
  have hseverity := severity_of_mem_outcome hd
  rw [bne_iff_ne]
  rintro rfl
  rw [h.off] at hseverity
  cases hseverity

/-! ## The whole analysis -/

variable (c framework) in
/-- The pairs of duplicates, after a look for each file. -/
def foundPairs : Run (List Duplicate.Pair) := do
  let _ ← c.files.mapM fun _ => Run.look
  Duplicate.pairs c (c.files.flatMap fun file => CheckedFile.candidates ⟨c, framework, file⟩)

theorem mapM_checkFile : c.files.mapM (c.checkFile globs config framework) =
    (c.files.mapM fun _ => Run.look) >>= fun _ =>
      pure (c.files.map (c.found globs framework config)) :=
  Run.mapM_look (c.found globs framework config) c.files

/-- What is looked for and found does not depend on the configuration. -/
theorem analyze_eq (hframework : Framework.ofCompilation? c = some framework) :
    c.analyze globs config =
      (fun pairs => c.files.map (c.outcome globs framework config pairs)) <$>
        c.foundPairs framework := by
  have hcandidates : (c.files.map (c.found globs framework config)).flatMap (·.candidates) =
      c.files.flatMap fun file => CheckedFile.candidates ⟨c, framework, file⟩ :=
    List.flatMap_map _ _ _
  have hzip : c.files.zip (c.files.map (c.found globs framework config)) =
      c.files.map fun file => (file, c.found globs framework config file) := by
    have h := List.zip_map' (f := id) (g := c.found globs framework config) (l := c.files)
    rwa [List.map_id] at h
  simp only [analyze, hframework, mapM_checkFile, foundPairs, bind_assoc, pure_bind, hcandidates,
    hzip, List.map_map, map_eq_pure_bind]
  rfl

variable (c framework) in
theorem foundPairs_takes :
    let candidates := c.files.flatMap fun file => CheckedFile.candidates ⟨c, framework, file⟩
    (c.foundPairs framework).Takes (c.files.length + Duplicate.looks candidates)
      (Duplicate.allPairs c candidates) := by
  intro candidates
  have hlooks := Run.Takes.mapM (fun _ => Run.takes_look) c.files
  rw [List.map_const', List.sum_replicate_nat, Nat.mul_one] at hlooks
  exact hlooks.bind (Duplicate.pairs_takes c candidates)

variable (c framework) in
theorem exists_foundPairs : ∃ pairs, Run.result none (c.foundPairs framework) = .ok pairs :=
  ⟨_, (foundPairs_takes c framework).gives.result⟩

theorem analyze_eq_of_none (hframework : Framework.ofCompilation? c = none) :
    c.analyze globs config = pure (c.files.map fun file => ⟨file.path, [], ⟨0, 0, 0, 0⟩⟩) := by
  rw [analyze, hframework]

/-- An analysis that is not cancelled gives results. Under two configurations it is
cancelled alike or gives results for the same files, in which the rules do not
interfere. -/
theorem analyze_noninterfering (globs : Globs) (c : Compilation) (config config' : Config) :
    (∃ results, Run.result none (c.analyze globs config) = .ok results) ∧
    ∀ patience,
      (∃ e, Run.result patience (c.analyze globs config) = .error e ∧
        Run.result patience (c.analyze globs config') = .error e) ∨
      ∃ outcome outcome' : SourceFile → AnalysisResult,
        Run.result patience (c.analyze globs config) = .ok (c.files.map outcome) ∧
        Run.result patience (c.analyze globs config') = .ok (c.files.map outcome') ∧
        ∀ file, Noninterfering globs config config' file (outcome file) (outcome' file) := by
  cases hframework : Framework.ofCompilation? c with
  | none =>
    simp only [analyze_eq_of_none hframework]
    refine ⟨⟨_, rfl⟩, fun patience => .inr ⟨_, _, rfl, rfl, fun file => ?_⟩⟩
    exact ⟨⟨rfl, rfl⟩, rfl, fun _ _ => rfl, fun _ _ => rfl⟩
  | some framework =>
    simp only [analyze_eq hframework, Run.result_map]
    refine ⟨?_, fun patience => ?_⟩
    · obtain ⟨pairs, hpairs⟩ := exists_foundPairs c framework
      exact ⟨_, by rw [hpairs]; rfl⟩
    · cases hpairs : Run.result patience (c.foundPairs framework) with
      | error e => exact .inl ⟨e, rfl, rfl⟩
      | ok pairs => exact .inr ⟨_, _, rfl, rfl, fun file => noninterfering_outcome⟩

end Compilation

end TestLint
