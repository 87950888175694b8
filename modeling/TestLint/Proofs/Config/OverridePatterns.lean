import TestLint.Proofs.Config.Precedence
import TestLint.Proofs.Text.Cutting

/-!
# The files that an override is for

An override is for the files that one of its patterns matches as a glob (`Override.Matches`).
Beside that it takes in every file whose path has the text of a pattern in it, wherever it
stands (`Override.Strays`): so the pattern `A.cs` takes in `DataA.cs`, which it does not match.

An override that is for a file is laid over what the configuration says before it, and any
other changes nothing (`Config.settingFor?_override`).  This is so however patterns are read.
-/

namespace TestLint

/-! ## Patterns -/

namespace Override

/-- The text is read as a pattern. -/
def IsPattern (globs : Globs) (pattern : String) : Prop :=
  ∃ isMatch, globs pattern = some isMatch

/-- One of the patterns matches the path as a glob. -/
def Matches (globs : Globs) (o : Override) (p : Path) : Prop :=
  ∃ pattern ∈ o.files, ∃ isMatch, globs pattern = some isMatch ∧ isMatch p = true

/-- The text of a pattern, less all `**/` that it begins with, occurs in the path. -/
def TextOccurs (pattern : String) (p : Path) : Prop :=
  ∃ n text, pattern.toList = (List.replicate n "**/".toList).flatten ++ text ∧
    ¬"**/".toList <+: text ∧ text <:+: p.text.toList

/-- No pattern matches the path, but the text of one that is a glob occurs in it. -/
def Strays (globs : Globs) (o : Override) (p : Path) : Prop :=
  ¬o.Matches globs p ∧ ∃ pattern ∈ o.files, IsPattern globs pattern ∧ TextOccurs pattern p

variable {globs : Globs} {o : Override} {p : Path} {pattern : String}

theorem textOccurs_iff : TextOccurs pattern p ↔
    Text.occursIn (Text.dropStarts "**/".toList pattern.toList) p.text.toList = true := by
  have hstart : "**/".toList ≠ [] := by decide
  rw [Text.occursIn_iff]
  constructor
  · rintro ⟨n, text, hpattern, hnot, hinfix⟩
    rwa [hpattern, Text.dropStarts_replicate hstart n hnot]
  · intro hinfix
    obtain ⟨n, hpattern, hnot⟩ := Text.exists_dropStarts hstart pattern.toList
    exact ⟨n, _, hpattern, hnot, hinfix⟩

theorem patternApplies_iff : patternApplies globs p pattern = true ↔
    (∃ isMatch, globs pattern = some isMatch ∧ isMatch p = true) ∨
      IsPattern globs pattern ∧ TextOccurs pattern p := by
  rw [patternApplies, textOccurs_iff]
  cases hread : globs pattern with
  | none => simp [IsPattern, hread]
  | some isMatch => simp [IsPattern, hread]

theorem appliesTo_iff : o.appliesTo globs p = true ↔ o.Matches globs p ∨ o.Strays globs p := by
  simp only [appliesTo, List.any_eq_true, patternApplies_iff, and_or_left, exists_or]
  by_cases hmatches : o.Matches globs p
  · exact iff_of_true (.inl hmatches) (.inl hmatches)
  · exact or_congr_right (and_iff_right hmatches).symm

end Override

namespace Config

open Override (override)

/-- However patterns are read, an override is laid over what the configuration says before it
where one of its patterns matches the path as a glob, and where the text of a pattern only
occurs in the path.  Anywhere else, it might as well not be there. -/
theorem settingFor?_override (globs : Globs) (c : Config) (before : List Override) (o : Override)
    (after : List Override) (p : Path) (rule : Rule) :
    let setting (overrides : List Override) : Option Setting :=
      { c with overrides }.settingFor? globs p rule
    (o.Matches globs p → setting (before ++ o :: after) =
      override globs after p rule (o.rules.lookup? rule <|> setting before)) ∧
    (o.Strays globs p → setting (before ++ o :: after) =
      override globs after p rule (o.rules.lookup? rule <|> setting before)) ∧
    (¬o.Matches globs p → ¬o.Strays globs p →
      setting (before ++ o :: after) = setting (before ++ after)) := by
  intro setting
  have hsetting (overrides : List Override) :
      setting overrides = override globs overrides p rule (c.setting? rule) := rfl
  have hlaid (happlies : o.appliesTo globs p = true) : setting (before ++ o :: after) =
      override globs after p rule (o.rules.lookup? rule <|> setting before) := by
    rw [hsetting, hsetting, Override.override_append, Override.override_cons_of_applies happlies]
  refine ⟨fun hmatches => hlaid (Override.appliesTo_iff.2 (.inl hmatches)),
    fun hstrays => hlaid (Override.appliesTo_iff.2 (.inr hstrays)), fun hmatches hstrays => ?_⟩
  have hnot : ¬o.appliesTo globs p = true := by
    rw [Override.appliesTo_iff]
    exact fun h => h.elim hmatches hstrays
  rw [hsetting, hsetting, Override.override_append, Override.override_cons_of_not_applies hnot,
    ← Override.override_append]

/-- The rules of a directory are switched off below it, and not beside it. -/
theorem settingFor?_override_legacy :
    let o : Override := ⟨["**/Legacy/**"], [("MSTEST0064", .off)]⟩
    let c : Config := ⟨none, [("MSTEST0064", .on .error)], [], [o]⟩
    c.settingFor? Glob.matcher? ⟨"src/Legacy/OldTests.cs"⟩ .avoidDuplicateTestMethods =
        some .off ∧
      c.settingFor? Glob.matcher? ⟨"src/Tests/CalcTests.cs"⟩ .avoidDuplicateTestMethods =
        some (.on .error) := by
  intro o c
  have hfiles {pattern : String} (h : pattern ∈ o.files) : pattern = "**/Legacy/**" :=
    List.mem_singleton.1 h
  constructor
  · have hmatches : o.Matches Glob.matcher? ⟨"src/Legacy/OldTests.cs"⟩ :=
      ⟨"**/Legacy/**", List.mem_singleton.2 rfl, _, rfl, by decide +kernel⟩
    have hlaid := (settingFor?_override Glob.matcher? c [] o [] _
      .avoidDuplicateTestMethods).1 hmatches
    exact hlaid.trans (by decide +kernel)
  · have hmatches : ¬o.Matches Glob.matcher? ⟨"src/Tests/CalcTests.cs"⟩ := by
      rintro ⟨pattern, hpattern, isMatch, hread, hmatch⟩
      obtain rfl := hfiles hpattern
      obtain rfl := Option.some.inj hread
      exact absurd hmatch (by decide +kernel)
    have hstrays : ¬o.Strays Glob.matcher? ⟨"src/Tests/CalcTests.cs"⟩ := by
      rintro ⟨-, pattern, hpattern, -, hoccurs⟩
      obtain rfl := hfiles hpattern
      exact absurd (Override.textOccurs_iff.1 hoccurs) (by decide +kernel)
    have hleft := (settingFor?_override Glob.matcher? c [] o [] _
      .avoidDuplicateTestMethods).2.2 hmatches hstrays
    exact hleft.trans (by decide +kernel)

/-- The override for `A.cs` switches a rule off in `DataA.cs`. -/
theorem stray_override_counts :
    let o : Override := ⟨["A.cs"], [("MSTEST0017", .off)]⟩
    let c : Config := ⟨none, [], [], [o]⟩
    ¬o.Matches Glob.matcher? ⟨"DataA.cs"⟩ ∧
      c.severityFor? Glob.matcher? ⟨"DataA.cs"⟩
        .assertionArgsShouldBePassedInCorrectOrder = none ∧
      { c with overrides := [] }.severityFor? Glob.matcher? ⟨"DataA.cs"⟩
        .assertionArgsShouldBePassedInCorrectOrder = some .info := by
  intro o c
  refine ⟨?_, by decide +kernel, by decide +kernel⟩
  rintro ⟨pattern, hpattern, isMatch, hread, hmatch⟩
  obtain rfl := List.mem_singleton.1 hpattern
  obtain rfl := Option.some.inj hread
  exact absurd hmatch (by decide +kernel)

end Config

end TestLint
