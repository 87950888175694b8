import TestLint.Proofs.Config.Precedence

/-!
# When the order of a table matters

A table of rules is held in no order that means anything, but the first of its entries for a
rule is the one that is read.  So what is set for a rule in a file is the same in all orders
of the tables exactly if all entries that count say the same (`Config.settingFor?_alike_iff`);
two keys of one table that spell one rule in two ways and set it apart leave it to chance
(`Config.setting_hangs_on_order`).
-/

namespace TestLint.Config

variable {globs : Globs} {c c' c'' : Config} {p : Path} {rule : Rule}

theorem Counts.settingFor?_ne_none {setting : Setting} (h : c.Counts globs p rule setting) :
    c.settingFor? globs p rule ≠ none := by
  intro hnone
  obtain ⟨hnames, homits⟩ := settingFor?_eq_none_iff.1 hnone
  cases h with
  | override hdecides => exact hdecides.not_noneNames hnames
  | table _ hsets => exact hsets.not_omits homits

/-- Where the entries that count agree, the order of the tables does not matter. -/
theorem settingFor?_congr
    (hagree : ∀ setting setting', c.Counts globs p rule setting → c.Counts globs p rule setting' →
      setting = setting')
    (h : c.Reordered c') (h' : c.Reordered c'') :
    c'.settingFor? globs p rule = c''.settingFor? globs p rule := by
  cases hsetting : c'.settingFor? globs p rule with
  | none =>
    have hnone := h.settingFor?_eq_none hsetting
    cases hsetting' : c''.settingFor? globs p rule with
    | none => rfl
    | some setting =>
      have hcounts := h'.counts (counts_of_settingFor? hsetting')
      exact absurd hnone hcounts.settingFor?_ne_none
  | some setting =>
    have hcounts := h.counts (counts_of_settingFor? hsetting)
    cases hsetting' : c''.settingFor? globs p rule with
    | none => exact absurd (h'.settingFor?_eq_none hsetting') hcounts.settingFor?_ne_none
    | some setting' =>
      have hcounts' := h'.counts (counts_of_settingFor? hsetting')
      rw [hagree setting setting' hcounts hcounts']

/-- The same is set for a rule in a file, and the rule has the same severity there, however
the tables of a configuration are ordered, exactly if no two entries that count disagree. -/
theorem settingFor?_alike_iff (globs : Globs) (c : Config) (p : Path) (rule : Rule) :
    (∀ c' c'', c.Reordered c' → c.Reordered c'' →
      c'.settingFor? globs p rule = c''.settingFor? globs p rule ∧
        c'.severityFor? globs p rule = c''.severityFor? globs p rule) ↔
    ∀ setting setting', c.Counts globs p rule setting → c.Counts globs p rule setting' →
      setting = setting' := by
  constructor
  · intro halike setting setting' hcounts hcounts'
    obtain ⟨c', hreordered, hsetting⟩ := hcounts.exists_reordered
    obtain ⟨c'', hreordered', hsetting'⟩ := hcounts'.exists_reordered
    have hsame := (halike c' c'' hreordered hreordered').1
    rw [hsetting, hsetting'] at hsame
    exact Option.some.inj hsame
  · intro hagree c' c'' h h'
    have hsetting := settingFor?_congr hagree h h'
    exact ⟨hsetting, by rw [severityFor?, severityFor?, hsetting]⟩

/-- One rule under two spellings, with two settings: the first entry is the one that is read. -/
theorem setting_hangs_on_order :
    let c : Config := ⟨none, [("MSTEST0017", .off), ("mstest0017", .on .error)], [], []⟩
    let c' : Config := ⟨none, [("mstest0017", .on .error), ("MSTEST0017", .off)], [], []⟩
    c.Reordered c' ∧
      c.severityFor? Glob.matcher? ⟨"A.cs"⟩ .assertionArgsShouldBePassedInCorrectOrder = none ∧
      c'.severityFor? Glob.matcher? ⟨"A.cs"⟩ .assertionArgsShouldBePassedInCorrectOrder =
        some .error := by
  intro c c'
  exact ⟨⟨rfl, .swap _ _ [], rfl, .nil⟩, by decide +kernel, by decide +kernel⟩

end TestLint.Config
