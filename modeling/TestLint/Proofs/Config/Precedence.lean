import Mathlib.Data.List.Forall2
import TestLint.Config.Basic

/-!
# Which setting counts

The severity of a rule in a file, seen from a configuration and the one that it is put on
top of.  The last override that applies to the file and names the rule decides, then the
entries of the two tables, then the default (`Config.Ranked`).

Tables are held in no order that means anything, so what a configuration says is what it
may say in some order of its tables (`Config.MaySay`).  The two tables are merged key by key,
but a rule has many keys: an entry of the lower configuration stays beside one of the upper
configuration for the same rule if it spells the rule in another way, and then either may
count.  This is the only way in which the upper configuration does not have the last word
(`Config.maySay_extending`).
-/

namespace TestLint

/-! ## Tables of rules -/

namespace RuleTable

/-- A key of the table names the rule, in whatever spelling, and sets it to this. -/
def Sets (table : RuleTable) (rule : Rule) (setting : Setting) : Prop :=
  ∃ key, (key, setting) ∈ table ∧ Rule.ofText? key = some rule

/-- No key of the table names the rule. -/
def Omits (table : RuleTable) (rule : Rule) : Prop :=
  ∀ setting, ¬table.Sets rule setting

/-- Put below another table, the table keeps an entry that sets the rule to this, since the
other one does not have the entry's key. -/
def Keeps (table upper : RuleTable) (rule : Rule) (setting : Setting) : Prop :=
  ∃ key, (key, setting) ∈ table ∧ key ∉ upper.map (·.1) ∧ Rule.ofText? key = some rule

variable {table table' : RuleTable} {rule : Rule} {setting : Setting}

theorem Sets.not_omits (h : table.Sets rule setting) : ¬table.Omits rule :=
  fun homits => homits setting h

theorem omits_nil (rule : Rule) : Omits [] rule := by
  rintro setting ⟨key, hmem, -⟩
  cases hmem

theorem sets_iff_of_perm (h : table'.Perm table) :
    table'.Sets rule setting ↔ table.Sets rule setting := by
  simp only [Sets, h.mem_iff]

theorem omits_iff_of_perm (h : table'.Perm table) : table'.Omits rule ↔ table.Omits rule := by
  simp only [Omits, sets_iff_of_perm h]

theorem sets_of_lookup? (h : table.lookup? rule = some setting) : table.Sets rule setting := by
  obtain ⟨⟨key, setting'⟩, hfound, rfl⟩ := Option.map_eq_some_iff.1 h
  have hnamed := List.find?_some hfound
  exact ⟨key, List.mem_of_find?_eq_some hfound, beq_iff_eq.1 hnamed⟩

theorem lookup?_eq_none_iff : table.lookup? rule = none ↔ table.Omits rule := by
  rw [lookup?, Option.map_eq_none_iff, List.find?_eq_none]
  constructor
  · rintro h setting ⟨key, hmem, hnamed⟩
    exact h (key, setting) hmem (beq_iff_eq.2 hnamed)
  · rintro h ⟨key, setting⟩ hmem hnamed
    exact h setting ⟨key, hmem, beq_iff_eq.1 hnamed⟩

/-- Every entry for a rule comes first in some order of the table. -/
theorem Sets.exists_perm (h : table.Sets rule setting) :
    ∃ table' : RuleTable, table'.Perm table ∧ table'.lookup? rule = some setting := by
  obtain ⟨key, hmem, hnamed⟩ := h
  refine ⟨(key, setting) :: table.erase (key, setting), (List.perm_cons_erase hmem).symm, ?_⟩
  simp [lookup?, hnamed]

theorem Keeps.sets {upper : RuleTable} (h : table.Keeps upper rule setting) :
    table.Sets rule setting := by
  obtain ⟨key, hmem, -, hnamed⟩ := h
  exact ⟨key, hmem, hnamed⟩

/-- A table that says nothing about the rule is in the way of no entry for it. -/
theorem Sets.keeps {upper : RuleTable} (h : table.Sets rule setting)
    (homits : upper.Omits rule) : table.Keeps upper rule setting := by
  obtain ⟨key, hmem, hnamed⟩ := h
  refine ⟨key, hmem, ?_, hnamed⟩
  rintro hkey
  obtain ⟨⟨key, other⟩, hupper, rfl⟩ := List.mem_map.1 hkey
  exact homits other ⟨key, hupper, hnamed⟩

end RuleTable

/-! ## Overrides -/

namespace Override

/-- The same override, its table being held in another order. -/
structure Reordered (o o' : Override) : Prop where
  files_eq : o'.files = o.files
  rules_perm : o'.rules.Perm o.rules

/-- None of the overrides for the file names the rule. -/
def NoneNames (globs : Globs) (overrides : List Override) (p : Path) (rule : Rule) : Prop :=
  ∀ o ∈ overrides, o.appliesTo globs p = true → o.rules.Omits rule

/-- The last override for the file that names the rule sets it to this. -/
def Decides (globs : Globs) (overrides : List Override) (p : Path) (rule : Rule)
    (setting : Setting) : Prop :=
  ∃ before o after, overrides = before ++ o :: after ∧ o.appliesTo globs p = true ∧
    o.rules.Sets rule setting ∧ NoneNames globs after p rule

/-- What the overrides for the file make of a setting. -/
def override (globs : Globs) (overrides : List Override) (p : Path) (rule : Rule)
    (start : Option Setting) : Option Setting :=
  (overrides.filter (·.appliesTo globs p)).foldl (fun s o => o.rules.lookup? rule <|> s) start

variable {globs : Globs} {overrides overrides' before after : List Override} {o o' : Override}
  {p : Path} {rule : Rule} {setting : Setting} {start : Option Setting}

theorem Reordered.refl (o : Override) : o.Reordered o :=
  ⟨rfl, .refl _⟩

theorem Reordered.appliesTo_eq (h : o.Reordered o') (p : Path) :
    o'.appliesTo globs p = o.appliesTo globs p := by
  rw [appliesTo, appliesTo, h.files_eq]

theorem Decides.not_noneNames (h : Decides globs overrides p rule setting) :
    ¬NoneNames globs overrides p rule := by
  obtain ⟨before, o, after, rfl, happlies, hsets, -⟩ := h
  exact fun hnone => hsets.not_omits (hnone o (by simp) happlies)

theorem Decides.cons (h : Decides globs overrides p rule setting) (o : Override) :
    Decides globs (o :: overrides) p rule setting := by
  obtain ⟨before, o', after, rfl, h⟩ := h
  exact ⟨o :: before, o', after, rfl, h⟩

theorem noneNames_cons :
    NoneNames globs (o :: overrides) p rule ↔
      (o.appliesTo globs p = true → o.rules.Omits rule) ∧ NoneNames globs overrides p rule :=
  List.forall_mem_cons

theorem override_append (before after : List Override) (p : Path) (rule : Rule)
    (start : Option Setting) :
    override globs (before ++ after) p rule start =
      override globs after p rule (override globs before p rule start) := by
  rw [override, List.filter_append, List.foldl_append]
  rfl

theorem override_cons_of_applies (happlies : o.appliesTo globs p = true) :
    override globs (o :: overrides) p rule start =
      override globs overrides p rule (o.rules.lookup? rule <|> start) := by
  rw [override, List.filter_cons, if_pos happlies]
  rfl

theorem override_cons_of_not_applies (hnot : ¬o.appliesTo globs p = true) :
    override globs (o :: overrides) p rule start = override globs overrides p rule start := by
  rw [override, List.filter_cons, if_neg hnot]
  rfl

/-- Going through the overrides in their order, the last one that names the rule remains. -/
theorem override_outcome (globs : Globs) (overrides : List Override) (p : Path) (rule : Rule)
    (start : Option Setting) :
    (NoneNames globs overrides p rule ∧ override globs overrides p rule start = start) ∨
      ∃ setting, override globs overrides p rule start = some setting ∧
        Decides globs overrides p rule setting := by
  induction overrides generalizing start with
  | nil => exact .inl ⟨by simp [NoneNames], rfl⟩
  | cons o rest ih =>
    by_cases happlies : o.appliesTo globs p = true
    · rw [override_cons_of_applies happlies]
      rcases ih (o.rules.lookup? rule <|> start) with ⟨hnone, heq⟩ | ⟨setting, heq, hdecides⟩
      · rw [heq]
        cases hlookup : o.rules.lookup? rule with
        | none =>
          have homits := RuleTable.lookup?_eq_none_iff.1 hlookup
          exact .inl ⟨noneNames_cons.2 ⟨fun _ => homits, hnone⟩, rfl⟩
        | some setting =>
          have hsets := RuleTable.sets_of_lookup? hlookup
          exact .inr ⟨setting, rfl, [], o, rest, rfl, happlies, hsets, hnone⟩
      · exact .inr ⟨setting, heq, hdecides.cons o⟩
    · rw [override_cons_of_not_applies happlies]
      rcases ih start with ⟨hnone, heq⟩ | ⟨setting, heq, hdecides⟩
      · exact .inl ⟨noneNames_cons.2 ⟨fun h => absurd h happlies, hnone⟩, heq⟩
      · exact .inr ⟨setting, heq, hdecides.cons o⟩

theorem override_of_noneNames (h : NoneNames globs overrides p rule) (start : Option Setting) :
    override globs overrides p rule start = start := by
  rcases override_outcome globs overrides p rule start with ⟨-, heq⟩ | ⟨setting, -, hdecides⟩
  · exact heq
  · exact absurd h hdecides.not_noneNames

theorem override_append_cons (happlies : o.appliesTo globs p = true)
    (hlookup : o.rules.lookup? rule = some setting) (hafter : NoneNames globs after p rule) :
    override globs (before ++ o :: after) p rule start = some setting := by
  rw [override_append, override_cons_of_applies happlies, override_of_noneNames hafter, hlookup]
  rfl

theorem noneNames_of_reordered (h : List.Forall₂ Reordered overrides overrides')
    (hnone : NoneNames globs overrides' p rule) : NoneNames globs overrides p rule := by
  induction h with
  | nil => exact hnone
  | @cons o o' rest rest' ho _ ih =>
    obtain ⟨hfirst, hrest⟩ := noneNames_cons.1 hnone
    rw [ho.appliesTo_eq p, RuleTable.omits_iff_of_perm ho.rules_perm] at hfirst
    exact noneNames_cons.2 ⟨hfirst, ih hrest⟩

/-- Which override decides does not depend on the order of the tables. -/
theorem decides_of_reordered (h : List.Forall₂ Reordered overrides overrides')
    (hdecides : Decides globs overrides' p rule setting) :
    Decides globs overrides p rule setting := by
  obtain ⟨before', o', after', rfl, happlies, hsets, hafter⟩ := hdecides
  induction before' generalizing overrides with
  | nil =>
    cases h with
    | @cons o _ rest _ ho hrest =>
      refine ⟨[], o, rest, rfl, ?_, (RuleTable.sets_iff_of_perm ho.rules_perm).1 hsets,
        noneNames_of_reordered hrest hafter⟩
      rw [← ho.appliesTo_eq p]
      exact happlies
  | cons first before' ih =>
    cases h with
    | @cons o _ rest _ _ hrest => exact (ih hrest).cons o

end Override

/-! ## Configurations -/

namespace Config

open Override (NoneNames Decides)

/-- The same configuration, its tables being held in another order. -/
structure Reordered (c c' : Config) : Prop where
  base_eq : c'.base = c.base
  rules_perm : c'.rules.Perm c.rules
  ignore_eq : c'.ignore = c.ignore
  overrides : List.Forall₂ Override.Reordered c.overrides c'.overrides

/-- The rule has this severity in the file when the tables are held in some order. -/
def MaySay (globs : Globs) (c : Config) (p : Path) (rule : Rule) (severity? : Option Severity) :
    Prop :=
  ∃ c', c.Reordered c' ∧ c'.severityFor? globs p rule = severity?

/-- An entry for the rule counts in the file: it stands in the last override for the file that
names the rule or, where no override names it, in the configuration's own table. -/
inductive Counts (globs : Globs) (c : Config) (p : Path) (rule : Rule) : Setting → Prop
  | override {setting : Setting} (hdecides : Decides globs c.overrides p rule setting) :
      Counts globs c p rule setting
  | table {setting : Setting} (hnone : NoneNames globs c.overrides p rule)
      (hsets : c.rules.Sets rule setting) : Counts globs c p rule setting

/-- What overrides, an upper and a lower table and the default say of a rule, in this order. -/
inductive Ranked (globs : Globs) (overrides : List Override) (upper lower : RuleTable) (p : Path)
    (rule : Rule) : Option Severity → Prop
  | override {setting : Setting} (hdecides : Decides globs overrides p rule setting) :
      Ranked globs overrides upper lower p rule setting.severity?
  | upper {setting : Setting} (hnone : NoneNames globs overrides p rule)
      (hsets : upper.Sets rule setting) :
      Ranked globs overrides upper lower p rule setting.severity?
  | lower {setting : Setting} (hnone : NoneNames globs overrides p rule)
      (homits : upper.Omits rule) (hsets : lower.Sets rule setting) :
      Ranked globs overrides upper lower p rule setting.severity?
  | default (hnone : NoneNames globs overrides p rule) (homits : upper.Omits rule)
      (homits' : lower.Omits rule) :
      Ranked globs overrides upper lower p rule (defaultSeverity? rule)

variable {globs : Globs} {c c' : Config} {p : Path} {rule : Rule} {setting : Setting}
  {severity? : Option Severity}

theorem settingFor?_eq (c : Config) (p : Path) (rule : Rule) :
    c.settingFor? globs p rule = Override.override globs c.overrides p rule (c.setting? rule) :=
  rfl

theorem severityFor?_of_some (h : c.settingFor? globs p rule = some setting) :
    c.severityFor? globs p rule = setting.severity? := by
  rw [severityFor?, h]

theorem severityFor?_of_none (h : c.settingFor? globs p rule = none) :
    c.severityFor? globs p rule = defaultSeverity? rule := by
  rw [severityFor?, h]

/-! ### What is said in some order of the tables -/

theorem counts_of_settingFor? (h : c.settingFor? globs p rule = some setting) :
    c.Counts globs p rule setting := by
  rw [settingFor?_eq] at h
  rcases Override.override_outcome globs c.overrides p rule (c.setting? rule) with
    ⟨hnone, heq⟩ | ⟨setting', heq, hdecides⟩
  · exact .table hnone (RuleTable.sets_of_lookup? (heq.symm.trans h))
  · obtain rfl : setting' = setting := Option.some.inj (heq.symm.trans h)
    exact .override hdecides

theorem settingFor?_eq_none_iff : c.settingFor? globs p rule = none ↔
    NoneNames globs c.overrides p rule ∧ c.rules.Omits rule := by
  rw [settingFor?_eq, ← RuleTable.lookup?_eq_none_iff]
  constructor
  · intro h
    rcases Override.override_outcome globs c.overrides p rule (c.setting? rule) with
      ⟨hnone, heq⟩ | ⟨setting, heq, -⟩
    · exact ⟨hnone, heq.symm.trans h⟩
    · rw [heq] at h
      cases h
  · rintro ⟨hnone, homits⟩
    rw [Override.override_of_noneNames hnone]
    exact homits

theorem Reordered.refl (c : Config) : c.Reordered c :=
  ⟨rfl, .refl _, rfl, List.forall₂_same.2 fun o _ => .refl o⟩

theorem Reordered.counts (h : c.Reordered c') (hcounts : c'.Counts globs p rule setting) :
    c.Counts globs p rule setting := by
  cases hcounts with
  | override hdecides => exact .override (Override.decides_of_reordered h.overrides hdecides)
  | table hnone hsets =>
    exact .table (Override.noneNames_of_reordered h.overrides hnone)
      ((RuleTable.sets_iff_of_perm h.rules_perm).1 hsets)

theorem Reordered.settingFor?_eq_none (h : c.Reordered c')
    (hnone : c'.settingFor? globs p rule = none) : c.settingFor? globs p rule = none := by
  obtain ⟨hnames, homits⟩ := settingFor?_eq_none_iff.1 hnone
  exact settingFor?_eq_none_iff.2 ⟨Override.noneNames_of_reordered h.overrides hnames,
    (RuleTable.omits_iff_of_perm h.rules_perm).1 homits⟩

/-- Every entry that counts decides the setting in some order of the tables. -/
theorem Counts.exists_reordered (h : c.Counts globs p rule setting) :
    ∃ c', c.Reordered c' ∧ c'.settingFor? globs p rule = some setting := by
  cases h with
  | override hdecides =>
    obtain ⟨before, o, after, hoverrides, happlies, hsets, hafter⟩ := hdecides
    obtain ⟨table, hperm, hlookup⟩ := hsets.exists_perm
    let o' : Override := { o with rules := table }
    have happlies' : o'.appliesTo globs p = true := happlies
    refine ⟨{ c with overrides := before ++ o' :: after }, ⟨rfl, .refl _, rfl, ?_⟩, ?_⟩
    · rw [hoverrides]
      refine List.rel_append (List.forall₂_same.2 fun o _ => .refl o) (.cons ⟨rfl, hperm⟩ ?_)
      exact List.forall₂_same.2 fun o _ => .refl o
    · exact Override.override_append_cons happlies' hlookup hafter
  | table hnone hsets =>
    obtain ⟨table, hperm, hlookup⟩ := hsets.exists_perm
    refine ⟨{ c with rules := table }, ⟨rfl, hperm, rfl, (Reordered.refl c).overrides⟩, ?_⟩
    exact (Override.override_of_noneNames hnone _).trans hlookup

/-- All entries of a table for one rule count alike. -/
theorem maySay_iff : c.MaySay globs p rule severity? ↔
    Ranked globs c.overrides c.rules [] p rule severity? := by
  constructor
  · rintro ⟨c', hreordered, rfl⟩
    cases hsetting : c'.settingFor? globs p rule with
    | some setting =>
      rw [severityFor?_of_some hsetting]
      cases hreordered.counts (counts_of_settingFor? hsetting) with
      | override hdecides => exact .override hdecides
      | table hnone hsets => exact .upper hnone hsets
    | none =>
      rw [severityFor?_of_none hsetting]
      obtain ⟨hnone, homits⟩ :=
        settingFor?_eq_none_iff.1 (hreordered.settingFor?_eq_none hsetting)
      exact .default hnone homits (RuleTable.omits_nil rule)
  · have hsaid {setting : Setting} (h : c.Counts globs p rule setting) :
        c.MaySay globs p rule setting.severity? := by
      obtain ⟨c', hreordered, hsetting⟩ := h.exists_reordered
      exact ⟨c', hreordered, severityFor?_of_some hsetting⟩
    intro h
    cases h with
    | override hdecides => exact hsaid (.override hdecides)
    | upper hnone hsets => exact hsaid (.table hnone hsets)
    | lower hnone homits hsets => exact absurd hsets (RuleTable.omits_nil rule _)
    | default hnone homits homits' =>
      exact ⟨c, .refl c, severityFor?_of_none (settingFor?_eq_none_iff.2 ⟨hnone, homits⟩)⟩

/-! ## One configuration on top of another -/

/-- The upper configuration does not have the last word: no override decides, and beside what
it says about the rule there is an entry of the lower one with a key of its own. -/
structure Overruled (globs : Globs) (child base : Config) (p : Path) (rule : Rule)
    (severity? : Option Severity) : Prop where
  undecided : NoneNames globs (base.overrides ++ child.overrides) p rule
  spoken : ¬child.rules.Omits rule
  kept : ∃ setting, base.rules.Keeps child.rules rule setting ∧ setting.severity? = severity?

variable {child base : Config}

theorem mem_extending_rules {key : String} : (key, setting) ∈ (child.extending base).rules ↔
    ((key, setting) ∈ base.rules ∧ key ∉ child.rules.map (·.1)) ∨
      (key, setting) ∈ child.rules := by
  have hleft : (!child.rules.any (·.1 == key)) = true ↔ key ∉ child.rules.map (·.1) := by
    rw [Bool.not_eq_true', List.any_eq_false, List.mem_map, not_exists]
    simp only [beq_iff_eq, not_and]
  rw [extending, List.mem_append, List.mem_filter, hleft]

theorem extending_sets_iff : (child.extending base).rules.Sets rule setting ↔
    base.rules.Keeps child.rules rule setting ∨ child.rules.Sets rule setting := by
  simp only [RuleTable.Sets, RuleTable.Keeps, mem_extending_rules, or_and_right, exists_or,
    and_assoc]

theorem extending_omits_iff : (child.extending base).rules.Omits rule ↔
    child.rules.Omits rule ∧ base.rules.Omits rule := by
  constructor
  · intro h
    have hchild : child.rules.Omits rule :=
      fun setting hsets => h setting (extending_sets_iff.2 (.inr hsets))
    exact ⟨hchild, fun setting hsets =>
      h setting (extending_sets_iff.2 (.inl (hsets.keeps hchild)))⟩
  · rintro ⟨hchild, hbase⟩ setting hsets
    rcases extending_sets_iff.1 hsets with hkeeps | hsets
    · exact hbase setting hkeeps.sets
    · exact hchild setting hsets

/-- On top of another configuration, the upper one has the last word, or else is overruled by
an entry that spells the rule as it does not. -/
theorem maySay_extending (globs : Globs) (child base : Config) (p : Path) (rule : Rule)
    (severity? : Option Severity) :
    (child.extending base).MaySay globs p rule severity? ↔
      Ranked globs (base.overrides ++ child.overrides) child.rules base.rules p rule severity? ∨
        child.Overruled globs base p rule severity? := by
  rw [maySay_iff]
  constructor
  · intro h
    cases h with
    | override hdecides => exact .inl (.override hdecides)
    | upper hnone hsets =>
      rcases extending_sets_iff.1 hsets with hkeeps | hsets
      · by_cases homits : child.rules.Omits rule
        · exact .inl (.lower hnone homits hkeeps.sets)
        · exact .inr ⟨hnone, homits, _, hkeeps, rfl⟩
      · exact .inl (.upper hnone hsets)
    | lower hnone homits hsets => exact absurd hsets (RuleTable.omits_nil rule _)
    | default hnone homits homits' =>
      obtain ⟨hchild, hbase⟩ := extending_omits_iff.1 homits
      exact .inl (.default hnone hchild hbase)
  · rintro (h | ⟨hnone, -, setting, hkeeps, rfl⟩)
    · cases h with
      | override hdecides => exact .override hdecides
      | upper hnone hsets => exact .upper hnone (extending_sets_iff.2 (.inr hsets))
      | lower hnone homits hsets =>
        exact .upper hnone (extending_sets_iff.2 (.inl (hsets.keeps homits)))
      | default hnone homits homits' =>
        exact .default hnone (extending_omits_iff.2 ⟨homits, homits'⟩) (RuleTable.omits_nil rule)
    · exact .upper hnone (extending_sets_iff.2 (.inl hkeeps))

/-- The rule is off in the upper configuration, but an error under the lower one's spelling. -/
theorem inherited_spelling_counts :
    let child : Config := ⟨none, [("MSTEST0017", .off)], [], []⟩
    let base : Config := ⟨none, [("mstest0017", .on .error)], [], []⟩
    (child.extending base).severityFor? Glob.matcher? ⟨"A.cs"⟩
        .assertionArgsShouldBePassedInCorrectOrder = some .error ∧
      ¬Ranked Glob.matcher? (base.overrides ++ child.overrides) child.rules base.rules ⟨"A.cs"⟩
        .assertionArgsShouldBePassedInCorrectOrder (some .error) := by
  intro child base
  have hnamed : Rule.ofText? "MSTEST0017" = some .assertionArgsShouldBePassedInCorrectOrder := by
    decide +kernel
  have hsets : child.rules.Sets .assertionArgsShouldBePassedInCorrectOrder .off :=
    ⟨"MSTEST0017", by simp [child], hnamed⟩
  refine ⟨by decide +kernel, fun h => ?_⟩
  generalize hsome : some Severity.error = severity? at h
  cases h with
  | override hdecides => exact hdecides.not_noneNames (by simp [NoneNames, child, base])
  | upper hnone hsets' =>
    obtain ⟨key, hmem, -⟩ := hsets'
    obtain ⟨-, rfl⟩ : key = "MSTEST0017" ∧ _ = Setting.off := by simpa [child] using hmem
    cases hsome
  | lower hnone homits hsets' => exact hsets.not_omits homits
  | default hnone homits homits' => exact hsets.not_omits homits

end Config
end TestLint
