import TestLint.Glob.Matching
import TestLint.Json.Codec
import TestLint.Rule

/-!
# Configurations

A configuration sets rules to a severity or switches them off, for all files
or for those that match a pattern, and names files that are not analysed.
Rules are named by id or by name.  A table of rules holds each key once, in no
order that means anything: where several keys of a table name one rule, any of
them may be the one that counts.
-/

namespace TestLint

/-- What a configuration says about a rule. -/
inductive Setting where
  | off
  | on (severity : Severity)
  deriving DecidableEq, Repr, Inhabited

namespace Setting

def name : Setting → String
  | .off => "off"
  | .on severity => severity.name

def ofName? (word : String) : Option Setting :=
  if word == "off" then some .off else (Severity.ofName? word).map .on

def ofJson? (value : Json) : Option Setting :=
  value.choice? >>= ofName?

/-- The severity of a rule that is not switched off. -/
def severity? : Setting → Option Severity
  | .off => none
  | .on severity => some severity

end Setting

/-- The entries of a table of rules. -/
abbrev RuleTable := List (String × Setting)

/-- The setting of the first entry whose key names the rule, in the order in
which the table happens to be held. -/
def RuleTable.lookup? (table : RuleTable) (rule : Rule) : Option Setting :=
  (table.find? fun (key, _) => Rule.ofText? key == some rule).map (·.2)

/-- Settings for the files that match one of several patterns. -/
structure Override where
  files : List String
  rules : RuleTable
  deriving DecidableEq, Repr, Inhabited

namespace Override

/-- A pattern takes a file in: as a glob, or because the path contains the
pattern's text after its leading `**/`. -/
def patternApplies (globs : Globs) (p : Path) (pattern : String) : Bool :=
  match globs pattern with
  | none => false
  | some isMatch =>
    isMatch p || Text.occursIn (Text.dropStarts "**/".toList pattern.toList) p.text.toList

def appliesTo (globs : Globs) (o : Override) (p : Path) : Bool :=
  o.files.any (patternApplies globs p)

/-- An override as its JSON value gives it; the table may be missing. -/
def ofJson? (value : Json) : Option Override := do
  let v ← value.record? 1 ["files", "rules"]
  let files ← v.required "files" (Json.listOf Json.text?)
  let rules ← v.withDefault "rules" [] (Json.mapOf Setting.ofJson?)
  some ⟨files, rules⟩

end Override

structure Config where
  base : Option String
  rules : RuleTable
  ignore : List String
  overrides : List Override
  deriving DecidableEq, Repr, Inhabited

namespace Config

def empty : Config := ⟨none, [], [], []⟩

def setting? (c : Config) (rule : Rule) : Option Setting :=
  c.rules.lookup? rule

/-- What the configuration says about a rule for a file: the last override
that applies and names the rule wins. -/
def settingFor? (globs : Globs) (c : Config) (p : Path) (rule : Rule) : Option Setting :=
  (c.overrides.filter (·.appliesTo globs p)).foldl (fun s o => o.rules.lookup? rule <|> s)
    (c.setting? rule)

/-- The severity that a rule is reported with, without a configuration. -/
def defaultSeverity? (rule : Rule) : Option Severity :=
  if rule.enabledByDefault then some rule.defaultSeverity else none

/-- The severity that a rule is reported with in a file; `none` if it is off. -/
def severityFor? (globs : Globs) (c : Config) (p : Path) (rule : Rule) : Option Severity :=
  match c.settingFor? globs p rule with
  | some setting => setting.severity?
  | none => defaultSeverity? rule

/-- The keys that name no rule, in alphabetical order, each once. -/
def unknownKeys (c : Config) : List String :=
  let keys := c.rules.map (·.1) ++ c.overrides.flatMap fun o => o.rules.map (·.1)
  ((keys.filter fun key => (Rule.ofText? key).isNone).mergeSort fun a b => a ≤ b).eraseDups

/-- The configuration on top of another: its own entries stay, the other's join
them under the keys that are left, and the other's patterns and overrides come
first. -/
def extending (c base : Config) : Config where
  base := c.base <|> base.base
  rules := (base.rules.filter fun (key, _) => !c.rules.any (·.1 == key)) ++ c.rules
  ignore := base.ignore ++ c.ignore
  overrides := base.overrides ++ c.overrides

/-- A configuration as its JSON value gives it; all parts may be missing. -/
def ofJson? (value : Json) : Option Config := do
  let v ← value.record? 0 ["extends", "rules", "ignore", "overrides"]
  let base ← v.optional "extends" Json.text?
  let rules ← v.withDefault "rules" [] (Json.mapOf Setting.ofJson?)
  let ignore ← v.withDefault "ignore" [] (Json.listOf Json.text?)
  let overrides ← v.withDefault "overrides" [] (Json.listOf Override.ofJson?)
  some ⟨base, rules, ignore, overrides⟩

def read? (json : Json.Codec) (text : String) : Option Config :=
  json.read? text >>= ofJson?

end Config

end TestLint
