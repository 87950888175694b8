import TestLint.Config.Basic
import TestLint.Proofs.Json.Record

/-!
# The JSON form of configurations

How configurations are written as JSON values: the tables as objects, and parts that say nothing
are left out.  They are read as they were written (`Config.ofJson?_toJson`), if no table has a
key twice.
-/

namespace TestLint

namespace Setting

def toJson (s : Setting) : Json :=
  .string s.name

theorem ofName?_name (s : Setting) : ofName? s.name = some s := by
  cases s with
  | off => rfl
  | on severity => cases severity <;> decide

theorem ofJson?_toJson (s : Setting) : ofJson? s.toJson = some s :=
  ofName?_name s

end Setting

namespace RuleTable

def toJson (table : RuleTable) : Json :=
  .object (table.map fun entry => (entry.1, entry.2.toJson))

/-- No key stands twice in the table. -/
def KeysOnce (table : RuleTable) : Prop :=
  (table.map (·.1)).Nodup

theorem mapOf_toJson {table : RuleTable} (h : table.KeysOnce) :
    Json.mapOf Setting.ofJson? table.toJson = some table :=
  Json.mapOf_map Setting.toJson (fun entry _ => entry.2.ofJson?_toJson) h

end RuleTable

theorem Json.listOf_texts (texts : List String) :
    listOf text? (ofList .string texts) = some texts :=
  listOf_ofList fun _ _ => rfl

namespace Override

def toJson (o : Override) : Json :=
  .object (("files", .ofList .string o.files) ::
    fieldIf (!o.rules.isEmpty) "rules" o.rules.toJson)

theorem ofJson?_toJson {o : Override} (h : o.rules.KeysOnce) : ofJson? o.toJson = some o := by
  have hrecord : o.toJson.record? 1 ["files", "rules"] = some o.toJson := by
    apply Json.record?_of_nodup
    have hkeys : ["files", "rules"].Nodup := by decide
    exact hkeys.sublist ((keys_fieldIf_sublist _ "rules" _).cons_cons "files")
  have hfiles : o.toJson.required "files" (Json.listOf Json.text?) = some o.files :=
    Json.required_eq (v := .ofList .string o.files) (by simp [toJson]) (Json.listOf_texts o.files)
  have hrules : o.toJson.withDefault "rules" [] (Json.mapOf Setting.ofJson?) = some o.rules := by
    apply Json.withDefault_eq (RuleTable.mapOf_toJson h)
    simp [toJson]
  unfold ofJson?
  simp only [hrecord, Option.bind_eq_bind, Option.bind_some, hfiles, hrules]

end Override

namespace Config

def toJson (c : Config) : Json :=
  .object <|
    fieldIf c.base.isSome "extends" (.ofOption .string c.base) ++
    fieldIf (!c.rules.isEmpty) "rules" c.rules.toJson ++
    fieldIf (!c.ignore.isEmpty) "ignore" (.ofList .string c.ignore) ++
    fieldIf (!c.overrides.isEmpty) "overrides" (.ofList Override.toJson c.overrides)

/-- No table of the configuration has a key twice. -/
structure KeysOnce (c : Config) : Prop where
  rules : c.rules.KeysOnce
  overrides : ∀ o ∈ c.overrides, o.rules.KeysOnce

theorem record?_toJson (c : Config) :
    c.toJson.record? 0 ["extends", "rules", "ignore", "overrides"] = some c.toJson := by
  apply Json.record?_of_nodup
  have hkeys : (["extends"] ++ ["rules"] ++ ["ignore"] ++ ["overrides"]).Nodup := by decide
  refine hkeys.sublist ?_
  simp only [List.map_append]
  exact (((keys_fieldIf_sublist _ _ _).append (keys_fieldIf_sublist _ _ _)).append
    (keys_fieldIf_sublist _ _ _)).append (keys_fieldIf_sublist _ _ _)

/-- A configuration is read as it was written. -/
theorem ofJson?_toJson {c : Config} (h : c.KeysOnce) : ofJson? c.toJson = some c := by
  have hbase : c.toJson.optional "extends" Json.text? = some c.base := by
    apply Json.optional_eq .string (fun _ _ => rfl) (fun _ => nofun)
    simp [toJson]
  have hrules : c.toJson.withDefault "rules" [] (Json.mapOf Setting.ofJson?) = some c.rules := by
    apply Json.withDefault_eq (RuleTable.mapOf_toJson h.rules)
    simp [toJson]
  have hignore : c.toJson.withDefault "ignore" [] (Json.listOf Json.text?) = some c.ignore := by
    apply Json.withDefault_eq (Json.listOf_texts c.ignore)
    simp [toJson]
  have hoverrides : c.toJson.withDefault "overrides" [] (Json.listOf Override.ofJson?) =
      some c.overrides := by
    apply Json.withDefault_eq (Json.listOf_ofList fun o ho => Override.ofJson?_toJson
      (h.overrides o ho))
    simp [toJson]
  unfold ofJson?
  simp only [record?_toJson, Option.bind_eq_bind, Option.bind_some, hbase, hrules, hignore,
    hoverrides]

end Config

end TestLint
