import TestLint.Proofs.Json.Record

/-!
# Reading a report back

A report of all files, in either layout, gives back the results that it was written for
(`Report.read?_many`), if the codec reads what it writes (`Json.Codec.RoundTrips`).  Each kind
of record has two lemmas: what is written for it is plain, and it is read back.

Numbers are those of a machine word, and the properties of a diagnostic stand in the order
of their names, each name once (`AnalysisResult.WellFormed`).
-/

namespace TestLint

open Json (wordSize Plain)

/-! ## What a result may hold -/

/-- The numbers of the place are machine words. -/
structure Location.Sized (loc : Location) : Prop where
  line : loc.line < wordSize
  column : loc.column < wordSize
  endLine : ∀ n ∈ loc.endLine, n < wordSize
  endColumn : ∀ n ∈ loc.endColumn, n < wordSize

/-- The numbers of the edit are machine words. -/
structure TextEdit.Sized (e : TextEdit) : Prop where
  startLine : e.startLine < wordSize
  startColumn : e.startColumn < wordSize
  endLine : e.endLine < wordSize
  endColumn : e.endColumn < wordSize

/-- The counts are machine words. -/
structure FileStats.Sized (s : FileStats) : Prop where
  testClasses : s.testClasses < wordSize
  testMethods : s.testMethods < wordSize
  dataRows : s.dataRows < wordSize
  assertions : s.assertions < wordSize

/-- The numbers of the diagnostic are machine words, and each property has a name of its own,
behind those before it. -/
structure Diagnostic.WellFormed (d : Diagnostic) : Prop where
  location : d.location.Sized
  additionalLocations : ∀ loc ∈ d.additionalLocations, loc.Sized
  properties : d.properties.Pairwise fun a b => a.1 < b.1
  fix : ∀ f ∈ d.fix, ∀ e ∈ f.edits, e.Sized

structure AnalysisResult.WellFormed (r : AnalysisResult) : Prop where
  diagnostics : ∀ d ∈ r.diagnostics, d.WellFormed
  stats : r.stats.Sized

/-! ## Names and properties -/

theorem Rule.ofId?_id (rule : Rule) : Rule.ofId? rule.id = some rule := by
  cases rule <;> decide +kernel

/-- A name behind all others is put at the end. -/
theorem insertByName_eq_append {α : Type} {key : String} {value : α} {kept : List (String × α)}
    (h : ∀ pair ∈ kept, pair.1 < key) : insertByName key value kept = kept ++ [(key, value)] := by
  induction kept with
  | nil => rfl
  | cons pair kept ih =>
    obtain ⟨hpair, hkept⟩ := List.forall_mem_cons.1 h
    have hne : key ≠ pair.1 := fun heq => String.lt_irrefl key (by rwa [← heq] at hpair)
    unfold insertByName
    rw [if_neg (String.lt_asymm hpair), if_neg hne, ih hkept, List.cons_append]

/-- Properties in the order of their names stay as they are when put in order. -/
theorem foldl_insertByName {α : Type} {pairs : List (String × α)}
    (h : pairs.Pairwise fun a b => a.1 < b.1) :
    pairs.foldl (fun kept (key, value) => insertByName key value kept) [] = pairs := by
  have hfold (kept later : List (String × α))
      (hsorted : (kept ++ later).Pairwise fun a b => a.1 < b.1) :
      later.foldl (fun kept (key, value) => insertByName key value kept) kept = kept ++ later := by
    induction later generalizing kept with
    | nil => rw [List.foldl_nil, List.append_nil]
    | cons pair later ih =>
      have hlast : ∀ old ∈ kept, old.1 < pair.1 := fun old hold =>
        (List.pairwise_append.1 hsorted).2.2 old hold pair List.mem_cons_self
      rw [List.foldl_cons]
      dsimp only
      rw [insertByName_eq_append hlast, ih _ (by simpa using hsorted), List.append_assoc,
        List.singleton_append]
  exact hfold [] pairs h

/-! ## Plain values -/

section

variable {depth : Nat}

theorem Json.plain_ofOption {α : Type} {write : α → Json} (h : ∀ a, Plain depth (write a))
    (a? : Option α) : Plain depth (.ofOption write a?) := by
  cases a? with
  | none => exact .null
  | some a => exact h a

theorem Json.plain_ofList {α : Type} {write : α → Json} {items : List α}
    (h : ∀ a ∈ items, Plain depth (write a)) : Plain (depth + 1) (.ofList write items) := by
  apply Plain.array
  intro item hitem
  obtain ⟨a, ha, rfl⟩ := List.mem_map.1 hitem
  exact h a ha

theorem forall_mem_fieldIf {value : Json} (h : Plain depth value) (present : Bool)
    (key : String) : ∀ field ∈ fieldIf present key value, Plain depth field.2 := by
  intro field hfield
  cases present with
  | false => cases hfield
  | true =>
    rw [List.mem_singleton.1 hfield]
    exact h

namespace Location

theorem plain_toJson (loc : Location) : Plain (depth + 1) loc.toJson := by
  apply Plain.object
  simp only [List.forall_mem_append, List.forall_mem_cons]
  exact ⟨⟨.number _, .number _, Json.plain_ofOption .number _, Json.plain_ofOption .number _,
    List.forall_mem_nil _⟩, forall_mem_fieldIf (Json.plain_ofOption (fun _ => .string _) _) _ _⟩

theorem record?_toJson (loc : Location) :
    loc.toJson.record? 4 ["line", "column", "endLine", "endColumn", "file"] = some loc.toJson := by
  apply Json.record?_of_nodup
  have hkeys : ["line", "column", "endLine", "endColumn", "file"].Nodup := by decide
  refine hkeys.sublist ?_
  rw [List.map_append]
  exact (keys_fieldIf_sublist _ "file" _).append_left ["line", "column", "endLine", "endColumn"]

/-- A place is read as it was written: without an end, or without a file, where it has none. -/
theorem ofJson?_toJson {loc : Location} (h : loc.Sized) : ofJson? loc.toJson = some loc := by
  have hline : loc.toJson.required "line" Json.word? = some loc.line :=
    Json.required_word h.line (by simp [toJson])
  have hcolumn : loc.toJson.required "column" Json.word? = some loc.column :=
    Json.required_word h.column (by simp [toJson])
  have hendLine : loc.toJson.optional "endLine" Json.word? = some loc.endLine := by
    apply Json.optional_eq .ofNat (fun n hn => Json.word?_ofNat (h.endLine n hn)) (fun n => nofun)
    simp [toJson]
  have hendColumn : loc.toJson.optional "endColumn" Json.word? = some loc.endColumn := by
    apply Json.optional_eq .ofNat (fun n hn => Json.word?_ofNat (h.endColumn n hn)) (fun n => nofun)
    simp [toJson]
  have hfile : loc.toJson.optional "file" Json.text? = some (loc.file.map (·.text)) := by
    apply Json.optional_eq .string (fun _ _ => rfl) (fun _ => nofun)
    simp [toJson, Json.ofOption_map]
  have hpath : (loc.file.map (·.text)).map Path.mk = loc.file := by
    rw [Option.map_map]
    exact Option.map_id_apply
  unfold ofJson?
  rw [record?_toJson]
  simp only [Option.bind_eq_bind, Option.bind_some, hline, hcolumn, hendLine, hendColumn, hfile,
    hpath]

end Location

namespace TextEdit

theorem plain_toJson (e : TextEdit) : Plain (depth + 1) e.toJson := by
  apply Plain.object
  simp only [List.forall_mem_cons]
  exact ⟨.number _, .number _, .number _, .number _, .string _, List.forall_mem_nil _⟩

theorem ofJson?_toJson {e : TextEdit} (h : e.Sized) : ofJson? e.toJson = some e := by
  have hrecord : e.toJson.record? 5 ["startLine", "startColumn", "endLine", "endColumn",
      "replacement"] = some e.toJson := Json.record?_of_nodup (by simp)
  have hstartLine : e.toJson.required "startLine" Json.word? = some e.startLine :=
    Json.required_word h.startLine (by simp [toJson])
  have hstartColumn : e.toJson.required "startColumn" Json.word? = some e.startColumn :=
    Json.required_word h.startColumn (by simp [toJson])
  have hendLine : e.toJson.required "endLine" Json.word? = some e.endLine :=
    Json.required_word h.endLine (by simp [toJson])
  have hendColumn : e.toJson.required "endColumn" Json.word? = some e.endColumn :=
    Json.required_word h.endColumn (by simp [toJson])
  have hreplacement : e.toJson.required "replacement" Json.text? = some e.replacement :=
    Json.required_text (by simp [toJson])
  unfold ofJson?
  simp only [hrecord, Option.bind_eq_bind, Option.bind_some, hstartLine, hstartColumn, hendLine,
    hendColumn, hreplacement]

end TextEdit

namespace Fix

theorem plain_toJson (f : Fix) : Plain (depth + 3) f.toJson := by
  apply Plain.object
  simp only [List.forall_mem_cons]
  exact ⟨.string _, Json.plain_ofList fun e _ => e.plain_toJson, List.forall_mem_nil _⟩

theorem ofJson?_toJson {f : Fix} (h : ∀ e ∈ f.edits, e.Sized) : ofJson? f.toJson = some f := by
  have hrecord : f.toJson.record? 2 ["description", "edits"] = some f.toJson :=
    Json.record?_of_nodup (by simp)
  have hdescription : f.toJson.required "description" Json.text? = some f.description :=
    Json.required_text (by simp [toJson])
  have hedits : f.toJson.required "edits" (Json.listOf TextEdit.ofJson?) = some f.edits :=
    Json.required_eq (v := .ofList TextEdit.toJson f.edits) (by simp [toJson])
      (Json.listOf_ofList fun e he => TextEdit.ofJson?_toJson (h e he))
  unfold ofJson?
  simp only [hrecord, Option.bind_eq_bind, Option.bind_some, hdescription, hedits]

end Fix

namespace FileStats

theorem plain_toJson (s : FileStats) : Plain (depth + 1) s.toJson := by
  apply Plain.object
  simp only [List.forall_mem_cons]
  exact ⟨.number _, .number _, .number _, .number _, List.forall_mem_nil _⟩

theorem ofJson?_toJson {s : FileStats} (h : s.Sized) : ofJson? s.toJson = some s := by
  have hrecord : s.toJson.record? 4 ["testClasses", "testMethods", "dataRows", "assertions"] =
      some s.toJson := Json.record?_of_nodup (by simp)
  have htestClasses : s.toJson.required "testClasses" Json.word? = some s.testClasses :=
    Json.required_word h.testClasses (by simp [toJson])
  have htestMethods : s.toJson.required "testMethods" Json.word? = some s.testMethods :=
    Json.required_word h.testMethods (by simp [toJson])
  have hdataRows : s.toJson.required "dataRows" Json.word? = some s.dataRows :=
    Json.required_word h.dataRows (by simp [toJson])
  have hassertions : s.toJson.required "assertions" Json.word? = some s.assertions :=
    Json.required_word h.assertions (by simp [toJson])
  unfold ofJson?
  simp only [hrecord, Option.bind_eq_bind, Option.bind_some, htestClasses, htestMethods,
    hdataRows, hassertions]

end FileStats

namespace Diagnostic

theorem plain_propertiesToJson (properties : List (String × String)) :
    Plain (depth + 1) (propertiesToJson properties) := by
  apply Plain.object
  intro field hfield
  obtain ⟨pair, -, rfl⟩ := List.mem_map.1 hfield
  exact .string pair.2

theorem plain_toJson (d : Diagnostic) : Plain (depth + 4) d.toJson := by
  apply Plain.object
  simp only [List.forall_mem_append, List.forall_mem_cons]
  exact ⟨⟨⟨⟨⟨.string _, .string _, .string _, d.location.plain_toJson, List.forall_mem_nil _⟩,
    forall_mem_fieldIf (Json.plain_ofList fun loc _ => loc.plain_toJson) _ _⟩,
    forall_mem_fieldIf (plain_propertiesToJson d.properties) _ _⟩,
    forall_mem_fieldIf (Json.plain_ofOption .string _) _ _⟩,
    forall_mem_fieldIf (Json.plain_ofOption Fix.plain_toJson _) _ _⟩

theorem record?_toJson (d : Diagnostic) :
    d.toJson.record? 4 ["rule", "severity", "message", "location", "additionalLocations",
      "properties", "suggestion", "fix"] = some d.toJson := by
  apply Json.record?_of_nodup
  have hkeys : (["rule", "severity", "message", "location"] ++ ["additionalLocations"] ++
      ["properties"] ++ ["suggestion"] ++ ["fix"]).Nodup := by decide
  refine hkeys.sublist ?_
  simp only [List.map_append]
  exact ((((List.Sublist.refl _).append (keys_fieldIf_sublist _ _ _)).append
    (keys_fieldIf_sublist _ _ _)).append (keys_fieldIf_sublist _ _ _)).append
    (keys_fieldIf_sublist _ _ _)

/-- A diagnostic is read as it was written; what was left out because it was empty is empty
again. -/
theorem ofJson?_toJson {d : Diagnostic} (h : d.WellFormed) : ofJson? d.toJson = some d := by
  have hnames : (d.properties.map (·.1)).Nodup := by
    rw [List.Nodup, List.pairwise_map]
    refine h.properties.imp fun {a b} (hlt : a.1 < b.1) (heq : a.1 = b.1) => ?_
    rw [heq] at hlt
    exact String.lt_irrefl b.1 hlt
  have hrule : d.toJson.required "rule" (fun r => r.choice?.bind Rule.ofId?) = some d.rule :=
    Json.required_eq (v := .string d.rule.id) (by simp [toJson]) (Rule.ofId?_id d.rule)
  have hseverity : d.toJson.required "severity" (fun s => s.choice?.bind Severity.ofName?) =
      some d.severity :=
    Json.required_eq (v := .string d.severity.name) (by simp [toJson])
      (Severity.ofName?_name d.severity)
  have hmessage : d.toJson.required "message" Json.text? = some d.message :=
    Json.required_text (by simp [toJson])
  have hlocation : d.toJson.required "location" Location.ofJson? = some d.location :=
    Json.required_eq (v := d.location.toJson) (by simp [toJson])
      (Location.ofJson?_toJson h.location)
  have hadditional : d.toJson.withDefault "additionalLocations" [] (Json.listOf Location.ofJson?) =
      some d.additionalLocations := by
    apply Json.withDefault_eq
      (Json.listOf_ofList fun loc hloc => Location.ofJson?_toJson (h.additionalLocations loc hloc))
    simp [toJson]
  have hproperties : d.toJson.withDefault "properties" [] (Json.mapOf Json.text?) =
      some d.properties := by
    apply Json.withDefault_eq (Json.mapOf_map .string (fun _ _ => rfl) hnames)
    simp [toJson, propertiesToJson]
  have hsuggestion : d.toJson.optional "suggestion" Json.text? = some d.suggestion := by
    apply Json.optional_eq .string (fun _ _ => rfl) (fun _ => nofun)
    simp [toJson]
  have hfix : d.toJson.optional "fix" Fix.ofJson? = some d.fix := by
    apply Json.optional_eq Fix.toJson (fun f hf => Fix.ofJson?_toJson (h.fix f hf)) (fun _ => nofun)
    simp [toJson]
  unfold ofJson?
  simp only [record?_toJson, Option.bind_eq_bind, Option.bind_some, hrule, hseverity, hmessage,
    hlocation, hadditional, hproperties, hsuggestion, hfix, foldl_insertByName h.properties]

end Diagnostic

namespace AnalysisResult

theorem plain_toJson (r : AnalysisResult) : Plain (depth + 6) r.toJson := by
  apply Plain.object
  simp only [List.forall_mem_cons]
  exact ⟨.string _, Json.plain_ofList fun d _ => d.plain_toJson, r.stats.plain_toJson,
    List.forall_mem_nil _⟩

theorem ofJson?_toJson {r : AnalysisResult} (h : r.WellFormed) : ofJson? r.toJson = some r := by
  have hrecord : r.toJson.record? 3 ["filePath", "diagnostics", "stats"] = some r.toJson :=
    Json.record?_of_nodup (by simp)
  have hfilePath : r.toJson.required "filePath" Json.text? = some r.filePath.text :=
    Json.required_text (by simp [toJson])
  have hdiagnostics : r.toJson.required "diagnostics" (Json.listOf Diagnostic.ofJson?) =
      some r.diagnostics :=
    Json.required_eq (v := .ofList Diagnostic.toJson r.diagnostics) (by simp [toJson])
      (Json.listOf_ofList fun d hd => Diagnostic.ofJson?_toJson (h.diagnostics d hd))
  have hstats : r.toJson.required "stats" FileStats.ofJson? = some r.stats :=
    Json.required_eq (v := r.stats.toJson) (by simp [toJson]) (FileStats.ofJson?_toJson h.stats)
  unfold ofJson?
  simp only [hrecord, Option.bind_eq_bind, Option.bind_some, hfilePath, hdiagnostics, hstats]

end AnalysisResult

end

namespace Report

theorem read?_render {json : Json.Codec} (hjson : json.RoundTrips) (layout : Layout) {value : Json}
    (h : Plain Json.Codec.nestingLimit value) :
    json.read? (layout.render json value) = some value := by
  cases layout with
  | compact => exact hjson.compact h
  | pretty => exact hjson.pretty h

/-- The report of all files is read back as the results it was written for, whatever reads and
writes JSON. -/
theorem read?_many (json : Json.Codec) (hjson : json.RoundTrips) (layout : Layout)
    (results : List AnalysisResult) (h : ∀ r ∈ results, r.WellFormed) :
    read? json (many json layout results) = some results := by
  have hplain : Plain Json.Codec.nestingLimit (.ofList AnalysisResult.toJson results) :=
    Json.plain_ofList fun r _ => r.plain_toJson
  unfold read? Json.Codec.readList? many
  rw [read?_render hjson layout hplain, Option.bind_eq_bind, Option.bind_some]
  exact Json.listOf_ofList fun r hr => AnalysisResult.ofJson?_toJson (h r hr)

/-- Two files: one with a diagnostic that has everything and one that has nothing to add, and
one without diagnostics. -/
def mixedResults : List AnalysisResult :=
  [⟨⟨"src/\"Ä\"/A.cs"⟩,
    [{ rule := .avoidDuplicateTestMethods, severity := .warning, message := "tab\t, bell \x07, \\n"
       location := ⟨3, 5, some 9, some 6, none⟩
       additionalLocations := [⟨1, 2, none, none, some ⟨"src/B.cs"⟩⟩]
       properties := [("otherMethod", "B.Two"), ("similarity", "0.95")]
       suggestion := some "Merge the methods"
       fix := some ⟨"Remove", [⟨3, 5, 9, 6, ""⟩, ⟨10, 1, 10, 1, "\n"⟩]⟩ },
     { rule := .testClassShouldBeValid, severity := .error, message := ""
       location := ⟨1, 1, none, some 4, none⟩, additionalLocations := [], properties := []
       suggestion := none, fix := none }],
    ⟨1, 2, 0, 18446744073709551615⟩⟩,
   ⟨⟨""⟩, [], ⟨0, 0, 0, 0⟩⟩]

theorem read?_many_mixed :
    (∀ r ∈ mixedResults, r.WellFormed) ∧
      read? .strict (many .strict .compact mixedResults) = some mixedResults ∧
      read? .strict (many .strict .pretty mixedResults) = some mixedResults := by
  have hformed : ∀ r ∈ mixedResults, r.WellFormed := by
    unfold mixedResults
    simp only [List.forall_mem_cons]
    refine ⟨⟨?_, ⟨by decide, by decide, by decide, by decide⟩⟩,
      ⟨List.forall_mem_nil _, ⟨by decide, by decide, by decide, by decide⟩⟩, List.forall_mem_nil _⟩
    simp only [List.forall_mem_cons]
    refine ⟨⟨⟨by decide, by decide, by decide, by decide⟩, ?_, by decide, ?_⟩,
      ⟨⟨by decide, by decide, by decide, by decide⟩, List.forall_mem_nil _, .nil, nofun⟩,
      List.forall_mem_nil _⟩
    · intro loc hloc
      rw [List.mem_singleton.1 hloc]
      exact ⟨by decide, by decide, nofun, nofun⟩
    · rintro _ ⟨⟩
      simp only [List.forall_mem_cons]
      exact ⟨⟨by decide, by decide, by decide, by decide⟩,
        ⟨by decide, by decide, by decide, by decide⟩, List.forall_mem_nil _⟩
  have hstrict := Json.Codec.roundTrips_strict
  exact ⟨hformed, read?_many .strict hstrict .compact mixedResults hformed,
    read?_many .strict hstrict .pretty mixedResults hformed⟩

end Report

end TestLint
