import TestLint.Proofs.Report.RoundTrip
import TestLint.Report.Sarif

/-!
# The files of a log

A reader of a log in the SARIF form finds the URI of a file at every place
(`Report.Sarif.readUris?_log`).  Two paths share their URI only if they are written alike or one
is the other with a slash before it, backslashes being slashes (`Report.Sarif.uri_eq_iff`).
-/

namespace TestLint

/-! ## Paths with slashes for backslashes -/

namespace Path

def slashed (p : Path) : Path :=
  ⟨Text.onString (List.map fun c => if c == '\\' then '/' else c) p.text⟩

theorem slashed_eq_self {p : Path} (h : '\\' ∉ p.text.toList) : p.slashed = p := by
  have hkept : p.text.toList.map (fun c => if c == '\\' then '/' else c) = p.text.toList := by
    refine (List.map_congr_left fun c hc => ?_).trans (List.map_id _)
    have hne : c ≠ '\\' := fun heq => h (heq ▸ hc)
    rw [if_neg (by simpa using hne), id]
  rw [slashed, Text.onString, hkept, String.ofList_toList]

theorem same_self (p : Path) : p.same p = true :=
  beq_self_eq_true p.components

/-- The second path is the first one, which is relative, with a slash before it. -/
def Roots (p q : Path) : Prop :=
  p.isAbsolute = false ∧ q.text = "/" ++ p.text

theorem Roots.isAbsolute_ne {p q : Path} (h : p.Roots q) : p.isAbsolute ≠ q.isAbsolute := by
  have hq : q.isAbsolute = true := by
    rw [isAbsolute, h.2]
    simp [Text.startsWith]
  rw [h.1, hq]
  exact Bool.false_ne_true

end Path

namespace Report.Sarif

variable {p q : Path}

theorem uri_eq (p : Path) :
    uri p = (if p.slashed.isAbsolute then "file://" else "file:///") ++ p.slashed.text := by
  rw [apply_ite (· ++ p.slashed.text)]
  rfl

/-- Paths of one kind share their URI only if they are written alike, up to backslashes. -/
theorem uri_eq_iff_of_kind (h : p.slashed.isAbsolute = q.slashed.isAbsolute) :
    uri p = uri q ↔ p.slashed = q.slashed := by
  rw [uri_eq, uri_eq, h, String.append_right_inj]
  exact ⟨fun htext => congrArg Path.mk htext, congrArg Path.text⟩

/-- A relative path shares its URI with one absolute path. -/
theorem uri_eq_iff_roots (hp : p.slashed.isAbsolute = false) (hq : q.slashed.isAbsolute = true) :
    uri p = uri q ↔ p.slashed.Roots q.slashed := by
  have hslashes : "file:///" = "file://" ++ "/" := rfl
  rw [uri_eq, uri_eq, hp, hq, if_neg Bool.false_ne_true, if_pos rfl, hslashes,
    String.append_assoc, String.append_right_inj, Path.Roots, eq_comm, hp]
  exact (and_iff_right rfl).symm

/-- Two paths share their URI exactly if, backslashes being slashes, they are written alike or
one is the other with a slash before it. -/
theorem uri_eq_iff (p q : Path) : uri p = uri q ↔
    p.slashed = q.slashed ∨ p.slashed.Roots q.slashed ∨ q.slashed.Roots p.slashed := by
  cases hp : p.slashed.isAbsolute <;> cases hq : q.slashed.isAbsolute
  case false.true =>
    rw [uri_eq_iff_roots hp hq]
    refine ⟨fun h => .inr (.inl h), ?_⟩
    rintro (heq | h | h)
    · rw [heq, hq] at hp
      cases hp
    · exact h
    · rw [h.1] at hq
      cases hq
  case true.false =>
    rw [eq_comm, uri_eq_iff_roots hq hp]
    refine ⟨fun h => .inr (.inr h), ?_⟩
    rintro (heq | h | h)
    · rw [heq, hq] at hp
      cases hp
    · rw [h.1] at hp
      cases hp
    · exact h
  all_goals
    rw [uri_eq_iff_of_kind (hp.trans hq.symm)]
    refine ⟨.inl, ?_⟩
    rintro (heq | h | h)
    · exact heq
    · exact absurd (hp.trans hq.symm) h.isAbsolute_ne
    · exact absurd (hq.trans hp.symm) h.isAbsolute_ne

theorem uri_ne (hdifferent : p.slashed.same q.slashed = false)
    (hroots : ¬p.slashed.Roots q.slashed) (hroots' : ¬q.slashed.Roots p.slashed) :
    uri p ≠ uri q := by
  intro heq
  rcases (uri_eq_iff p q).1 heq with h | h | h
  · rw [h, Path.same_self] at hdifferent
    cases hdifferent
  · exact hroots h
  · exact hroots' h

/-! ## Reading a log -/

/-- The URI that a location gives for its file. -/
def uriOf? (location : Json) : Option String := do
  let place ← location.field? "physicalLocation"
  let artifact ← place.field? "artifactLocation"
  artifact.required "uri" Json.text?

/-- The URIs of an entry: that of its own place, then those of related places. -/
def entryUris? (entry : Json) : Option (List String) := do
  let own ← entry.required "locations" (Json.listOf uriOf?)
  let related ← entry.withDefault "relatedLocations" [] (Json.listOf uriOf?)
  some (own ++ related)

/-- The URIs of all entries of a log. -/
def readUris? (json : Json.Codec) (text : String) : Option (List (List String)) := do
  let log ← json.read? text
  let runs ← log.required "runs" <| Json.listOf fun run =>
    run.required "results" (Json.listOf entryUris?)
  some runs.flatten

/-- The files of a diagnostic, in the order of its places; `file` where a place names none. -/
def filesOf (file : Path) (d : Diagnostic) : List Path :=
  (d.location :: d.additionalLocations).map fun loc => loc.file.getD file

/-! ## Plain values -/

section

variable {depth : Nat}

theorem plain_optionalField (key : String) (value : Option Nat) :
    ∀ field ∈ optionalField key value, Json.Plain depth field.2 := by
  cases value with
  | none => exact List.forall_mem_nil _
  | some n => exact List.forall_mem_singleton.2 (.number n)

theorem plain_message (text : String) : Json.Plain (depth + 1) (message text) :=
  .object (List.forall_mem_singleton.2 (.string text))

theorem plain_ruleDescription (rule : Rule) : Json.Plain (depth + 2) (ruleDescription rule) := by
  apply Json.Plain.object
  simp only [List.forall_mem_cons]
  refine ⟨.string _, .string _, plain_message _, .object ?_, .object ?_, List.forall_mem_nil _⟩
  · simp only [List.forall_mem_cons]
    exact ⟨.bool _, .string _, List.forall_mem_nil _⟩
  · exact List.forall_mem_singleton.2 (.string _)

theorem plain_physicalLocation (file : Path) (loc : Location) :
    Json.Plain (depth + 2) (physicalLocation file loc) := by
  apply Json.Plain.object
  simp only [List.forall_mem_cons]
  refine ⟨.object (List.forall_mem_singleton.2 (.string _)), .object ?_, List.forall_mem_nil _⟩
  simp only [List.forall_mem_append, List.forall_mem_cons]
  exact ⟨⟨⟨.number _, .number _, List.forall_mem_nil _⟩, plain_optionalField _ _⟩,
    plain_optionalField _ _⟩

/-- A place on its own, or with the number that a related place has. -/
theorem plain_place {fields : List (String × Json)}
    (h : ∀ field ∈ fields, Json.Plain (depth + 2) field.2) (file : Path) (loc : Location) :
    Json.Plain (depth + 3)
      (.object (fields ++ [("physicalLocation", physicalLocation file loc)])) := by
  apply Json.Plain.object
  rw [List.forall_mem_append, List.forall_mem_singleton]
  exact ⟨h, plain_physicalLocation file loc⟩

/-- The related places of a diagnostic, numbered from one. -/
def relatedPlaces (file : Path) (d : Diagnostic) : List Json :=
  d.additionalLocations.zipIdx.map fun (loc, i) =>
    .object ([("id", .ofNat (i + 1))] ++ [("physicalLocation", physicalLocation file loc)])

theorem entry_eq (file : Path) (d : Diagnostic) : entry file d = .object
    ([("ruleId", .string d.rule.id), ("ruleIndex", .ofNat (Rule.all.findIdx (· = d.rule))),
      ("level", .string (level d.severity)), ("message", message d.message),
      ("locations", .array [.object ([] ++ [("physicalLocation",
        physicalLocation file d.location)])])] ++
      fieldIf (!(relatedPlaces file d).isEmpty) "relatedLocations"
        (.array (relatedPlaces file d)) ++
      fieldIf (!d.properties.isEmpty) "properties" (propertiesToJson d.properties)) := by
  have hif (empty : Bool) (key : String) (value : Json) :
      (if empty then [] else [(key, value)]) = fieldIf (!empty) key value := by
    cases empty <;> rfl
  rw [← hif, ← hif]
  rfl

theorem plain_entry (file : Path) (d : Diagnostic) : Json.Plain (depth + 5) (entry file d) := by
  have hrelated : Json.Plain (depth + 4) (.array (relatedPlaces file d)) := by
    apply Json.Plain.array
    intro place hplace
    obtain ⟨⟨loc, i⟩, -, rfl⟩ := List.mem_map.1 hplace
    exact plain_place (List.forall_mem_singleton.2 (.number _)) file loc
  rw [entry_eq]
  apply Json.Plain.object
  simp only [List.forall_mem_append, List.forall_mem_cons]
  exact ⟨⟨⟨.string _, .number _, .string _, plain_message _,
    .array (List.forall_mem_singleton.2 (plain_place (List.forall_mem_nil _) file d.location)),
    List.forall_mem_nil _⟩, forall_mem_fieldIf hrelated _ _⟩,
    forall_mem_fieldIf (Diagnostic.plain_propertiesToJson d.properties) _ _⟩

end

/-! ## What is read -/

theorem uriOf?_place (fields : List (String × Json)) (file : Path) (loc : Location) :
    uriOf? (.object (fields ++ [("physicalLocation", physicalLocation file loc)])) =
      some (uri (loc.file.getD file)) := by
  simp [uriOf?, physicalLocation, Json.required, Json.text?]

theorem entryUris?_entry (file : Path) (d : Diagnostic) :
    entryUris? (entry file d) = some ((filesOf file d).map uri) := by
  have hown : (entry file d).required "locations" (Json.listOf uriOf?) =
      some [uri (d.location.file.getD file)] := by
    let write (loc : Location) : Json :=
      .object ([] ++ [("physicalLocation", physicalLocation file loc)])
    have hread : Json.listOf uriOf? (.array ([d.location].map write)) =
        some ([d.location].map fun loc => uri (loc.file.getD file)) :=
      Json.listOf_map fun loc _ => uriOf?_place [] file loc
    exact Json.required_eq (by simp [entry_eq, write]) hread
  have hrelated : (entry file d).withDefault "relatedLocations" [] (Json.listOf uriOf?) =
      some (d.additionalLocations.map fun loc => uri (loc.file.getD file)) := by
    have hplaces : (d.additionalLocations.zipIdx.map fun (loc, _) => uri (loc.file.getD file)) =
        d.additionalLocations.map fun loc => uri (loc.file.getD file) := by
      have hfst := congrArg (List.map fun loc : Location => uri (loc.file.getD file))
        (List.zipIdx_map_fst 0 d.additionalLocations)
      rwa [List.map_map] at hfst
    have hread : Json.listOf uriOf? (.array (relatedPlaces file d)) =
        some (d.additionalLocations.map fun loc => uri (loc.file.getD file)) := by
      rw [← hplaces]
      exact Json.listOf_map fun (loc, i) _ => uriOf?_place _ file loc
    refine Json.withDefault_eq hread ?_
    simp [entry_eq, relatedPlaces]
  rw [entryUris?, hown, hrelated]
  simp [filesOf]

/-- Each entry names the files of its diagnostic. -/
theorem readUris?_log {json : Json.Codec} (hjson : json.RoundTrips)
    (results : List AnalysisResult) : readUris? json (log json results) =
    some (results.flatMap fun r => r.diagnostics.map fun d => (filesOf r.filePath d).map uri) := by
  let entries : Json := .array (results.flatMap fun r => r.diagnostics.map (entry r.filePath))
  let uris := results.flatMap fun r => r.diagnostics.map fun d => (filesOf r.filePath d).map uri
  have hentries : Json.listOf entryUris? entries = some uris := by
    let about := results.flatMap fun r => r.diagnostics.map (r.filePath, ·)
    have hread : Json.listOf entryUris? (.array (about.map fun (file, d) => entry file d)) =
        some (about.map fun (file, d) => (filesOf file d).map uri) :=
      Json.listOf_map fun (file, d) _ => entryUris?_entry file d
    simpa only [about, List.map_flatMap, List.map_map, Function.comp_def] using hread
  have hrun (tool : Json) : (Json.object [("tool", tool), ("results", entries)]).required "results"
      (Json.listOf entryUris?) = some uris :=
    Json.required_eq (by simp) hentries
  have hruns (schema version tool : Json) :
      (Json.object [("$schema", schema), ("version", version), ("runs",
        .array ([tool].map fun tool => .object [("tool", tool), ("results", entries)]))]).required
          "runs" (Json.listOf fun run => run.required "results" (Json.listOf entryUris?)) =
        some [uris] :=
    Json.required_eq (v := .array ([tool].map fun tool => .object [("tool", tool),
        ("results", entries)])) (by simp)
      (Json.listOf_map (f := fun _ => uris) fun tool _ => hrun tool)
  have hrules {depth : Nat} : Json.Plain (depth + 3) (.ofList ruleDescription Rule.all) :=
    Json.plain_ofList fun rule _ => plain_ruleDescription rule
  unfold readUris? log
  rw [hjson.pretty, Option.bind_eq_bind, Option.bind_some]
  · refine Option.bind_eq_some_iff.2 ⟨[uris], hruns _ _ _, ?_⟩
    rw [List.flatten_singleton]
  · apply Json.Plain.object
    simp only [List.forall_mem_cons]
    refine ⟨.string _, .string _, .array ?_, List.forall_mem_nil _⟩
    refine List.forall_mem_singleton.2 (.object ?_)
    simp only [List.forall_mem_cons]
    refine ⟨.object (List.forall_mem_singleton.2 (.object ?_)), .array ?_, List.forall_mem_nil _⟩
    · simp only [List.forall_mem_cons]
      exact ⟨.string _, .string _, .string _, hrules, List.forall_mem_nil _⟩
    · intro item hitem
      obtain ⟨r, -, hitem⟩ := List.mem_flatMap.1 hitem
      obtain ⟨d, -, rfl⟩ := List.mem_map.1 hitem
      exact plain_entry r.filePath d

/-! ## Files told apart -/

/-- A reader of the log finds the URI of each file.  Different paths have different URIs,
backslashes being slashes, unless one is the other with a slash before it. -/
theorem log_tells_apart (json : Json.Codec) (hjson : json.RoundTrips)
    (results : List AnalysisResult) :
    readUris? json (log json results) = some (results.flatMap fun r =>
      r.diagnostics.map fun d => (filesOf r.filePath d).map uri) ∧
    (∀ p q : Path,
      (uri p = uri q ↔
        p.slashed = q.slashed ∨ p.slashed.Roots q.slashed ∨ q.slashed.Roots p.slashed) ∧
      (p.slashed.same q.slashed = false → ¬p.slashed.Roots q.slashed →
        ¬q.slashed.Roots p.slashed → uri p ≠ uri q)) ∧
    ∀ p : Path, '\\' ∉ p.text.toList → p.slashed = p :=
  ⟨readUris?_log hjson results, fun p q => ⟨uri_eq_iff p q, uri_ne⟩,
    fun _ => Path.slashed_eq_self⟩

/-- A file with one diagnostic. -/
def oneFinding (file : Path) : AnalysisResult :=
  ⟨file, [{ rule := .testClassShouldBeValid, severity := .error, message := ""
            location := ⟨1, 1, none, none, none⟩, additionalLocations := [], properties := []
            suggestion := none, fix := none }], ⟨0, 0, 0, 0⟩⟩

/-- Two files in one directory, written with either slash, and an absolute path like one of
them. -/
theorem log_tells_apart_siblings :
    Json.Codec.strict.RoundTrips ∧
      readUris? .strict (log .strict
          [oneFinding ⟨"src\\A.cs"⟩, oneFinding ⟨"src/B.cs"⟩, oneFinding ⟨"//src/A.cs"⟩]) =
        some [[uri ⟨"src\\A.cs"⟩], [uri ⟨"src/B.cs"⟩], [uri ⟨"//src/A.cs"⟩]] ∧
      uri ⟨"src\\A.cs"⟩ ≠ uri ⟨"src/B.cs"⟩ ∧ uri ⟨"src\\A.cs"⟩ ≠ uri ⟨"//src/A.cs"⟩ := by
  obtain ⟨hread, happart, -⟩ := log_tells_apart .strict Json.Codec.roundTrips_strict
    [oneFinding ⟨"src\\A.cs"⟩, oneFinding ⟨"src/B.cs"⟩, oneFinding ⟨"//src/A.cs"⟩]
  have hapart {p q : Path} (hdifferent : p.slashed.same q.slashed = false)
      (htext : q.slashed.text ≠ "/" ++ p.slashed.text)
      (htext' : p.slashed.text ≠ "/" ++ q.slashed.text) : uri p ≠ uri q :=
    (happart p q).2 hdifferent (fun h => htext h.2) fun h => htext' h.2
  exact ⟨Json.Codec.roundTrips_strict, hread,
    hapart (by decide +kernel) (by decide +kernel) (by decide +kernel),
    hapart (by decide +kernel) (by decide +kernel) (by decide +kernel)⟩

/-- Three different files, and one URI for all of them. -/
theorem uris_coincide :
    let results := [oneFinding ⟨"a\\b.cs"⟩, oneFinding ⟨"a/b.cs"⟩, oneFinding ⟨"/a/b.cs"⟩]
    (results.map (·.filePath)).Pairwise (fun p q => p.same q = false) ∧
      readUris? .strict (log .strict results) =
        some [["file:///a/b.cs"], ["file:///a/b.cs"], ["file:///a/b.cs"]] := by
  intro results
  refine ⟨by decide +kernel, ?_⟩
  rw [readUris?_log Json.Codec.roundTrips_strict]
  decide +kernel

end Report.Sarif

end TestLint
