import TestLint.Json.Codec
import TestLint.Summary

/-!
# The JSON form of results

Results as JSON values and back.  Fields that are empty are left out when
writing and may be missing when reading, so that reading undoes writing; a
place without an end is written with `null` ends.
-/

namespace TestLint

/-- A field that is written only if it has something to say. -/
def fieldIf (present : Bool) (key : String) (value : Json) : List (String × Json) :=
  if present then [(key, value)] else []

namespace Location

def toJson (loc : Location) : Json :=
  .object <|
    [("line", .ofNat loc.line), ("column", .ofNat loc.column),
      ("endLine", .ofOption .ofNat loc.endLine), ("endColumn", .ofOption .ofNat loc.endColumn)] ++
    fieldIf loc.file.isSome "file" (.ofOption (fun p => .string p.text) loc.file)

def ofJson? (value : Json) : Option Location := do
  let v ← value.record? 4 ["line", "column", "endLine", "endColumn", "file"]
  let line ← v.required "line" Json.word?
  let column ← v.required "column" Json.word?
  let endLine ← v.optional "endLine" Json.word?
  let endColumn ← v.optional "endColumn" Json.word?
  let file ← v.optional "file" Json.text?
  some ⟨line, column, endLine, endColumn, file.map Path.mk⟩

end Location

namespace TextEdit

def toJson (e : TextEdit) : Json :=
  .object [("startLine", .ofNat e.startLine), ("startColumn", .ofNat e.startColumn),
    ("endLine", .ofNat e.endLine), ("endColumn", .ofNat e.endColumn),
    ("replacement", .string e.replacement)]

def ofJson? (value : Json) : Option TextEdit := do
  let v ← value.record? 5 ["startLine", "startColumn", "endLine", "endColumn", "replacement"]
  let startLine ← v.required "startLine" Json.word?
  let startColumn ← v.required "startColumn" Json.word?
  let endLine ← v.required "endLine" Json.word?
  let endColumn ← v.required "endColumn" Json.word?
  let replacement ← v.required "replacement" Json.text?
  some ⟨startLine, startColumn, endLine, endColumn, replacement⟩

end TextEdit

namespace Fix

def toJson (f : Fix) : Json :=
  .object [("description", .string f.description), ("edits", .ofList TextEdit.toJson f.edits)]

def ofJson? (value : Json) : Option Fix := do
  let v ← value.record? 2 ["description", "edits"]
  let description ← v.required "description" Json.text?
  let edits ← v.required "edits" (Json.listOf TextEdit.ofJson?)
  some ⟨description, edits⟩

end Fix

def propertiesToJson (properties : List (String × String)) : Json :=
  .object (properties.map fun (key, value) => (key, .string value))

namespace Diagnostic

def toJson (d : Diagnostic) : Json :=
  .object <|
    [("rule", .string d.rule.id), ("severity", .string d.severity.name),
      ("message", .string d.message), ("location", d.location.toJson)] ++
    fieldIf (!d.additionalLocations.isEmpty) "additionalLocations"
      (.ofList Location.toJson d.additionalLocations) ++
    fieldIf (!d.properties.isEmpty) "properties" (propertiesToJson d.properties) ++
    fieldIf d.suggestion.isSome "suggestion" (.ofOption .string d.suggestion) ++
    fieldIf d.fix.isSome "fix" (.ofOption Fix.toJson d.fix)

def ofJson? (value : Json) : Option Diagnostic := do
  let v ← value.record? 4
    ["rule", "severity", "message", "location", "additionalLocations", "properties",
      "suggestion", "fix"]
  let rule ← v.required "rule" fun r => r.choice? >>= Rule.ofId?
  let severity ← v.required "severity" fun s => s.choice? >>= Severity.ofName?
  let message ← v.required "message" Json.text?
  let location ← v.required "location" Location.ofJson?
  let additionalLocations ←
    v.withDefault "additionalLocations" [] (Json.listOf Location.ofJson?)
  let properties ← v.withDefault "properties" [] (Json.mapOf Json.text?)
  let suggestion ← v.optional "suggestion" Json.text?
  let fix ← v.optional "fix" Fix.ofJson?
  let ordered := properties.foldl (fun kept (key, text) => insertByName key text kept) []
  some ⟨⟨location, message, additionalLocations, ordered, suggestion, fix⟩, rule, severity⟩

end Diagnostic

namespace FileStats

def toJson (s : FileStats) : Json :=
  .object [("testClasses", .ofNat s.testClasses), ("testMethods", .ofNat s.testMethods),
    ("dataRows", .ofNat s.dataRows), ("assertions", .ofNat s.assertions)]

def ofJson? (value : Json) : Option FileStats := do
  let v ← value.record? 4 ["testClasses", "testMethods", "dataRows", "assertions"]
  let testClasses ← v.required "testClasses" Json.word?
  let testMethods ← v.required "testMethods" Json.word?
  let dataRows ← v.required "dataRows" Json.word?
  let assertions ← v.required "assertions" Json.word?
  some ⟨testClasses, testMethods, dataRows, assertions⟩

end FileStats

namespace AnalysisResult

def toJson (r : AnalysisResult) : Json :=
  .object [("filePath", .string r.filePath.text),
    ("diagnostics", .ofList Diagnostic.toJson r.diagnostics), ("stats", r.stats.toJson)]

def ofJson? (value : Json) : Option AnalysisResult := do
  let v ← value.record? 3 ["filePath", "diagnostics", "stats"]
  let filePath ← v.required "filePath" Json.text?
  let diagnostics ← v.required "diagnostics" (Json.listOf Diagnostic.ofJson?)
  let stats ← v.required "stats" FileStats.ofJson?
  some ⟨⟨filePath⟩, diagnostics, stats⟩

end AnalysisResult

namespace Report

/-- The two layouts of a JSON report. -/
inductive Layout where
  | compact
  | pretty
  deriving DecidableEq, Repr, Inhabited

section

variable (json : Json.Codec)

def Layout.render : Layout → Json → String
  | .compact => json.compact
  | .pretty => json.pretty

/-- The report of one file. -/
def single (layout : Layout) (result : AnalysisResult) : String :=
  layout.render json result.toJson

/-- The report of all files. -/
def many (layout : Layout) (results : List AnalysisResult) : String :=
  layout.render json (.ofList AnalysisResult.toJson results)

/-- The report of the files with diagnostics, and the totals of the run. -/
def withSummary (layout : Layout) (results : List AnalysisResult) (s : Summary) : String :=
  layout.render json <| .object
    [("results", .ofList AnalysisResult.toJson (results.filter (!·.diagnostics.isEmpty))),
     ("summary", .object
       [("filesAnalyzed", .ofNat s.files), ("testClasses", .ofNat s.testClasses),
        ("testMethods", .ofNat s.testMethods), ("errors", .ofNat s.errors),
        ("warnings", .ofNat s.warnings), ("infos", .ofNat s.infos),
        ("fixable", .ofNat s.fixable), ("duplicates", .ofNat s.duplicates)])]

/-- The results that the text of a report of all files gives. -/
def read? (text : String) : Option (List AnalysisResult) :=
  json.readList? AnalysisResult.ofJson? text

end

end Report

end TestLint
