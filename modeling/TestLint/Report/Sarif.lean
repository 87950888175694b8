import TestLint.Report.Json

/-!
# The SARIF form of results

A log with one run: the rules with their descriptions, then one entry per
diagnostic.  Files are named by `file:` URIs in which backslashes are slashes.
-/

namespace TestLint.Report.Sarif

def level : Severity → String
  | .error => "error"
  | .warning => "warning"
  | .info => "note"

/-- The URI of a file. -/
def uri (p : Path) : String :=
  let path := Text.onString (List.map fun c => if c == '\\' then '/' else c) p.text
  if Text.startsWith path "/" then "file://" ++ path else "file:///" ++ path

def message (text : String) : Json :=
  .object [("text", .string text)]

def ruleDescription (rule : Rule) : Json :=
  .object
    [("id", .string rule.id),
     ("name", .string rule.name),
     ("shortDescription", message rule.title),
     ("defaultConfiguration", .object
       [("enabled", .bool rule.enabledByDefault),
        ("level", .string (level rule.defaultSeverity))]),
     ("properties", .object [("category", .string rule.category.name)])]

/-- A field that is left out when there is no value. -/
def optionalField (key : String) (value : Option Nat) : List (String × Json) :=
  match value with
  | some n => [(key, .ofNat n)]
  | none => []

/-- A place in a file; the file of the result where the place names none. -/
def physicalLocation (file : Path) (loc : Location) : Json :=
  .object
    [("artifactLocation", .object [("uri", .string (uri (loc.file.getD file)))]),
     ("region", .object <|
       [("startLine", .ofNat loc.line), ("startColumn", .ofNat loc.column)] ++
       optionalField "endLine" loc.endLine ++ optionalField "endColumn" loc.endColumn)]

def entry (file : Path) (d : Diagnostic) : Json :=
  let related := d.additionalLocations.zipIdx.map fun (loc, i) =>
    Json.object [("id", .ofNat (i + 1)), ("physicalLocation", physicalLocation file loc)]
  .object <|
    [("ruleId", .string d.rule.id),
     ("ruleIndex", .ofNat (Rule.all.findIdx (· = d.rule))),
     ("level", .string (level d.severity)),
     ("message", message d.message),
     ("locations", .array [.object [("physicalLocation", physicalLocation file d.location)]])] ++
    (if related.isEmpty then [] else [("relatedLocations", .array related)]) ++
    (if d.properties.isEmpty then [] else
      [("properties", .object (d.properties.map fun (key, value) => (key, .string value)))])

def toolName : String := "mstest-lint"

def toolVersion : String := "0.4.0"

def log (json : Json.Codec) (results : List AnalysisResult) : String :=
  json.pretty <| .object
    [("$schema", .string
      "https://raw.githubusercontent.com/oasis-tcs/sarif-spec/master/Schemata/sarif-schema-2.1.0.json"),
     ("version", .string "2.1.0"),
     ("runs", .array [.object
       [("tool", .object [("driver", .object
          [("name", .string toolName),
           ("version", .string toolVersion),
           ("informationUri", .string
             "https://learn.microsoft.com/dotnet/core/testing/mstest-analyzers/overview"),
           ("rules", .ofList ruleDescription Rule.all)])]),
        ("results", .array (results.flatMap fun r => r.diagnostics.map (entry r.filePath)))]])]

end TestLint.Report.Sarif
