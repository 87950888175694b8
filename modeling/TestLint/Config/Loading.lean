import TestLint.Config.Basic
import TestLint.Files.View
import TestLint.Glob.PatternSet

/-!
# Finding and loading configurations

A configuration is given by its path or searched from the working directory
upwards.  It may extend another one, which may extend a third; a chain that
comes back to one of its files is an error.
-/

namespace TestLint

def configFileName : String := ".mstestlintrc.json"

/-- The configuration that a project starts with. -/
def starterConfig : String :=
  "\x7b
  \"rules\": \x7b
    \"MSTEST0064\": \"warning\",
    \"MSTEST0015\": \"off\",
    \"MSTEST0029\": \"off\"
  \x7d,
  \"ignore\": [
    \"**/bin/**\",
    \"**/obj/**\"
  ],
  \"overrides\": []
\x7d
"

/-- Why a configuration cannot be loaded. -/
inductive ConfigError where
  | notFound (path : Path)
  | circular (path : Path)
  | unreadable (path : Path) (reason : FileError)
  | invalid (path : Path)
  | baseNotFound (path origin : Path)
  | badIgnored (reason : PatternSet.Error)
  deriving DecidableEq, Repr, Inhabited

namespace ConfigError

def message : ConfigError → String
  | .notFound path => "Config file not found: " ++ path.text
  | .circular path => "Circular extends detected in config: " ++ path.text
  | .unreadable path _ => "Failed to read config: " ++ path.text
  | .invalid path => "Invalid JSON in config: " ++ path.text
  | .baseNotFound path origin =>
    "Extended config not found: " ++ path.text ++ " (referenced from " ++ origin.text ++ ")"
  | .badIgnored reason => reason.message

/-- The error in words, followed by what it was caused by. -/
def causes (e : ConfigError) : List String :=
  match e with
  | .unreadable _ reason => [e.message, reason.message]
  | _ => [e.message]

end ConfigError

namespace Config

def ignoredBy (patterns : List String) : Except ConfigError PatternSet :=
  (PatternSet.ofPatterns patterns).mapError .badIgnored

/-- The path of the configuration that one at `path` extends, as it is written
there: beside it, with the usual extension where none is written. -/
def basePath (path : Path) (written : String) : Path :=
  let target := (path.parent?.getD ⟨"."⟩).join ⟨written⟩
  if target.extension?.isNone then target.withExtension "json" else target

section

variable (json : Json.Codec) (view : FileView)

/-- The configuration at a path on top of those it extends, `visited` being the
files that extend it. Every step visits a new file, so `fuel` need not exceed
the number of files and one. -/
def loadChain : Nat → List (List String) → Path → Except ConfigError Config
  | 0, _, path => .error (.circular path)
  | fuel + 1, visited, path =>
    match view.resolve path with
    | .error reason => .error (.unreadable path reason)
    | .ok place =>
      if visited.contains place.names then
        .error (.circular path)
      else
        match place.node.content with
        | .error reason => .error (.unreadable path reason)
        | .ok text =>
          match Config.read? json text with
          | none => .error (.invalid path)
          | some config =>
            match config.base with
            | none => .ok config
            | some written =>
              let target := basePath path written
              if view.pathExists target then
                (loadChain fuel (place.names :: visited) target).map
                  ({ config with base := none } : Config).extending
              else
                .error (.baseNotFound target path)

def loadFile (path : Path) : Except ConfigError Config :=
  loadChain json view (view.files.length + 1) [] path

end

variable (json : Json.Codec) (tree : FileTree)

/-- The configuration file that is used without being named: the nearest one in
a directory or above it. -/
def find? (workDir : Path) : Option Path :=
  (workDir.ancestors.map fun dir => dir.join ⟨configFileName⟩).find? tree.pathExists

/-- The configuration of a run: the one at the given path, seen from the working
directory, or else the one that is found; if there is none, the empty one. -/
def load (workDir : Path) (custom : Option Path) : Except ConfigError Config :=
  match custom with
  | some written =>
    let path := workDir.join written
    if tree.pathExists path then loadFile json tree.view path else .error (.notFound path)
  | none =>
    match find? tree workDir with
    | some path => loadFile json tree.view path
    | none => .ok .empty

end Config

end TestLint
