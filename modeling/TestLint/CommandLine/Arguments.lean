import TestLint.Path

/-!
# Command lines

What the arguments of a command line ask for.  Options stand anywhere among the
other arguments and at most once each; after `--` there are no options.  The
value of an option follows it, or is joined to it by `=`.
-/

namespace TestLint.CommandLine

/-- An option of a command. -/
structure Switch where
  long : String
  short : Option Char
  takesValue : Bool
  deriving DecidableEq, Repr, Inhabited

/-- What has been read of a command line. -/
structure Given where
  /-- The options, with their values; an option without one has an empty value. -/
  options : List (String × String)
  operands : List String
  /-- Options are not read any more. -/
  closed : Bool
  deriving DecidableEq, Repr, Inhabited

namespace Given

def nothing : Given := ⟨[], [], false⟩

def has (g : Given) (option : String) : Bool :=
  g.options.any (·.1 == option)

def value? (g : Given) (option : String) : Option String :=
  g.options.lookup option

/-- One more option; none may be given twice. -/
def addOption? (g : Given) (option value : String) : Option Given :=
  if g.has option then none else some { g with options := g.options ++ [(option, value)] }

/-- One more operand; it may not be empty. -/
def addOperand? (g : Given) (operand : String) : Option Given :=
  if operand == "" then none else some { g with operands := g.operands ++ [operand] }

end Given

/-- What a command takes. -/
structure Usage where
  switches : List Switch
  /-- The most operands that it takes. -/
  operands : Nat
  /-- The option that ends the reading as soon as it is met. -/
  ending : Option String
  accepts : String → String → Bool

namespace Usage

variable (u : Usage)

def long? (name : String) : Option Switch :=
  u.switches.find? (·.long == name)

def short? (letter : Char) : Option Switch :=
  u.switches.find? (·.short == some letter)

def addOption? (g : Given) (s : Switch) (value : String) : Option Given :=
  if u.accepts s.long value then g.addOption? s.long value else none

def addOperand? (g : Given) (operand : String) : Option Given :=
  if g.operands.length < u.operands then g.addOperand? operand else none

def isOver (g : Given) : Bool :=
  u.ending.any g.has

/-- The options that a group of letters gives. -/
def readLetters (g : Given) : List Char → Option Given
  | [] => some g
  | letter :: rest => do
    let s ← u.short? letter
    if s.takesValue then none
    let g ← g.addOption? s.long ""
    if u.isOver g then some g else readLetters g rest

/-- The text can be the value of the option before it. -/
def canBeValue (text : List Char) : Bool :=
  text.head? ≠ some '-' || text == ['-']

/-- How an argument is written. -/
inductive Written where
  | close
  | long (name : String) (value : Option String)
  | letters (group : List Char)
  | plain
  deriving DecidableEq, Repr, Inhabited

def Written.ofArgument (argument : String) : Written :=
  match argument.toList with
  | ['-', '-'] => .close
  | '-' :: '-' :: option =>
    match Text.cut? ['='] option with
    | some (name, value) => .long (String.ofList name) (some (String.ofList value))
    | none => .long (String.ofList option) none
  | ['-'] => .plain
  | '-' :: group => .letters group
  | _ => .plain

/-- Reads arguments from left to right, up to the option that ends the reading;
`none` if they are not what the command takes. -/
def read (g : Given) : List String → Option Given
  | [] => some g
  | argument :: rest =>
    if g.closed then
      (u.addOperand? g argument).bind (read · rest)
    else
      match Written.ofArgument argument with
      | .close => read { g with closed := true } rest
      | .plain => (u.addOperand? g argument).bind (read · rest)
      | .letters group =>
        match u.readLetters g group with
        | some g => if u.isOver g then some g else read g rest
        | none => none
      | .long name value =>
        match u.long? name with
        | none => none
        | some s =>
          match value with
          | some value =>
            if s.takesValue then (u.addOption? g s value).bind (read · rest) else none
          | none =>
            if s.takesValue then
              match rest with
              | [] => none
              | value :: others =>
                if canBeValue value.toList then
                  (u.addOption? g s value).bind (read · others)
                else
                  none
            else
              match g.addOption? s.long "" with
              | some g => if u.isOver g then some g else read g rest
              | none => none

end Usage

/-! ## The commands -/

/-- How the results are printed. -/
inductive OutputForm where
  | console
  | json
  | sarif
  deriving DecidableEq, Repr, Inhabited

structure AnalysisOptions where
  form : OutputForm
  quiet : Bool
  verbose : Bool
  config : Option Path
  fix : Bool
  denyWarnings : Bool
  noColor : Bool
  deriving DecidableEq, Repr, Inhabited

/-- What a command line asks for. -/
inductive Command where
  | version
  | analyze (path : Option Path) (options : AnalysisOptions)
  | start (dir : Option Path)
  | rules (verbose : Bool)
  | suppress (diagnostics root : Path) (json : Bool)
  deriving DecidableEq, Repr, Inhabited

namespace Command

/-- A number of threads: a machine word, perhaps with a plus sign. -/
def isCount (text : String) : Bool :=
  let digits := match text.toList with
    | '+' :: digits => digits
    | digits => digits
  !digits.isEmpty && digits.all Char.isDigit &&
    digits.foldl (fun n c => 10 * n + (c.toNat - '0'.toNat)) 0 < Nat.pow 2 64

def analysisUsage : Usage where
  switches :=
    [⟨"json", some 'j', false⟩, ⟨"sarif", none, false⟩, ⟨"quiet", some 'q', false⟩,
     ⟨"verbose", some 'v', false⟩, ⟨"config", none, true⟩, ⟨"fix", none, false⟩,
     ⟨"deny-warnings", none, false⟩, ⟨"no-color", none, false⟩, ⟨"jobs", none, true⟩,
     ⟨"version", some 'V', false⟩]
  operands := 1
  ending := some "version"
  accepts option value := if option == "jobs" then isCount value else value != ""

/-- The analysis that has been asked for. -/
def ofAnalysis? (g : Given) : Option Command :=
  if g.has "version" then
    some .version
  else if g.has "json" && g.has "sarif" then
    none
  else
    let form : OutputForm :=
      if g.has "sarif" then .sarif else if g.has "json" then .json else .console
    some <| .analyze (g.operands.head?.map Path.mk)
      { form, quiet := g.has "quiet", verbose := g.has "verbose"
        config := (g.value? "config").map Path.mk
        fix := g.has "fix", denyWarnings := g.has "deny-warnings"
        noColor := g.has "no-color" }

def usage (switches : List Switch) (operands : Nat) : Usage where
  switches
  operands
  ending := none
  accepts _ value := value != ""

/-- What the arguments ask for; `none` if they are not understood. A word names a
command only where it comes first; behind an option it is an operand. -/
def ofArguments? : List String → Option Command
  | "init" :: rest => do
    let g ← (usage [⟨"dir", none, true⟩] 0).read .nothing rest
    some (.start ((g.value? "dir").map Path.mk))
  | "rules" :: rest => do
    let g ← (usage [⟨"verbose", some 'v', false⟩] 0).read .nothing rest
    some (.rules (g.has "verbose"))
  | "suppress" :: rest => do
    let g ← (usage [⟨"path", none, true⟩, ⟨"json", some 'j', false⟩] 1).read .nothing rest
    let diagnostics ← g.operands.head?
    some (.suppress ⟨diagnostics⟩ ⟨(g.value? "path").getD "."⟩ (g.has "json"))
  | arguments => do
    let g ← analysisUsage.read .nothing arguments
    ofAnalysis? g

end Command

end TestLint.CommandLine
