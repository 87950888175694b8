import TestLint.Rule
import TestLint.Text.Word

/-!
# Directives in a source

A source can silence rules: between `#pragma warning disable` and `restore`
lines, or by a comment for its own or the next line.  A line is first read
into a directive; the directives of all lines are then replayed in order, the
open ranges being closed by a restoring line, which they still cover.
-/

namespace TestLint

/-- Which rules a directive is about. -/
inductive RuleScope where
  | everything
  | only (rules : List Rule)
  deriving DecidableEq, Repr, Inhabited

def RuleScope.covers (s : RuleScope) (rule : Rule) : Bool :=
  match s with
  | .everything => true
  | .only rules => rules.contains rule

/-- What a line says about rules. -/
inductive Directive where
  | disable (scope : RuleScope)
  | restore (scope : RuleScope)
  /-- A comment about the next line. -/
  | ignoreNext (scope : RuleScope)
  /-- A comment about its own line. -/
  | ignoreHere (scope : RuleScope)
  deriving DecidableEq, Repr, Inhabited

namespace Directive

/-- The known rules among the words of a list that commas and blanks part. -/
def rulesIn (cs : List Char) : List Rule :=
  let words := cs.splitOnP fun c => c == ',' || Text.isBlank c
  ((words.filter (!·.isEmpty)).filterMap fun w => Rule.ofText? (String.ofList w)).eraseDups

/-- At least one blank, and the text after the blanks. -/
def blanks? (cs : List Char) : Option (List Char) :=
  match cs with
  | c :: _ => if Text.isBlank c then some (Text.trimStart cs) else none
  | [] => none

/-- A word that ends where it is written, and the text after it. -/
def word? (word cs : List Char) : Option (List Char) := do
  let rest ← Text.dropStart? word cs
  match rest with
  | c :: _ => if Text.isWordChar c then none else some rest
  | [] => some rest

/-- The text up to a comment. -/
def beforeComment (cs : List Char) : List Char :=
  match Text.cut? ['/', '/'] cs with
  | some (before, _) => before
  | none => cs

/-- The scope of a list: the rules it names; everything if there is nothing in it. -/
def listScope (listed : List Char) : RuleScope :=
  if (listed.splitOn ',').all fun w => (Text.trim w).isEmpty then
    .everything
  else
    .only (rulesIn listed)

/-- What a pragma says, from its own word on. -/
def ofPragma? (cs : List Char) : Option Directive :=
  match word? "disable".toList cs with
  | some tail => some (.disable (listScope (beforeComment tail)))
  | none =>
    (word? "restore".toList cs).map fun tail => .restore (listScope (beforeComment tail))

/-- The pragma that a line is, if it is one. -/
def pragma? (line : List Char) : Option Directive := do
  let rest ← Text.dropStart? ['#'] (Text.trimStart line)
  let rest ← Text.dropStart? "pragma".toList (Text.trimStart rest)
  let rest ← blanks? rest
  let rest ← Text.dropStart? "warning".toList rest
  let rest ← blanks? rest
  ofPragma? rest

/-- What a comment lists, without blanks and the ends of block comments behind it. -/
def commentList (cs : List Char) : List Char :=
  Text.trim (Text.dropEnds ['*', '/'] (Text.trim cs))

/-- The scope of a comment: the known rules it lists, everything if there are none. -/
def commentScope (cs : List Char) : RuleScope :=
  let rules := rulesIn (commentList cs)
  if rules.isEmpty then .everything else .only rules

/-- The words that start a comment about its own line. -/
def hereMark : List Char := "mstest-lint-ignore".toList

/-- The words that start a comment about the next line. -/
def nextMark : List Char := "mstest-lint-ignore-next-line".toList

/-- The comment directive of a line. Of the two marks the one for the next line counts. -/
def comment? (line : List Char) : Option Directive :=
  match Text.cut? nextMark line with
  | some (_, rest) => some (.ignoreNext (commentScope rest))
  | none => (Text.cut? hereMark line).map fun (_, rest) => .ignoreHere (commentScope rest)

/-- What a line says.  A pragma holds no comment directive. -/
def ofLine? (line : List Char) : Option Directive :=
  match pragma? line with
  | some d => some d
  | none => comment? line

end Directive

/-- Lines in which a scope is silenced, both ends included. -/
structure SilencedRange where
  first : Nat
  last : Nat
  scope : RuleScope
  deriving DecidableEq, Repr, Inhabited

/-- What the directives of a file silence. -/
structure Directives where
  /-- The scope of the comment for a line; the latest one for the line comes first. -/
  comments : List (Nat × RuleScope)
  ranges : List SilencedRange
  deriving DecidableEq, Repr, Inhabited

namespace Directives

/-- The comment for the line covers the rule. -/
def commentSilences (d : Directives) (line : Nat) (rule : Rule) : Bool :=
  match d.comments.find? (·.1 == line) with
  | some (_, scope) => scope.covers rule
  | none => false

/-- The line lies in a range that covers the rule. -/
def rangeSilences (d : Directives) (line : Nat) (rule : Rule) : Bool :=
  d.ranges.any fun r => r.first ≤ line && line ≤ r.last && r.scope.covers rule

/-- The rule is silenced in the line. -/
def silences (d : Directives) (line : Nat) (rule : Rule) : Bool :=
  d.commentSilences line rule || d.rangeSilences line rule

/-- The state of the replay: what has been gathered, and what is open. -/
structure Replay where
  gathered : Directives
  /-- The line since which everything is silenced. -/
  openAll : Option Nat
  /-- The rules that are silenced one by one, each with the line since which. -/
  openRules : List (Rule × Nat)
  deriving DecidableEq, Repr, Inhabited

namespace Replay

def start : Replay := ⟨⟨[], []⟩, none, []⟩

def addRanges (r : Replay) (ranges : List SilencedRange) : Replay :=
  { r with gathered := { r.gathered with ranges := r.gathered.ranges ++ ranges } }

def addComment (r : Replay) (line : Nat) (scope : RuleScope) : Replay :=
  { r with gathered := { r.gathered with comments := (line, scope) :: r.gathered.comments } }

/-- Closes all that is open. -/
def close (r : Replay) (line : Nat) : Replay :=
  let all := r.openAll.toList.map fun first => ⟨first, line, .everything⟩
  let each := r.openRules.map fun (rule, first) => ⟨first, line, .only [rule]⟩
  { r.addRanges (all ++ each) with openAll := none, openRules := [] }

def step (r : Replay) (line : Nat) : Directive → Replay
  | .disable .everything => { r with openAll := r.openAll <|> some line }
  | .disable (.only rules) =>
    let fresh := rules.filter fun rule => !r.openRules.any (·.1 == rule)
    { r with openRules := r.openRules ++ fresh.map (·, line) }
  | .restore .everything => r.close line
  | .restore (.only rules) =>
    let (closed, kept) := r.openRules.partition fun (rule, _) => rules.contains rule
    { r.addRanges (closed.map fun (rule, first) => ⟨first, line, .only [rule]⟩) with
      openRules := kept }
  | .ignoreNext scope => r.addComment (line + 1) scope
  | .ignoreHere scope => r.addComment line scope

end Replay

/-- What the lines silence, the first having the given number. -/
def replay (r : Replay) (line : Nat) : List (Option Directive) → Replay
  | [] => r
  | none :: rest => replay r (line + 1) rest
  | some d :: rest => replay (r.step line d) (line + 1) rest

/-- What the directives of a source silence; a range that no line closes goes
on to the last line. -/
def ofSource (source : List Char) : Directives :=
  let lines := Text.lines source
  ((replay .start 1 (lines.map Directive.ofLine?)).close (max lines.length 1)).gathered

end Directives

end TestLint
