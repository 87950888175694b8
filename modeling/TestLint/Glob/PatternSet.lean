import TestLint.Glob.Expression
import TestLint.Glob.Matching

/-!
# Sets of patterns

A set of patterns matches what one of them matches, with one exception: of the
patterns that ask for a file name, by its text or by what it ends with, none
matches a path that ends in `..`, since such a path has no file name.
-/

namespace TestLint.Glob

/-- What a set compares with a path to see whether a pattern matches it. -/
inductive Criterion where
  /-- The path, its beginning or its end with a literal text. -/
  | text
  /-- The file name or its extension with a literal text. -/
  | fileName
  /-- The extension of the file name with a literal text, then the whole path. -/
  | extensionThenPath
  /-- The whole path. -/
  | path
  deriving DecidableEq, Repr, Inhabited

namespace Criterion

/-- The character that a token is, if it is literal. -/
def literal? : Token → Option Char
  | .literal c => some c
  | _ => none

/-- The text can be an extension: a dot, and neither a dot nor a slash behind it. -/
def isExtension : List Char → Bool
  | '.' :: rest => rest.all fun c => c != '.' && c != '/'
  | _ => false

/-- The criterion of a pattern that is a literal text, perhaps behind leading
directories and a star. -/
def ofLiteral (below starred : Bool) (written : List Char) : Criterion :=
  if starred && isExtension written then .fileName
  else if written.isEmpty || (starred && written == ['/']) then .path
  else if below && !starred && !written.contains '/' then .fileName
  else .text

/-- The tokens are a literal text before a last star, or before all that is below. -/
def isBeginning (tokens : List Token) : Bool :=
  match tokens.reverse with
  | .anyBytes :: before => !before.isEmpty && before.all fun t => (literal? t).isSome
  | .allBelow :: before => before.all fun t => (literal? t).isSome
  | _ => false

/-- The tokens end in a literal text with a dot and no slash behind that. -/
def endsWithExtension (tokens : List Token) : Bool :=
  let ending := (tokens.reverse.map literal?).takeWhile Option.isSome
  ending.find? (fun c => c == some '.' || c == some '/') == some (some '.')

def ofTokens (tokens : List Token) : Criterion :=
  let below := tokens.take 1 matches [.leadingDirectories]
  let rest := if below then tokens.drop 1 else tokens
  let starred := rest.take 1 matches [.anyBytes]
  let rest := if starred then rest.drop 1 else rest
  match rest.mapM literal? with
  | some written => ofLiteral below starred written
  | none =>
    if isBeginning tokens then .text
    else if endsWithExtension tokens then .extensionThenPath
    else .path

/-- The criterion asks for a file name. -/
def asksForName : Criterion → Bool
  | .fileName | .extensionThenPath => true
  | .text | .path => false

end Criterion

end Glob

/-- A set of patterns, each by its tokens. -/
structure PatternSet where
  members : List (List Glob.Token)
  deriving Repr, Inhabited

namespace PatternSet

/-- Why texts make no set of patterns. -/
inductive Error where
  | noPattern (text : String)
  /-- A pattern that ends in an extension is nested too deep. -/
  | deepExtension (expression : String)
  /-- A pattern for whole paths is nested too deep; its place among those patterns. -/
  | deepPath (index : Nat)
  deriving DecidableEq, Repr, Inhabited

def Error.message : Error → String
  | .noPattern text => "Invalid ignore pattern: " ++ text
  | .deepExtension expression =>
    "error parsing glob '" ++ expression ++ "': error parsing pattern 0"
  | .deepPath index => s!"error parsing pattern {index}"

def membersBy (s : PatternSet) (criterion : Glob.Criterion) : List (List Glob.Token) :=
  s.members.filter fun tokens => Glob.Criterion.ofTokens tokens == criterion

/-- What is nested too deep in the set. -/
def tooDeep? (s : PatternSet) : Option Error :=
  match (s.membersBy .extensionThenPath).find? (!Glob.isShallow ·) with
  | some tokens => some (.deepExtension (Glob.expression tokens))
  | none => ((s.membersBy .path).findIdx? (!Glob.isShallow ·)).map .deepPath

def ofPatterns (patterns : List String) : Except Error PatternSet := do
  let members ← patterns.mapM fun pattern =>
    (Glob.read pattern).mapError fun _ => .noPattern pattern
  let set : PatternSet := ⟨members⟩
  match set.tooDeep? with
  | some e => throw e
  | none => return set

/-- The path ends in `..`, which is no file name. -/
def endsInParent (p : Path) : Bool :=
  (p.text.toList.splitOn '/').getLast? == some ['.', '.']

def isMatch (s : PatternSet) (p : Path) : Bool :=
  s.members.any fun tokens =>
    !((Glob.Criterion.ofTokens tokens).asksForName && endsInParent p) &&
      Glob.tokensMatch tokens p.text

end PatternSet

end TestLint
