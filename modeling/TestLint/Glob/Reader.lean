import TestLint.Glob.Token

/-!
# Reading a glob

A pattern is read character by character.  What the next character continues
is the mode of the reading; the branches around it wait in a stack.
-/

namespace TestLint.Glob

/-- Why a text is no pattern. -/
inductive Error where
  | unclosedClass
  | reversedRange
  | unopenedChoice
  | unclosedChoice
  | danglingEscape
  deriving DecidableEq, Repr, Inhabited

/-- A choice that is not closed yet. -/
structure OpenChoice where
  /-- The tokens before the choice, the last one first. -/
  before : List Token
  /-- The branches that are finished, the last one first. -/
  branches : List (List Token)
  deriving Inhabited

/-- A class that is not closed yet. -/
structure OpenClass where
  negated : Bool
  /-- The ranges of characters, the last one first. -/
  ranges : List (Char × Char)
  /-- A hyphen after the last range waits for its upper end. -/
  inRange : Bool
  deriving DecidableEq, Repr, Inhabited

/-- What the next character continues. -/
inductive Mode where
  | plain
  /-- One star has been read and not yet been taken in. -/
  | oneStar
  /-- Two stars have been read and not yet been taken in. -/
  | twoStars
  | escaped
  /-- The opening bracket of a class has been read. -/
  | classStart
  | inClass (k : OpenClass)
  deriving DecidableEq, Repr, Inhabited

/-- The state in which a pattern is read. -/
structure Reading where
  mode : Mode
  /-- The tokens of the branch at hand, the last one first. -/
  tokens : List Token
  /-- The choices around it, the innermost first. -/
  choices : List OpenChoice
  /-- The character before those that are not yet taken in. -/
  previous : Option Char
  deriving Inhabited

/-- The byte ranges of a range of characters. Of characters of several bytes
the inner bytes count one by one. -/
def byteRanges (first last : Char) : List ByteClassRange :=
  let single (b : UInt8) : ByteClassRange := ⟨b, b⟩
  if first = last then
    (bytesOf first).map single
  else
    let lower := bytesOf first
    let upper := bytesOf last
    lower.dropLast.map single ++
      (match lower.getLast?, upper.head? with
        | some a, some b => [⟨a, b⟩]
        | _, _ => []) ++
      upper.tail.map single

namespace OpenClass

/-- The token of the class; a hyphen that waits for nothing is a member. -/
def toToken (k : OpenClass) : Token :=
  let ranges := if k.inRange then ('-', '-') :: k.ranges else k.ranges
  .byteClass k.negated (ranges.reverse.flatMap fun (a, b) => byteRanges a b)

/-- Takes in a character: the upper end of a range, or a member. -/
def add (k : OpenClass) (c : Char) : Except Error OpenClass :=
  match k.inRange, k.ranges with
  | true, (a, _) :: rest =>
    if c < a then .error .reversedRange
    else .ok { k with ranges := (a, c) :: rest, inRange := false }
  | _, ranges => .ok { k with ranges := (c, c) :: ranges, inRange := false }

end OpenClass

namespace Reading

def start : Reading := ⟨.plain, [], [], none⟩

/-- The state with one more token, its last character being `c`. -/
def push (r : Reading) (t : Token) (c : Char) : Reading :=
  { r with mode := .plain, tokens := t :: r.tokens, previous := some c }

/-- The state with one star taken in. -/
def pushStar (r : Reading) : Reading :=
  r.push .anyBytes '*'

/-- The token of directories that two stars stand for, given the character
after them: they begin a branch, or a slash or the start of a branch is before
them, and a slash or the end is behind them. -/
def directories? (r : Reading) (next : Option Char) : Option Token :=
  let inChoice := !r.choices.isEmpty
  if r.tokens.isEmpty then
    if next = none ∨ next = some '/' then some .leadingDirectories else none
  else if r.previous == some '/' ||
      (inChoice && (r.previous == some ',' || r.previous == some '\x7b')) then
    match next with
    | none => some .allBelow
    | some c =>
      if c == '/' then some .innerDirectories
      else if (c == ',' || c == '\x7d') && inChoice then some .allBelow
      else none
  else
    none

/-- Puts directories in the place of the slash before them; a leading or final
token of that kind takes them in. -/
def pushDirectories (r : Reading) (t : Token) (c : Char) : Reading :=
  match r.tokens with
  | [] => r.push t c
  | .leadingDirectories :: rest => { r with tokens := rest }.push .leadingDirectories c
  | .allBelow :: rest => { r with tokens := rest }.push .allBelow c
  | _ :: rest => { r with tokens := rest }.push t c

/-- Takes in a character that continues nothing. -/
def plainStep (r : Reading) (c : Char) : Except Error Reading :=
  match c with
  | '?' => .ok (r.push .anyByte c)
  | '*' => .ok { r with mode := .oneStar }
  | '[' => .ok { r with mode := .classStart }
  | '\\' => .ok { r with mode := .escaped }
  | '\x7b' =>
    .ok { r with tokens := [], choices := ⟨r.tokens, []⟩ :: r.choices, previous := some c }
  | '\x7d' =>
    match r.choices with
    | [] => .error .unopenedChoice
    | choice :: outer =>
      let branches := (r.tokens.reverse :: choice.branches).reverse
      .ok { r with
        tokens := .choice branches :: choice.before, choices := outer, previous := some c }
  | ',' =>
    match r.choices with
    | [] => .ok (r.push (.literal ',') c)
    | choice :: outer =>
      let choice := { choice with branches := r.tokens.reverse :: choice.branches }
      .ok { r with tokens := [], choices := choice :: outer, previous := some c }
  | c => .ok (r.push (.literal c) c)

/-- Takes in a character of a class that is not the first one. -/
def classStep (r : Reading) (k : OpenClass) (c : Char) : Except Error Reading :=
  if c == ']' then
    .ok (r.push k.toToken c)
  else if c == '-' && !k.inRange then
    .ok { r with mode := .inClass { k with inRange := true } }
  else
    (k.add c).map fun k => { r with mode := .inClass k }

/-- Takes in a character. The first member of a class may be a closing bracket
or a hyphen. -/
def step (r : Reading) (c : Char) : Except Error Reading :=
  match r.mode with
  | .plain => r.plainStep c
  | .escaped => .ok (r.push (.literal c) c)
  | .oneStar => if c == '*' then .ok { r with mode := .twoStars } else r.pushStar.plainStep c
  | .twoStars =>
    match r.directories? (some c) with
    | some t =>
      if c == '/' then .ok (r.pushDirectories t c) else (r.pushDirectories t '*').plainStep c
    | none => r.pushStar.pushStar.plainStep c
  | .classStart =>
    if c == '!' || c == '^' then
      .ok { r with mode := .inClass ⟨true, [], false⟩ }
    else
      .ok { r with mode := .inClass ⟨false, [(c, c)], false⟩ }
  | .inClass k =>
    if k.ranges.isEmpty then
      .ok { r with mode := .inClass { k with ranges := [(c, c)] } }
    else
      r.classStep k c

def finish (r : Reading) : Except Error (List Token) :=
  let closed (r : Reading) : Except Error (List Token) :=
    if r.choices.isEmpty then .ok r.tokens.reverse else .error .unclosedChoice
  match r.mode with
  | .plain => closed r
  | .escaped => .error .danglingEscape
  | .oneStar => closed r.pushStar
  | .twoStars =>
    match r.directories? none with
    | some t => closed (r.pushDirectories t '*')
    | none => closed r.pushStar.pushStar
  | .classStart | .inClass _ => .error .unclosedClass

end Reading

def read (pattern : String) : Except Error (List Token) := do
  (← pattern.toList.foldlM Reading.step .start).finish

end TestLint.Glob
