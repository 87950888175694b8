import TestLint.Glob.Token

/-!
# Globs as regular expressions

The regular expression that a pattern stands for, over bytes, and how deep its
groups, choices, sequences, repetitions and classes are nested.  Patterns are
matched without it; it bounds which patterns a set takes and is shown for those
that it does not take.
-/

namespace TestLint.Glob

/-- The characters that mean something in a regular expression. -/
def expressionSigns : List Char :=
  "\\.+*?()|[]\x7b\x7d^$#&-~".toList

def byteExpression (b : UInt8) : List Char :=
  let c := Char.ofNat b.toNat
  if b ≥ 128 then
    ['\\', 'x', Nat.digitChar (b.toNat / 16), Nat.digitChar (b.toNat % 16)]
  else if expressionSigns.contains c then
    ['\\', c]
  else
    [c]

def ByteClassRange.expression (r : ByteClassRange) : List Char :=
  if r.first = r.last then byteExpression r.first
  else byteExpression r.first ++ '-' :: byteExpression r.last

mutual

def Token.expression : Token → List Char
  | .literal c => (bytesOf c).flatMap byteExpression
  | .anyByte => ['.']
  | .anyBytes => ".*".toList
  | .leadingDirectories => "(?:/?|.*/)".toList
  | .allBelow => "/.*".toList
  | .innerDirectories => "(?:/|/.*/)".toList
  | .byteClass negated ranges =>
    '[' :: (if negated then ['^'] else []) ++ ranges.flatMap ByteClassRange.expression ++ [']']
  | .choice branches =>
    if areVoid branches then [] else "(?:".toList ++ choiceExpression branches ++ [')']

def sequenceExpression : List Token → List Char
  | [] => []
  | t :: ts => t.expression ++ sequenceExpression ts

/-- The expressions of the branches that are not void, with bars between them. -/
def choiceExpression : List (List Token) → List Char
  | [] => []
  | branch :: others =>
    if isVoidBranch branch then choiceExpression others
    else if areVoid others then sequenceExpression branch
    else sequenceExpression branch ++ '|' :: choiceExpression others

end

def expression (tokens : List Token) : String :=
  String.ofList ("(?-u)^".toList ++ sequenceExpression tokens ++ ['$'])

/-- The number of items that a token adds to a sequence. -/
def Token.width : Token → Nat
  | .literal c => (bytesOf c).length
  | .allBelow => 2
  | .choice branches => if areVoid branches then 0 else 1
  | _ => 1

mutual

/-- How deep the expression of a token is nested. -/
def Token.depth : Token → Nat
  | .literal _ | .anyByte => 0
  | .anyBytes | .allBelow => 1
  | .leadingDirectories | .innerDirectories => 4
  | .byteClass _ ranges => if ranges.length > 1 then 2 else 1
  | .choice branches =>
    if areVoid branches then
      0
    else
      let several := (branches.filter fun branch => !isVoidBranch branch).length > 1
      1 + (if several then 1 else 0) + choiceDepth branches

/-- How deep the deepest of some tokens is nested. -/
def sequenceDepth : List Token → Nat
  | [] => 0
  | t :: ts => max t.depth (sequenceDepth ts)

/-- How deep the deepest of some branches is nested; one of several items is a
sequence. -/
def choiceDepth : List (List Token) → Nat
  | [] => 0
  | branch :: others =>
    let width := branch.foldl (fun width t => width + t.width) 0
    max ((if width > 1 then 1 else 0) + sequenceDepth branch) (choiceDepth others)

end

/-- The expression of a whole pattern, itself a sequence, is nested at most 250 deep. -/
def isShallow (tokens : List Token) : Bool :=
  1 + sequenceDepth tokens ≤ 250

end TestLint.Glob
