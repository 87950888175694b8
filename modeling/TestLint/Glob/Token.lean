/-!
# Glob patterns

Patterns for paths, matched against the whole text of a path, byte by byte.
`?` is any one byte and `*` any bytes, slashes included; `[…]` is a class of
bytes; `{a,b}` is a choice; a backslash takes the next character as it is.
`**` between slashes, or at the beginning or end, stands for any directories.
This module holds the tokens that a pattern is read into.
-/

namespace TestLint.Glob

/-- A range of bytes, both ends included. -/
structure ByteClassRange where
  first : UInt8
  last : UInt8
  deriving DecidableEq, Repr, Inhabited

/-- A part of a pattern. -/
inductive Token where
  | literal (c : Char)
  | anyByte
  | anyBytes
  /-- `**/` at the beginning: nothing, or directories up to a slash. -/
  | leadingDirectories
  /-- `/**` at the end: all that is below. -/
  | allBelow
  /-- `/**/`: a slash, or directories between slashes. -/
  | innerDirectories
  | byteClass (negated : Bool) (ranges : List ByteClassRange)
  | choice (branches : List (List Token))
  deriving Repr, Inhabited

def bytesOf (c : Char) : List UInt8 :=
  String.utf8EncodeChar c

mutual

/-- The token writes nothing at all: a choice without a branch that does. -/
def Token.isVoid : Token → Bool
  | .choice branches => areVoid branches
  | _ => false

/-- No token of the list writes anything. -/
def isVoidBranch : List Token → Bool
  | [] => true
  | t :: ts => t.isVoid && isVoidBranch ts

/-- No branch of the list writes anything. -/
def areVoid : List (List Token) → Bool
  | [] => true
  | branch :: rest => isVoidBranch branch && areVoid rest

end

end TestLint.Glob
