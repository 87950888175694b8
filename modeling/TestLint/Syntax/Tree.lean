import TestLint.Diagnostic
import TestLint.Text.Blank

/-!
# Syntax trees

A syntax tree as a parser gives it: every node has a kind, the bytes of the
source that it covers, and the name of the field under which its parent holds
it.  The tree does not hold the source; functions that need a node's text take
the source beside it.  Everything that walks a tree does so by structural
recursion on the node and its list of children.
-/

namespace TestLint

/-- What a node is, its children aside. -/
structure NodeInfo where
  kind : String
  /-- The name under which the parent holds the node. -/
  field : Option String
  /-- The node stands for a rule of the grammar, not for a bare token. -/
  named : Bool
  /-- The parser put the node in to recover from an error. -/
  missing : Bool
  start : Nat
  stop : Nat
  deriving DecidableEq, Repr, Inhabited

/-- A node and what stands below it. -/
inductive Tree where
  | node (info : NodeInfo) (children : List Tree)
  deriving Repr, Inhabited

namespace Tree

def info : Tree → NodeInfo
  | .node info _ => info

def children : Tree → List Tree
  | .node _ children => children

def kind (t : Tree) : String := t.info.kind

def field (t : Tree) : Option String := t.info.field

def named (t : Tree) : Bool := t.info.named

def start (t : Tree) : Nat := t.info.start

def stop (t : Tree) : Nat := t.info.stop

/-- The source text of a node; empty where the range is not on character
boundaries. -/
def text (source : List Char) (t : Tree) : String :=
  String.ofList ((Text.slice? t.start t.stop source).getD [])

def trimmedText (source : List Char) (t : Tree) : String :=
  Text.trimmed (t.text source)

def location (source : List Char) (t : Tree) : Location :=
  .ofOffsets t.start t.stop source

/-- The node is a comment or a directive, no code proper. -/
def isTrivia (t : Tree) : Bool :=
  t.kind == "comment" || Text.startsWith t.kind "preproc"

/-- The node is a named node of the code proper. -/
def isCode (t : Tree) : Bool :=
  t.named && !t.isTrivia

/-- The children that are code. -/
def codeChildren (t : Tree) : List Tree :=
  t.children.filter isCode

def childByField? (field : String) (t : Tree) : Option Tree :=
  t.children.find? (·.field == some field)

def childOfKind? (kind : String) (t : Tree) : Option Tree :=
  t.children.find? (·.kind == kind)

def childrenOfKind (kind : String) (t : Tree) : List Tree :=
  t.children.filter (·.kind == kind)

/-- The first child under a field, or else the first of a kind. -/
def childByFieldOrKind? (field kind : String) (t : Tree) : Option Tree :=
  t.childByField? field <|> t.childOfKind? kind

/-- The child that the node holds under a field is the one at this place. -/
def holdsAt (t : Tree) (field : String) (index : Nat) : Bool :=
  t.children.findIdx? (·.field == some field) == some index

/-! ## Walking -/

/-- A node on the way from the root, with those above it, nearest first. -/
structure Visit where
  node : Tree
  above : List Tree
  deriving Inhabited

mutual

/-- The named nodes in pre-order, none below a node that satisfies `leave`. -/
def visits (leave : Tree → Bool) (above : List Tree) : Tree → List Visit
  | .node info children =>
    let here := Tree.node info children
    ⟨here, above⟩ :: if leave here then [] else visitsOf leave (here :: above) children

/-- The named nodes of the subtrees of a list, in pre-order. -/
def visitsOf (leave : Tree → Bool) (above : List Tree) : List Tree → List Visit
  | [] => []
  | child :: rest =>
    (if child.named then visits leave above child else []) ++ visitsOf leave above rest

end

/-- The named nodes of a tree in pre-order. -/
def namedNodes (t : Tree) : List Tree :=
  (visits (fun _ => false) [] t).map (·.node)

/-- The nearest node above that is of one of the kinds. -/
def Visit.ancestor? (kinds : List String) (v : Visit) : Option Tree :=
  v.above.find? fun t => kinds.contains t.kind

/-! ## Finding a node by its range -/

mutual

/-- The deepest node with exactly the given range that is met on the way down
which always takes the first child that covers the range. -/
def nodeAt? (start stop : Nat) : Tree → Option Tree
  | .node info children =>
    if info.start ≤ start ∧ stop ≤ info.stop then
      match nodeAtIn? start stop children with
      | some found => some found
      | none =>
        if info.start = start ∧ info.stop = stop then some (.node info children) else none
    else
      none

/-- The answer of the first tree of a list that covers the range. -/
def nodeAtIn? (start stop : Nat) : List Tree → Option Tree
  | [] => none
  | child :: rest =>
    if child.start ≤ start ∧ stop ≤ child.stop then
      nodeAt? start stop child
    else
      nodeAtIn? start stop rest

end

end Tree

end TestLint
