import TestLint.Json.Reader
import TestLint.Syntax.Tree

/-!
# Syntax trees in writing

Trees are made by a parser of its own and handed over as JSON: the kinds and
fields that occur, and six numbers per node, a node before its children.  A
table of trees holds the tree of a source under a hash of the source.
-/

namespace TestLint

/-- The hash that trees are filed under: FNV-1a of 64 bits over the bytes. -/
def sourceHash (source : String) : UInt64 :=
  source.toUTF8.foldl (fun h byte => (h ^^^ byte.toUInt64) * 0x100000001b3) 0xcbf29ce484222325

/-- The hash as it is written, with sixteen digits. -/
def hashText (hash : UInt64) : String :=
  let digits := Nat.toDigits 16 hash.toNat
  String.ofList (List.replicate (16 - digits.length) '0' ++ digits)

/-- A node with the number of its children. -/
structure EncodedNode where
  info : NodeInfo
  childCount : Nat
  deriving DecidableEq, Repr, Inhabited

namespace EncodedNode

/-- The number that a JSON value is; `-1` is given as `none`. -/
private def index? (value : Json) : Option Nat :=
  value.word?

/-- The nodes that a list of numbers gives, six to a node. -/
def ofNumbers? (kinds fields : Array String) : List Json → Option (List EncodedNode)
  | [] => some []
  | kind :: field :: flags :: start :: stop :: count :: rest => do
    let kind ← kinds[← index? kind]?
    let flags ← flags.word?
    let start ← start.word?
    let stop ← stop.word?
    let childCount ← count.word?
    let info : NodeInfo :=
      { kind, field := (index? field).bind (fields[·]?)
        named := flags % 2 == 1, missing := flags / 2 % 2 == 1, start, stop }
    (⟨info, childCount⟩ :: ·) <$> ofNumbers? kinds fields rest
  | _ => none

/-- The trees that nodes make up, every node taking as many of the trees that
follow it as it has children. -/
def assemble (nodes : List EncodedNode) : List Tree :=
  nodes.foldr
    (fun node following =>
      .node node.info (following.take node.childCount) :: following.drop node.childCount)
    []

end EncodedNode

namespace Tree

def ofJson? (value : Json) : Option Tree := do
  let kinds ← value.required "kinds" (Json.listOf Json.text?)
  let fields ← value.required "fields" (Json.listOf Json.text?)
  let numbers ← value.required "nodes" Json.items?
  let nodes ← EncodedNode.ofNumbers? kinds.toArray fields.toArray numbers
  (EncodedNode.assemble nodes).head?

/-- The tree of a source that no tree is known of. -/
def unknown (source : String) : Tree :=
  .node ⟨"ERROR", none, true, false, 0, source.utf8ByteSize⟩ []

/-- The tree of a source in a table of trees. -/
def inTable (table : Json) (source : String) : Tree :=
  ((table.field? (hashText (sourceHash source))).bind ofJson?).getD (unknown source)

end Tree

end TestLint
