import Mathlib.Data.List.Pairwise
import TestLint.Declaration.Parts
import TestLint.Proofs.Edit.Place
import TestLint.Proofs.Syntax.Nodes

/-!
# Well-formed trees

What is taken for granted of a parser, whatever it reads: the children of a node
stand inside it and one after the other, and nodes begin and end between
characters (`Tree.InPlace`, `Tree.Nested`).  Where the source has no errors, the
name of an attribute is written without blanks around it, and the arguments of a
call end with their closing parenthesis (`Tree.Sound`, `Tree.WellFormed`).  Both can be
decided of a tree and its source.

Every node that a nested tree holds covers a range of the source, inside the
ranges of all nodes above it.
-/

namespace TestLint

open Text

namespace Attribute

/-- The node that names the attribute. -/
def nameNode? (t : Tree) : Option Tree :=
  t.childByField? "name" <|> t.codeChildren.head?

end Attribute

namespace Tree

/-! ## Nested nodes -/

/-- The bytes that the node covers. -/
def range (t : Tree) : ByteRange :=
  ⟨t.start, t.stop⟩

/-- The node covers a part of the source, and its children parts of this part, one after the
other. -/
structure InPlace (source : List Char) (t : Tree) : Prop where
  fits : t.range.FitsIn source
  inside : ∀ c ∈ t.children, t.start ≤ c.start ∧ c.stop ≤ t.stop
  ordered : t.children.Pairwise fun a b => a.stop ≤ b.start

theorem InPlace.bounds {source : List Char} {t : Tree} (h : t.InPlace source) :
    t.start ≤ t.stop ∧ isBoundary t.start source = true ∧ isBoundary t.stop source = true :=
  h.fits

/-- Every node of the tree is in place. -/
def Nested (source : List Char) (t : Tree) : Prop :=
  ∀ n, t.Holds n → n.InPlace source

namespace Nested

variable {source : List Char} {t n : Tree}

theorem inPlace (h : t.Nested source) : t.InPlace source :=
  h t (.self t)

theorem of_holds (h : t.Nested source) (hn : t.Holds n) : n.Nested source :=
  fun m hm => h m (hn.trans hm)

/-- What stands below a node stands inside it. -/
theorem inside (h : t.Nested source) (hn : t.Holds n) : t.start ≤ n.start ∧ n.stop ≤ t.stop :=
  inside_of_holds (fun m hm => (h m hm).inside) hn

theorem covers (h : t.Nested source) (hn : t.Holds n) :
    (n.location source).Covers source n.range :=
  ⟨rfl, (h n hn).fits⟩

/-- The text of a node is the part of the source that it covers. -/
theorem parts (h : t.Nested source) (hn : t.Holds n) :
    ∃ before text after, before ++ text ++ after = source ∧ byteSize before = n.start ∧
      byteSize (before ++ text) = n.stop ∧ n.text source = String.ofList text := by
  obtain ⟨hforward, hstart, hstop⟩ := (h n hn).fits
  obtain ⟨before, text, after, hsource, hbefore, htext⟩ :=
    exists_parts_of_isBoundary hstart hstop hforward
  change byteSize before = n.start at hbefore
  change byteSize (before ++ text) = n.stop at htext
  refine ⟨before, text, after, hsource, hbefore, htext, ?_⟩
  rw [Tree.text, ← hbefore, ← htext, ← hsource, slice?_parts, Option.getD_some]

/-- Of nodes below two different children, one stands before the other. -/
theorem apart {a b : Tree} (h : t.Nested source) (ha : a ∈ t.children) (hb : b ∈ t.children)
    (hne : a ≠ b) {m : Tree} (hm : a.Holds m) (hn : b.Holds n) :
    m.stop ≤ n.start ∨ n.stop ≤ m.start := by
  have hma := (h.of_holds (.of_mem ha)).inside hm
  have hnb := (h.of_holds (.of_mem hb)).inside hn
  have : Std.Symm fun a b : Tree => a.stop ≤ b.start ∨ b.stop ≤ a.start := ⟨fun _ _ => Or.symm⟩
  have hordered : t.children.Pairwise fun a b => a.stop ≤ b.start ∨ b.stop ≤ a.start :=
    h.inPlace.ordered.imp Or.inl
  have hside := hordered.forall ha hb hne
  omega

end Nested

/-! ## Well-formed nodes -/

/-- What a parser ensures of a node, its children taken as they are. -/
structure Sound (source : List Char) (t : Tree) : Prop where
  fits : t.range.FitsIn source
  inside : ∀ c ∈ t.children, t.start ≤ c.start ∧ c.stop ≤ t.stop
  ordered : t.children.Pairwise fun a b => a.stop ≤ b.start
  /-- An attribute's name has no blanks around it. -/
  name : t.kind = "attribute" → ∀ n ∈ Attribute.nameNode? t, n.trimmedText source = n.text source
  /-- The arguments of a call end with the closing parenthesis. -/
  closed : t.kind = "invocation_expression" → ∀ args ∈ t.childByField? "arguments",
    (args.text source).toList.getLast? = some ')'

/-- The names of attributes have no blanks around them. -/
def NamesTrimmed (source : List Char) (t : Tree) : Prop :=
  ∀ a, t.Holds a → a.kind = "attribute" →
    ∀ n ∈ Attribute.nameNode? a, n.trimmedText source = n.text source

theorem NamesTrimmed.of_holds {source : List Char} {t n : Tree} (h : t.NamesTrimmed source)
    (hn : t.Holds n) : n.NamesTrimmed source :=
  fun a ha => h a (hn.trans ha)

/-- Every node of the tree is sound. -/
def WellFormed (source : List Char) (t : Tree) : Prop :=
  ∀ n, t.Holds n → n.Sound source

namespace WellFormed

variable {source : List Char} {t n : Tree}

theorem sound (h : t.WellFormed source) : t.Sound source :=
  h t (.self t)

theorem nested (h : t.WellFormed source) : t.Nested source :=
  fun n hn => ⟨(h n hn).fits, (h n hn).inside, (h n hn).ordered⟩

theorem namesTrimmed (h : t.WellFormed source) : t.NamesTrimmed source :=
  fun a ha => (h a ha).name

theorem of_holds (h : t.WellFormed source) (hn : t.Holds n) : n.WellFormed source :=
  fun m hm => h m (hn.trans hm)

end WellFormed

/-! ## Deciding it -/

mutual

/-- The test holds of all nodes of a tree. -/
def all (p : Tree → Bool) : Tree → Bool
  | .node info children => p (.node info children) && allOf p children

/-- The test holds of all nodes of the trees of a list. -/
def allOf (p : Tree → Bool) : List Tree → Bool
  | [] => true
  | child :: rest => all p child && allOf p rest

end

mutual

theorem all_iff (p : Tree → Bool) (t : Tree) : t.all p = true ↔ ∀ n, t.Holds n → p n = true := by
  obtain ⟨info, children⟩ := t
  rw [all, Bool.and_eq_true, allOf_iff p children]
  constructor
  · rintro ⟨hhere, hbelow⟩ n hn
    cases hn with
    | self => exact hhere
    | inner hchild h => exact hbelow _ hchild n h
  · intro h
    exact ⟨h _ (.self _), fun c hc n hn => h n (.inner hc hn)⟩

theorem allOf_iff (p : Tree → Bool) (ts : List Tree) :
    allOf p ts = true ↔ ∀ c ∈ ts, ∀ n, c.Holds n → p n = true := by
  match ts with
  | [] => simp [allOf]
  | child :: rest =>
    rw [allOf, Bool.and_eq_true, all_iff p child, allOf_iff p rest, List.forall_mem_cons]

end

instance (source : List Char) (t : Tree) : Decidable (t.InPlace source) :=
  decidable_of_iff
    ((t.start ≤ t.stop ∧ isBoundary t.start source = true ∧ isBoundary t.stop source = true) ∧
      (∀ c ∈ t.children, t.start ≤ c.start ∧ c.stop ≤ t.stop) ∧
      t.children.Pairwise fun a b => a.stop ≤ b.start)
    ⟨fun ⟨fits, inside, ordered⟩ => ⟨fits, inside, ordered⟩,
      fun h => ⟨h.fits, h.inside, h.ordered⟩⟩

instance (source : List Char) (t : Tree) : Decidable (t.Nested source) :=
  decidable_of_iff (t.all fun n => decide (n.InPlace source)) <| by
    rw [all_iff]
    simp only [decide_eq_true_eq]
    rfl

instance (source : List Char) (t : Tree) : Decidable (t.NamesTrimmed source) :=
  decidable_of_iff
    (t.all fun a => decide (a.kind = "attribute" →
      ∀ n ∈ Attribute.nameNode? a, n.trimmedText source = n.text source)) <| by
    rw [all_iff]
    simp only [decide_eq_true_eq]
    rfl

instance (source : List Char) (t : Tree) : Decidable (t.Sound source) :=
  decidable_of_iff
    ((t.start ≤ t.stop ∧ isBoundary t.start source = true ∧ isBoundary t.stop source = true) ∧
      (∀ c ∈ t.children, t.start ≤ c.start ∧ c.stop ≤ t.stop) ∧
      (t.children.Pairwise fun a b => a.stop ≤ b.start) ∧
      (t.kind = "attribute" →
        ∀ n ∈ Attribute.nameNode? t, n.trimmedText source = n.text source) ∧
      (t.kind = "invocation_expression" → ∀ args ∈ t.childByField? "arguments",
        (args.text source).toList.getLast? = some ')'))
    ⟨fun ⟨fits, inside, ordered, name, closed⟩ => ⟨fits, inside, ordered, name, closed⟩,
      fun h => ⟨h.fits, h.inside, h.ordered, h.name, h.closed⟩⟩

instance (source : List Char) (t : Tree) : Decidable (t.WellFormed source) :=
  decidable_of_iff (t.all fun n => decide (n.Sound source)) <| by
    rw [all_iff]
    simp only [decide_eq_true_eq]
    rfl

end Tree

end TestLint
