import Mathlib.Data.List.Forall2
import Mathlib.Logic.Relation
import TestLint.Proofs.Declaration.Trivia
import TestLint.Proofs.Syntax.WellFormed

/-!
# The types of a file

Which nodes of a tree declare the types of a file (`Enclosed.Declared`): those that are
reached by going into namespaces and then, from type to type, into the bodies of types.  A
namespace inside a type is not gone into.

The types that are read off a well-nested tree (`Tree.WellNested`) are these, each once, in
the order of their places (`FileDeclarations.types_spec`).  Each function that gathers types
gives a list of this kind for the nodes below it (`Enclosed.Listed`).
-/

namespace TestLint

open Relation (ReflTransGen)

open TypeDeclaration (body? nodeKinds metadataName)

/-! ## Well-nested trees -/

namespace Tree

/-- The node is of a kind that declares a type. -/
def DeclaresType (t : Tree) : Prop :=
  nodeKinds.contains t.kind = true

instance (t : Tree) : Decidable t.DeclaresType :=
  inferInstanceAs (Decidable (nodeKinds.contains t.kind = true))

/-- The children of the node stand inside it, one after the other. -/
structure LaidOut (t : Tree) : Prop where
  inside : ∀ c ∈ t.children, t.start ≤ c.start ∧ c.stop ≤ t.stop
  ordered : t.children.Pairwise fun a b => a.stop ≤ b.start
  /-- The declaration of a type has its keyword, and has it before its body. -/
  keyword : t.DeclaresType → t.start < t.stop ∧ ∀ body ∈ body? t, t.start < body.start

/-- The nodes of the tree are nested as a parser nests them. -/
def WellNested (t : Tree) : Prop :=
  ∀ n, t.Holds n → n.LaidOut

instance (t : Tree) : Decidable t.LaidOut :=
  decidable_of_iff
    ((∀ c ∈ t.children, t.start ≤ c.start ∧ c.stop ≤ t.stop) ∧
      (t.children.Pairwise fun a b => a.stop ≤ b.start) ∧
      (t.DeclaresType → t.start < t.stop ∧ ∀ body ∈ body? t, t.start < body.start))
    ⟨fun ⟨inside, ordered, keyword⟩ => ⟨inside, ordered, keyword⟩,
      fun h => ⟨h.inside, h.ordered, h.keyword⟩⟩

instance (t : Tree) : Decidable t.WellNested :=
  decidable_of_iff (t.all fun n => decide n.LaidOut) <| by
    rw [all_iff]
    simp only [decide_eq_true_eq]
    rfl

namespace WellNested

variable {t n : Tree}

theorem laidOut (h : t.WellNested) : t.LaidOut :=
  h t (.self t)

theorem of_holds (h : t.WellNested) (hn : t.Holds n) : n.WellNested :=
  fun m hm => h m (hn.trans hm)

theorem of_mem (h : t.WellNested) (hn : n ∈ t.children) : n.WellNested :=
  h.of_holds (.of_mem hn)

theorem inside (h : t.WellNested) (hn : t.Holds n) : t.start ≤ n.start ∧ n.stop ≤ t.stop :=
  inside_of_holds (fun m hm => (h m hm).inside) hn

/-- The types below a node start before all that stands below a later one. -/
theorem start_lt {t' n' : Tree} (h : t.WellNested) (h' : t'.WellNested)
    (hbefore : t.stop ≤ t'.start) (hn : t.Holds n) (hn' : t'.Holds n') (htype : n.DeclaresType) :
    n.start < n'.start := by
  have hnonempty := ((h n hn).keyword htype).1
  have hstop := (h.inside hn).2
  have hstart := (h'.inside hn').1
  omega

end WellNested

end Tree

/-! ## Nodes and the names around them -/

/-- A node with the names of the namespaces and types around it, the outermost first. -/
structure Enclosed where
  node : Tree
  path : List String

namespace Enclosed

variable (source : List Char)

/-- The name that the node is declared with, if it has one. -/
def declaredName (t : Tree) : List String :=
  ((t.childByField? "name").map (·.text source)).toList

/-- The node opens a namespace for the rest of the file. -/
def isDirective (t : Tree) : Bool :=
  t.isCode && t.kind == "file_scoped_namespace_declaration"

/-- The namespaces that are open behind some siblings: those around all of them, and the one
of the last directive among the siblings. -/
def opened (path : List String) (before : List Tree) : List String :=
  match (before.filter isDirective).getLast? with
  | some directive => path ++ declaredName source directive
  | none => path

/-- The member is a child of the level that is code. -/
def Has (level member : Enclosed) : Prop :=
  ∃ before after, level.node.children = before ++ member.node :: after ∧
    member.node.isCode = true ∧ member.path = opened source level.path before

/-- The member of a level whose own namespaces are `outer` is a namespace, and `inner` holds
its members. -/
inductive Opens (outer : List String) (member : Enclosed) : Enclosed → Prop
  | declaration {body : Tree} (hkind : member.node.kind = "namespace_declaration")
      (hbody : body? member.node = some body) :
      Opens outer member ⟨body, member.path ++ declaredName source member.node⟩
  | directive (hkind : member.node.kind = "file_scoped_namespace_declaration") :
      Opens outer member ⟨member.node, outer ++ declaredName source member.node⟩

/-- One step down into a namespace. -/
def IntoNamespace (level inner : Enclosed) : Prop :=
  ∃ member, level.Has source member ∧ Opens source level.path member inner

/-- What a type adds to the path of the types in it: its name with the number of its type
parameters. -/
def segment? (t : Tree) : Option String :=
  (t.childByField? "name").map fun name =>
    metadataName (name.text source) (typeParametersOf source t).length

/-- One step down from a type with a name to a type among the members of its body. -/
def Nests (outer inner : Enclosed) : Prop :=
  ∃ name ∈ segment? source outer.node, ∃ body ∈ body? outer.node,
    inner.node ∈ body.codeChildren ∧ inner.node.DeclaresType ∧ inner.path = outer.path ++ [name]

/-- The type with a name is the outer one or nested in it. -/
def Within (outer s : Enclosed) : Prop :=
  ReflTransGen (Nests source) outer s ∧ (segment? source s.node).isSome = true

/-- The type with a name is reached from the level by going into namespaces, and then into
types. -/
def Declared (level s : Enclosed) : Prop :=
  ∃ inner outer, ReflTransGen (IntoNamespace source) level inner ∧ inner.Has source outer ∧
    outer.node.DeclaresType ∧ outer.Within source s

/-- The nodes in the body of a type that declare a method with a name. -/
def methodNodes (t : Tree) : List Tree :=
  (((body? t).map (·.codeChildren)).getD []).filter fun member =>
    member.kind == "method_declaration" && (member.childByField? "name").isSome

/-- The declaration is that of the node: it points to it, its full name is the path down to
it, and it has the methods of its body in their order. -/
structure Describes (file : FileId) (s : Enclosed) (d : TypeDeclaration) : Prop where
  handle : d.handle = ⟨file, s.node.start, s.node.stop⟩
  fullName : ∃ name ∈ segment? source s.node, d.fullName = ".".intercalate (s.path ++ [name])
  methods : List.Forall₂ (fun node m => Method.ofTree? file source node = some m)
    (methodNodes s.node) d.methods

/-- The types are those of the nodes with a property, each once, in the order of their places. -/
def Listed (file : FileId) (P : Enclosed → Prop) (types : List TypeDeclaration) : Prop :=
  ∃ sites : List Enclosed, (∀ s, s ∈ sites ↔ P s) ∧
    (sites.Pairwise fun a b => a.node.start < b.node.start) ∧
    List.Forall₂ (Describes source file) sites types

/-! ## Paths -/

/-- The names of a path with dots between them, if there are any. -/
def scope : List String → Option String
  | [] => none
  | first :: rest => some (".".intercalate (first :: rest))

theorem intercalate_append_singleton {path : List String} (hne : path ≠ []) (name : String) :
    ".".intercalate (path ++ [name]) = ".".intercalate path ++ "." ++ name := by
  induction path with
  | nil => exact absurd rfl hne
  | cons first rest ih =>
    cases rest with
    | nil => rfl
    | cons second rest =>
      rw [List.cons_append, List.cons_append, String.intercalate_cons_cons, ← List.cons_append,
        ih (List.cons_ne_nil second rest), String.intercalate_cons_cons]
      simp only [String.append_assoc]

theorem inScope_scope (path : List String) (name : String) :
    TypeDeclaration.inScope (scope path) name = ".".intercalate (path ++ [name]) := by
  cases path with
  | nil => rfl
  | cons first rest => exact (intercalate_append_singleton (List.cons_ne_nil first rest) name).symm

theorem scope_append_singleton (path : List String) (name : String) :
    scope (path ++ [name]) = some (".".intercalate (path ++ [name])) := by
  cases path <;> rfl

theorem joinNamespace_scope (path : List String) (t : Tree) :
    FileDeclarations.joinNamespace (scope path) ((t.childByField? "name").map (·.text source)) =
      scope (path ++ declaredName source t) := by
  unfold declaredName
  cases (t.childByField? "name").map (·.text source) with
  | none =>
    rw [Option.toList_none, List.append_nil]
    cases path <;> rfl
  | some name =>
    rw [Option.toList_some, scope_append_singleton]
    cases path with
    | nil => rfl
    | cons first rest =>
      rw [intercalate_append_singleton (List.cons_ne_nil first rest)]
      rfl

/-- A directive opens its namespace for what stands behind it. -/
theorem namespaceAfter_scope (path : List String) (before : List Tree) (t : Tree) :
    FileDeclarations.namespaceAfter source (scope path) (scope (opened source path before)) t =
      scope (opened source path (before ++ [t])) := by
  unfold FileDeclarations.namespaceAfter opened isDirective
  rw [List.filter_append, List.filter_singleton]
  cases t.isCode && t.kind == "file_scoped_namespace_declaration" with
  | true => rw [if_pos rfl, cond_true, List.getLast?_concat, joinNamespace_scope]
  | false => rw [if_neg Bool.false_ne_true, cond_false, List.append_nil]

/-! ## Lists of types -/

section Listed

variable {source : List Char} {file : FileId} {P Q : Enclosed → Prop}

theorem Listed.congr {types : List TypeDeclaration} (h : Listed source file P types)
    (hPQ : ∀ s, Q s ↔ P s) : Listed source file Q types := by
  obtain ⟨sites, hmem, hordered, hdescribed⟩ := h
  exact ⟨sites, fun s => (hmem s).trans (hPQ s).symm, hordered, hdescribed⟩

theorem listed_nil (h : ∀ s, ¬P s) : Listed source file P [] := by
  refine ⟨[], fun s => ⟨fun hs => ?_, fun hs => absurd hs (h s)⟩, .nil, .nil⟩
  cases hs

theorem listed_singleton {s : Enclosed} {d : TypeDeclaration} (h : Describes source file s d) :
    Listed source file (· = s) [d] :=
  ⟨[s], fun _ => List.mem_singleton, List.pairwise_singleton _ s, .cons h .nil⟩

/-- One stretch after another, with the nodes of both. -/
theorem Listed.append {types types' : List TypeDeclaration} (h : Listed source file P types)
    (h' : Listed source file Q types')
    (hbefore : ∀ a b, P a → Q b → a.node.start < b.node.start) :
    Listed source file (fun s => P s ∨ Q s) (types ++ types') := by
  obtain ⟨sites, hmem, hordered, hdescribed⟩ := h
  obtain ⟨sites', hmem', hordered', hdescribed'⟩ := h'
  refine ⟨sites ++ sites', fun s => ?_, ?_, List.rel_append hdescribed hdescribed'⟩
  · rw [List.mem_append, hmem, hmem']
  · refine List.pairwise_append.2 ⟨hordered, hordered', fun a ha b hb => ?_⟩
    exact hbefore a b ((hmem a).1 ha) ((hmem' b).1 hb)

end Listed

/-! ## What stands below a type -/

section Types

variable {source : List Char} {file : FileId} {namespaceName : Option String}

theorem Nests.holds {outer inner : Enclosed} (h : Nests source outer inner) :
    outer.node.Holds inner.node := by
  obtain ⟨name, -, body, hbody, hmember, -, -⟩ := h
  exact .inner (Tree.mem_of_childByFieldOrKind? hbody)
    (.of_mem (Tree.mem_of_mem_codeChildren hmember))

theorem Within.holds {outer s : Enclosed} (h : outer.Within source s) :
    outer.node.Holds s.node := by
  obtain ⟨hsteps, -⟩ := h
  induction hsteps with
  | refl => exact .self outer.node
  | tail _ hnests ih => exact ih.trans hnests.holds

theorem Within.declaresType {outer s : Enclosed} (h : outer.Within source s)
    (htype : outer.node.DeclaresType) : s.node.DeclaresType := by
  obtain ⟨hsteps, -⟩ := h
  cases hsteps with
  | refl => exact htype
  | tail _ hnests =>
    obtain ⟨name, -, body, -, -, hinner, -⟩ := hnests
    exact hinner

/-- The types of the body of a type with a name are those below it that are not the type
itself. -/
theorem within_iff {outer s : Enclosed} {name : String}
    (hname : segment? source outer.node = some name) :
    outer.Within source s ↔ s = outer ∨ ∃ body ∈ body? outer.node, ∃ member ∈ body.children,
      member.isCode = true ∧ member.DeclaresType ∧
        Within source ⟨member, outer.path ++ [name]⟩ s := by
  constructor
  · rintro ⟨hsteps, hs⟩
    rcases hsteps.cases_head with rfl | ⟨next, ⟨name', hname', body, hbody, hmember, htype, hpath⟩,
      hrest⟩
    · exact .inl rfl
    · rw [hname] at hname'
      cases hname'
      obtain ⟨hmem, hcode⟩ := List.mem_filter.1 hmember
      refine .inr ⟨body, hbody, next.node, hmem, hcode, htype, ?_, hs⟩
      rw [← hpath]
      exact hrest
  · rintro (rfl | ⟨body, hbody, member, hmem, hcode, htype, hsteps, hs⟩)
    · exact ⟨.refl, by rw [hname]; rfl⟩
    · refine ⟨.head ⟨name, hname, body, hbody, ?_, htype, rfl⟩ hsteps, hs⟩
      exact List.mem_filter.2 ⟨hmem, hcode⟩

/-- Nothing is declared below a type without a name. -/
theorem not_within_of_unnamed {outer s : Enclosed} (hname : segment? source outer.node = none) :
    ¬outer.Within source s := by
  rintro ⟨hsteps, hs⟩
  rcases hsteps.cases_head with rfl | ⟨next, ⟨name, hname', -⟩, -⟩
  · rw [hname] at hs
    cases hs
  · rw [hname] at hname'
    cases hname'

theorem find?_bodyTest (t : Tree) :
    t.children.find? (TypeDeclaration.bodyTest t.children ·.info) = body? t := by
  unfold body? Tree.childByFieldOrKind? Tree.childByField? Tree.childOfKind?
  rw [Option.orElse_eq_orElse, Option.orElse_eq_or]
  unfold TypeDeclaration.bodyTest
  split
  case isTrue h =>
    have hsome : (t.children.find? (·.field == some "body")).isSome = true := by
      rw [List.find?_isSome]
      simpa using h
    obtain ⟨body, hbody⟩ := Option.isSome_iff_exists.1 hsome
    rw [hbody, Option.some_or]
    exact hbody
  case isFalse h =>
    have hnone : t.children.find? (·.field == some "body") = none := by
      rw [List.find?_eq_none]
      simpa using h
    rw [hnone, Option.none_or]
    rfl

theorem isSome_method (file : FileId) (source : List Char) (t : Tree) :
    (Method.ofTree? file source t).isSome = (t.childByField? "name").isSome := by
  unfold Method.ofTree?
  cases t.childByField? "name" <;> rfl

/-- One method for each node that declares one with a name. -/
theorem forall₂_methods (members : List Tree) :
    List.Forall₂ (fun node m => Method.ofTree? file source node = some m)
      (members.filter fun member =>
        member.kind == "method_declaration" && (member.childByField? "name").isSome)
      ((members.filter (·.kind == "method_declaration")).filterMap
        (Method.ofTree? file source)) := by
  induction members with
  | nil => exact .nil
  | cons member rest ih =>
    rw [List.filter_cons, List.filter_cons]
    cases member.kind == "method_declaration" with
    | false => exact ih
    | true =>
      rw [if_pos rfl, Bool.true_and, List.filterMap_cons, ← isSome_method file source]
      cases hread : Method.ofTree? file source member with
      | none => exact ih
      | some m => exact .cons hread ih

theorem ofNode?_eq_none (containing : Option String) {t : Tree} (hname : segment? source t = none) :
    TypeDeclaration.ofNode? file source namespaceName containing t = none := by
  unfold TypeDeclaration.ofNode?
  rw [Option.map_eq_none_iff.1 hname]
  rfl

/-- The type that a node with a name declares, read where the names around it are those of
its path. -/
theorem exists_ofNode? (file : FileId) {s : Enclosed} {containing : Option String} {name : String}
    (hscope : (containing <|> namespaceName) = scope s.path)
    (hname : segment? source s.node = some name) :
    ∃ d, TypeDeclaration.ofNode? file source namespaceName containing s.node = some d ∧
      d.fullName = ".".intercalate (s.path ++ [name]) ∧ Describes source file s d := by
  obtain ⟨nameNode, hnode, hsegment⟩ := Option.map_eq_some_iff.1 hname
  have hfull : TypeDeclaration.inScope (containing <|> namespaceName) name =
      ".".intercalate (s.path ++ [name]) := by
    rw [hscope, inScope_scope]
  rw [← hsegment] at hfull
  unfold TypeDeclaration.ofNode?
  rw [hnode]
  refine ⟨_, rfl, ?_, rfl, ⟨name, hname, ?_⟩, forall₂_methods _⟩
  · rw [← hsegment]
    exact hfull
  · rw [← hsegment]
    exact hfull

/-- The types among the members of a type are those nested in it. -/
theorem listed_nestedAmong {containing : String} {path : List String} {members : List Tree}
    (hordered : members.Pairwise fun a b => a.stop ≤ b.start)
    (hnested : ∀ member ∈ members, member.WellNested)
    (hmembers : ∀ member ∈ members, member.DeclaresType →
      Listed source file (Within source ⟨member, path⟩)
        (TypeDeclaration.allOfNode file source namespaceName (some containing) member)) :
    Listed source file
      (fun s => ∃ member ∈ members, member.isCode = true ∧ member.DeclaresType ∧
        Within source ⟨member, path⟩ s)
      (TypeDeclaration.nestedAmong file source namespaceName containing members) := by
  induction members with
  | nil =>
    rw [TypeDeclaration.nestedAmong]
    apply listed_nil
    rintro s ⟨member, hmem, -⟩
    cases hmem
  | cons member rest ih =>
    obtain ⟨hfirst, hrest⟩ := List.pairwise_cons.1 hordered
    have hlater := ih hrest (fun m hm => hnested m (List.mem_cons_of_mem member hm))
      fun m hm => hmembers m (List.mem_cons_of_mem member hm)
    have hhere : Listed source file
        (fun s => member.isCode = true ∧ member.DeclaresType ∧ Within source ⟨member, path⟩ s)
        (if member.isCode && nodeKinds.contains member.kind then
          TypeDeclaration.allOfNode file source namespaceName (some containing) member
        else []) := by
      split
      case isTrue h =>
        obtain ⟨hcode, htype⟩ := Bool.and_eq_true_iff.1 h
        refine (hmembers member List.mem_cons_self htype).congr fun s => ?_
        exact ⟨fun hs => hs.2.2, fun hs => ⟨hcode, htype, hs⟩⟩
      case isFalse h =>
        refine listed_nil fun s hs => h ?_
        exact Bool.and_eq_true_iff.2 ⟨hs.1, hs.2.1⟩
    rw [TypeDeclaration.nestedAmong]
    refine (hhere.append hlater ?_).congr fun s => ?_
    · rintro a b ⟨-, htype, ha⟩ ⟨later, hmem, -, -, hb⟩
      exact (hnested member List.mem_cons_self).start_lt
        (hnested later (List.mem_cons_of_mem member hmem)) (hfirst later hmem) ha.holds hb.holds
        (ha.declaresType htype)
    · rw [List.exists_mem_cons_iff]

/-- The types that are read off the declaration of a type are those within it. -/
theorem listed_allOfNode (t : Tree) (hnested : t.WellNested) (htype : t.DeclaresType)
    {path : List String} {containing : Option String}
    (hscope : (containing <|> namespaceName) = scope path) :
    Listed source file (Within source ⟨t, path⟩)
      (TypeDeclaration.allOfNode file source namespaceName containing t) := by
  induction t using Tree.induction_below generalizing path containing with
  | step t ih =>
    obtain ⟨info, children⟩ := t
    rw [TypeDeclaration.allOfNode]
    cases hname : segment? source (.node info children) with
    | none =>
      rw [ofNode?_eq_none containing hname]
      exact listed_nil fun s => not_within_of_unnamed hname
    | some name =>
      obtain ⟨d, hread, hfull, hdescribes⟩ :=
        exists_ofNode? file (s := ⟨.node info children, path⟩) hscope hname
      have hbelow : Listed source file
          (fun s => ∃ body ∈ body? (.node info children), ∃ member ∈ body.children,
            member.isCode = true ∧ member.DeclaresType ∧ Within source ⟨member, path ++ [name]⟩ s)
          (TypeDeclaration.nestedInFirst file source namespaceName d.fullName
            (TypeDeclaration.bodyTest children) children) := by
        rw [TypeDeclaration.nestedInFirst_eq]
        have hfind := find?_bodyTest (.node info children)
        rw [Tree.children] at hfind
        rw [hfind]
        cases hbody : body? (.node info children) with
        | none =>
          apply listed_nil
          rintro s ⟨body, hbody, -⟩
          cases hbody
        | some body =>
          have hmem : body ∈ children := Tree.mem_of_childByFieldOrKind? hbody
          have hinner := hnested.of_mem hmem
          have hmembers : ∀ member ∈ body.children, member.DeclaresType →
              Listed source file (Within source ⟨member, path ++ [name]⟩)
                (TypeDeclaration.allOfNode file source namespaceName (some d.fullName) member) := by
            intro member hmember htype
            refine ih body hmem member (.of_mem hmember) (hinner.of_mem hmember) htype ?_
            rw [scope_append_singleton, hfull]
            rfl
          refine (listed_nestedAmong hinner.laidOut.ordered (fun _ h => hinner.of_mem h)
            hmembers).congr fun s => ?_
          simp only [Option.mem_some_iff, exists_eq_left']
      rw [hread]
      refine ((listed_singleton hdescribes).append hbelow ?_).congr fun s => within_iff hname
      rintro _ b rfl ⟨body, hbody, member, hmem, -, -, hb⟩
      have hkeyword := (hnested.laidOut.keyword htype).2 body hbody
      have hinside := (hnested.of_mem (Tree.mem_of_childByFieldOrKind? hbody)).inside
        (.inner hmem hb.holds)
      exact Nat.lt_of_lt_of_le hkeyword hinside.1

end Types

/-! ## What stands below a level -/

section Levels

variable {source : List Char} {file : FileId}

/-- The member stands among some of the children of a level, behind those before them. -/
def Among (source : List Char) (path : List String) (before children : List Tree)
    (member : Enclosed) : Prop :=
  ∃ earlier later, children = earlier ++ member.node :: later ∧ member.node.isCode = true ∧
    member.path = opened source path (before ++ earlier)

theorem has_iff {level member : Enclosed} :
    level.Has source member ↔ Among source level.path [] level.node.children member :=
  Iff.rfl

theorem not_among_nil {path : List String} {before : List Tree} {member : Enclosed} :
    ¬Among source path before [] member := by
  rintro ⟨earlier, later, hchildren, -⟩
  exact List.append_ne_nil_of_right_ne_nil earlier (List.cons_ne_nil _ _) hchildren.symm

theorem among_cons {path : List String} {before rest : List Tree} {t : Tree} {member : Enclosed} :
    Among source path before (t :: rest) member ↔
      (t.isCode = true ∧ member = ⟨t, opened source path before⟩) ∨
        Among source path (before ++ [t]) rest member := by
  constructor
  · rintro ⟨earlier, later, hchildren, hcode, hpath⟩
    cases earlier with
    | nil =>
      obtain ⟨rfl, -⟩ := List.cons.inj hchildren
      rw [List.append_nil] at hpath
      exact .inl ⟨hcode, by rw [← hpath]⟩
    | cons first earlier =>
      obtain ⟨rfl, hrest⟩ := List.cons.inj hchildren
      refine .inr ⟨earlier, later, hrest, hcode, ?_⟩
      rw [hpath, List.append_assoc, List.singleton_append]
  · rintro (⟨hcode, rfl⟩ | ⟨earlier, later, rfl, hcode, hpath⟩)
    · exact ⟨[], rest, rfl, hcode, by rw [List.append_nil]⟩
    · refine ⟨t :: earlier, later, rfl, hcode, ?_⟩
      rw [hpath, List.append_assoc, List.singleton_append]

theorem Among.mem {path : List String} {before children : List Tree} {member : Enclosed}
    (h : Among source path before children member) : member.node ∈ children := by
  obtain ⟨earlier, later, rfl, -⟩ := h
  exact List.mem_append_right earlier List.mem_cons_self

/-- The type is declared by a member of a level whose own namespaces are `outer`. -/
def DeclaredBy (source : List Char) (outer : List String) (member s : Enclosed) : Prop :=
  (member.node.DeclaresType ∧ member.Within source s) ∨
    ∃ inner, Opens source outer member inner ∧ inner.Declared source s

/-- What is declared below a level is declared by its members. -/
theorem declared_iff {level s : Enclosed} : level.Declared source s ↔
    ∃ member, level.Has source member ∧ DeclaredBy source level.path member s := by
  constructor
  · rintro ⟨inner, outer, hsteps, hhas, htype, hwithin⟩
    rcases hsteps.cases_head with rfl | ⟨next, ⟨member, hmember, hopens⟩, hrest⟩
    · exact ⟨outer, hhas, .inl ⟨htype, hwithin⟩⟩
    · exact ⟨member, hmember, .inr ⟨next, hopens, inner, outer, hrest, hhas, htype, hwithin⟩⟩
  · rintro ⟨member, hmember, ⟨htype, hwithin⟩ |
      ⟨next, hopens, inner, outer, hrest, hhas, htype, hwithin⟩⟩
    · exact ⟨level, member, .refl, hmember, htype, hwithin⟩
    · exact ⟨inner, outer, .head ⟨member, hmember, hopens⟩ hrest, hhas, htype, hwithin⟩

theorem Opens.holds {outer : List String} {member inner : Enclosed}
    (h : Opens source outer member inner) : member.node.Holds inner.node := by
  cases h with
  | declaration _ hbody => exact .of_mem (Tree.mem_of_childByFieldOrKind? hbody)
  | directive => exact .self member.node

theorem Has.holds {level member : Enclosed} (h : level.Has source member) :
    level.node.Holds member.node :=
  .of_mem (Among.mem (has_iff.1 h))

theorem holds_of_intoNamespace {level inner : Enclosed}
    (h : ReflTransGen (IntoNamespace source) level inner) : level.node.Holds inner.node := by
  induction h with
  | refl => exact .self level.node
  | tail _ hinto ih =>
    obtain ⟨member, hmember, hopens⟩ := hinto
    exact ih.trans (hmember.holds.trans hopens.holds)

theorem Declared.holds {level s : Enclosed} (h : level.Declared source s) :
    level.node.Holds s.node ∧ s.node.DeclaresType := by
  obtain ⟨inner, outer, hsteps, hhas, htype, hwithin⟩ := h
  refine ⟨?_, hwithin.declaresType htype⟩
  exact (holds_of_intoNamespace hsteps).trans (hhas.holds.trans hwithin.holds)

theorem DeclaredBy.holds {outer : List String} {member s : Enclosed}
    (h : DeclaredBy source outer member s) : member.node.Holds s.node ∧ s.node.DeclaresType := by
  rcases h with ⟨htype, hwithin⟩ | ⟨inner, hopens, hdeclared⟩
  · exact ⟨hwithin.holds, hwithin.declaresType htype⟩
  · exact ⟨hopens.holds.trans hdeclared.holds.1, hdeclared.holds.2⟩

/-- The members of a level give what is declared by each of them. -/
theorem listed_ofMembers {outer : List String} (before : List Tree) {members : List Tree}
    (hordered : members.Pairwise fun a b => a.stop ≤ b.start)
    (hnested : ∀ member ∈ members, member.WellNested)
    (hmembers : ∀ member ∈ members, ∀ path,
      Listed source file (DeclaredBy source outer ⟨member, path⟩)
        (FileDeclarations.ofMember file source (scope outer) (scope path) member).types) :
    Listed source file
      (fun s => ∃ member, Among source outer before members member ∧
        DeclaredBy source outer member s)
      (FileDeclarations.ofMembers file source (scope outer) (scope (opened source outer before))
        members).types := by
  induction members generalizing before with
  | nil =>
    rw [FileDeclarations.ofMembers]
    apply listed_nil
    rintro s ⟨member, hamong, -⟩
    exact not_among_nil hamong
  | cons member rest ih =>
    obtain ⟨hfirst, hrest⟩ := List.pairwise_cons.1 hordered
    have hlater := ih (before ++ [member]) hrest
      (fun m hm => hnested m (List.mem_cons_of_mem member hm))
      fun m hm => hmembers m (List.mem_cons_of_mem member hm)
    have hhere : Listed source file
        (fun s => member.isCode = true ∧
          DeclaredBy source outer ⟨member, opened source outer before⟩ s)
        (if member.isCode then
          FileDeclarations.ofMember file source (scope outer) (scope (opened source outer before))
            member
        else .empty).types := by
      split
      case isTrue hcode =>
        refine (hmembers member List.mem_cons_self _).congr fun s => ?_
        exact ⟨fun hs => hs.2, fun hs => ⟨hcode, hs⟩⟩
      case isFalse hcode => exact listed_nil fun s hs => hcode hs.1
    rw [FileDeclarations.ofMembers, namespaceAfter_scope]
    refine (hhere.append hlater ?_).congr fun s => ?_
    · rintro a b ⟨-, ha⟩ ⟨later, hamong, hb⟩
      exact (hnested member List.mem_cons_self).start_lt
        (hnested later.node (List.mem_cons_of_mem member hamong.mem)) (hfirst later.node hamong.mem)
        ha.holds.1 hb.holds.1 ha.holds.2
    · simp only [among_cons, or_and_right, exists_or, and_assoc, exists_eq_left, exists_and_left]

theorem declaredBy_declaration_iff {outer : List String} {member s : Enclosed}
    (hkind : member.node.kind = "namespace_declaration") :
    DeclaredBy source outer member s ↔ ∃ body ∈ body? member.node,
      Declared source ⟨body, member.path ++ declaredName source member.node⟩ s := by
  constructor
  · rintro (⟨htype, -⟩ | ⟨inner, hopens, hdeclared⟩)
    · rw [Tree.DeclaresType, hkind] at htype
      exact absurd htype (by decide)
    · cases hopens with
      | declaration _ hbody => exact ⟨_, hbody, hdeclared⟩
      | directive hkind' =>
        rw [hkind] at hkind'
        exact absurd hkind' (by decide)
  · rintro ⟨body, hbody, hdeclared⟩
    exact .inr ⟨_, .declaration hkind hbody, hdeclared⟩

theorem declaredBy_directive_iff {outer : List String} {member s : Enclosed}
    (hkind : member.node.kind = "file_scoped_namespace_declaration") :
    DeclaredBy source outer member s ↔
      Declared source ⟨member.node, outer ++ declaredName source member.node⟩ s := by
  constructor
  · rintro (⟨htype, -⟩ | ⟨inner, hopens, hdeclared⟩)
    · rw [Tree.DeclaresType, hkind] at htype
      exact absurd htype (by decide)
    · cases hopens with
      | declaration hkind' _ =>
        rw [hkind] at hkind'
        exact absurd hkind' (by decide)
      | directive => exact hdeclared
  · intro hdeclared
    exact .inr ⟨_, .directive hkind, hdeclared⟩

/-- A member that is no namespace declares a type or nothing. -/
theorem declaredBy_iff_of_ne {outer : List String} {member s : Enclosed}
    (hdeclaration : member.node.kind ≠ "namespace_declaration")
    (hdirective : member.node.kind ≠ "file_scoped_namespace_declaration") :
    DeclaredBy source outer member s ↔ member.node.DeclaresType ∧ member.Within source s := by
  constructor
  · rintro (h | ⟨inner, hopens, -⟩)
    · exact h
    · cases hopens with
      | declaration hkind => exact absurd hkind hdeclaration
      | directive hkind => exact absurd hkind hdirective
  · exact .inl

/-- Using directives and attributes declare no types. -/
theorem listed_of_other {outer path : List String} {t : Tree} {kind : String}
    (hkind : t.kind = kind)
    (hother : nodeKinds.contains kind = false ∧ kind ≠ "namespace_declaration" ∧
      kind ≠ "file_scoped_namespace_declaration") :
    Listed source file (DeclaredBy source outer ⟨t, path⟩) [] := by
  obtain ⟨htype, hdeclaration, hdirective⟩ := hother
  rw [← hkind] at htype hdeclaration hdirective
  refine listed_nil fun s hs => ?_
  have hdeclares := ((declaredBy_iff_of_ne hdeclaration hdirective).1 hs).1
  rw [Tree.DeclaresType, htype] at hdeclares
  cases hdeclares

/-- What is read off the members of a node, and what is read off the node as a member. -/
theorem listed_ofTree (t : Tree) (hnested : t.WellNested) :
    (∀ path, Listed source file (Declared source ⟨t, path⟩)
      (FileDeclarations.ofMembers file source (scope path) (scope path) t.children).types) ∧
    ∀ outer path, Listed source file (DeclaredBy source outer ⟨t, path⟩)
      (FileDeclarations.ofMember file source (scope outer) (scope path) t).types := by
  induction t using Tree.induction_below with
  | step t ih =>
    have hlevel (path : List String) : Listed source file (Declared source ⟨t, path⟩)
        (FileDeclarations.ofMembers file source (scope path) (scope path) t.children).types := by
      have hmembers := listed_ofMembers [] hnested.laidOut.ordered (fun _ h => hnested.of_mem h)
        (fun member hmem =>
          (ih member hmem member (.self member) (hnested.of_mem hmem)).2 path)
      exact hmembers.congr fun s => declared_iff
    refine ⟨hlevel, fun outer path => ?_⟩
    obtain ⟨info, children⟩ := t
    rw [FileDeclarations.ofMember]
    dsimp only
    split
    case h_1 hkind => exact listed_of_other hkind (by decide)
    case h_2 hkind => exact listed_of_other hkind (by decide)
    case h_3 hkind => exact listed_of_other hkind (by decide)
    case h_4 hkind =>
      have hfind := find?_bodyTest (.node info children)
      rw [Tree.children] at hfind
      rw [joinNamespace_scope, FileDeclarations.ofBody_eq, hfind]
      refine Listed.congr ?_ fun s => declaredBy_declaration_iff hkind
      cases hbody : body? (.node info children) with
      | none =>
        apply listed_nil
        rintro s ⟨body, hbody, -⟩
        cases hbody
      | some body =>
        have hmem : body ∈ children := Tree.mem_of_childByFieldOrKind? hbody
        refine ((ih body hmem body (.self body) (hnested.of_mem hmem)).1 _).congr fun s => ?_
        simp only [Option.mem_some_iff, exists_eq_left']
    case h_5 hkind =>
      rw [joinNamespace_scope]
      exact (hlevel _).congr fun s => declaredBy_directive_iff hkind
    case h_6 _ _ _ hdeclaration hdirective =>
      refine Listed.congr ?_ fun s => declaredBy_iff_of_ne hdeclaration hdirective
      split
      case isTrue htype =>
        have htypes : Listed source file (Within source ⟨.node info children, path⟩)
            (TypeDeclaration.allOfNode file source (scope path) none (.node info children)) :=
          listed_allOfNode _ hnested htype rfl
        exact htypes.congr fun s => ⟨fun hs => hs.2, fun hs => ⟨htype, hs⟩⟩
      case isFalse htype => exact listed_nil fun s hs => htype hs.1

end Levels

theorem Describes.start_eq {source : List Char} {file : FileId} {s : Enclosed}
    {d : TypeDeclaration} (h : Describes source file s d) : d.handle.start = s.node.start := by
  rw [h.handle]

theorem starts_eq {source : List Char} {file : FileId} {sites : List Enclosed}
    {types : List TypeDeclaration} (h : List.Forall₂ (Describes source file) sites types) :
    types.map (·.handle.start) = sites.map (·.node.start) := by
  induction h with
  | nil => rfl
  | cons hdescribes _ ih => rw [List.map_cons, List.map_cons, hdescribes.start_eq, ih]

end Enclosed

/-! ## The types of a file -/

namespace FileDeclarations

open Enclosed

/-- The types of a file are in the order of their places, and they are those that its
well-nested tree declares, one for each node. -/
theorem types_spec (file : FileId) (source : List Char) {t : Tree} (h : t.WellNested) :
    ((ofTree file source t).types.Pairwise fun a b => a.handle.start < b.handle.start) ∧
    ∃ sites : List Enclosed, (sites.map (·.node)).Nodup ∧
      (∀ s, s ∈ sites ↔ Declared source ⟨t, []⟩ s) ∧
      List.Forall₂ (Describes source file) sites (ofTree file source t).types := by
  have hlisted : Listed source file (Declared source ⟨t, []⟩) (ofTree file source t).types :=
    (listed_ofTree t h).1 []
  obtain ⟨sites, hmem, hordered, hdescribed⟩ := hlisted
  refine ⟨?_, sites, ?_, hmem, hdescribed⟩
  · have hstarts := List.pairwise_map.2 hordered
    rw [← starts_eq hdescribed] at hstarts
    exact List.pairwise_map.1 hstarts
  · refine List.pairwise_map.2 (hordered.imp fun {a b} hlt heq => ?_)
    rw [heq] at hlt
    exact Nat.lt_irrefl _ hlt

/-- A node of the code with a name of one letter. -/
def declarationAt (kind : String) (name start body stop : Nat) (members : List Tree) : Tree :=
  .node ⟨kind, none, true, false, start, stop⟩
    [.node ⟨"identifier", some "name", true, false, name, name + 1⟩ [],
     .node ⟨"declaration_list", some "body", true, false, body, stop⟩ members]

def genericSource : List Char :=
  "namespace N;\nclass A<T> \x7b void M(); /**/ class B \x7b \x7d \x7d".toList

/-- A generic class with a method and a nested class, behind a namespace directive. -/
def genericTree : Tree :=
  .node ⟨"compilation_unit", none, true, false, 0, 54⟩
    [.node ⟨"file_scoped_namespace_declaration", none, true, false, 0, 12⟩
      [.node ⟨"identifier", some "name", true, false, 10, 11⟩ []],
     .node ⟨"class_declaration", none, true, false, 13, 54⟩
      [.node ⟨"identifier", some "name", true, false, 19, 20⟩ [],
       .node ⟨"type_parameter_list", none, true, false, 20, 23⟩
        [.node ⟨"type_parameter", none, true, false, 21, 22⟩ []],
       .node ⟨"declaration_list", some "body", true, false, 24, 54⟩
        [.node ⟨"method_declaration", none, true, false, 26, 35⟩
          [.node ⟨"predefined_type", some "returns", true, false, 26, 30⟩ [],
           .node ⟨"identifier", some "name", true, false, 31, 32⟩ []],
         .node ⟨"comment", none, true, false, 36, 40⟩ [],
         declarationAt "class_declaration" 47 41 49 52 []]]]

theorem types_spec_generic :
    genericTree.WellNested ∧
      (ofTree 0 genericSource genericTree).types.map
          (fun d => (d.fullName, d.methods.map (·.name))) =
        [("N.A\x601", ["M"]), ("N.A\x601.B", [])] ∧
      ((ofTree 0 genericSource genericTree).types.Pairwise fun a b =>
        a.handle.start < b.handle.start) ∧
      ∃ sites : List Enclosed, (sites.map (·.node)).Nodup ∧
        (∀ s, s ∈ sites ↔ Declared genericSource ⟨genericTree, []⟩ s) ∧
        List.Forall₂ (Describes genericSource 0) sites
          (ofTree 0 genericSource genericTree).types := by
  have hnested : genericTree.WellNested := by decide +kernel
  refine ⟨hnested, ?_, types_spec 0 genericSource hnested⟩
  decide +kernel

/-! ## Types that are not reached -/

/-- The level is reached by going into namespaces and the bodies of types in any order. -/
inductive Reached (source : List Char) (t : Tree) : Enclosed → Prop
  | root : Reached source t ⟨t, []⟩
  | intoNamespace {level inner : Enclosed} (h : Reached source t level)
      (hinto : IntoNamespace source level inner) : Reached source t inner
  | intoType {level member : Enclosed} {body : Tree} (h : Reached source t level)
      (hmember : level.Has source member) (htype : member.node.DeclaresType)
      (hbody : body? member.node = some body) :
      Reached source t ⟨body, member.path ++ (segment? source member.node).toList⟩

/-- A type with a name is reached in this way that no declaration of the file points to. -/
def Loses (source : List Char) (t : Tree) : Prop :=
  ∃ level s, Reached source t level ∧ level.Has source s ∧ s.node.DeclaresType ∧
    (segment? source s.node).isSome = true ∧
    ∀ d ∈ (ofTree 0 source t).types, d.handle ≠ ⟨0, s.node.start, s.node.stop⟩

def straySource : List Char :=
  "class A \x7b namespace N \x7b class B \x7b \x7d \x7d \x7d".toList

def strayClass : Tree :=
  declarationAt "class_declaration" 30 24 32 35 []

def strayNamespace : Tree :=
  declarationAt "namespace_declaration" 20 10 22 37 [strayClass]

/-- A class in a namespace in a class. -/
def strayTree : Tree :=
  .node ⟨"compilation_unit", none, true, false, 0, 39⟩
    [declarationAt "class_declaration" 6 0 8 39 [strayNamespace]]

def namelessSource : List Char :=
  "class \x7b class B \x7b \x7d \x7d".toList

def namelessInner : Tree :=
  declarationAt "class_declaration" 14 8 16 19 []

def namelessOuter : Tree :=
  .node ⟨"class_declaration", none, true, false, 0, 21⟩
    [.node ⟨"declaration_list", some "body", true, false, 6, 21⟩ [namelessInner]]

/-- A class in a class without a name. -/
def namelessTree : Tree :=
  .node ⟨"compilation_unit", none, true, false, 0, 21⟩ [namelessOuter]

theorem loses_stray : Loses straySource strayTree := by
  let outer : Enclosed := ⟨declarationAt "class_declaration" 6 0 8 39 [strayNamespace], []⟩
  let inOuter : Enclosed :=
    ⟨.node ⟨"declaration_list", some "body", true, false, 8, 39⟩ [strayNamespace], ["A"]⟩
  let inNamespace : Enclosed :=
    ⟨.node ⟨"declaration_list", some "body", true, false, 22, 37⟩ [strayClass], ["A", "N"]⟩
  have houter : Has straySource ⟨strayTree, []⟩ outer := ⟨[], [], rfl, by decide, rfl⟩
  have hinOuter : Reached straySource strayTree inOuter := .intoType .root houter (by decide) rfl
  have hnamespace : inOuter.Has straySource ⟨strayNamespace, ["A"]⟩ :=
    ⟨[], [], rfl, by decide, rfl⟩
  have hinNamespace : Reached straySource strayTree inNamespace :=
    .intoNamespace hinOuter ⟨_, hnamespace, .declaration rfl rfl⟩
  refine ⟨inNamespace, ⟨strayClass, ["A", "N"]⟩, hinNamespace, ⟨[], [], rfl, by decide, rfl⟩,
    by decide, by decide, ?_⟩
  decide +kernel

theorem loses_nameless : Loses namelessSource namelessTree := by
  let outer : Enclosed := ⟨namelessOuter, []⟩
  let inOuter : Enclosed :=
    ⟨.node ⟨"declaration_list", some "body", true, false, 6, 21⟩ [namelessInner], []⟩
  have houter : Has namelessSource ⟨namelessTree, []⟩ outer := ⟨[], [], rfl, by decide, rfl⟩
  have hinOuter : Reached namelessSource namelessTree inOuter :=
    .intoType .root houter (by decide) rfl
  refine ⟨inOuter, ⟨namelessInner, []⟩, hinOuter, ⟨[], [], rfl, by decide, rfl⟩, by decide,
    by decide, ?_⟩
  decide +kernel

/-- The types in a namespace that stands in a type, and those in a type without a name, are
lost. -/
theorem types_below_type_are_lost :
    strayTree.WellNested ∧ Loses straySource strayTree ∧
      namelessTree.WellNested ∧ Loses namelessSource namelessTree :=
  ⟨by decide +kernel, loses_stray, by decide +kernel, loses_nameless⟩

end FileDeclarations

end TestLint
