import TestLint.Declaration.OfTree
import TestLint.Proofs.Expression.Operand
import TestLint.Proofs.Syntax.WellFormed

/-!
# Where declarations stand

The places that a method keeps of its parts, read off a well-formed tree: they
cover ranges of the source, and those of different parts lie apart
(`Method.Placed`, `Invocation.Placed`).  Every method that a file declares was
read off a node of its tree, so all of them are placed
(`FileDeclarations.placed_of_mem`).
-/

namespace TestLint

open Text

variable {source : List Char}

/-! ## Calls -/

namespace Invocation

/-- The parts of a call stand apart: the name of the method covers `name`, and
the arguments stand one after the other inside `list`, which ends with the
closing parenthesis. -/
structure Placed (source : List Char) (call : Invocation) (name list : ByteRange) : Prop where
  whole : ∃ r, call.location.Covers source r
  nameAt : call.nameLocation.Covers source name
  listAt : call.argumentsLocation.Covers source list
  apart : name.stop ≤ list.start ∨ list.stop ≤ name.start
  inside : ∀ a ∈ call.arguments, ∃ r, a.location.Covers source r ∧
    list.start ≤ r.start ∧ r.stop ≤ list.stop
  ordered : call.arguments.Pairwise fun a b => a.location.Before source b.location
  closed : ∃ before after, before ++ [')'] ++ after = source ∧
    byteSize (before ++ [')']) = list.stop

/-- The arguments of a call stand inside their list in their order. -/
theorem arguments_placed {args : Tree} (h : args.Nested source) :
    let arguments := (args.codeChildren.filter (·.kind == "argument")).map (Argument.ofTree source)
    (∀ a ∈ arguments, ∃ r, a.location.Covers source r ∧
      args.start ≤ r.start ∧ r.stop ≤ args.stop) ∧
    arguments.Pairwise fun a b => a.location.Before source b.location := by
  have hsub : (args.codeChildren.filter (·.kind == "argument")).Sublist args.children :=
    List.filter_sublist.trans List.filter_sublist
  refine ⟨?_, ?_⟩
  · intro a ha
    obtain ⟨t, ht, rfl⟩ := List.mem_map.1 ha
    obtain ⟨n, hn, -, -, hlocation⟩ := Argument.exists_node source t
    have hholds : args.Holds n := .inner (hsub.subset ht) hn
    rw [hlocation]
    exact ⟨n.range, h.covers hholds, h.inside hholds⟩
  · rw [List.pairwise_map]
    refine (h.inPlace.ordered.sublist hsub).imp_of_mem ?_
    intro s t hs ht hst
    have hs : args.Holds s := .of_mem (hsub.subset hs)
    have ht : args.Holds t := .of_mem (hsub.subset ht)
    obtain ⟨m, hm, -, -, hm'⟩ := Argument.exists_node source s
    obtain ⟨n, hn, -, -, hn'⟩ := Argument.exists_node source t
    rw [hm', hn']
    refine ⟨m.range, n.range, h.covers (hs.trans hm), h.covers (ht.trans hn), ?_⟩
    have hms := ((h.of_holds hs).inside hm).2
    have hnt := ((h.of_holds ht).inside hn).1
    exact Nat.le_trans hms (Nat.le_trans hst hnt)

theorem placed_of_ofTree? {t : Tree} {call : Invocation} (h : t.WellFormed source)
    (hkind : t.kind = "invocation_expression") (hcall : ofTree? source t = some call) :
    ∃ name list, call.Placed source name list := by
  obtain ⟨function, args, method, hfunction, hargs, hmethod, -, hname, hlocation, hlist,
    harguments⟩ := exists_nodes hcall
  obtain ⟨hfunctionMem, hfunctionField⟩ := Tree.mem_of_childByField? hfunction
  obtain ⟨hargsMem, hargsField⟩ := Tree.mem_of_childByField? hargs
  have hne : function ≠ args := by
    rintro rfl
    rw [hfunctionField] at hargsField
    exact absurd (Option.some.inj hargsField) (by decide)
  obtain ⟨hinside, hordered⟩ := arguments_placed (h.nested.of_holds (.of_mem hargsMem))
  refine ⟨method.range, args.range, ⟨t.range, ?_⟩, ?_, ?_,
    h.nested.apart hfunctionMem hargsMem hne hmethod (.self args), ?_, ?_, ?_⟩
  · rw [hlocation]
    exact h.nested.covers (.self t)
  · rw [hname]
    exact h.nested.covers (.inner hfunctionMem hmethod)
  · rw [hlist]
    exact h.nested.covers (.of_mem hargsMem)
  · rw [harguments]
    exact hinside
  · rw [harguments]
    exact hordered
  · obtain ⟨before, text, after, hsource, -, hstop, htext⟩ := h.nested.parts (.of_mem hargsMem)
    have hlast := h.sound.closed hkind args hargs
    rw [htext, String.toList_ofList, List.getLast?_eq_some_iff] at hlast
    obtain ⟨init, rfl⟩ := hlast
    refine ⟨before ++ init, after, ?_, ?_⟩
    · rw [List.append_assoc before, hsource]
    · rw [List.append_assoc, hstop]
      rfl

end Invocation

/-! ## Attributes and modifiers -/

namespace Attribute

/-- The name of the attribute is what the source holds at its place. -/
def NamePlaced (source : List Char) (a : Attribute) : Prop :=
  ∃ before name after, before ++ name ++ after = source ∧ a.name = String.ofList name ∧
    a.nameLocation = .ofOffsets (byteSize before) (byteSize (before ++ name)) source

theorem namePlaced_of_ofTree? {t : Tree} {file : FileId} {target : Option String} {a : Attribute}
    (h : t.Nested source) (hnames : t.NamesTrimmed source) (hkind : t.kind = "attribute")
    (ha : ofTree? file source target t = some a) : a.NamePlaced source := by
  simp only [ofTree?, Option.bind_eq_bind, Option.bind_eq_some_iff] at ha
  obtain ⟨name, hname, ha⟩ := ha
  have hmem : name ∈ t.children := by
    rw [Option.orElse_eq_orElse, Option.orElse_eq_or, Option.or_eq_some_iff] at hname
    rcases hname with hname | ⟨-, hname⟩
    · exact (Tree.mem_of_childByField? hname).1
    · exact Tree.mem_of_mem_codeChildren (List.mem_of_mem_head? hname)
  have htrimmed := hnames t (.self t) hkind name hname
  obtain ⟨before, text, after, hsource, hstart, hstop, htext⟩ := h.parts (.of_mem hmem)
  cases ha
  refine ⟨before, text, after, hsource, htrimmed.trans htext, ?_⟩
  rw [hstart, hstop]
  rfl

theorem namePlaced_of_mem_ofDeclaration {t : Tree} {file : FileId} {a : Attribute}
    (h : t.Nested source) (hnames : t.NamesTrimmed source)
    (ha : a ∈ ofDeclaration file source t) : a.NamePlaced source := by
  obtain ⟨list, hlist, ha⟩ := List.mem_flatMap.1 ha
  obtain ⟨n, hn, ha⟩ := List.mem_filterMap.1 ha
  obtain ⟨hn, hkind⟩ := Tree.mem_of_mem_childrenOfKind hn
  have hholds : t.Holds n := .inner (Tree.mem_of_mem_childrenOfKind hlist).1 (.of_mem hn)
  exact namePlaced_of_ofTree? (h.of_holds hholds) (hnames.of_holds hholds) hkind ha

end Attribute

namespace Modifiers

/-- The modifiers stand one after the other. -/
structure Placed (source : List Char) (m : Modifiers) : Prop where
  covers : ∀ token ∈ m.tokens, ∃ r, token.location.Covers source r
  ordered : m.tokens.Pairwise fun a b => a.location.Before source b.location

theorem placed_ofTree {t : Tree} (h : t.Nested source) (boundary : Nat) :
    (ofTree source t boundary).Placed source := by
  let nodes := (t.children.takeWhile (·.start < boundary)).filter fun c =>
    c.kind == "modifier" || modifierKeywords.contains c.kind
  have hsub : nodes.Sublist t.children :=
    List.filter_sublist.trans (List.takeWhile_prefix _).sublist
  have hholds : ∀ n ∈ nodes, t.Holds n := fun n hn => .of_mem (hsub.subset hn)
  refine ⟨?_, List.pairwise_map.2 ?_⟩
  · intro token htoken
    obtain ⟨n, hn, rfl⟩ := List.mem_map.1 htoken
    exact ⟨n.range, h.covers (hholds n hn)⟩
  · refine (h.inPlace.ordered.sublist hsub).imp_of_mem ?_
    intro m n hm hn hmn
    exact ⟨m.range, n.range, h.covers (hholds m hm), h.covers (hholds n hn), hmn⟩

end Modifiers

/-! ## Methods -/

namespace Method

/-- What the fixes of a method rely on: the places of its parts are those of
the source, and its attributes, modifiers and calls are placed. -/
structure Placed (source : List Char) (m : Method) : Prop where
  modifiers : m.modifiers.Placed source
  returnType : ∃ r, m.returnTypeLocation.Covers source r
  attributes : ∀ a ∈ m.attributes, a.NamePlaced source
  invocations : ∀ call ∈ m.invocations, ∃ name list, call.Placed source name list

mutual

/-- The calls of a tree were read off its call expressions. -/
theorem mem_invocationsIn {outside : Bool} {call : Invocation} (t : Tree)
    (h : call ∈ invocationsIn source outside t) :
    ∃ n, t.Holds n ∧ n.kind = "invocation_expression" ∧
      ∃ read inside, Invocation.ofTree? source n = some read ∧
        call = { read with inAsyncVoidLocal := inside } := by
  obtain ⟨info, children⟩ := t
  rw [invocationsIn, List.mem_append] at h
  rcases h with h | h
  · unfold invocationAt at h
    split at h
    case isFalse => cases h
    case isTrue hkind =>
      rw [Option.mem_toList, Option.map_eq_some_iff] at h
      obtain ⟨read, hread, rfl⟩ := h
      exact ⟨_, .self _, beq_iff_eq.1 hkind, read, _, hread, rfl⟩
  · obtain ⟨child, hchild, n, hn, hcall⟩ := mem_invocationsAmong children h
    exact ⟨n, .inner hchild hn, hcall⟩

theorem mem_invocationsAmong {inside : Bool} {call : Invocation} (ts : List Tree)
    (h : call ∈ invocationsAmong source inside ts) :
    ∃ t ∈ ts, ∃ n, t.Holds n ∧ n.kind = "invocation_expression" ∧
      ∃ read inside, Invocation.ofTree? source n = some read ∧
        call = { read with inAsyncVoidLocal := inside } := by
  match ts with
  | [] =>
    rw [invocationsAmong] at h
    cases h
  | child :: rest =>
    rw [invocationsAmong, List.mem_append] at h
    rcases h with h | h
    · split at h
      case isFalse => cases h
      case isTrue => exact ⟨child, List.mem_cons_self, mem_invocationsIn child h⟩
    · obtain ⟨t, ht, hcall⟩ := mem_invocationsAmong rest h
      exact ⟨t, List.mem_cons_of_mem child ht, hcall⟩

end

theorem body?_mem {t body : Tree} (h : body? t = some body) : body ∈ t.children := by
  rw [body?, Option.orElse_eq_orElse, Option.orElse_eq_or, Option.or_eq_some_iff] at h
  rcases h with h | ⟨-, h⟩
  · exact Tree.mem_of_childByFieldOrKind? h
  · exact Tree.mem_of_childOfKind? h

/-- The calls of a method were read off call expressions of the method. -/
theorem exists_call_node {t : Tree} {file : FileId} {m : Method}
    (hm : ofTree? file source t = some m) {call : Invocation} (hcall : call ∈ m.invocations) :
    ∃ n, t.Holds n ∧ n.kind = "invocation_expression" ∧
      ∃ read inside, Invocation.ofTree? source n = some read ∧
        call = { read with inAsyncVoidLocal := inside } := by
  simp only [ofTree?, Option.bind_eq_bind, Option.bind_eq_some_iff] at hm
  obtain ⟨name, -, hm⟩ := hm
  cases hm
  dsimp only at hcall
  cases hbody : body? t with
  | none =>
    rw [hbody] at hcall
    cases hcall
  | some body =>
    rw [hbody] at hcall
    obtain ⟨n, hn, hread⟩ := mem_invocationsIn body hcall
    exact ⟨n, .inner (body?_mem hbody) hn, hread⟩

theorem attributes_namePlaced {t : Tree} {file : FileId} {m : Method} (h : t.Nested source)
    (hnames : t.NamesTrimmed source) (hm : ofTree? file source t = some m) :
    ∀ a ∈ m.attributes, a.NamePlaced source := by
  simp only [ofTree?, Option.bind_eq_bind, Option.bind_eq_some_iff] at hm
  obtain ⟨name, -, hm⟩ := hm
  cases hm
  exact fun a ha => Attribute.namePlaced_of_mem_ofDeclaration h hnames ha

/-- The return type of a method, or else its name, is a child of the method. -/
theorem returnType_mem {t name : Tree} (hname : t.childByField? "name" = some name) :
    (t.childByField? "returns" <|> t.childByField? "type").getD name ∈ t.children := by
  rw [Option.orElse_eq_orElse, Option.orElse_eq_or]
  cases hreturns : (t.childByField? "returns").or (t.childByField? "type") with
  | none => exact (Tree.mem_of_childByField? hname).1
  | some returns =>
    rcases Option.or_eq_some_iff.1 hreturns with h | ⟨-, h⟩
    · exact (Tree.mem_of_childByField? h).1
    · exact (Tree.mem_of_childByField? h).1

theorem placed_of_ofTree? {t : Tree} {file : FileId} {m : Method} (h : t.WellFormed source)
    (hm : ofTree? file source t = some m) : m.Placed source := by
  have hinvocations : ∀ call ∈ m.invocations, ∃ name list, call.Placed source name list := by
    intro call hcall
    obtain ⟨n, hn, hkind, read, inside, hread, rfl⟩ := exists_call_node hm hcall
    obtain ⟨name, list, hplaced⟩ := Invocation.placed_of_ofTree? (h.of_holds hn) hkind hread
    exact ⟨name, list, { hplaced with }⟩
  have hattributes := attributes_namePlaced h.nested h.namesTrimmed hm
  simp only [ofTree?, Option.bind_eq_bind, Option.bind_eq_some_iff] at hm
  obtain ⟨name, hname, hm⟩ := hm
  cases hm
  exact ⟨Modifiers.placed_ofTree h.nested _,
    ⟨_, h.nested.covers (.of_mem (returnType_mem hname))⟩, hattributes, hinvocations⟩

end Method

/-! ## Types -/

namespace TypeDeclaration

/-- The type was read off a node of the tree. -/
def ReadOff (file : FileId) (source : List Char) (t : Tree) (d : TypeDeclaration) : Prop :=
  ∃ n namespaceName containing, t.Holds n ∧
    ofNode? file source namespaceName containing n = some d

variable {file : FileId} {namespaceName : Option String} {d : TypeDeclaration}

theorem ReadOff.of_mem {t child : Tree} (hchild : child ∈ t.children)
    (h : ReadOff file source child d) : ReadOff file source t d := by
  obtain ⟨n, namespaceName, containing, hn, hd⟩ := h
  exact ⟨n, namespaceName, containing, .inner hchild hn, hd⟩

/-- The methods of a type were read off nodes of the tree. -/
theorem exists_method_node {t : Tree} (hd : ReadOff file source t d) {m : Method}
    (hm : m ∈ d.methods) : ∃ n, t.Holds n ∧ Method.ofTree? file source n = some m := by
  obtain ⟨n, namespaceName, containing, hn, hd⟩ := hd
  simp only [ofNode?, Option.bind_eq_bind, Option.bind_eq_some_iff] at hd
  obtain ⟨name, -, hd⟩ := hd
  cases hd
  obtain ⟨member, hmember, hm⟩ := List.mem_filterMap.1 hm
  have hmember := (List.mem_filter.1 hmember).1
  cases hbody : body? n with
  | none =>
    rw [hbody] at hmember
    cases hmember
  | some body =>
    rw [hbody] at hmember
    have hmem : member ∈ body.children := Tree.mem_of_mem_codeChildren hmember
    have hholds : n.Holds member :=
      .inner (Tree.mem_of_childByFieldOrKind? hbody) (.of_mem hmem)
    exact ⟨member, hn.trans hholds, hm⟩

mutual

theorem mem_allOfNode {containing : Option String} (t : Tree)
    (h : d ∈ allOfNode file source namespaceName containing t) : ReadOff file source t d := by
  obtain ⟨info, children⟩ := t
  rw [allOfNode] at h
  split at h
  case h_1 => cases h
  case h_2 outer houter =>
    rcases List.mem_cons.1 h with rfl | h
    · exact ⟨_, namespaceName, containing, .self _, houter⟩
    · obtain ⟨child, hchild, hd⟩ := mem_nestedInFirst children h
      exact hd.of_mem hchild

theorem mem_nestedInFirst {containing : String} {isBody : NodeInfo → Bool} (ts : List Tree)
    (h : d ∈ nestedInFirst file source namespaceName containing isBody ts) :
    ∃ t ∈ ts, ReadOff file source t d := by
  match ts with
  | [] =>
    rw [nestedInFirst] at h
    cases h
  | .node info members :: rest =>
    rw [nestedInFirst] at h
    split at h
    case isTrue =>
      obtain ⟨member, hmember, hd⟩ := mem_nestedAmong members h
      exact ⟨_, List.mem_cons_self, hd.of_mem hmember⟩
    case isFalse =>
      obtain ⟨t, ht, hd⟩ := mem_nestedInFirst rest h
      exact ⟨t, List.mem_cons_of_mem _ ht, hd⟩

theorem mem_nestedAmong {containing : String} (ts : List Tree)
    (h : d ∈ nestedAmong file source namespaceName containing ts) :
    ∃ t ∈ ts, ReadOff file source t d := by
  match ts with
  | [] =>
    rw [nestedAmong] at h
    cases h
  | member :: rest =>
    rw [nestedAmong, List.mem_append] at h
    rcases h with h | h
    · split at h
      case isFalse => cases h
      case isTrue => exact ⟨member, List.mem_cons_self, mem_allOfNode member h⟩
    · obtain ⟨t, ht, hd⟩ := mem_nestedAmong rest h
      exact ⟨t, List.mem_cons_of_mem member ht, hd⟩

end

end TypeDeclaration

namespace FileDeclarations

open TypeDeclaration (ReadOff)

variable {file : FileId} {d : TypeDeclaration}

mutual

theorem mem_types_ofMember {outer current : Option String} (t : Tree)
    (h : d ∈ (ofMember file source outer current t).types) :
    ReadOff file source t d := by
  obtain ⟨info, children⟩ := t
  rw [ofMember] at h
  split at h
  · cases h
  · cases h
  · cases h
  · obtain ⟨child, hchild, hd⟩ := mem_types_ofBody children h
    exact hd.of_mem hchild
  · obtain ⟨child, hchild, hd⟩ := mem_types_ofMembers children h
    exact hd.of_mem hchild
  · split at h
    · exact TypeDeclaration.mem_allOfNode _ h
    · cases h

theorem mem_types_ofMembers {outer current : Option String} (ts : List Tree)
    (h : d ∈ (ofMembers file source outer current ts).types) :
    ∃ t ∈ ts, ReadOff file source t d := by
  match ts with
  | [] =>
    rw [ofMembers] at h
    cases h
  | member :: rest =>
    rw [ofMembers, append, List.mem_append] at h
    rcases h with h | h
    · split at h
      case isFalse => cases h
      case isTrue => exact ⟨member, List.mem_cons_self, mem_types_ofMember member h⟩
    · obtain ⟨t, ht, hd⟩ := mem_types_ofMembers rest h
      exact ⟨t, List.mem_cons_of_mem member ht, hd⟩

theorem mem_types_ofBody {current : Option String} {isBody : NodeInfo → Bool} (ts : List Tree)
    (h : d ∈ (ofBody file source current isBody ts).types) :
    ∃ t ∈ ts, ReadOff file source t d := by
  match ts with
  | [] =>
    rw [ofBody] at h
    cases h
  | .node info members :: rest =>
    rw [ofBody] at h
    split at h
    case isTrue =>
      obtain ⟨member, hmember, hd⟩ := mem_types_ofMembers members h
      exact ⟨_, List.mem_cons_self, hd.of_mem hmember⟩
    case isFalse =>
      obtain ⟨t, ht, hd⟩ := mem_types_ofBody rest h
      exact ⟨t, List.mem_cons_of_mem _ ht, hd⟩

end

/-- All methods that a file declares were read off nodes of its tree. -/
theorem exists_method_node {t : Tree} (hd : d ∈ (ofTree file source t).types) {m : Method}
    (hm : m ∈ d.methods) : ∃ n, t.Holds n ∧ Method.ofTree? file source n = some m := by
  obtain ⟨child, hchild, hread⟩ := mem_types_ofMembers t.children hd
  exact TypeDeclaration.exists_method_node (hread.of_mem hchild) hm

/-- All methods that a file declares are placed. -/
theorem placed_of_mem {t : Tree} (h : t.WellFormed source) (hd : d ∈ (ofTree file source t).types)
    {m : Method} (hm : m ∈ d.methods) : m.Placed source := by
  obtain ⟨n, hn, hread⟩ := exists_method_node hd hm
  exact Method.placed_of_ofTree? (h.of_holds hn) hread

end FileDeclarations

end TestLint
