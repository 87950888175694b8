import TestLint.Expression.Invocation
import TestLint.Proofs.Syntax.Nodes

/-!
# Operands and calls

The constant and the shape of an expression are read off its children, trivia left aside.  An
argument that a call keeps is written at a node below the call: it has the text and the shape of
that node (`Operand.WrittenIn`).
-/

namespace TestLint

/-! ## Values of children -/

namespace Constant

variable (source : List Char)

theorem ofLast?_eq (ts : List Tree) :
    ofLast? source ts = (ts.filter Tree.isCode).getLast?.map (ofTree source) := by
  refine Tree.lastCode?_eq ?_ (fun t rest => ?_) ts
  · rw [ofLast?]
  · rw [ofLast?]
    cases ofLast? source rest <;> rfl

theorem ofFirst?_eq (ts : List Tree) :
    ofFirst? source ts = (ts.filter Tree.isCode).head?.map (ofTree source) := by
  induction ts with
  | nil => rfl
  | cons t rest ih =>
    rw [ofFirst?, ih, List.filter_cons]
    cases t.isCode <;> rfl

theorem ofElements_eq (ts : List Tree) : ofElements source ts =
    (ts.filter Tree.isCode).map fun t =>
      if t.kind == "expression_element" then
        (ofFirst? source t.children).getD (ofTree source t)
      else
        ofTree source t := by
  induction ts with
  | nil => rfl
  | cons t rest ih =>
    obtain ⟨info, children⟩ := t
    rw [ofElements, ih, List.filter_cons]
    cases (Tree.node info children).isCode <;> rfl

theorem ofInitializer_eq (ts : List Tree) : ofInitializer source ts =
    (((ts.filter Tree.isCode).find? (·.kind == "initializer_expression")).map fun t =>
      ofElements source t.children).getD [] := by
  induction ts with
  | nil => rfl
  | cons t rest ih =>
    obtain ⟨info, children⟩ := t
    rw [ofInitializer, ih, List.filter_cons]
    cases (Tree.node info children).isCode with
    | false => rfl
    | true =>
      rw [Bool.true_and, if_pos rfl, List.find?_cons]
      by_cases hkind : (info.kind == "initializer_expression") = true
      · rw [if_pos hkind, Tree.kind, Tree.info, hkind]
        rfl
      · rw [if_neg hkind, Tree.kind, Tree.info, Bool.eq_false_iff.2 hkind]

end Constant

namespace Operand

variable {source : List Char}

/-! ## Literals -/

theorem isNull_iff {o : Operand} : o.isNull = true ↔ o = .literal .null := by
  constructor
  · intro h
    unfold isNull at h
    split at h
    case h_1 => rfl
    case h_2 => cases h
  · rintro rfl
    rfl

theorem bool?_eq_some_iff {o : Operand} {b : Bool} : o.bool? = some b ↔ o = .literal (.bool b) := by
  constructor
  · intro h
    unfold bool? at h
    split at h
    case h_1 =>
      cases h
      rfl
    case h_2 => cases h
  · rintro rfl
    rfl

/-! ## Shapes of children -/

theorem ofLast?_eq (source : List Char) (ts : List Tree) :
    ofLast? source ts = (ts.filter Tree.isCode).getLast?.map (ofTree source) := by
  refine Tree.lastCode?_eq ?_ (fun t rest => ?_) ts
  · rw [ofLast?]
  · rw [ofLast?]
    cases ofLast? source rest <;> rfl

theorem ofFirst?_eq (source : List Char) (ts : List Tree) :
    ofFirst? source ts = (ts.filter Tree.isCode).head?.map (ofTree source) := by
  induction ts with
  | nil => rfl
  | cons t rest ih =>
    rw [ofFirst?, ih, List.filter_cons]
    by_cases ht : t.isCode = true
    · rw [if_pos ht, if_pos ht]
      rfl
    · rw [if_neg ht, if_neg ht]

theorem ofField?_eq (source : List Char) (field : String) (ts : List Tree) :
    ofField? source field ts = (ts.find? (·.field == some field)).map (ofTree source) := by
  induction ts with
  | nil => rfl
  | cons t rest ih =>
    rw [ofField?, ih, List.find?_cons]
    cases t.field == some field <;> rfl

/-- A node of the tree has this text and this shape. -/
def WrittenIn (source : List Char) (t : Tree) (o : Operand) (text : String) : Prop :=
  ∃ n, t.Holds n ∧ n.text source = text ∧ ofTree source n = o

end Operand

/-! ## Arguments of calls -/

namespace Argument

/-- An argument is read off a node at or below the one that writes it. -/
theorem exists_node (source : List Char) (t : Tree) :
    ∃ n, t.Holds n ∧ (ofTree source t).operand = .ofTree source n ∧
      (ofTree source t).text = n.text source ∧
      (ofTree source t).location = n.location source := by
  refine ⟨_, Tree.holds_getD ?_, rfl, rfl, rfl⟩
  intro n hn
  obtain ⟨entry, hentry, rfl⟩ := Option.map_eq_some_iff.1 hn
  have hmem := (List.mem_filter.1 (List.mem_of_getLast? hentry)).1
  exact .of_mem (List.fst_mem_of_mem_zipIdx hmem)

end Argument

namespace Invocation

theorem methodAndTypes_holds (source : List Char) (name : Tree) :
    name.Holds (methodAndTypes source name).1 := by
  unfold methodAndTypes
  split
  · refine Tree.holds_getD fun ident hident => ?_
    exact .of_mem (Tree.mem_of_mem_codeChildren (List.mem_of_find?_eq_some hident))
  · exact .self name

/-- What a call is read off: the node of its function, which holds the node of
the method name, and the node of its arguments. -/
theorem exists_nodes {source : List Char} {t : Tree} {call : Invocation}
    (h : ofTree? source t = some call) :
    ∃ function args method, t.childByField? "function" = some function ∧
      t.childByField? "arguments" = some args ∧ function.Holds method ∧
      call.method = method.text source ∧ call.nameLocation = method.location source ∧
      call.location = t.location source ∧ call.argumentsLocation = args.location source ∧
      call.arguments = (args.codeChildren.filter (·.kind == "argument")).map
        (Argument.ofTree source) := by
  simp only [ofTree?, Option.bind_eq_bind, Option.bind_eq_some_iff] at h
  obtain ⟨function, hfunction, args, hargs, h⟩ := h
  rw [← apply_ite (Option.bind · _), Option.bind_eq_some_iff] at h
  obtain ⟨name, hname, h⟩ := h
  have hholds : function.Holds name := by
    split at hname
    · exact .of_mem (Tree.mem_of_childByField? hname).1
    · cases hname
      exact .self function
  split at h
  case isTrue => cases h
  case isFalse =>
    cases h
    exact ⟨function, args, _, hfunction, hargs, hholds.trans (methodAndTypes_holds source name),
      rfl, rfl, rfl, rfl, rfl⟩

/-- The arguments of a call are written in the call. -/
theorem arguments_writtenIn {source : List Char} {t : Tree} {call : Invocation}
    (h : ofTree? source t = some call) :
    ∀ a ∈ call.arguments, Operand.WrittenIn source t a.operand a.text := by
  obtain ⟨-, args, -, -, hargs, -, -, -, -, -, harguments⟩ := exists_nodes h
  intro a ha
  rw [harguments] at ha
  obtain ⟨node, hnode, rfl⟩ := List.mem_map.1 ha
  obtain ⟨n, hn, hoperand, htext, -⟩ := Argument.exists_node source node
  have hmem : node ∈ args.children := Tree.mem_of_mem_codeChildren (List.mem_filter.1 hnode).1
  have hholds : t.Holds n := .inner (Tree.mem_of_childByField? hargs).1 (.inner hmem hn)
  exact ⟨n, hholds, htext.symm, hoperand.symm⟩

end Invocation

end TestLint
