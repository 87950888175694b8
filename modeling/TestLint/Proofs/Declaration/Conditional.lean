import TestLint.Proofs.Declaration.Trivia
import TestLint.Proofs.Duplicate.Tokens

/-!
# Conditional blocks

The tokens of a body are those of the code, be it in a conditional block or not.  The
declarations of a file are not: to the walks that look for members, types and calls a
conditional block is a directive like any other, and the code that it holds is left out
with it (`FileDeclarations.ofTree_conditional`).
-/

namespace TestLint

namespace Tree

/-- A gap among the members of a file, a namespace or a type, or anywhere in the body of
a method; `C ms` is the tree with `ms` in the gap. -/
inductive Place : (List Tree → Tree) → Prop
  | here (info : NodeInfo) (before after : List Tree) (h : isOpen info.kind = true) :
      Place fun ms => .node info (before ++ ms ++ after)
  | inside (info : NodeInfo) (before after : List Tree) {C : List Tree → Tree} (hC : Place C)
      (h : isEntered info.kind (C []).info = true) :
      Place fun ms => .node info (before ++ C ms :: after)

variable {C : List Tree → Tree}

theorem Place.info_eq (hC : Place C) (ms ms' : List Tree) : (C ms).info = (C ms').info := by
  cases hC <;> rfl

theorem withoutTriviaIn_append (kind : String) (ts us : List Tree) :
    withoutTriviaIn kind (ts ++ us) = withoutTriviaIn kind ts ++ withoutTriviaIn kind us := by
  simp only [withoutTriviaIn_eq, List.filter_append, List.map_append]

theorem isLeftOut_congr {t t' : Tree} (h : t.info = t'.info) (kind : String) :
    isLeftOut kind t = isLeftOut kind t' := by
  simp only [isLeftOut, isTrivia, Tree.named, Tree.kind, Tree.field, h]

/-- A tree is the same without trivia as soon as what stands in the gap is. -/
theorem Place.withoutTrivia_eq (hC : Place C) {ms ms' : List Tree}
    (h : ∀ kind, isOpen kind = true → withoutTriviaIn kind ms = withoutTriviaIn kind ms') :
    (C ms).withoutTrivia = (C ms').withoutTrivia := by
  induction hC with
  | here info before after hkind =>
    rw [withoutTrivia, withoutTrivia, withoutTriviaIn_append, withoutTriviaIn_append,
      withoutTriviaIn_append, withoutTriviaIn_append, h info.kind hkind]
  | @inside info before after C hC hentered ih =>
    have hchild : withoutTriviaIn info.kind (C ms :: after) =
        withoutTriviaIn info.kind (C ms' :: after) := by
      cases hkept : isLeftOut info.kind (C ms) with
      | true =>
        have hkept' := isLeftOut_congr (hC.info_eq ms ms') info.kind ▸ hkept
        rw [withoutTriviaIn_cons_leftOut hkept, withoutTriviaIn_cons_leftOut hkept']
      | false =>
        have hkept' := isLeftOut_congr (hC.info_eq ms ms') info.kind ▸ hkept
        rw [withoutTriviaIn_cons_kept hkept, withoutTriviaIn_cons_kept hkept', entered, entered,
          hC.info_eq ms [], hC.info_eq ms' [], hentered, if_pos rfl, if_pos rfl, ih]
    rw [withoutTrivia, withoutTrivia, withoutTriviaIn_append, withoutTriviaIn_append, hchild]

end Tree

namespace Duplicate

/-- A conditional block around nodes: the tokens of the directive with its condition, if
it has one, the nodes, and the tokens that end it. -/
structure Wraps (w : Tree) (ms : List Tree) : Prop where
  kind : conditionalKinds.contains w.kind = true
  named : w.named = true
  present : w.info.missing = false
  field : w.field.any Tree.readFields.contains = false
  children : ∃ (opening : List Tree) (condition : Option Tree) (closing : List Tree),
    w.children = opening ++ (condition.toList ++ (ms ++ closing)) ∧
    (∀ t ∈ opening ++ closing, t.named = false ∧ t.field ≠ some "condition") ∧
    (∀ t ∈ condition, t.field = some "condition") ∧
    ∀ m ∈ ms, m.named = true ∧ m.field ≠ some "condition"

variable {w : Tree} {ms : List Tree} (source : List Char)

theorem Wraps.counted_eq (hw : Wraps w ms) : counted w = ms := by
  obtain ⟨opening, condition, closing, hchildren, htokens, hcondition, hms⟩ := hw.children
  have hopening := fun t ht => htokens t (List.mem_append_left closing ht)
  have hclosing := fun t ht => htokens t (List.mem_append_right opening ht)
  have herased : w.children.eraseP (·.field == some "condition") = opening ++ (ms ++ closing) := by
    rw [hchildren, List.eraseP_append_right _ fun t ht => by simp [(hopening t ht).2]]
    congr 1
    cases condition with
    | none =>
      rw [Option.toList_none, List.nil_append]
      refine List.eraseP_of_forall_not fun t ht => ?_
      rcases List.mem_append.1 ht with ht | ht
      · simp [(hms t ht).2]
      · simp [(hclosing t ht).2]
    | some c => exact List.eraseP_cons_of_pos (by simp [hcondition c rfl])
  have hunnamed {ts : List Tree} (h : ∀ t ∈ ts, t.named = false ∧ t.field ≠ some "condition") :
      ts.filter (·.named) = [] :=
    List.filter_eq_nil_iff.2 fun t ht => by simp [(h t ht).1]
  rw [counted, hw.present, if_neg Bool.false_ne_true, if_pos hw.kind, herased,
    List.filter_append, List.filter_append, hunnamed hopening, hunnamed hclosing,
    List.filter_eq_self.2 fun m hm => (hms m hm).1, List.nil_append, List.append_nil]

/-- The tokens of a conditional block are those of the nodes that it is put around. -/
theorem Wraps.tokens_eq (hw : Wraps w ms) : tokens source w = tokensOfAll source ms := by
  have htrivia : w.isTrivia = true := isTrivia_of_conditional (by simpa using hw.kind)
  have htoken : ¬IsToken source w := fun h => Bool.false_ne_true (h.code.symm.trans htrivia)
  rw [tokens_of_not_isToken htoken, hw.counted_eq, tokensOfAll_eq]

/-- Where the children of a node may be left out, a conditional block is. -/
theorem Wraps.withoutTriviaIn_eq (hw : Wraps w ms) {kind : String}
    (hkind : Tree.isOpen kind = true) : Tree.withoutTriviaIn kind [w] = [] := by
  refine Tree.withoutTriviaIn_cons_leftOut ?_ []
  rw [Tree.isLeftOut, hkind, hw.named, isTrivia_of_conditional (by simpa using hw.kind), hw.field]
  rfl

end Duplicate

namespace FileDeclarations

/-- Around whatever members or statements a conditional block is put, the file declares
what it declares without them.  The block has the tokens of the code that it is put
around. -/
theorem ofTree_conditional {C : List Tree → Tree} (hC : Tree.Place C) {w : Tree}
    {ms : List Tree} (hw : Duplicate.Wraps w ms) (file : FileId) (source : List Char) :
    ofTree file source (C [w]) = ofTree file source (C []) ∧
      Duplicate.tokens source w = Duplicate.tokensOfAll source ms := by
  refine ⟨?_, hw.tokens_eq source⟩
  have hsame : (C [w]).withoutTrivia = (C []).withoutTrivia :=
    hC.withoutTrivia_eq fun kind hkind => hw.withoutTriviaIn_eq hkind
  calc ofTree file source (C [w])
    _ = ofTree file source (C [w]).withoutTrivia := (ofTree_withoutTrivia file source _).symm
    _ = ofTree file source (C []).withoutTrivia := by rw [hsame]
    _ = ofTree file source (C []) := ofTree_withoutTrivia file source _

/-! ## A call in a conditional block -/

def failSource : List Char :=
  "class C \x7b void M() \x7b\n#if X\nAssert.Fail();\n#endif\n\x7d \x7d".toList

def failStatement : Tree :=
  .node ⟨"expression_statement", none, true, false, 27, 41⟩
    [.node ⟨"invocation_expression", none, true, false, 27, 40⟩
      [.node ⟨"member_access_expression", some "function", true, false, 27, 38⟩
        [.node ⟨"identifier", some "expression", true, false, 27, 33⟩ [],
         .node ⟨"identifier", some "name", true, false, 34, 38⟩ []],
       .node ⟨"argument_list", some "arguments", true, false, 38, 40⟩ []]]

def failBlock : Tree :=
  .node ⟨"preproc_if", none, true, false, 21, 48⟩
    [.node ⟨"#if", none, false, false, 21, 24⟩ [],
     .node ⟨"identifier", some "condition", true, false, 25, 26⟩ [],
     failStatement,
     .node ⟨"#endif", none, false, false, 42, 48⟩ []]

/-- The class with these statements in the body of its method. -/
def failClass (statements : List Tree) : Tree :=
  .node ⟨"compilation_unit", none, true, false, 0, 52⟩
    [.node ⟨"class_declaration", none, true, false, 0, 52⟩
      [.node ⟨"identifier", some "name", true, false, 6, 7⟩ [],
       .node ⟨"declaration_list", some "body", true, false, 8, 52⟩
        [.node ⟨"method_declaration", none, true, false, 10, 50⟩
          [.node ⟨"predefined_type", some "returns", true, false, 10, 14⟩ [],
           .node ⟨"identifier", some "name", true, false, 15, 16⟩ [],
           .node ⟨"parameter_list", some "parameters", true, false, 16, 18⟩ [],
           .node ⟨"block", some "body", true, false, 19, 50⟩
            ([.node ⟨"\x7b", none, false, false, 19, 20⟩ []] ++ statements ++
              [.node ⟨"\x7d", none, false, false, 49, 50⟩ []])]]]]

theorem place_failClass : Tree.Place failClass := by
  refine .inside _ [] [] ?_ (by decide)
  refine .inside _ [_] [] ?_ (by decide)
  refine .inside _ [] [] ?_ (by decide)
  refine .inside _ [_, _, _] [] ?_ (by decide)
  exact .here _ _ _ (by decide)

theorem wraps_failBlock : Duplicate.Wraps failBlock [failStatement] where
  kind := by decide
  named := rfl
  present := rfl
  field := rfl
  children := by
    refine ⟨[_], some _, [_], rfl, ?_, ?_, ?_⟩ <;> decide

/-- The methods that are called in the methods of a file. -/
def called (d : FileDeclarations) : List String :=
  d.types.flatMap fun t => t.methods.flatMap fun m => m.invocations.map (·.method)

/-- The call in the block is lost. -/
theorem call_in_block_is_lost :
    Tree.Place failClass ∧ Duplicate.Wraps failBlock [failStatement] ∧
      called (ofTree 0 failSource (failClass [failStatement])) = ["Fail"] ∧
      called (ofTree 0 failSource (failClass [failBlock])) = [] := by
  refine ⟨place_failClass, wraps_failBlock, ?_, ?_⟩
  · decide +kernel
  · decide +kernel

theorem ofTree_conditional_call :
    Tree.Place failClass ∧ Duplicate.Wraps failBlock [failStatement] ∧
      ofTree 0 failSource (failClass [failBlock]) = ofTree 0 failSource (failClass []) ∧
      Duplicate.tokens failSource failBlock = Duplicate.tokensOfAll failSource [failStatement] :=
  ⟨place_failClass, wraps_failBlock,
    ofTree_conditional place_failClass wraps_failBlock 0 failSource⟩

end FileDeclarations

end TestLint
