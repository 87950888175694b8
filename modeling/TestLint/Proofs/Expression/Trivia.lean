import TestLint.Proofs.Expression.Operand
import TestLint.Proofs.Syntax.Trivia

/-!
# Expressions without comments and directives

Constants, operands, arguments and calls are read off the children of a node that are
code and off those under the fields of the grammar.  They are the same when comments
and directives are left out at whatever depth (`Invocation.ofTree?_withoutTrivia`).
-/

namespace TestLint

variable (source : List Char)

/-! ## Constants -/

namespace Constant

variable (t : Tree)

theorem elementType?_withoutTrivia :
    elementType? source t.withoutTrivia = elementType? source t := by
  rw [elementType?, elementType?, t.withoutTrivia_childByField? (by decide), Option.map_map]
  simp only [Function.comp_def, Tree.entered_text]

theorem nameOf?_withoutTrivia : nameOf? source t.withoutTrivia = nameOf? source t := by
  rw [nameOf?, nameOf?, t.withoutTrivia_childByField? (by decide),
    t.withoutTrivia_childByField? (by decide)]
  cases t.childByField? "function" with
  | none => rfl
  | some function =>
    cases t.childByField? "arguments" with
    | none => simp
    | some arguments =>
      have hfirst := congrArg List.head? (arguments.map_codeChildren_entered
        (fun c => nameOf (Name.simple (c.trimmedText source))) t.kind fun c _ => by simp)
      simp only [List.head?_map, Option.map_eq_bind, Function.comp_def] at hfirst
      simp [hfirst]

theorem ofLeaf_withoutTrivia : ofLeaf source t.withoutTrivia = ofLeaf source t := by
  have htype : (t.withoutTrivia.childByField? "type" <|> t.withoutTrivia.codeChildren.getLast?) =
      (t.childByField? "type" <|> t.codeChildren.getLast?).map (Tree.entered t.kind) := by
    rw [t.withoutTrivia_childByField? (by decide), t.withoutTrivia_codeChildren, List.getLast?_map]
    cases t.childByField? "type" <;> rfl
  rw [ofLeaf, ofLeaf, t.withoutTrivia_trimmedText, t.withoutTrivia_kind, nameOf?_withoutTrivia,
    htype, t.withoutTrivia_childByField? (by decide), t.withoutTrivia_childByField? (by decide)]
  split
  case h_9 => cases t.childByField? "type" <|> t.codeChildren.getLast? <;> simp
  case h_12 =>
    cases t.childByField? "expression" with
    | none => rfl
    | some target => cases t.childByField? "name" <;> simp
  all_goals rfl

/-- The same constants are read off the node without trivia, and off its children: the
elements of an array stand two levels down. -/
structure Unaffected (t : Tree) : Prop where
  value : ofTree source t.withoutTrivia = ofTree source t
  first : ofFirst? source t.withoutTrivia.children = ofFirst? source t.children
  elements : ofElements source t.withoutTrivia.children = ofElements source t.children

section node

variable {t} (h : ∀ c ∈ t.codeChildren, Unaffected source c)

include h

theorem ofLast?_withoutTrivia :
    ofLast? source t.withoutTrivia.children = ofLast? source t.children := by
  rw [ofLast?_eq, ofLast?_eq, ← List.getLast?_map, ← List.getLast?_map]
  exact congrArg List.getLast?
    (t.map_codeChildren_withoutTrivia (ofTree source) fun c hc => (h c hc).value)

theorem ofFirst?_withoutTrivia :
    ofFirst? source t.withoutTrivia.children = ofFirst? source t.children := by
  rw [ofFirst?_eq, ofFirst?_eq, ← List.head?_map, ← List.head?_map]
  exact congrArg List.head?
    (t.map_codeChildren_withoutTrivia (ofTree source) fun c hc => (h c hc).value)

theorem ofElements_withoutTrivia :
    ofElements source t.withoutTrivia.children = ofElements source t.children := by
  rw [ofElements_eq, ofElements_eq]
  refine t.map_codeChildren_withoutTrivia _ fun c hc => ?_
  rw [c.withoutTrivia_kind, (h c hc).first, (h c hc).value]

theorem ofInitializer_withoutTrivia :
    ofInitializer source t.withoutTrivia.children = ofInitializer source t.children := by
  rw [ofInitializer_eq, ofInitializer_eq]
  change ((t.withoutTrivia.codeChildren.find? _).map _).getD [] = _
  rw [t.withoutTrivia_codeChildren, List.find?_map, Option.map_map]
  simp only [Function.comp_def, Tree.entered_kind]
  refine congrArg (Option.getD · []) (Option.map_congr fun c hc => ?_)
  exact Tree.read_entered t.kind c (ofElements source ·.children)
    (h c (List.mem_of_find?_eq_some hc)).elements

end node

theorem unaffected : Unaffected source t := by
  induction t using Tree.induction_on with
  | node info children ih =>
    have h : ∀ c ∈ (Tree.node info children).codeChildren, Unaffected source c :=
      fun c hc => ih c (Tree.mem_of_mem_codeChildren hc)
    refine ⟨?_, ofFirst?_withoutTrivia source h, ofElements_withoutTrivia source h⟩
    have hlast := ofLast?_withoutTrivia source h
    have helements := ofElements_withoutTrivia source h
    have hinitializer := ofInitializer_withoutTrivia source h
    have helement := elementType?_withoutTrivia source (.node info children)
    have hleaf := ofLeaf_withoutTrivia source (.node info children)
    have htext := (Tree.node info children).withoutTrivia_trimmedText source
    simp only [Tree.withoutTrivia, Tree.children]
      at hlast helements hinitializer helement hleaf htext
    rw [Tree.withoutTrivia, ofTree, ofTree]
    simp only [hlast, helements, hinitializer, helement, hleaf, htext]

theorem ofTree_withoutTrivia : ofTree source t.withoutTrivia = ofTree source t :=
  (unaffected source t).value

end Constant

/-! ## Operands -/

namespace Operand

variable (t : Tree)

/-- The same shapes are read off the node without trivia, and off what it is a member of:
the receiver of a call stands two levels down. -/
structure Unaffected (t : Tree) : Prop where
  shape : ofTree source t.withoutTrivia = ofTree source t
  target : ofField? source "expression" t.withoutTrivia.children =
    ofField? source "expression" t.children

section node

variable {t} (h : ∀ c ∈ t.children, Unaffected source c)

include h

theorem ofLast?_withoutTrivia :
    ofLast? source t.withoutTrivia.children = ofLast? source t.children := by
  rw [ofLast?_eq, ofLast?_eq, ← List.getLast?_map, ← List.getLast?_map]
  exact congrArg List.getLast? (t.map_codeChildren_withoutTrivia (ofTree source)
    fun c hc => (h c (Tree.mem_of_mem_codeChildren hc)).shape)

theorem ofFirst?_withoutTrivia :
    ofFirst? source t.withoutTrivia.children = ofFirst? source t.children := by
  rw [ofFirst?_eq, ofFirst?_eq, ← List.head?_map, ← List.head?_map]
  exact congrArg List.head? (t.map_codeChildren_withoutTrivia (ofTree source)
    fun c hc => (h c (Tree.mem_of_mem_codeChildren hc)).shape)

theorem ofField?_withoutTrivia {field : String} (hfield : Tree.readFields.contains field = true) :
    ofField? source field t.withoutTrivia.children = ofField? source field t.children := by
  rw [ofField?_eq, ofField?_eq]
  change (t.withoutTrivia.childByField? field).map _ = _
  rw [t.withoutTrivia_childByField? hfield, Option.map_map]
  refine Option.map_congr fun c hc => ?_
  exact Tree.read_entered t.kind c (ofTree source) (h c (Tree.mem_of_childByField? hc).1).shape

omit h in
theorem receiver?_eq (ts : List Tree) : receiver? source ts =
    (ts.find? (·.field == some "function")).bind fun t =>
      match t.kind with
      | "member_access_expression" => ofField? source "expression" t.children
      | "conditional_access_expression" => some (.conditional (t.text source))
      | _ => none := by
  induction ts with
  | nil => rfl
  | cons t rest ih =>
    obtain ⟨info, children⟩ := t
    rw [receiver?, ih, List.find?_cons, Tree.field, Tree.info]
    cases info.field == some "function" <;> rfl

theorem receiver?_withoutTrivia :
    receiver? source t.withoutTrivia.children = receiver? source t.children := by
  rw [receiver?_eq, receiver?_eq]
  change (t.withoutTrivia.childByField? "function").bind _ = (t.childByField? "function").bind _
  rw [t.withoutTrivia_childByField? (by decide)]
  cases hfunction : t.childByField? "function" with
  | none => rfl
  | some function =>
    have htarget := Tree.read_entered t.kind function (ofField? source "expression" ·.children)
      (h function (Tree.mem_of_childByField? hfunction).1).target
    simp [htarget]

end node

theorem operatorText_withoutTrivia :
    operatorText source t.withoutTrivia = operatorText source t := by
  have htoken : t.withoutTrivia.children.find? (!·.named) =
      (t.children.find? (!·.named)).map (Tree.entered t.kind) := by
    obtain ⟨info, children⟩ := t
    rw [Tree.withoutTrivia]
    refine Tree.find?_withoutTriviaIn (fun c => by rw [Tree.entered_named]) (fun c hc => ?_) _
    rw [Bool.not_eq_true'] at hc
    rw [Tree.isLeftOut, hc, Bool.and_false, Bool.false_and, Bool.false_and]
  rw [operatorText, operatorText, t.withoutTrivia_childByField? (by decide), htoken]
  cases t.childByField? "operator" with
  | some token => simp
  | none => cases t.children.find? (!·.named) <;> simp

theorem unaffected : Unaffected source t := by
  induction t using Tree.induction_on with
  | node info children ih =>
    have h : ∀ c ∈ (Tree.node info children).children, Unaffected source c := ih
    refine ⟨?_, ofField?_withoutTrivia source h (by decide)⟩
    have hconstant := Constant.ofTree_withoutTrivia source (.node info children)
    have hlast := ofLast?_withoutTrivia source h
    have hfirst := ofFirst?_withoutTrivia source h
    have hfield (field : String) := @ofField?_withoutTrivia source _ h field
    have hreceiver := receiver?_withoutTrivia source h
    have hname := Constant.nameOf?_withoutTrivia source (.node info children)
    have hoperator := operatorText_withoutTrivia source (.node info children)
    have htext := (Tree.node info children).withoutTrivia_text source
    have hchild (field : String) :=
      @Tree.withoutTrivia_childByField? (.node info children) field
    have hcode := (Tree.node info children).withoutTrivia_codeChildren
    simp only [Tree.withoutTrivia, Tree.children]
      at hconstant hlast hfirst hfield hreceiver hname hoperator htext hchild hcode
    rw [Tree.withoutTrivia, ofTree, ofTree]
    dsimp only
    rw [hconstant, hlast, hreceiver, hname, hoperator, htext]
    split
    · rfl
    · split
      case h_5 =>
        rw [hcode, List.getLast?_map]
        cases (Tree.node info children).codeChildren.getLast? with
        | none => rfl
        | some inner => cases ofLast? source children <;> simp
      case h_6 =>
        rw [hchild _ (by decide), hchild _ (by decide), hfield _ (by decide), hfield _ (by decide)]
        cases (Tree.node info children).childByField? "left" with
        | none => rfl
        | some left =>
          cases (Tree.node info children).childByField? "right" with
          | none => cases ofField? source "left" children <;> rfl
          | some right =>
            cases ofField? source "left" children with
            | none => rfl
            | some left => cases ofField? source "right" children <;> simp
      case h_7 =>
        rw [hchild _ (by decide), hchild _ (by decide), hfield _ (by decide), hfirst, hcode]
        simp only [List.head?_map, List.getLast?_map, Option.orElse_eq_orElse, Option.orElse_eq_or,
          ← Option.map_or]
        -- only whether the three are there decides the shape
        generalize ((Tree.node info children).childByField? "expression").or _ = tested
        generalize (ofField? source "expression" children).or _ = operand
        generalize ((Tree.node info children).childByField? "pattern").or _ = pattern
        cases tested with
        | none => rfl
        | some tested =>
          cases operand with
          | none => rfl
          | some operand => cases pattern <;> simp
      case h_8 =>
        rw [hchild _ (by decide), hfield _ (by decide)]
        cases ofField? source "expression" children with
        | none => rfl
        | some target => cases (Tree.node info children).childByField? "name" <;> simp
      case h_10 =>
        rw [hchild _ (by decide)]
        cases (Tree.node info children).childByField? "function" <;> simp
      all_goals rfl

theorem ofTree_withoutTrivia : ofTree source t.withoutTrivia = ofTree source t :=
  (unaffected source t).shape

end Operand

/-! ## Arguments -/

namespace Argument

/-- The elements of a list that satisfy `q`, the first that satisfies `p` aside. -/
theorem map_fst_filter_zipIdx {α : Type} (p q : α → Bool) (ts : List α) (n : Nat) :
    ((ts.zipIdx n).filter fun e => q e.1 && !((ts.findIdx? p).map (· + n) == some e.2)).map
      Prod.fst = (ts.eraseP p).filter q := by
  induction ts generalizing n with
  | nil => rfl
  | cons t rest ih =>
    rw [List.zipIdx_cons, List.findIdx?_cons, List.eraseP_cons]
    cases hp : p t with
    | true =>
      have hlater : ∀ e ∈ rest.zipIdx (n + 1), (q e.1 && !((some 0).map (· + n) == some e.2)) =
          (q ∘ Prod.fst) e := by
        intro e he
        have hle := List.le_snd_of_mem_zipIdx he
        have hne : n ≠ e.2 := by omega
        simp [hne]
      rw [if_pos rfl, cond_true, List.filter_cons_of_neg (by simp), List.filter_congr hlater,
        ← List.filter_map, List.zipIdx_map_fst]
    | false =>
      have hshift : ((rest.findIdx? p).map (· + 1)).map (· + n) =
          (rest.findIdx? p).map (· + (n + 1)) := by
        rw [Option.map_map]
        exact Option.map_congr fun i _ => Nat.succ_add_eq_add_succ i n
      have hhead : ((rest.findIdx? p).map (· + (n + 1)) == some n) = false := by
        cases rest.findIdx? p with
        | none => rfl
        | some i =>
          rw [Option.map_some, beq_eq_false_iff_ne, ne_eq, Option.some.injEq]
          omega
      rw [if_neg Bool.false_ne_true, cond_false, hshift, List.filter_cons, List.filter_cons, hhead,
        ← ih (n + 1), Bool.not_false, Bool.and_true]
      cases q t <;> rfl

variable (t : Tree)

/-- The node of the value: the last one of the code, the name aside. -/
def valueNode (t : Tree) : Tree :=
  ((t.children.eraseP (·.field == some "name")).filter Tree.isCode).getLast?.getD t

theorem ofTree_eq : ofTree source t =
    { name := (t.childByField? "name").map (·.text source)
      operand := .ofTree source (valueNode t)
      text := (valueNode t).text source
      location := (valueNode t).location source } := by
  have hnodes := map_fst_filter_zipIdx (·.field == some "name") Tree.isCode t.children 0
  simp only [Nat.add_zero, Option.map_id'] at hnodes
  have hvalue : ((t.children.zipIdx.filter fun e =>
      e.1.isCode && !t.holdsAt "name" e.2).getLast?.map (·.1)).getD t = valueNode t := by
    rw [← List.getLast?_map, valueNode, ← hnodes]
    rfl
  rw [ofTree, hvalue]

theorem valueNode_withoutTrivia {β : Type} (read : Tree → β)
    (h : ∀ n, read n.withoutTrivia = read n) :
    read (valueNode t.withoutTrivia) = read (valueNode t) := by
  obtain ⟨info, children⟩ := t
  rw [valueNode, valueNode, Tree.withoutTrivia]
  simp only [Tree.children]
  rw [Tree.eraseField_withoutTriviaIn (by decide), Tree.filter_isCode_withoutTriviaIn,
    List.getLast?_map]
  cases ((children.eraseP (·.field == some "name")).filter Tree.isCode).getLast? with
  | none => exact Tree.withoutTrivia.eq_1 info children ▸ h (.node info children)
  | some value => exact Tree.read_entered info.kind value read (h value)

theorem ofTree_withoutTrivia : ofTree source t.withoutTrivia = ofTree source t := by
  rw [ofTree_eq, ofTree_eq, t.withoutTrivia_childByField? (by decide), Option.map_map,
    valueNode_withoutTrivia t (Operand.ofTree source) (Operand.ofTree_withoutTrivia source),
    valueNode_withoutTrivia t (Tree.text source) (Tree.withoutTrivia_text · source),
    valueNode_withoutTrivia t (Tree.location source) (Tree.withoutTrivia_location · source)]
  simp only [Function.comp_def, Tree.entered_text]

end Argument

/-! ## Calls -/

namespace Invocation

variable (t : Tree)

/-- What is read off the node that names the method of a call. -/
def nameData (source : List Char) (name : Tree) : String × Location × List String :=
  let read := methodAndTypes source name
  (read.1.text source, read.1.location source, read.2)

theorem nameData_withoutTrivia : nameData source t.withoutTrivia = nameData source t := by
  have hfind (kind : String) : t.withoutTrivia.codeChildren.find? (·.kind == kind) =
      (t.codeChildren.find? (·.kind == kind)).map (Tree.entered t.kind) := by
    rw [t.withoutTrivia_codeChildren, List.find?_map]
    simp only [Function.comp_def, Tree.entered_kind]
  rw [nameData, nameData, methodAndTypes, methodAndTypes, t.withoutTrivia_kind, hfind, hfind]
  split
  · have htypes (list : Tree) := list.map_codeChildren_entered (·.text source) t.kind
      fun c _ => c.withoutTrivia_text source
    cases t.codeChildren.find? (·.kind == "identifier") <;>
      cases t.codeChildren.find? (·.kind == "type_argument_list") <;> simp [htypes]
  · simp only [Tree.withoutTrivia_text, Tree.withoutTrivia_location]

variable (kind : String)

/-- The node that names the method of a call of the function. -/
def nameNode? (function : Tree) : Option Tree :=
  if function.kind == "member_access_expression" then
    function.childByField? "name"
  else
    some function

theorem nameNode?_entered (function : Tree) :
    (nameNode? (Tree.entered kind function)).map (nameData source) =
      (nameNode? function).map (nameData source) := by
  refine Tree.read_entered kind function (fun f => (nameNode? f).map (nameData source)) ?_
  rw [nameNode?, nameNode?, function.withoutTrivia_kind]
  split
  · rw [function.withoutTrivia_childByField? (by decide), Option.map_map]
    exact Option.map_congr fun name _ =>
      Tree.read_entered function.kind name (nameData source) (nameData_withoutTrivia source name)
  · exact congrArg some (nameData_withoutTrivia source function)

/-- The text before the dot in a call of the function. -/
def receiver? (source : List Char) (function : Tree) : Option String :=
  if function.kind == "member_access_expression" then
    (function.childByField? "expression").map (·.text source)
  else
    none

theorem receiver?_entered (function : Tree) :
    receiver? source (Tree.entered kind function) = receiver? source function := by
  refine Tree.read_entered kind function (receiver? source) ?_
  rw [receiver?, receiver?, function.withoutTrivia_kind,
    function.withoutTrivia_childByField? (by decide), Option.map_map]
  simp only [Function.comp_def, Tree.entered_text]

theorem arguments_entered (args : Tree) :
    ((Tree.entered kind args).codeChildren.filter (·.kind == "argument")).map (.ofTree source) =
      (args.codeChildren.filter (·.kind == "argument")).map (Argument.ofTree source) := by
  refine Tree.read_entered kind args
    (fun a => (a.codeChildren.filter (·.kind == "argument")).map (Argument.ofTree source)) ?_
  rw [args.withoutTrivia_codeChildren, List.filter_map, List.map_map]
  simp only [Function.comp_def, Tree.entered_kind]
  exact List.map_congr_left fun a _ =>
    Tree.read_entered args.kind a (Argument.ofTree source) (Argument.ofTree_withoutTrivia source a)

theorem ofTree?_withoutTrivia : ofTree? source t.withoutTrivia = ofTree? source t := by
  rw [ofTree?, ofTree?, t.withoutTrivia_childByField? (by decide),
    t.withoutTrivia_childByField? (by decide)]
  cases t.childByField? "function" with
  | none => rfl
  | some function =>
    cases t.childByField? "arguments" with
    | none => rfl
    | some args =>
      have hreceiver := receiver?_entered source t.kind function
      have hname := nameNode?_entered source t.kind function
      simp only [receiver?, nameNode?, Tree.entered_kind] at hreceiver hname
      simp only [Option.map_some, Option.bind_eq_bind, Option.bind_some, Tree.entered_location,
        Tree.withoutTrivia_location, arguments_entered, Tree.entered_kind, hreceiver]
      split
      case isTrue hmember =>
        rw [if_pos hmember, if_pos hmember] at hname
        cases hname' : (Tree.entered t.kind function).childByField? "name" with
        | none =>
          rw [hname', Option.map_none, eq_comm, Option.map_eq_none_iff] at hname
          rw [hname]
        | some name' =>
          rw [hname', Option.map_some, eq_comm, Option.map_eq_some_iff] at hname
          obtain ⟨name, hname, hdata⟩ := hname
          simp only [nameData, Prod.mk.injEq] at hdata
          simp only [hname, Option.bind_some, hdata]
      case isFalse hmember =>
        rw [if_neg hmember, if_neg hmember] at hname
        simp only [Option.map_some, Option.some.injEq, nameData, Prod.mk.injEq] at hname
        simp only [hname]

end Invocation

end TestLint
