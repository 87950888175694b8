import TestLint.Proofs.Expression.Trivia

/-!
# Declarations without comments and directives

What a file declares is the same when the comments and directives among its members,
among the members of its types and in the bodies of its methods are left out
(`FileDeclarations.ofTree_withoutTrivia`): no walk goes into them.
-/

namespace TestLint

variable (file : FileId) (source : List Char)

/-! ## Headers -/

section header

variable {t : Tree} (ht : Tree.bodiedKinds.contains t.kind = true)

include ht

theorem Modifiers.ofTree_withoutTrivia (boundary : Nat) :
    ofTree source t.withoutTrivia boundary = ofTree source t boundary := by
  rw [ofTree, ofTree, Tree.children_of_bodied ht, List.takeWhile_map, List.filter_map,
    List.map_map]
  simp only [Function.comp_def, Tree.entered_start, Tree.entered_kind, Tree.entered_trimmedText,
    Tree.entered_location]

theorem Attribute.ofDeclaration_withoutTrivia :
    ofDeclaration file source t.withoutTrivia = ofDeclaration file source t := by
  rw [ofDeclaration, ofDeclaration, Tree.childrenOfKind_header ht (by decide)]

theorem Parameter.ofDeclaration_withoutTrivia :
    ofDeclaration source t.withoutTrivia = ofDeclaration source t := by
  rw [ofDeclaration, ofDeclaration, Tree.childByFieldOrKind?_header ht (by decide) (by decide)]

theorem typeParametersOf_withoutTrivia :
    typeParametersOf source t.withoutTrivia = typeParametersOf source t := by
  rw [typeParametersOf, typeParametersOf,
    Tree.childByFieldOrKind?_header ht (by decide) (by decide)]

theorem baseTypesOf_withoutTrivia : baseTypesOf source t.withoutTrivia = baseTypesOf source t := by
  rw [baseTypesOf, baseTypesOf, Tree.childByFieldOrKind?_header ht (by decide) (by decide)]

end header

/-! ## Methods -/

namespace Method

variable (t : Tree)

theorem inAsyncVoidBelow_withoutTrivia (outside : Bool) :
    inAsyncVoidBelow source outside t.withoutTrivia = inAsyncVoidBelow source outside t := by
  rw [inAsyncVoidBelow, inAsyncVoidBelow, t.withoutTrivia_kind]
  split
  case isTrue hlocal =>
    have ht : Tree.bodiedKinds.contains t.kind = true := by
      rw [beq_iff_eq.1 hlocal]
      rfl
    simp only [Tree.childByField?_header ht (by decide : "type" ≠ "body"),
      Tree.childByField?_header ht (by decide : "returns" ≠ "body"), t.withoutTrivia_stop,
      Modifiers.ofTree_withoutTrivia source ht]
  case isFalse => rfl

theorem invocationAt_withoutTrivia (inside : Bool) :
    invocationAt source inside t.withoutTrivia = invocationAt source inside t := by
  rw [invocationAt, invocationAt, t.withoutTrivia_kind, Invocation.ofTree?_withoutTrivia]

theorem invocationsAmong_eq (inside : Bool) (ts : List Tree) : invocationsAmong source inside ts =
    ((ts.filter Tree.isCode).map (invocationsIn source inside)).flatten := by
  induction ts with
  | nil => rfl
  | cons t rest ih =>
    rw [invocationsAmong, ih, List.filter_cons]
    cases t.isCode <;> rfl

theorem invocationsIn_withoutTrivia (outside : Bool) :
    invocationsIn source outside t.withoutTrivia = invocationsIn source outside t := by
  induction t using Tree.induction_on generalizing outside with
  | node info children ih =>
    have hinside := inAsyncVoidBelow_withoutTrivia source (.node info children) outside
    have hhere := invocationAt_withoutTrivia source (.node info children)
    have hbelow (inside : Bool) := (Tree.node info children).map_codeChildren_withoutTrivia
      (invocationsIn source inside) fun c hc => ih c (Tree.mem_of_mem_codeChildren hc) inside
    simp only [Tree.withoutTrivia, Tree.codeChildren, Tree.children] at hinside hhere hbelow
    rw [Tree.withoutTrivia, invocationsIn, invocationsIn]
    simp only [hinside, hhere, invocationsAmong_eq, hbelow]

variable {t}

theorem ofTree?_withoutTrivia (ht : Tree.bodiedKinds.contains t.kind = true) :
    ofTree? file source t.withoutTrivia = ofTree? file source t := by
  have hbody : body? t.withoutTrivia = (body? t).map (Tree.entered t.kind) := by
    simp only [body?, Tree.childByFieldOrKind?_of_bodied ht, Tree.childOfKind?_of_bodied ht,
      Option.orElse_eq_orElse, Option.orElse_eq_or, Option.map_or]
  have hinvocations : ((body? t).map (Tree.entered t.kind)).map (invocationsIn source false) =
      (body? t).map (invocationsIn source false) := by
    rw [Option.map_map]
    exact Option.map_congr fun body _ => Tree.read_entered t.kind body (invocationsIn source false)
      (invocationsIn_withoutTrivia source body false)
  rw [ofTree?, ofTree?, Tree.childByField?_header ht (by decide),
    Tree.childByField?_header ht (by decide), Tree.childByField?_header ht (by decide)]
  have hexplicit := Tree.childOfKind?_header ht
    (by decide : Tree.bodyKinds.contains "explicit_interface_specifier" = false)
  simp only [Modifiers.ofTree_withoutTrivia source ht, t.withoutTrivia_location,
    t.withoutTrivia_start, t.withoutTrivia_stop, typeParametersOf_withoutTrivia source ht,
    Attribute.ofDeclaration_withoutTrivia file source ht,
    Parameter.ofDeclaration_withoutTrivia source ht, hbody, hinvocations, Option.isSome_map,
    hexplicit]

end Method

/-! ## Types -/

namespace TypeDeclaration

/-- What is read off the members of a kind in the body of a type. -/
theorem map_members_withoutTrivia {β : Type} (read : Tree → β) (kind : String) {t : Tree}
    (ht : Tree.bodiedKinds.contains t.kind = true)
    (h : ∀ m : Tree, m.kind = kind → read m.withoutTrivia = read m) :
    ((((body? t.withoutTrivia).map (·.codeChildren)).getD []).filter (·.kind == kind)).map read =
      ((((body? t).map (·.codeChildren)).getD []).filter (·.kind == kind)).map read := by
  rw [body?, body?, Tree.childByFieldOrKind?_of_bodied ht]
  cases t.childByFieldOrKind? "body" "declaration_list" with
  | none => rfl
  | some body =>
    refine Tree.read_entered t.kind body
      (fun body => (body.codeChildren.filter (·.kind == kind)).map read) ?_
    rw [body.withoutTrivia_codeChildren, List.filter_map, List.map_map]
    simp only [Function.comp_def, Tree.entered_kind]
    exact List.map_congr_left fun m hm =>
      Tree.read_entered body.kind m read (h m (beq_iff_eq.1 (List.mem_filter.1 hm).2))

/-- Members that are not looked into are read alike. -/
theorem map_members_of_closed {β : Type} (read : Tree → β) (kind : String)
    (hopen : Tree.isOpen kind = false) (hbodied : Tree.bodiedKinds.contains kind = false)
    {t : Tree} (ht : Tree.bodiedKinds.contains t.kind = true) :
    ((((body? t.withoutTrivia).map (·.codeChildren)).getD []).filter (·.kind == kind)).map read =
      ((((body? t).map (·.codeChildren)).getD []).filter (·.kind == kind)).map read := by
  refine map_members_withoutTrivia read kind ht fun m hm => congrArg read ?_
  exact Tree.withoutTrivia_of_closed (hm.symm ▸ hopen) (hm.symm ▸ hbodied)

variable (namespaceName : Option String)

theorem bodied_of_nodeKinds {kind : String} (h : nodeKinds.contains kind = true) :
    Tree.bodiedKinds.contains kind = true := by
  rw [Tree.bodiedKinds, List.contains_append, h, Bool.true_or]

theorem ofNode?_withoutTrivia (containing : Option String) {t : Tree}
    (ht : Tree.bodiedKinds.contains t.kind = true) :
    ofNode? file source namespaceName containing t.withoutTrivia =
      ofNode? file source namespaceName containing t := by
  have hmethods := congrArg (List.filterMap id) <|
    map_members_withoutTrivia (Method.ofTree? file source) "method_declaration" ht fun m hm =>
      Method.ofTree?_withoutTrivia file source (by rw [hm]; decide)
  have hproperties := congrArg (List.filterMap id) <| map_members_of_closed
    (Property.ofTree? file source) "property_declaration" (by decide) (by decide) ht
  have hfields := congrArg List.flatten <| map_members_of_closed
    (Field.ofTree source) "field_declaration" (by decide) (by decide) ht
  have hconstructors := map_members_of_closed
    (Constructor.ofTree source) "constructor_declaration" (by decide) (by decide) ht
  rw [List.filterMap_map, List.filterMap_map, Function.id_comp] at hmethods hproperties
  rw [← List.flatMap_def, ← List.flatMap_def] at hfields
  rw [ofNode?, ofNode?, Tree.childByField?_header ht (by decide)]
  cases t.childByField? "name" with
  | none => rfl
  | some nameNode =>
    simp only [typeParametersOf_withoutTrivia source ht, Modifiers.ofTree_withoutTrivia source ht,
      t.withoutTrivia_kind, t.withoutTrivia_location, t.withoutTrivia_start, t.withoutTrivia_stop,
      Attribute.ofDeclaration_withoutTrivia file source ht, baseTypesOf_withoutTrivia source ht,
      hmethods, hproperties, hfields, hconstructors]

theorem nestedAmong_eq (containing : String) (ts : List Tree) :
    nestedAmong file source namespaceName containing ts =
      (((ts.filter Tree.isCode).filter fun t => nodeKinds.contains t.kind).map
        (allOfNode file source namespaceName (some containing))).flatten := by
  induction ts with
  | nil => rfl
  | cons t rest ih =>
    rw [nestedAmong, ih, List.filter_cons]
    cases t.isCode with
    | false => rfl
    | true =>
      rw [if_pos rfl, List.filter_cons, Bool.true_and]
      cases nodeKinds.contains t.kind <;> rfl

theorem nestedInFirst_eq (containing : String) (isBody : NodeInfo → Bool) (ts : List Tree) :
    nestedInFirst file source namespaceName containing isBody ts =
      ((ts.find? (isBody ·.info)).map fun body =>
        nestedAmong file source namespaceName containing body.children).getD [] := by
  induction ts with
  | nil => rfl
  | cons t rest ih =>
    obtain ⟨info, members⟩ := t
    rw [nestedInFirst, ih, List.find?_cons, Tree.info]
    cases isBody info <;> rfl

theorem bodyTest_withoutTrivia {t : Tree} (ht : Tree.bodiedKinds.contains t.kind = true) :
    bodyTest t.withoutTrivia.children = bodyTest t.children := by
  funext info
  rw [bodyTest, bodyTest, Tree.children_of_bodied ht, List.any_map]
  simp only [Function.comp_def, Tree.entered_field]

/-- The same types are read off the node and off its children without trivia. -/
structure Unaffected (t : Tree) : Prop where
  types : nodeKinds.contains t.kind = true → ∀ containing,
    allOfNode file source namespaceName containing t.withoutTrivia =
      allOfNode file source namespaceName containing t
  nested : ∀ containing,
    nestedAmong file source namespaceName containing t.withoutTrivia.children =
      nestedAmong file source namespaceName containing t.children

variable (t : Tree)

theorem unaffected : Unaffected file source namespaceName t := by
  induction t using Tree.induction_on with
  | node info children ih =>
    constructor
    case types =>
      intro hkind containing
      have ht : Tree.bodiedKinds.contains (Tree.node info children).kind = true :=
        bodied_of_nodeKinds hkind
      have hnode := ofNode?_withoutTrivia file source namespaceName containing ht
      have hbody := bodyTest_withoutTrivia ht
      have hchildren := Tree.children_of_bodied ht
      simp only [Tree.withoutTrivia, Tree.children] at hnode hbody hchildren
      rw [Tree.withoutTrivia, allOfNode, allOfNode, hnode, hbody, hchildren]
      cases ofNode? file source namespaceName containing (.node info children) with
      | none => rfl
      | some d =>
        simp only [nestedInFirst_eq, List.find?_map, Function.comp_def, Tree.entered_info,
          Option.map_map]
        refine congrArg (fun nested => d :: nested.getD []) (Option.map_congr fun body hbody => ?_)
        exact Tree.read_entered _ body
          (fun body => nestedAmong file source namespaceName d.fullName body.children)
          ((ih body (List.mem_of_find?_eq_some hbody)).nested d.fullName)
    case nested =>
      intro containing
      have hcode : (Tree.node info children).withoutTrivia.children.filter Tree.isCode =
          (children.filter Tree.isCode).map (Tree.entered info.kind) :=
        (Tree.node info children).withoutTrivia_codeChildren
      rw [nestedAmong_eq, nestedAmong_eq, hcode, List.filter_map, List.map_map]
      simp only [Function.comp_def, Tree.entered_kind]
      refine congrArg List.flatten (List.map_congr_left fun member hmember => ?_)
      have hmem := (List.mem_filter.1 hmember)
      exact Tree.read_entered _ member (allOfNode file source namespaceName (some containing))
        ((ih member (List.mem_filter.1 hmem.1).1).types hmem.2 (some containing))

end TypeDeclaration

/-! ## Files -/

namespace FileDeclarations

theorem ofBody_eq (namespaceName : Option String) (isBody : NodeInfo → Bool) (ts : List Tree) :
    ofBody file source namespaceName isBody ts =
      ((ts.find? (isBody ·.info)).map fun body =>
        ofMembers file source namespaceName namespaceName body.children).getD .empty := by
  induction ts with
  | nil => rfl
  | cons t rest ih =>
    obtain ⟨info, members⟩ := t
    rw [ofBody, ih, List.find?_cons, Tree.info]
    cases isBody info <;> rfl

/-- What is no code declares nothing. -/
theorem ofMembers_cons_of_not_isCode (outer current : Option String) {t : Tree}
    (ht : t.isCode = false) (rest : List Tree) :
    ofMembers file source outer current (t :: rest) = ofMembers file source outer current rest := by
  rw [ofMembers, namespaceAfter, ht, Bool.false_and, if_neg Bool.false_ne_true,
    if_neg Bool.false_ne_true]
  rfl

theorem namespaceAfter_entered (kind : String) (outer current : Option String) (t : Tree) :
    namespaceAfter source outer current (Tree.entered kind t) =
      namespaceAfter source outer current t := by
  have hname : ((Tree.entered kind t).childByField? "name").map (·.text source) =
      (t.childByField? "name").map (·.text source) := by
    refine Tree.read_entered kind t (fun t => (t.childByField? "name").map (·.text source)) ?_
    rw [t.withoutTrivia_childByField? (by decide), Option.map_map]
    simp only [Function.comp_def, Tree.entered_text]
  rw [namespaceAfter, namespaceAfter, Tree.entered_isCode, Tree.entered_kind]
  simp only [hname]

theorem ofMembers_withoutTriviaIn (kind : String) (outer : Option String) {ts : List Tree}
    (h : ∀ t ∈ ts, ∀ outer current, ofMember file source outer current t.withoutTrivia =
      ofMember file source outer current t) (current : Option String) :
    ofMembers file source outer current (Tree.withoutTriviaIn kind ts) =
      ofMembers file source outer current ts := by
  induction ts generalizing current with
  | nil => rfl
  | cons t rest ih =>
    have hrest := ih fun t ht => h t (List.mem_cons_of_mem _ ht)
    cases hkept : Tree.isLeftOut kind t with
    | true =>
      have hcode : t.isCode = false := by
        refine Bool.eq_false_iff.2 fun hcode => ?_
        rw [Tree.isLeftOut_of_isCode hcode] at hkept
        cases hkept
      rw [Tree.withoutTriviaIn_cons_leftOut hkept, hrest,
        ofMembers_cons_of_not_isCode file source outer current hcode]
    | false =>
      have hmember := Tree.read_entered kind t (ofMember file source outer current)
        (h t List.mem_cons_self outer current)
      rw [Tree.withoutTriviaIn_cons_kept hkept, ofMembers, ofMembers, hrest, Tree.entered_isCode,
        namespaceAfter_entered, hmember]

/-- The same is declared by the node and by its children without trivia. -/
structure Unaffected (t : Tree) : Prop where
  member : ∀ outer current, ofMember file source outer current t.withoutTrivia =
    ofMember file source outer current t
  members : ∀ outer current, ofMembers file source outer current t.withoutTrivia.children =
    ofMembers file source outer current t.children

variable (t : Tree)

theorem unaffected : Unaffected file source t := by
  induction t using Tree.induction_on with
  | node info children ih =>
    have hmembers (outer current : Option String) :
        ofMembers file source outer current (Tree.withoutTriviaIn info.kind children) =
          ofMembers file source outer current children :=
      ofMembers_withoutTriviaIn file source info.kind outer (fun t ht => (ih t ht).member) current
    constructor
    case members =>
      intro outer current
      rw [Tree.withoutTrivia]
      exact hmembers outer current
    case member =>
      intro outer current
      have htext := (Tree.node info children).withoutTrivia_text source
      simp only [Tree.withoutTrivia] at htext
      rw [Tree.withoutTrivia, ofMember, ofMember]
      split
      case h_1 => rw [htext]
      case h_2 hkind | h_3 hkind =>
        -- a list of attributes is not looked into
        have hclosed : (Tree.node info children).withoutTrivia = .node info children :=
          Tree.withoutTrivia_of_closed (by rw [Tree.kind, Tree.info, hkind]; decide)
            (by rw [Tree.kind, Tree.info, hkind]; decide)
        rw [Tree.withoutTrivia] at hclosed
        rw [hclosed]
      case h_4 hkind =>
        have ht : Tree.bodiedKinds.contains (Tree.node info children).kind = true := by
          rw [Tree.kind, Tree.info, hkind]
          decide
        have hname := Tree.childByField?_header ht (by decide : "name" ≠ "body")
        have hbody := TypeDeclaration.bodyTest_withoutTrivia ht
        have hchildren := Tree.children_of_bodied ht
        simp only [Tree.withoutTrivia, Tree.children] at hname hbody hchildren
        rw [hname, hbody, hchildren]
        simp only [ofBody_eq, List.find?_map, Function.comp_def, Tree.entered_info, Option.map_map]
        refine congrArg (Option.getD · _) (Option.map_congr fun body hbody => ?_)
        exact Tree.read_entered _ body (ofMembers file source _ _ ·.children)
          ((ih body (List.mem_of_find?_eq_some hbody)).members _ _)
      case h_5 =>
        have hname := (Tree.node info children).withoutTrivia_childByField?
          (by decide : Tree.readFields.contains "name" = true)
        simp only [Tree.withoutTrivia] at hname
        simp only [hname, Option.map_map, Function.comp_def, Tree.entered_text, hmembers]
      case h_6 =>
        split
        case isTrue hkind =>
          have htypes := (TypeDeclaration.unaffected file source current
            (.node info children)).types hkind none
          simp only [Tree.withoutTrivia] at htypes
          rw [htypes]
        case isFalse => rfl

theorem ofTree_withoutTrivia : ofTree file source t.withoutTrivia = ofTree file source t :=
  (unaffected file source t).members none none

end FileDeclarations

end TestLint
