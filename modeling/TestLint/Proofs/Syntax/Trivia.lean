import TestLint.Declaration.OfTree
import TestLint.Proofs.Syntax.Nodes

/-!
# Trees without comments and directives

Declarations, statements and expressions are read off their nodes as if the comments
and directives between them were not there.  `Tree.withoutTrivia` leaves them out
wherever a list of such nodes may stand: among the members of a file or namespace, in
the body of a type, and anywhere in the body of a method.  The header of a declaration
stays as it is, since its parts are also told apart by where they begin and by what
stands before them.

A node keeps its own data and so its text; the look-ups give the same children, each
without the trivia below it (`Tree.entered`).
-/

namespace TestLint.Tree

/-- The kinds of declarations whose members or statements stand in a body. -/
def bodiedKinds : List String :=
  TypeDeclaration.nodeKinds ++
    ["namespace_declaration", "method_declaration", "local_function_statement"]

/-- The kinds of declarations that no members or statements are looked for in. -/
def closedKinds : List String :=
  ["property_declaration", "field_declaration", "constructor_declaration", "global_attribute",
   "global_attribute_list"]

def bodyKinds : List String :=
  ["declaration_list", "block", "arrow_expression_clause"]

/-- The fields under which the parts of an expression and the name of a namespace are
looked up. -/
def readFields : List String :=
  ["name", "type", "function", "arguments", "expression", "left", "right", "operator", "pattern"]

/-- The child of a declaration is its body. -/
def isBody (child : NodeInfo) : Bool :=
  bodyKinds.contains child.kind && child.field.all (· == "body")

/-- The children of a node of the kind are a list that trivia may stand in. -/
def isOpen (kind : String) : Bool :=
  !bodiedKinds.contains kind && !closedKinds.contains kind

/-- Trivia below the child of a node of the kind are left out. -/
def isEntered (kind : String) (child : NodeInfo) : Bool :=
  isOpen kind || bodiedKinds.contains kind && isBody child

/-- The child of a node of the kind is a comment or a directive that is left out.  What
stands under a field that is looked up is kept, whatever it is. -/
def isLeftOut (kind : String) (child : Tree) : Bool :=
  isOpen kind && child.named && child.isTrivia && !child.field.any readFields.contains

mutual

/-- The tree without the comments and directives among members and statements. -/
def withoutTrivia : Tree → Tree
  | .node info children => .node info (withoutTriviaIn info.kind children)

/-- What is left of the children of a node of the kind. -/
def withoutTriviaIn (kind : String) : List Tree → List Tree
  | [] => []
  | child :: rest =>
    if isLeftOut kind child then
      withoutTriviaIn kind rest
    else
      (if isEntered kind child.info then withoutTrivia child else child) ::
        withoutTriviaIn kind rest

end

/-- The child of a node of the kind, without the trivia below it where it is entered. -/
def entered (kind : String) (child : Tree) : Tree :=
  if isEntered kind child.info then child.withoutTrivia else child

theorem withoutTriviaIn_cons_leftOut {kind : String} {t : Tree} (h : isLeftOut kind t = true)
    (rest : List Tree) : withoutTriviaIn kind (t :: rest) = withoutTriviaIn kind rest := by
  rw [withoutTriviaIn, if_pos h]

theorem withoutTriviaIn_cons_kept {kind : String} {t : Tree} (h : isLeftOut kind t = false)
    (rest : List Tree) :
    withoutTriviaIn kind (t :: rest) = entered kind t :: withoutTriviaIn kind rest := by
  rw [withoutTriviaIn, h, if_neg Bool.false_ne_true, entered]

theorem withoutTriviaIn_eq (kind : String) (ts : List Tree) :
    withoutTriviaIn kind ts = (ts.filter (!isLeftOut kind ·)).map (entered kind) := by
  induction ts with
  | nil => rfl
  | cons t rest ih =>
    rw [List.filter_cons]
    cases h : isLeftOut kind t with
    | true => rw [withoutTriviaIn_cons_leftOut h, ih]; rfl
    | false => rw [withoutTriviaIn_cons_kept h, ih]; rfl

/-! ## What a node has in its own right -/

section data

variable (kind : String) (t : Tree) (source : List Char)

@[simp] theorem withoutTrivia_info : t.withoutTrivia.info = t.info := by
  obtain ⟨info, children⟩ := t
  rw [withoutTrivia]
  rfl

/-- What is read alike off a node without trivia is read alike off an entered child. -/
theorem read_entered {β : Type} (read : Tree → β) (h : read t.withoutTrivia = read t) :
    read (entered kind t) = read t := by
  rw [entered]
  split
  · exact h
  · rfl

@[simp] theorem entered_info : (entered kind t).info = t.info :=
  read_entered kind t info (withoutTrivia_info t)

@[simp] theorem withoutTrivia_kind : t.withoutTrivia.kind = t.kind :=
  congrArg NodeInfo.kind (withoutTrivia_info t)

@[simp] theorem entered_kind : (entered kind t).kind = t.kind :=
  congrArg NodeInfo.kind (entered_info kind t)

@[simp] theorem entered_field : (entered kind t).field = t.field :=
  congrArg NodeInfo.field (entered_info kind t)

@[simp] theorem entered_named : (entered kind t).named = t.named :=
  congrArg NodeInfo.named (entered_info kind t)

@[simp] theorem withoutTrivia_start : t.withoutTrivia.start = t.start :=
  congrArg NodeInfo.start (withoutTrivia_info t)

@[simp] theorem entered_start : (entered kind t).start = t.start :=
  congrArg NodeInfo.start (entered_info kind t)

@[simp] theorem withoutTrivia_stop : t.withoutTrivia.stop = t.stop :=
  congrArg NodeInfo.stop (withoutTrivia_info t)

@[simp] theorem withoutTrivia_text : t.withoutTrivia.text source = t.text source := by
  rw [text, text, withoutTrivia_start, withoutTrivia_stop]

@[simp] theorem entered_text : (entered kind t).text source = t.text source :=
  read_entered kind t (text source) (withoutTrivia_text t source)

@[simp] theorem withoutTrivia_trimmedText :
    t.withoutTrivia.trimmedText source = t.trimmedText source :=
  congrArg Text.trimmed (withoutTrivia_text t source)

@[simp] theorem entered_trimmedText : (entered kind t).trimmedText source = t.trimmedText source :=
  congrArg Text.trimmed (entered_text kind t source)

@[simp] theorem withoutTrivia_location : t.withoutTrivia.location source = t.location source := by
  rw [location, location, withoutTrivia_start, withoutTrivia_stop]

@[simp] theorem entered_location : (entered kind t).location source = t.location source :=
  read_entered kind t (location source) (withoutTrivia_location t source)

@[simp] theorem entered_isCode : (entered kind t).isCode = t.isCode := by
  rw [isCode, isCode, isTrivia, isTrivia, entered_kind, entered_named]

end data

/-! ## Looking up children -/

section lookup

variable (t : Tree)

theorem isLeftOut_of_isCode {kind : String} {child : Tree} (h : child.isCode = true) :
    isLeftOut kind child = false := by
  rw [isCode, Bool.and_eq_true, Bool.not_eq_true'] at h
  rw [isLeftOut, h.2, Bool.and_false, Bool.false_and]

theorem filter_withoutTriviaIn {p : Tree → Bool} {kind : String}
    (hp : ∀ c, p (entered kind c) = p c) (hkept : ∀ c, p c = true → isLeftOut kind c = false)
    (ts : List Tree) : (withoutTriviaIn kind ts).filter p = (ts.filter p).map (entered kind) := by
  have hentered : p ∘ entered kind = p := funext hp
  rw [withoutTriviaIn_eq, List.filter_map, hentered, List.filter_filter]
  refine congrArg _ (List.filter_congr fun c _ => ?_)
  cases hc : p c with
  | false => rfl
  | true => rw [hkept c hc]; rfl

theorem find?_withoutTriviaIn {p : Tree → Bool} {kind : String}
    (hp : ∀ c, p (entered kind c) = p c) (hkept : ∀ c, p c = true → isLeftOut kind c = false)
    (ts : List Tree) : (withoutTriviaIn kind ts).find? p = (ts.find? p).map (entered kind) := by
  rw [← List.head?_filter, filter_withoutTriviaIn hp hkept, List.head?_map, List.head?_filter]

theorem filter_isCode_withoutTriviaIn (kind : String) (ts : List Tree) :
    (withoutTriviaIn kind ts).filter isCode = (ts.filter isCode).map (entered kind) :=
  filter_withoutTriviaIn (entered_isCode kind) (fun _ => isLeftOut_of_isCode) ts

theorem isLeftOut_of_field {field kind : String} (hfield : readFields.contains field = true)
    {child : Tree} (h : (child.field == some field) = true) : isLeftOut kind child = false := by
  rw [isLeftOut, beq_iff_eq.1 h, Option.any_some, hfield, Bool.not_true, Bool.and_false]

theorem findField?_withoutTriviaIn {field : String} (hfield : readFields.contains field = true)
    (kind : String) (ts : List Tree) :
    (withoutTriviaIn kind ts).find? (·.field == some field) =
      (ts.find? (·.field == some field)).map (entered kind) :=
  find?_withoutTriviaIn (fun c => by rw [entered_field]) (fun _ => isLeftOut_of_field hfield) ts

theorem eraseField_withoutTriviaIn {field : String} (hfield : readFields.contains field = true)
    (kind : String) (ts : List Tree) :
    (withoutTriviaIn kind ts).eraseP (·.field == some field) =
      withoutTriviaIn kind (ts.eraseP (·.field == some field)) := by
  induction ts with
  | nil => rfl
  | cons t rest ih =>
    rw [List.eraseP_cons]
    cases ht : t.field == some field with
    | true =>
      rw [withoutTriviaIn_cons_kept (isLeftOut_of_field hfield ht), List.eraseP_cons, entered_field,
        ht]
      rfl
    | false =>
      rw [cond_false]
      cases hkept : isLeftOut kind t with
      | true => rw [withoutTriviaIn_cons_leftOut hkept, withoutTriviaIn_cons_leftOut hkept, ih]
      | false =>
        rw [withoutTriviaIn_cons_kept hkept, withoutTriviaIn_cons_kept hkept, List.eraseP_cons,
          entered_field, ht, cond_false, ih]

theorem withoutTrivia_codeChildren :
    t.withoutTrivia.codeChildren = t.codeChildren.map (entered t.kind) := by
  obtain ⟨info, children⟩ := t
  rw [withoutTrivia]
  exact filter_isCode_withoutTriviaIn info.kind children

theorem map_codeChildren_withoutTrivia {β : Type} (read : Tree → β)
    (h : ∀ c ∈ t.codeChildren, read c.withoutTrivia = read c) :
    t.withoutTrivia.codeChildren.map read = t.codeChildren.map read := by
  rw [withoutTrivia_codeChildren, List.map_map]
  exact List.map_congr_left fun c hc => read_entered t.kind c read (h c hc)

theorem map_codeChildren_entered {β : Type} (read : Tree → β) (kind : String)
    (h : ∀ c ∈ t.codeChildren, read c.withoutTrivia = read c) :
    (entered kind t).codeChildren.map read = t.codeChildren.map read :=
  read_entered kind t (·.codeChildren.map read) (map_codeChildren_withoutTrivia t read h)

theorem withoutTrivia_childByField? {field : String} (hfield : readFields.contains field = true) :
    t.withoutTrivia.childByField? field = (t.childByField? field).map (entered t.kind) := by
  obtain ⟨info, children⟩ := t
  rw [withoutTrivia]
  exact findField?_withoutTriviaIn hfield info.kind children

end lookup

/-! ## Declarations with a body -/

section bodied

variable {t : Tree} (ht : bodiedKinds.contains t.kind = true)

theorem isLeftOut_of_bodied {kind : String} (hkind : bodiedKinds.contains kind = true)
    (child : Tree) : isLeftOut kind child = false := by
  rw [isLeftOut, isOpen, hkind]
  rfl

theorem withoutTriviaIn_of_bodied {kind : String} (hkind : bodiedKinds.contains kind = true)
    (ts : List Tree) : withoutTriviaIn kind ts = ts.map (entered kind) := by
  rw [withoutTriviaIn_eq, List.filter_eq_self.2 fun c _ => ?_]
  rw [isLeftOut_of_bodied hkind]
  rfl

include ht

theorem children_of_bodied : t.withoutTrivia.children = t.children.map (entered t.kind) := by
  obtain ⟨info, children⟩ := t
  rw [withoutTrivia]
  exact withoutTriviaIn_of_bodied ht children

/-- A child that is not the body stays as it is. -/
theorem entered_of_bodied {child : Tree} (h : isBody child.info = false) :
    entered t.kind child = child := by
  rw [entered, isEntered, isOpen, ht, h]
  rfl

theorem childByField?_of_bodied (field : String) :
    t.withoutTrivia.childByField? field = (t.childByField? field).map (entered t.kind) := by
  rw [childByField?, children_of_bodied ht, List.find?_map]
  simp only [Function.comp_def, entered_field]
  rfl

theorem childOfKind?_of_bodied (kind : String) :
    t.withoutTrivia.childOfKind? kind = (t.childOfKind? kind).map (entered t.kind) := by
  rw [childOfKind?, children_of_bodied ht, List.find?_map]
  simp only [Function.comp_def, entered_kind]
  rfl

theorem childByFieldOrKind?_of_bodied (field kind : String) :
    t.withoutTrivia.childByFieldOrKind? field kind =
      (t.childByFieldOrKind? field kind).map (entered t.kind) := by
  simp only [childByFieldOrKind?, childByField?_of_bodied ht, childOfKind?_of_bodied ht,
    Option.orElse_eq_orElse, Option.orElse_eq_or, Option.map_or]

variable {field kind : String}

theorem entered_of_field (hfield : field ≠ "body") {child : Tree} (h : child.field = some field) :
    entered t.kind child = child := by
  refine entered_of_bodied ht ?_
  rw [isBody, show child.info.field = some field from h, Option.all_some,
    beq_eq_false_iff_ne.2 hfield, Bool.and_false]

theorem entered_of_kind (hkind : bodyKinds.contains kind = false) {child : Tree}
    (h : child.kind = kind) : entered t.kind child = child := by
  refine entered_of_bodied ht ?_
  rw [isBody, show child.info.kind = kind from h, hkind, Bool.false_and]

theorem childByField?_header (hfield : field ≠ "body") :
    t.withoutTrivia.childByField? field = t.childByField? field := by
  rw [childByField?_of_bodied ht]
  cases h : t.childByField? field with
  | none => rfl
  | some child => exact congrArg some (entered_of_field ht hfield (mem_of_childByField? h).2)

theorem childOfKind?_header (hkind : bodyKinds.contains kind = false) :
    t.withoutTrivia.childOfKind? kind = t.childOfKind? kind := by
  rw [childOfKind?_of_bodied ht]
  cases h : t.childOfKind? kind with
  | none => rfl
  | some child =>
    have hchild : child.kind = kind := by simpa using List.find?_some h
    exact congrArg some (entered_of_kind ht hkind hchild)

theorem childByFieldOrKind?_header (hfield : field ≠ "body")
    (hkind : bodyKinds.contains kind = false) :
    t.withoutTrivia.childByFieldOrKind? field kind = t.childByFieldOrKind? field kind := by
  rw [childByFieldOrKind?, childByField?_header ht hfield, childOfKind?_header ht hkind]
  rfl

theorem childrenOfKind_header (hkind : bodyKinds.contains kind = false) :
    t.withoutTrivia.childrenOfKind kind = t.childrenOfKind kind := by
  rw [childrenOfKind, children_of_bodied ht, List.filter_map]
  simp only [Function.comp_def, entered_kind]
  refine (List.map_congr_left fun child h => ?_).trans (List.map_id _)
  exact entered_of_kind ht hkind (mem_of_mem_childrenOfKind h).2

end bodied

/-! ## Declarations that are not looked into -/

theorem withoutTrivia_of_closed {t : Tree} (hopen : isOpen t.kind = false)
    (hbodied : bodiedKinds.contains t.kind = false) : t.withoutTrivia = t := by
  obtain ⟨info, children⟩ := t
  have hkept (child : Tree) : isLeftOut info.kind child = false := by
    rw [isLeftOut, show isOpen info.kind = false from hopen]
    rfl
  have hentered (child : Tree) : entered info.kind child = child := by
    rw [entered, isEntered, show isOpen info.kind = false from hopen,
      show bodiedKinds.contains info.kind = false from hbodied]
    rfl
  have hall : children.filter (!isLeftOut info.kind ·) = children :=
    List.filter_eq_self.2 fun child _ => by rw [hkept]; rfl
  rw [withoutTrivia, withoutTriviaIn_eq, hall, List.map_congr_left fun child _ => hentered child,
    List.map_id']

end TestLint.Tree
