import Mathlib.Logic.Basic
import TestLint.Duplicate.Body

/-!
# One token, or the tokens below

A node either is one token (`IsToken`) or has the tokens of some of its children (`counted`):
`tokens_of_isToken` and `tokens_of_not_isToken`.
-/

namespace TestLint.Duplicate

variable {source : List Char} {t : Tree}

/-- The node is one token: a leaf of the code or a literal, with a text that is not blank. -/
structure IsToken (source : List Char) (t : Tree) : Prop where
  present : t.info.missing = false
  code : t.isTrivia = false
  whole : t.children = [] ∨ t.kind ∈ atomicKinds
  text : t.trimmedText source ≠ ""

/-- The children whose tokens are tokens of the node, if it is not one token itself. -/
def counted (t : Tree) : List Tree :=
  if t.info.missing then
    []
  else if conditionalKinds.contains t.kind then
    (t.children.eraseP (·.field == some "condition")).filter (·.named)
  else if t.isTrivia || atomicKinds.contains t.kind then
    []
  else
    t.children

theorem isTrivia_of_conditional (h : t.kind ∈ conditionalKinds) : t.isTrivia = true := by
  simp only [conditionalKinds, List.mem_cons, List.not_mem_nil, or_false] at h
  rcases h with h | h | h <;> rw [Tree.isTrivia, h] <;> rfl

theorem counted_sublist (t : Tree) : (counted t).Sublist t.children := by
  rw [counted]
  split
  · exact List.nil_sublist _
  split
  · exact List.filter_sublist.trans List.eraseP_sublist
  split
  · exact List.nil_sublist _
  · exact .refl _

theorem mem_counted_iff {child : Tree} : child ∈ counted t ↔
    t.info.missing = false ∧
      (t.isTrivia = false ∧ t.kind ∉ atomicKinds ∧ child ∈ t.children ∨
        t.kind ∈ conditionalKinds ∧ child ∈ t.children.eraseP (·.field == some "condition") ∧
          child.named = true) := by
  rw [counted]
  cases hmissing : t.info.missing with
  | true => simp
  | false =>
    by_cases hblock : t.kind ∈ conditionalKinds
    · simp [hblock, isTrivia_of_conditional hblock]
    · cases hcode : t.isTrivia with
      | true => simp [hblock]
      | false => by_cases hatomic : t.kind ∈ atomicKinds <;> simp [hblock, hatomic]

theorem IsToken.counted_eq_nil (h : IsToken source t) : counted t = [] := by
  refine List.eq_nil_iff_forall_not_mem.2 fun c hc => ?_
  obtain ⟨-, ⟨-, hatomic, hchild⟩ | ⟨hblock, -⟩⟩ := mem_counted_iff.1 hc
  · rcases h.whole with hempty | hwhole
    · rw [hempty] at hchild
      cases hchild
    · exact hatomic hwhole
  · exact Bool.false_ne_true (h.code.symm.trans (isTrivia_of_conditional hblock))

theorem tokensOfAll_eq (ts : List Tree) : tokensOfAll source ts = ts.flatMap (tokens source) := by
  induction ts with
  | nil => rfl
  | cons child rest ih => rw [tokensOfAll, ih, List.flatMap_cons]

theorem tokensOfBlock_false (ts : List Tree) :
    tokensOfBlock source false ts = (ts.filter (·.named)).flatMap (tokens source) := by
  induction ts with
  | nil => rfl
  | cons child rest ih =>
    rw [tokensOfBlock, ih, List.filter_cons]
    cases child.named <;> rfl

theorem tokensOfBlock_true (ts : List Tree) : tokensOfBlock source true ts =
    ((ts.eraseP (·.field == some "condition")).filter (·.named)).flatMap (tokens source) := by
  induction ts with
  | nil => rfl
  | cons child rest ih =>
    rw [tokensOfBlock, List.eraseP_cons, Bool.true_and]
    cases child.field == some "condition" with
    | true => exact tokensOfBlock_false rest
    | false =>
      rw [ih, cond_false, List.filter_cons]
      cases child.named <;> rfl

theorem tokens_node (source : List Char) (t : Tree) : tokens source t =
    if t.info.missing then
      []
    else if t.isTrivia then
      if conditionalKinds.contains t.kind then tokensOfBlock source true t.children else []
    else if t.children.isEmpty || atomicKinds.contains t.kind then
      if t.trimmedText source == "" then [] else [t.trimmedText source]
    else
      tokensOfAll source t.children := by
  obtain ⟨info, children⟩ := t
  rw [tokens]
  rfl

theorem tokens_of_isToken (h : IsToken source t) : tokens source t = [t.trimmedText source] := by
  have hwhole : (t.children.isEmpty || atomicKinds.contains t.kind) = true := by simpa using h.whole
  rw [tokens_node, h.present, h.code, hwhole, if_neg Bool.false_ne_true, if_neg Bool.false_ne_true,
    if_pos rfl, if_neg (by simpa using h.text)]

theorem tokens_of_not_isToken (h : ¬IsToken source t) :
    tokens source t = (counted t).flatMap (tokens source) := by
  rw [tokens_node, counted]
  cases hmissing : t.info.missing with
  | true => rfl
  | false =>
    by_cases hblock : t.kind ∈ conditionalKinds
    · rw [isTrivia_of_conditional hblock]
      simp [hblock, tokensOfBlock_true]
    · cases hcode : t.isTrivia with
      | true => simp [hblock]
      | false =>
        by_cases hwhole : t.children = [] ∨ t.kind ∈ atomicKinds
        · have htext : t.trimmedText source = "" := not_not.1 fun htext =>
            h ⟨hmissing, hcode, hwhole, htext⟩
          rcases hwhole with hwhole | hwhole <;> simp [hblock, hwhole, htext]
        · simp [hblock, not_or.1 hwhole, tokensOfAll_eq]

end TestLint.Duplicate
