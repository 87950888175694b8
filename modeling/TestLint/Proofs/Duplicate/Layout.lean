import TestLint.Proofs.Duplicate.Tokens
import TestLint.Proofs.Syntax.WellFormed
import TestLint.Proofs.Text.Cutting

/-!
# Layout does not count

What the tokens of a body hang on, and what they are.

* `Duplicate.shape` takes the layout off a tree: its comments and the places of its nodes.
  What is left are the nodes with the texts of tokens.  Trees of one shape have the same
  tokens (`tokens_eq_of_shape_eq`), in whatever sources they stand.
* The tokens of a tree are the texts of the nodes that are tokens and that one comes to
  through nodes of the code and conditional blocks (`Counts`), in their order in the source
  (`exists_areTokens`).

The normalized body joins these texts, and hangs on nothing else (`normalizedBody_layout`).
-/

namespace TestLint

/-- The node is a comment. Comments stand between the parts of a node, so none is the condition
of a block. -/
def Tree.isComment (t : Tree) : Bool :=
  t.kind == "comment" && t.field != some "condition"

/-- What a node is, but for its place. -/
def NodeInfo.unplaced (info : NodeInfo) : NodeInfo :=
  { info with start := 0, stop := 0 }

namespace Duplicate

/-! ## Shapes -/

/-- A tree without layout: nodes without places, beside them the texts of tokens. -/
inductive Shape where
  | node (info : NodeInfo) (text : String) (children : List Shape)

def Shape.info : Shape → NodeInfo
  | node info _ _ => info

mutual

def Shape.decEq : (a b : Shape) → Decidable (a = b)
  | .node info text children, .node info' text' children' =>
    have := Shape.decEqAll children children'
    decidable_of_iff (info = info' ∧ text = text' ∧ children = children') (by rw [Shape.node.injEq])

def Shape.decEqAll : (as bs : List Shape) → Decidable (as = bs)
  | [], [] => .isTrue rfl
  | [], _ :: _ => .isFalse nofun
  | _ :: _, [] => .isFalse nofun
  | a :: as, b :: bs =>
    have := Shape.decEq a b
    have := Shape.decEqAll as bs
    decidable_of_iff (a = b ∧ as = bs) (by rw [List.cons.injEq])

end

instance : DecidableEq Shape := Shape.decEq

/-- The text of a token or literal; other nodes have no text but that of their children. -/
def ownText (source : List Char) (t : Tree) : String :=
  if t.children.isEmpty || atomicKinds.contains t.kind then t.text source else ""

mutual

/-- What is left of a tree without its layout. -/
def shape (source : List Char) : Tree → Shape
  | .node info children =>
    .node info.unplaced (ownText source (.node info children)) (shapes source children)

def shapes (source : List Char) : List Tree → List Shape
  | [] => []
  | child :: rest =>
    if child.isComment then shapes source rest else shape source child :: shapes source rest

end

variable {source source' : List Char} {t t' : Tree}

theorem shape_info : (shape source t).info = t.info.unplaced := by
  obtain ⟨info, children⟩ := t
  rw [shape]
  rfl

theorem shapes_eq (ts : List Tree) :
    shapes source ts = (ts.filter (!·.isComment)).map (shape source) := by
  induction ts with
  | nil => rfl
  | cons child rest ih =>
    rw [shapes, List.filter_cons, ih]
    cases child.isComment <;> rfl

/-- What two nodes of one shape have in common. -/
structure Alike (source source' : List Char) (t t' : Tree) : Prop where
  kind : t.kind = t'.kind
  missing : t.info.missing = t'.info.missing
  text : ownText source t = ownText source' t'
  below : shapes source t.children = shapes source' t'.children

theorem alike_of_shape_eq (h : shape source t = shape source' t') : Alike source source' t t' := by
  obtain ⟨info, children⟩ := t
  obtain ⟨info', children'⟩ := t'
  rw [shape, shape, Shape.node.injEq] at h
  obtain ⟨hinfo, htext, hbelow⟩ := h
  have hkind : info.unplaced.kind = info'.unplaced.kind := congrArg NodeInfo.kind hinfo
  have hmissing : info.unplaced.missing = info'.unplaced.missing := congrArg NodeInfo.missing hinfo
  exact ⟨hkind, hmissing, htext, hbelow⟩

theorem Alike.isTrivia (h : Alike source source' t t') : t.isTrivia = t'.isTrivia := by
  rw [Tree.isTrivia, Tree.isTrivia, h.kind]

/-! ## Two trees of one shape -/

theorem IsToken.trimmedText_eq (h : IsToken source t) :
    t.trimmedText source = Text.trimmed (ownText source t) := by
  rw [ownText, if_pos (by simpa using h.whole), Tree.trimmedText]

/-- Whether a node has children hangs on layout, since they may all be comments; its own text
does not. -/
theorem isToken_iff : IsToken source t ↔
    t.info.missing = false ∧ t.isTrivia = false ∧ Text.trimmed (ownText source t) ≠ "" := by
  refine ⟨fun h => ⟨h.present, h.code, h.trimmedText_eq ▸ h.text⟩, ?_⟩
  rintro ⟨hmissing, hcode, htext⟩
  rw [ownText] at htext
  split at htext
  case isTrue hwhole => exact ⟨hmissing, hcode, by simpa using hwhole, htext⟩
  case isFalse => exact absurd rfl htext

theorem tokens_of_isComment (h : t.isComment = true) : tokens source t = [] := by
  have hkind : t.kind = "comment" := by
    rw [Tree.isComment, Bool.and_eq_true] at h
    exact beq_iff_eq.1 h.1
  rw [tokens_node, Tree.isTrivia, hkind]
  simp [conditionalKinds]

/-- Comments can be left out of a list. -/
theorem flatMap_tokens_filter (ts : List Tree) :
    (ts.filter (!·.isComment)).flatMap (tokens source) = ts.flatMap (tokens source) := by
  induction ts with
  | nil => rfl
  | cons child rest ih =>
    rw [List.filter_cons, List.flatMap_cons]
    cases hcomment : child.isComment with
    | true => rw [tokens_of_isComment hcomment, List.nil_append]; exact ih
    | false => rw [← ih]; rfl

/-- What a block holds besides its condition can be seen from the shapes. -/
theorem shapes_block (ts : List Tree) :
    shapes source ((ts.eraseP (·.field == some "condition")).filter (·.named)) =
      ((shapes source ts).eraseP (·.info.field == some "condition")).filter (·.info.named) := by
  -- the condition is no comment, so it makes no difference which of the two is left out first
  have hcondition : (fun c : Tree => c.field == some "condition" && !c.isComment) =
      (·.field == some "condition") := by
    funext c
    rw [Tree.isComment]
    cases hfield : c.field == some "condition" <;> simp [bne, hfield]
  rw [shapes_eq, shapes_eq, List.eraseP_map, List.filter_map]
  simp only [Function.comp_def, shape_info, NodeInfo.unplaced]
  change _ = (((ts.filter (!·.isComment)).eraseP (·.field == some "condition")).filter
    Tree.named).map (shape source)
  rw [List.eraseP_filter, hcondition, List.filter_filter, List.filter_filter]
  simp only [Bool.and_comm]

theorem Alike.shapes_counted (h : Alike source source' t t') :
    shapes source (counted t) = shapes source' (counted t') := by
  rw [counted, counted, h.missing, h.kind, h.isTrivia]
  split
  · rfl
  split
  · rw [shapes_block, shapes_block, h.below]
  split
  · rfl
  · exact h.below

theorem Alike.isToken_congr (h : Alike source source' t t') :
    IsToken source t ↔ IsToken source' t' := by
  rw [isToken_iff, isToken_iff, h.missing, h.isTrivia, h.text]

/-- What is the same for any two trees of one shape is the same for two lists of them. -/
theorem flatMap_eq_of_map_eq {α β γ δ : Type} {f : α → γ} {f' : β → γ} {g : α → List δ}
    {g' : β → List δ} {as : List α} {bs : List β} (hmap : as.map f = bs.map f')
    (h : ∀ a ∈ as, ∀ b, f a = f' b → g a = g' b) : as.flatMap g = bs.flatMap g' := by
  induction as generalizing bs with
  | nil => rw [List.map_eq_nil_iff.1 hmap.symm]; rfl
  | cons a as ih =>
    obtain ⟨b, bs, rfl, hb, hbs⟩ := List.map_eq_cons_iff.1 hmap.symm
    obtain ⟨ha, has⟩ := List.forall_mem_cons.1 h
    rw [List.flatMap_cons, List.flatMap_cons, ha b hb.symm, ih hbs.symm has]

/-- Trees of one shape have the same tokens. -/
theorem tokens_eq_of_shape_eq (h : shape source t = shape source' t') :
    tokens source t = tokens source' t' := by
  induction t using Tree.induction_on generalizing t' with
  | node info children ih =>
    have halike := alike_of_shape_eq h
    by_cases htoken : IsToken source (.node info children)
    · have htoken' := halike.isToken_congr.1 htoken
      rw [tokens_of_isToken htoken, tokens_of_isToken htoken', htoken.trimmedText_eq,
        htoken'.trimmedText_eq, halike.text]
    · rw [tokens_of_not_isToken htoken, tokens_of_not_isToken (mt halike.isToken_congr.2 htoken),
        ← flatMap_tokens_filter, ← flatMap_tokens_filter (counted t')]
      have hcounted := halike.shapes_counted
      rw [shapes_eq, shapes_eq] at hcounted
      refine flatMap_eq_of_map_eq hcounted fun c hc c' hshape => ih c ?_ hshape
      exact (counted_sublist _).subset (List.mem_of_mem_filter hc)

/-! ## The tokens of a tree -/

/-- The tokens of a node are tokens of the tree: from the tree to the node one goes through
nodes of the code other than literals, and through what the blocks of a conditional directive
hold besides its condition. -/
inductive Counts : Tree → Tree → Prop
  | self (t : Tree) : Counts t t
  | inCode {t child n : Tree} (present : t.info.missing = false) (code : t.isTrivia = false)
      (parted : t.kind ∉ atomicKinds) (hchild : child ∈ t.children) (h : Counts child n) :
      Counts t n
  | inBlock {t child n : Tree} (present : t.info.missing = false)
      (conditional : t.kind ∈ conditionalKinds)
      (hchild : child ∈ t.children.eraseP (·.field == some "condition"))
      (named : child.named = true) (h : Counts child n) : Counts t n

theorem Counts.holds {n : Tree} (h : Counts t n) : t.Holds n := by
  induction h with
  | self t => exact .self t
  | inCode _ _ _ hchild _ ih => exact .inner hchild ih
  | inBlock _ _ hchild _ _ ih => exact .inner (List.mem_of_mem_eraseP hchild) ih

theorem counts_iff {n : Tree} : Counts t n ↔ n = t ∨ ∃ c ∈ counted t, Counts c n := by
  constructor
  · intro h
    cases h with
    | self => exact .inl rfl
    | inCode present code parted hchild h =>
      exact .inr ⟨_, mem_counted_iff.2 ⟨present, .inl ⟨code, parted, hchild⟩⟩, h⟩
    | inBlock present conditional hchild named h =>
      exact .inr ⟨_, mem_counted_iff.2 ⟨present, .inr ⟨conditional, hchild, named⟩⟩, h⟩
  · rintro (rfl | ⟨c, hc, h⟩)
    · exact .self n
    · obtain ⟨present, hbelow⟩ := mem_counted_iff.1 hc
      obtain ⟨code, parted, hchild⟩ | ⟨conditional, hchild, named⟩ := hbelow
      · exact .inCode present code parted hchild h
      · exact .inBlock present conditional hchild named h

/-- These nodes are the tokens of the tree, in their order. -/
structure AreTokens (source : List Char) (t : Tree) (parts : List Tree) : Prop where
  texts : tokens source t = parts.map (·.trimmedText source)
  mem_iff : ∀ n, n ∈ parts ↔ Counts t n ∧ IsToken source n
  ordered : t.Nested source → parts.Pairwise fun a b => a.stop ≤ b.start

theorem AreTokens.of_isToken (h : IsToken source t) : AreTokens source t [t] where
  texts := tokens_of_isToken h
  mem_iff n := by
    rw [List.mem_singleton, counts_iff, h.counted_eq_nil]
    constructor
    · rintro rfl
      exact ⟨.inl rfl, h⟩
    · rintro ⟨rfl | ⟨c, hc, -⟩, -⟩
      · rfl
      · cases hc
  ordered _ := List.pairwise_singleton _ t

theorem AreTokens.of_counted {partsOf : Tree → List Tree} (h : ¬IsToken source t)
    (hparts : ∀ c ∈ counted t, AreTokens source c (partsOf c)) :
    AreTokens source t ((counted t).flatMap partsOf) where
  texts := by
    rw [tokens_of_not_isToken h, List.map_flatMap]
    exact List.flatMap_congr fun c hc => (hparts c hc).texts
  mem_iff n := by
    rw [List.mem_flatMap, counts_iff]
    constructor
    · rintro ⟨c, hc, hn⟩
      obtain ⟨hcounts, htoken⟩ := ((hparts c hc).mem_iff n).1 hn
      exact ⟨.inr ⟨c, hc, hcounts⟩, htoken⟩
    · rintro ⟨rfl | ⟨c, hc, hcounts⟩, htoken⟩
      · exact absurd htoken h
      · exact ⟨c, hc, ((hparts c hc).mem_iff n).2 ⟨hcounts, htoken⟩⟩
  ordered hnested := by
    have hchild : ∀ {c}, c ∈ counted t → c ∈ t.children := fun hc => (counted_sublist t).subset hc
    have hinside : ∀ {c}, c ∈ counted t → ∀ n ∈ partsOf c, c.start ≤ n.start ∧ n.stop ≤ c.stop :=
      fun hc n hn => (hnested.of_holds (.of_mem (hchild hc))).inside
        (((hparts _ hc).mem_iff n).1 hn).1.holds
    rw [List.pairwise_flatMap]
    refine ⟨fun c hc => (hparts c hc).ordered (hnested.of_holds (.of_mem (hchild hc))), ?_⟩
    refine (hnested.inPlace.ordered.sublist (counted_sublist t)).imp_of_mem ?_
    intro a b ha hb hab x hx y hy
    exact Nat.le_trans (Nat.le_trans (hinside ha x hx).2 hab) (hinside hb y hy).1

theorem exists_areTokens (source : List Char) (t : Tree) :
    ∃ parts, AreTokens source t parts := by
  induction t using Tree.induction_on with
  | node info children ih =>
    by_cases htoken : IsToken source (.node info children)
    · exact ⟨_, .of_isToken htoken⟩
    · choose! partsOf hparts using fun c (hc : c ∈ counted (.node info children)) =>
        ih c ((counted_sublist _).subset hc)
      exact ⟨_, .of_counted htoken hparts⟩

/-! ## The normalized body -/

theorem IsToken.unpadded (h : IsToken source t) :
    Text.Unpadded (t.trimmedText source).toList := by
  have htext := h.text
  rw [Tree.trimmedText, Text.trimmed, Text.onString, ne_eq, String.ofList_eq_empty_iff] at htext
  rw [Tree.trimmedText, Text.trimmed, Text.onString, String.toList_ofList]
  exact Text.unpadded_trim htext

/-- Tokens are joined by single spaces, and nothing is left to trim. -/
theorem trimmed_intercalate {parts : List Tree} (h : ∀ n ∈ parts, IsToken source n) :
    Text.trimmed (" ".intercalate (parts.map (·.trimmedText source))) =
      " ".intercalate (parts.map (·.trimmedText source)) := by
  by_cases hempty : parts = []
  · rw [hempty, List.map_nil]
    decide
  have htoken : Text.Unpadded (" ".intercalate (parts.map (·.trimmedText source))).toList := by
    rw [String.toList_intercalate, List.map_map]
    refine .intercalate _ (by simpa using hempty) fun w hw => ?_
    obtain ⟨n, hn, rfl⟩ := List.mem_map.1 hw
    exact (h n hn).unpadded
  rw [Text.trimmed, Text.onString, htoken.trim_eq, String.ofList_toList]

theorem normalizedBody_of_some {body : Tree} (h : body? t = some body) :
    normalizedBody source t = Text.trimmed (" ".intercalate (tokens source body)) := by
  rw [normalizedBody, h]

theorem normalizedBody_of_none (h : body? t = none) : normalizedBody source t = "" := by
  rw [normalizedBody, h]

/-- Layout does not count in a body: declarations have the same normalized body if their bodies
are the same without comments and places. The normalized body consists of the texts of the
tokens of the body, in their order in the source, with single spaces between them. -/
theorem normalizedBody_layout (source source' : List Char) (t t' : Tree) :
    ((body? t).map (shape source) = (body? t').map (shape source') →
      normalizedBody source t = normalizedBody source' t') ∧
    (body? t = none → normalizedBody source t = "") ∧
    ∀ body, body? t = some body → ∃ parts : List Tree,
      (∀ n, n ∈ parts ↔ Counts body n ∧ IsToken source n) ∧
      (body.Nested source → parts.Pairwise fun a b => a.stop ≤ b.start) ∧
      normalizedBody source t = " ".intercalate (parts.map (·.trimmedText source)) := by
  refine ⟨fun hshape => ?_, normalizedBody_of_none, fun body hbody => ?_⟩
  · cases hbody : body? t with
    | none =>
      rw [hbody] at hshape
      rw [normalizedBody_of_none hbody,
        normalizedBody_of_none (Option.map_eq_none_iff.1 hshape.symm)]
    | some body =>
      rw [hbody] at hshape
      obtain ⟨body', hbody', hshape⟩ := Option.map_eq_some_iff.1 hshape.symm
      rw [normalizedBody_of_some hbody, normalizedBody_of_some hbody',
        tokens_eq_of_shape_eq hshape]
  · obtain ⟨parts, htexts, hmem, hordered⟩ := exists_areTokens source body
    refine ⟨parts, hmem, hordered, ?_⟩
    rw [normalizedBody_of_some hbody, htexts]
    exact trimmed_intercalate fun n hn => ((hmem n).1 hn).2

/-- A method with one statement, which is compiled on a condition: the body, the statement and
its semicolon begin here, and these comments stand before the semicolon. -/
def guardedMethod (start word : Nat) (comments : List Tree) (semicolon : Nat) : Tree :=
  .node ⟨"method_declaration", none, true, false, 0, semicolon + 10⟩
    [.node ⟨"block", some "body", true, false, start, semicolon + 10⟩
      [.node ⟨"\x7b", none, false, false, start, start + 1⟩ [],
       .node ⟨"preproc_if", none, true, false, start + 2, semicolon + 8⟩
        [.node ⟨"#if", none, false, false, start + 2, start + 5⟩ [],
         .node ⟨"identifier", some "condition", true, false, start + 6, start + 7⟩ [],
         .node ⟨"expression_statement", none, true, false, word, semicolon + 1⟩
          ([.node ⟨"identifier", none, true, false, word, word + 1⟩ []] ++ comments ++
            [.node ⟨";", none, false, false, semicolon, semicolon + 1⟩ []]),
         .node ⟨"#endif", none, false, false, semicolon + 2, semicolon + 8⟩ []],
       .node ⟨"\x7d", none, false, false, semicolon + 9, semicolon + 10⟩ []]]

theorem normalizedBody_layout_guarded :
    let source := "void M()\x7b\n#if X\ny;\n#endif\n\x7d".toList
    let source' := "void M() \x7b\n#if X\n  y /* */ ;\n#endif\n\x7d".toList
    let t := guardedMethod 8 16 [] 17
    let t' := guardedMethod 9 19 [.node ⟨"comment", none, true, false, 21, 26⟩ []] 27
    (body? t).map (shape source) = (body? t').map (shape source') ∧
      normalizedBody source t = normalizedBody source' t' ∧
      normalizedBody source' t' = "\x7b y ; \x7d" ∧
      ∃ (body : Tree) (parts : List Tree), body? t' = some body ∧ body.Nested source' ∧
        (∀ n, n ∈ parts ↔ Counts body n ∧ IsToken source' n) ∧
        parts.Pairwise (fun a b => a.stop ≤ b.start) ∧
        normalizedBody source' t' = " ".intercalate (parts.map (·.trimmedText source')) := by
  intro source source' t t'
  have hbody : (body? t).map (shape source) = (body? t').map (shape source') := by decide +kernel
  have hnested : (t'.children.headD default).Nested source' := by decide +kernel
  obtain ⟨hsame, -, -⟩ := normalizedBody_layout source source' t t'
  obtain ⟨-, -, htokens⟩ := normalizedBody_layout source' source t' t
  obtain ⟨parts, hmem, hordered, hjoined⟩ := htokens (t'.children.headD default) rfl
  have htext : normalizedBody source' t' = "\x7b y ; \x7d" := by decide +kernel
  exact ⟨hbody, hsame hbody, htext, _, parts, rfl, hnested, hmem, hordered hnested, hjoined⟩

end Duplicate
end TestLint
