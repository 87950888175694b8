import TestLint.Syntax.Tree

/-!
# The nodes of a tree

The nodes that a tree holds (`Tree.Holds`), which children the look-ups of a
node give, and induction over a tree with one hypothesis for each child
(`Tree.induction_on`).
-/

namespace TestLint.Tree

mutual

/-- What holds of a node as soon as it holds of its children holds of all trees. -/
theorem induction_on {motive : Tree → Prop} (t : Tree)
    (node : ∀ info children, (∀ c ∈ children, motive c) → motive (.node info children)) :
    motive t := by
  obtain ⟨info, children⟩ := t
  exact node info children (induction_on_all children node)

theorem induction_on_all {motive : Tree → Prop} (ts : List Tree)
    (node : ∀ info children, (∀ c ∈ children, motive c) → motive (.node info children)) :
    ∀ c ∈ ts, motive c := by
  match ts with
  | [] =>
    intro c hc
    cases hc
  | t :: rest =>
    exact List.forall_mem_cons.2 ⟨induction_on t node, induction_on_all rest node⟩

end

/-- The node is the tree itself or stands somewhere below it. -/
inductive Holds : Tree → Tree → Prop
  | self (t : Tree) : Holds t t
  | inner {t child n : Tree} (hchild : child ∈ t.children) (h : Holds child n) : Holds t n

theorem Holds.of_mem {t child : Tree} (h : child ∈ t.children) : t.Holds child :=
  .inner h (.self child)

theorem Holds.trans {t n m : Tree} (h : t.Holds n) (h' : n.Holds m) : t.Holds m := by
  induction h with
  | self t => exact h'
  | inner hchild _ ih => exact .inner hchild (ih h')

/-- What holds of a node as soon as it holds of all nodes below it holds of all trees. -/
theorem induction_below {motive : Tree → Prop} (t : Tree)
    (step : ∀ t, (∀ c ∈ t.children, ∀ n, c.Holds n → motive n) → motive t) : motive t := by
  have hall : ∀ n, t.Holds n → motive n := by
    induction t using induction_on with
    | node info children ih =>
      intro n hn
      cases hn with
      | self => exact step (.node info children) ih
      | inner hchild h => exact ih _ hchild n h
  exact hall t (.self t)

/-- What stands below a node stands inside it if all children stand inside their parents. -/
theorem inside_of_holds {t n : Tree}
    (h : ∀ m, t.Holds m → ∀ c ∈ m.children, m.start ≤ c.start ∧ c.stop ≤ m.stop)
    (hn : t.Holds n) : t.start ≤ n.start ∧ n.stop ≤ t.stop := by
  induction hn with
  | self t => exact ⟨Nat.le_refl _, Nat.le_refl _⟩
  | inner hchild _ ih =>
    have hparent := h _ (.self _) _ hchild
    have hbelow := ih fun m hm => h m ((Holds.of_mem hchild).trans hm)
    omega

/-- A node that may be missing, and the tree itself in its place. -/
theorem holds_getD {t : Tree} {n? : Option Tree} (h : ∀ n ∈ n?, t.Holds n) :
    t.Holds (n?.getD t) := by
  cases n? with
  | none => exact .self t
  | some n => exact h n rfl

/-! ## Looking up children -/

theorem mem_of_mem_codeChildren {t child : Tree} (h : child ∈ t.codeChildren) :
    child ∈ t.children :=
  (List.mem_filter.1 h).1

/-- What a function gives that goes through a list for the last node of the code
and reads this node. -/
theorem lastCode?_eq {β : Type} {read : Tree → β} {last? : List Tree → Option β}
    (nil : last? [] = none)
    (cons : ∀ t rest, last? (t :: rest) =
      (last? rest).or (if t.isCode then some (read t) else none)) (ts : List Tree) :
    last? ts = (ts.filter isCode).getLast?.map read := by
  induction ts with
  | nil => exact nil
  | cons t rest ih =>
    rw [cons, ih, List.filter_cons]
    by_cases ht : t.isCode = true
    · rw [if_pos ht, if_pos ht, List.getLast?_cons]
      cases (rest.filter isCode).getLast? <;> rfl
    · rw [if_neg ht, if_neg ht, Option.or_none]

theorem mem_of_mem_childrenOfKind {t child : Tree} {kind : String}
    (h : child ∈ t.childrenOfKind kind) : child ∈ t.children ∧ child.kind = kind :=
  ⟨(List.mem_filter.1 h).1, beq_iff_eq.1 (List.mem_filter.1 h).2⟩

theorem mem_of_childByField? {t child : Tree} {field : String}
    (h : t.childByField? field = some child) : child ∈ t.children ∧ child.field = some field :=
  ⟨List.mem_of_find?_eq_some h, by simpa using List.find?_some h⟩

theorem mem_of_childOfKind? {t child : Tree} {kind : String}
    (h : t.childOfKind? kind = some child) : child ∈ t.children :=
  List.mem_of_find?_eq_some h

theorem mem_of_childByFieldOrKind? {t child : Tree} {field kind : String}
    (h : t.childByFieldOrKind? field kind = some child) : child ∈ t.children := by
  rw [childByFieldOrKind?, Option.orElse_eq_orElse, Option.orElse_eq_or, Option.or_eq_some_iff] at h
  rcases h with h | ⟨-, h⟩
  · exact (mem_of_childByField? h).1
  · exact mem_of_childOfKind? h

end TestLint.Tree
