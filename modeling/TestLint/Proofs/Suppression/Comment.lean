import TestLint.Proofs.Suppression.Replay

/-!
# Comments for a line

* A line keeps one comment: its own if it has one, else the one for the next line
  that the line before holds (`Comments`).
* So a comment silences the rules it covers in its line, except that one for the
  next line gives way to a comment of that line (`commentSilences_iff`), even if
  the two cover different rules (`comment_of_line_before_is_lost`).
-/

namespace TestLint

namespace Directive

/-- What a comment about its own line covers. -/
def hereScope? : Directive → Option RuleScope
  | .ignoreHere scope => some scope
  | _ => none

/-- What a comment about the next line covers. -/
def nextScope? : Directive → Option RuleScope
  | .ignoreNext scope => some scope
  | _ => none

end Directive

namespace Directives

/-- The comment that is kept for the line. -/
def commentFor? (d : Directives) (line : Nat) : Option RuleScope :=
  (d.comments.find? (·.1 == line)).map (·.2)

theorem commentSilences_eq_true_iff {d : Directives} {line : Nat} {rule : Rule} :
    d.commentSilences line rule = true ↔
      ∃ scope, d.commentFor? line = some scope ∧ scope.covers rule = true := by
  unfold commentSilences commentFor?
  cases d.comments.find? (·.1 == line) with
  | none => simp
  | some comment => simp

namespace Replay

variable {r : Replay} {line other : Nat} {scope : RuleScope}

theorem commentFor?_addComment : (r.addComment line scope).gathered.commentFor? other =
    if other = line then some scope else r.gathered.commentFor? other := by
  unfold addComment commentFor?
  by_cases h : other = line
  · simp [h]
  · simp [h, Ne.symm h]

theorem commentFor?_close :
    (r.close line).gathered.commentFor? other = r.gathered.commentFor? other :=
  rfl

/-- A directive sets the comment of its own line or of the next one, and no other. -/
theorem commentFor?_step (d : Directive) : (r.step line d).gathered.commentFor? other =
    if other = line then d.hereScope?.or (r.gathered.commentFor? other)
    else if other = line + 1 then d.nextScope?.or (r.gathered.commentFor? other)
    else r.gathered.commentFor? other := by
  have hpragma (r' : Replay) (h : r'.gathered.comments = r.gathered.comments) :
      r'.gathered.commentFor? other = r.gathered.commentFor? other := by
    rw [commentFor?, h, commentFor?]
  cases d with
  | disable scope =>
    rw [hpragma _ (by cases scope <;> rfl)]
    simp [Directive.hereScope?, Directive.nextScope?]
  | restore scope =>
    rw [hpragma _ (by cases scope <;> rfl)]
    simp [Directive.hereScope?, Directive.nextScope?]
  | ignoreNext scope =>
    rw [step, commentFor?_addComment]
    by_cases h : other = line
    · simp [h, Directive.hereScope?]
    · simp [h, Directive.nextScope?]
  | ignoreHere scope =>
    rw [step, commentFor?_addComment]
    simp [Directive.hereScope?, Directive.nextScope?]

end Replay

/-! ## A source -/

/-- The scope of the comment that the line holds about itself. -/
def hereAt? (source : List Char) (line : Nat) : Option RuleScope :=
  (directiveAt? source line).bind Directive.hereScope?

/-- The scope of the comment that the line holds about the next one. -/
def nextAt? (source : List Char) (line : Nat) : Option RuleScope :=
  (directiveAt? source line).bind Directive.nextScope?

/-- After `k` lines, the comments for the lines so far and for the next one. -/
structure Comments (source : List Char) (k : Nat) (r : Replay) : Prop where
  past : ∀ line ≤ k,
    r.gathered.commentFor? line = (hereAt? source line).or (nextAt? source (line - 1))
  upcoming : r.gathered.commentFor? (k + 1) = nextAt? source k
  later : ∀ line, k + 1 < line → r.gathered.commentFor? line = none

section Source

variable {source : List Char} {line k : Nat} {r r' : Replay}

theorem comments_start : Comments source 0 .start := by
  refine ⟨fun line hline => ?_, rfl, fun line hline => rfl⟩
  obtain rfl := Nat.le_zero.1 hline
  rfl

theorem Comments.reordered (horder : Reordered r r') (h : Comments source k r) :
    Comments source k r' := by
  obtain ⟨hpast, hupcoming, hlater⟩ := h
  rw [← horder.gathered_eq] at hupcoming
  simp only [← horder.gathered_eq] at hpast hlater
  exact ⟨hpast, hupcoming, hlater⟩

theorem Comments.skip (hline : directiveAt? source (k + 1) = none) (h : Comments source k r) :
    Comments source (k + 1) r := by
  have hhere : hereAt? source (k + 1) = none := by rw [hereAt?, hline, Option.bind_none]
  have hnext : nextAt? source (k + 1) = none := by rw [nextAt?, hline, Option.bind_none]
  refine ⟨fun line hle => ?_, ?_, fun line hlt => h.later line (by omega)⟩
  · rcases Nat.lt_or_eq_of_le hle with hlt | rfl
    · exact h.past line (Nat.le_of_lt_succ hlt)
    · rw [h.upcoming, hhere, Option.none_or, Nat.add_sub_cancel]
  · rw [hnext, h.later (k + 2) (by omega)]

theorem Comments.step {d : Directive} (hline : directiveAt? source (k + 1) = some d)
    (h : Comments source k r) : Comments source (k + 1) (r.step (k + 1) d) := by
  have hhere : hereAt? source (k + 1) = d.hereScope? := by rw [hereAt?, hline, Option.bind_some]
  have hnext : nextAt? source (k + 1) = d.nextScope? := by rw [nextAt?, hline, Option.bind_some]
  refine ⟨fun line hle => ?_, ?_, fun line hlt => ?_⟩ <;> rw [Replay.commentFor?_step]
  · rcases Nat.lt_or_eq_of_le hle with hlt | rfl
    · rw [if_neg (by omega), if_neg (by omega), h.past line (Nat.le_of_lt_succ hlt)]
    · rw [if_pos rfl, h.upcoming, hhere, Nat.add_sub_cancel]
  · rw [if_neg (by omega), if_pos rfl, h.later (k + 2) (by omega), hnext, Option.or_none]
  · rw [if_neg (by omega), if_neg (by omega), h.later line (by omega)]

theorem comments_invariant : Invariant source (Comments source) :=
  ⟨comments_start, .reordered, .skip, .step⟩

/-- A line is given the comment that it holds about itself, else the one that the
line before holds about it. -/
theorem commentFor?_eq {d : Directives} (hd : Gathers source d) :
    d.commentFor? line = (hereAt? source line).or (nextAt? source (line - 1)) := by
  obtain ⟨r, h, rfl⟩ := comments_invariant.of_gathers hd
  rw [Replay.commentFor?_close]
  rcases Nat.lt_trichotomy line ((Text.lines source).length + 1) with hlt | rfl | hgt
  · exact h.past line (Nat.le_of_lt_succ hlt)
  · have hhere : hereAt? source ((Text.lines source).length + 1) = none := by
      rw [hereAt?, directiveAt?_eq_none (Nat.lt_succ_self _), Option.bind_none]
    rw [h.upcoming, hhere, Option.none_or, Nat.add_sub_cancel]
  · have hhere : hereAt? source line = none := by
      rw [hereAt?, directiveAt?_eq_none (by omega), Option.bind_none]
    have hnext : nextAt? source (line - 1) = none := by
      rw [nextAt?, directiveAt?_eq_none (by omega), Option.bind_none]
    rw [h.later line hgt, hhere, hnext, Option.none_or]

section Written

-- one of the two kinds of comments: its directives, what they cover, how they are written
variable (comment : RuleScope → Directive) {scope? : Directive → Option RuleScope}
  {Written : List Char → List Char → Prop}

theorem bind_scope?_eq_some_iff (hscope : ∀ d scope, scope? d = some scope ↔ d = comment scope)
    (hwritten : ∀ text scope, Directive.ofLine? text = some (comment scope) ↔
      ∃ listed, Written listed text ∧ Directive.commentScope listed = scope) {scope : RuleScope} :
    (directiveAt? source line).bind scope? = some scope ↔
      ∃ listed, AtLine source line (Written listed) ∧ Directive.commentScope listed = scope := by
  simp only [Option.bind_eq_some_iff, hscope, exists_eq_right, directiveAt?_eq_some_iff, AtLine,
    hwritten]
  constructor
  · rintro ⟨text, htext, listed, hlisted, hscope⟩
    exact ⟨listed, ⟨text, htext, hlisted⟩, hscope⟩
  · rintro ⟨listed, ⟨text, htext, hlisted⟩, hscope⟩
    exact ⟨text, htext, listed, hlisted, hscope⟩

end Written

theorem hereAt?_eq_some_iff {scope : RuleScope} : hereAt? source line = some scope ↔
    ∃ listed, AtLine source line (HereComment listed) ∧ Directive.commentScope listed = scope :=
  bind_scope?_eq_some_iff .ignoreHere
    (fun d _ => by cases d <;> simp [Directive.hereScope?])
    fun _ _ => Directive.ofLine?_ignoreHere_iff

theorem nextAt?_eq_some_iff {scope : RuleScope} : nextAt? source line = some scope ↔
    ∃ listed, AtLine source line (NextComment listed) ∧ Directive.commentScope listed = scope :=
  bind_scope?_eq_some_iff .ignoreNext
    (fun d _ => by cases d <;> simp [Directive.nextScope?])
    fun _ _ => Directive.ofLine?_ignoreNext_iff

theorem hereAt?_eq_none_iff :
    hereAt? source line = none ↔ ¬∃ listed, AtLine source line (HereComment listed) := by
  rw [Option.eq_none_iff_forall_ne_some]
  simp only [ne_eq, hereAt?_eq_some_iff]
  constructor
  · rintro h ⟨listed, hlisted⟩
    exact h _ ⟨listed, hlisted, rfl⟩
  · rintro h scope ⟨listed, hlisted, -⟩
    exact h ⟨listed, hlisted⟩

end Source

/-- A rule is silenced by a comment in a line exactly if the line holds a comment
about itself that covers the rule, or holds none about itself and the line before
holds one about the next line that covers it. -/
theorem commentSilences_iff (source : List Char) (line : Nat) (rule : Rule) :
    (ofSource source).commentSilences line rule = true ↔
      (∃ listed, AtLine source line (HereComment listed) ∧ CommentCovers listed rule) ∨
      ((¬∃ listed, AtLine source line (HereComment listed)) ∧
        ∃ listed, AtLine source (line - 1) (NextComment listed) ∧ CommentCovers listed rule) := by
  rw [commentSilences_eq_true_iff, commentFor?_eq (gathers_ofSource source)]
  simp only [Option.or_eq_some_iff, hereAt?_eq_some_iff, hereAt?_eq_none_iff,
    nextAt?_eq_some_iff, ← Directive.commentScope_covers_iff]
  constructor
  · rintro ⟨_, ⟨listed, hlisted, rfl⟩ | ⟨hnone, listed, hlisted, rfl⟩, hcovers⟩
    · exact .inl ⟨listed, hlisted, hcovers⟩
    · exact .inr ⟨hnone, listed, hlisted, hcovers⟩
  · rintro (⟨listed, hlisted, hcovers⟩ | ⟨hnone, listed, hlisted, hcovers⟩)
    · exact ⟨_, .inl ⟨listed, hlisted, rfl⟩, hcovers⟩
    · exact ⟨_, .inr ⟨hnone, listed, hlisted, rfl⟩, hcovers⟩

/-- Two comments for one line. -/
def commentedTwice : List Char :=
  "// mstest-lint-ignore-next-line MSTEST0003\nint a; // mstest-lint-ignore MSTEST0014".toList

/-- What the line before silences is lost when the line holds a comment as well. -/
theorem comment_of_line_before_is_lost :
    ¬((ofSource commentedTwice).commentSilences 2 .testMethodShouldBeValid = true ↔
      (∃ listed, AtLine commentedTwice 2 (HereComment listed) ∧
        CommentCovers listed .testMethodShouldBeValid) ∨
      ∃ listed, AtLine commentedTwice 1 (NextComment listed) ∧
        CommentCovers listed .testMethodShouldBeValid) := by
  intro h
  have hlines : (Text.lines commentedTwice).map Directive.ofLine? =
      [some (.ignoreNext (.only [.testMethodShouldBeValid])),
        some (.ignoreHere (.only [.dataRowShouldBeValid]))] := by decide +kernel
  have hnext : nextAt? commentedTwice 1 = some (.only [.testMethodShouldBeValid]) := by
    rw [nextAt?, directiveAt?_succ (by rw [hlines]; rfl)]
    rfl
  have hhere : hereAt? commentedTwice 2 = some (.only [.dataRowShouldBeValid]) := by
    rw [hereAt?, directiveAt?_succ (by rw [hlines]; rfl)]
    rfl
  obtain ⟨listed, hline, hscope⟩ := nextAt?_eq_some_iff.1 hnext
  have hcovers : CommentCovers listed .testMethodShouldBeValid := by
    rw [← Directive.commentScope_covers_iff, hscope]
    rfl
  have hsilenced := h.2 (.inr ⟨listed, hline, hcovers⟩)
  rw [commentSilences_eq_true_iff, commentFor?_eq (gathers_ofSource commentedTwice), hhere]
    at hsilenced
  -- the comment that is kept is about another rule
  obtain ⟨_, ⟨⟩, hcovers⟩ := hsilenced
  cases hcovers

end Directives

end TestLint
