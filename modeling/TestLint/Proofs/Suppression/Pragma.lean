import TestLint.Proofs.Suppression.Replay

/-!
# The ranges of pragmas

* A switch that lines turn on and off is in force in a line (`InForce`) when some
  line has turned it on since it was last turned off.
* Everything and each rule have a switch of their own. The replay of a source
  keeps all of them (`Follows`), in whatever order the open rules are held.
* So a rule is silenced in a line exactly where its own switch or the one for
  everything is in force (`rangeSilences_iff`). Restoring one rule leaves the
  switch for everything alone (`restored_rule_stays_silenced`).
-/

namespace TestLint

/-! ## Switches -/

/-- What was turned on in a line, at the latest in this one, and in no line
between them turned off. -/
def InForce (on off : Nat → Prop) (line : Nat) : Prop :=
  ∃ start ≤ line, on start ∧ ∀ stop, start < stop → stop < line → ¬off stop

/-- What is still on after a line. -/
def LeftOn (on off : Nat → Prop) (line : Nat) : Prop :=
  ∃ start ≤ line, on start ∧ ∀ stop, start < stop → stop ≤ line → ¬off stop

section Switch

variable {on off : Nat → Prop} {k : Nat}

theorem inForce_succ : InForce on off (k + 1) ↔ on (k + 1) ∨ LeftOn on off k := by
  constructor
  · rintro ⟨start, hstart, hon, hoff⟩
    rcases Nat.lt_or_eq_of_le hstart with hlt | rfl
    · exact .inr ⟨start, by omega, hon, fun stop hlow hhigh => hoff stop hlow (by omega)⟩
    · exact .inl hon
  · rintro (hon | ⟨start, hstart, hon, hoff⟩)
    · exact ⟨k + 1, Nat.le_refl _, hon, fun stop hlow hhigh => by omega⟩
    · exact ⟨start, by omega, hon, fun stop hlow hhigh => hoff stop hlow (by omega)⟩

theorem leftOn_succ :
    LeftOn on off (k + 1) ↔ on (k + 1) ∨ (LeftOn on off k ∧ ¬off (k + 1)) := by
  constructor
  · rintro ⟨start, hstart, hon, hoff⟩
    rcases Nat.lt_or_eq_of_le hstart with hlt | rfl
    · refine .inr ⟨⟨start, by omega, hon, fun stop hlow hhigh => ?_⟩, ?_⟩
      · exact hoff stop hlow (by omega)
      · exact hoff (k + 1) hlt (Nat.le_refl _)
    · exact .inl hon
  · rintro (hon | ⟨⟨start, hstart, hon, hoff⟩, hlast⟩)
    · exact ⟨k + 1, Nat.le_refl _, hon, fun stop hlow hhigh => by omega⟩
    · refine ⟨start, by omega, hon, fun stop hlow hhigh => ?_⟩
      rcases Nat.lt_or_eq_of_le hhigh with hlt | rfl
      · exact hoff stop hlow (by omega)
      · exact hlast

/-- After `k` lines a switch is kept by the ranges in which it was on and the
lines since which it is on. -/
structure Tracks (on off : Nat → Prop) (closed : Nat → Nat → Prop) (since : Nat → Prop)
    (k : Nat) : Prop where
  inForce_iff : ∀ line, 1 ≤ line → line ≤ k →
    (((∃ first last, closed first last ∧ first ≤ line ∧ line ≤ last) ∨
      ∃ first, since first ∧ first ≤ line) ↔ InForce on off line)
  leftOn_iff : (∃ first, since first) ↔ LeftOn on off k
  since_le : ∀ first, since first → first ≤ k
  last_le : ∀ first last, closed first last → last ≤ k

/-- What one line does to a switch: turned off, it leaves a range up to this
line; turned on, it is on since this line unless it was on before. -/
structure Turn (on off : Nat → Prop) (closed closed' : Nat → Nat → Prop)
    (since since' : Nat → Prop) (line : Nat) : Prop where
  apart : on line → ¬off line
  closed_iff : ∀ first last, closed' first last ↔
    closed first last ∨ (off line ∧ since first ∧ last = line)
  since_iff : ∀ first, since' first ↔
    (since first ∧ ¬off line) ∨ (on line ∧ (¬∃ other, since other) ∧ first = line)

section Turning

variable {closed closed' : Nat → Nat → Prop} {since since' : Nat → Prop}

/-- What was on before stays on or ends in a range up to this line. -/
theorem Turn.kept {line first : Nat} (turn : Turn on off closed closed' since since' line)
    (hfirst : since first) : closed' first line ∨ since' first := by
  by_cases hoff : off line
  · exact .inl ((turn.closed_iff _ _).2 (.inr ⟨hoff, hfirst, rfl⟩))
  · exact .inr ((turn.since_iff _).2 (.inl ⟨hfirst, hoff⟩))

theorem Turn.exists_since {line : Nat} (turn : Turn on off closed closed' since since' line)
    (hon : on line) : ∃ first, since' first := by
  by_cases hopen : ∃ first, since first
  · obtain ⟨first, hfirst⟩ := hopen
    exact ⟨first, (turn.since_iff _).2 (.inl ⟨hfirst, turn.apart hon⟩)⟩
  · exact ⟨line, (turn.since_iff _).2 (.inr ⟨hon, hopen, rfl⟩)⟩

variable (h : Tracks on off closed since k)
  (turn : Turn on off closed closed' since since' (k + 1))

include h turn

theorem Tracks.since_le_succ (first : Nat) (hfirst : since' first) : first ≤ k + 1 := by
  rcases (turn.since_iff _).1 hfirst with ⟨hfirst, -⟩ | ⟨-, -, rfl⟩
  · exact Nat.le_succ_of_le (h.since_le first hfirst)
  · exact Nat.le_refl _

theorem Tracks.last_le_succ (first last : Nat) (hrange : closed' first last) : last ≤ k + 1 := by
  rcases (turn.closed_iff _ _).1 hrange with hrange | ⟨-, -, rfl⟩
  · exact Nat.le_succ_of_le (h.last_le first last hrange)
  · exact Nat.le_refl _

/-- Nothing changes for the lines before. -/
theorem Tracks.inForce_earlier {line : Nat} (hpos : 1 ≤ line) (hline : line ≤ k) :
    ((∃ first last, closed' first last ∧ first ≤ line ∧ line ≤ last) ∨
      ∃ first, since' first ∧ first ≤ line) ↔ InForce on off line := by
  rw [← h.inForce_iff line hpos hline]
  constructor
  · rintro (⟨first, last, hrange, hlow, hhigh⟩ | ⟨first, hfirst, hlow⟩)
    · rcases (turn.closed_iff _ _).1 hrange with hrange | ⟨-, hfirst, -⟩
      · exact .inl ⟨first, last, hrange, hlow, hhigh⟩
      · exact .inr ⟨first, hfirst, hlow⟩
    · rcases (turn.since_iff _).1 hfirst with ⟨hfirst, -⟩ | ⟨-, -, rfl⟩
      · exact .inr ⟨first, hfirst, hlow⟩
      · omega
  · rintro (⟨first, last, hrange, hlow, hhigh⟩ | ⟨first, hfirst, hlow⟩)
    · exact .inl ⟨first, last, (turn.closed_iff _ _).2 (.inl hrange), hlow, hhigh⟩
    · rcases turn.kept hfirst with hrange | hfirst
      · exact .inl ⟨first, k + 1, hrange, hlow, by omega⟩
      · exact .inr ⟨first, hfirst, hlow⟩

/-- The line itself is covered if the switch was on before it or is turned on in it. -/
theorem Tracks.inForce_last :
    ((∃ first last, closed' first last ∧ first ≤ k + 1 ∧ k + 1 ≤ last) ∨
      ∃ first, since' first ∧ first ≤ k + 1) ↔ InForce on off (k + 1) := by
  rw [inForce_succ, ← h.leftOn_iff]
  constructor
  · rintro (⟨first, last, hrange, -, hhigh⟩ | ⟨first, hfirst, -⟩)
    · rcases (turn.closed_iff _ _).1 hrange with hrange | ⟨-, hfirst, -⟩
      · have hlast := h.last_le first last hrange
        omega
      · exact .inr ⟨first, hfirst⟩
    · rcases (turn.since_iff _).1 hfirst with ⟨hfirst, -⟩ | ⟨hon, -, -⟩
      · exact .inr ⟨first, hfirst⟩
      · exact .inl hon
  · rintro (hon | ⟨first, hfirst⟩)
    · obtain ⟨first, hfirst⟩ := turn.exists_since hon
      exact .inr ⟨first, hfirst, h.since_le_succ turn first hfirst⟩
    · have hlow := h.since_le first hfirst
      rcases turn.kept hfirst with hrange | hfirst
      · exact .inl ⟨first, k + 1, hrange, by omega, Nat.le_refl _⟩
      · exact .inr ⟨first, hfirst, by omega⟩

theorem Tracks.leftOn_last : (∃ first, since' first) ↔ LeftOn on off (k + 1) := by
  rw [leftOn_succ, ← h.leftOn_iff]
  constructor
  · rintro ⟨first, hfirst⟩
    rcases (turn.since_iff _).1 hfirst with ⟨hfirst, hoff⟩ | ⟨hon, -, -⟩
    · exact .inr ⟨⟨first, hfirst⟩, hoff⟩
    · exact .inl hon
  · rintro (hon | ⟨⟨first, hfirst⟩, hoff⟩)
    · exact turn.exists_since hon
    · exact ⟨first, (turn.since_iff _).2 (.inl ⟨hfirst, hoff⟩)⟩

theorem Tracks.step : Tracks on off closed' since' (k + 1) := by
  refine ⟨fun line hpos hline => ?_, h.leftOn_last turn, h.since_le_succ turn, h.last_le_succ turn⟩
  rcases Nat.lt_or_eq_of_le hline with hlt | rfl
  · exact h.inForce_earlier turn hpos (Nat.le_of_lt_succ hlt)
  · exact h.inForce_last turn

end Turning

end Switch

/-! ## The switches of a replay -/

/-- The ranges of a topic have its scope. -/
def Topic.scope : Topic → RuleScope
  | none => .everything
  | some rule => .only [rule]

theorem Topic.scope_inj {topic other : Topic} : topic.scope = other.scope ↔ topic = other := by
  cases topic <;> cases other <;> simp [Topic.scope]

theorem Topic.scope_covers_iff {topic : Topic} {rule : Rule} :
    topic.scope.covers rule = true ↔ topic = none ∨ topic = some rule := by
  cases topic with
  | none => simp [Topic.scope, RuleScope.covers]
  | some other => simp [Topic.scope, RuleScope.covers, eq_comm]

namespace Directive

variable {topic : Topic} {d : Directive}

/-- The directive turns the silence of the topic on. -/
def Disables (topic : Topic) : Directive → Prop
  | .disable scope => topic.In scope
  | _ => False

/-- The directive turns the silence of the topic off; to restore everything does
so for each rule. -/
def Restores (topic : Topic) : Directive → Prop
  | .restore scope => Topic.In none scope ∨ topic.In scope
  | _ => False

theorem Disables.not_restores (h : d.Disables topic) : ¬d.Restores topic := by
  cases d with
  | disable scope => exact id
  | restore scope => exact h.elim
  | ignoreNext scope => exact h.elim
  | ignoreHere scope => exact h.elim

end Directive

namespace Directives

namespace Replay

/-- The line since which a topic is silenced. -/
def Since (r : Replay) (topic : Topic) (first : Nat) : Prop :=
  match topic with
  | none => r.openAll = some first
  | some rule => (rule, first) ∈ r.openRules

/-- A range in which a topic was silenced. -/
def Closed (r : Replay) (topic : Topic) (first last : Nat) : Prop :=
  ⟨first, last, topic.scope⟩ ∈ r.gathered.ranges

variable {r : Replay} {line : Nat} {topic : Topic} {first last : Nat}

/-- A directive adds the ranges of all that it restores, each up to its line. -/
theorem mem_ranges_step {range : SilencedRange} (d : Directive) :
    range ∈ (r.step line d).gathered.ranges ↔ range ∈ r.gathered.ranges ∨
      ∃ topic first, d.Restores topic ∧ r.Since topic first ∧
        range = ⟨first, line, topic.scope⟩ := by
  cases d with
  | disable scope => cases scope <;> simp [step, Directive.Restores]
  | restore scope =>
    cases scope with
    | everything =>
      simp only [step, close, addRanges, List.mem_append, List.mem_map, Option.mem_toList,
        Prod.exists, Directive.Restores, Option.exists, Topic.In, Since, Topic.scope, true_or,
        true_and, eq_comm (a := range)]
    | only rules =>
      simp only [step, addRanges, List.partition_eq_filter_filter, List.mem_append, List.mem_map,
        List.mem_filter, Prod.exists, Directive.Restores, Option.exists, Topic.In, Since,
        Topic.scope, List.contains_iff_mem, false_and, and_false, exists_false, false_or,
        and_assoc, and_left_comm, eq_comm (a := range)]
  | ignoreNext scope => simp [step, addComment, Directive.Restores]
  | ignoreHere scope => simp [step, addComment, Directive.Restores]

theorem closed_step (d : Directive) : (r.step line d).Closed topic first last ↔
    r.Closed topic first last ∨ (d.Restores topic ∧ r.Since topic first ∧ last = line) := by
  unfold Closed
  rw [mem_ranges_step]
  constructor
  · rintro (hrange | ⟨other, since, hrestores, hsince, heq⟩)
    · exact .inl hrange
    · rw [SilencedRange.mk.injEq, Topic.scope_inj] at heq
      obtain ⟨rfl, rfl, rfl⟩ := heq
      exact .inr ⟨hrestores, hsince, rfl⟩
  · rintro (hrange | ⟨hrestores, hsince, rfl⟩)
    · exact .inl hrange
    · exact .inr ⟨topic, first, hrestores, hsince, rfl⟩

/-- Only the rules that are not open yet are open from this line on. -/
theorem mem_fresh_iff {rules : List Rule} {rule : Rule} :
    (rule, first) ∈ (rules.filter fun rule => !r.openRules.any (·.1 == rule)).map (·, line) ↔
      rule ∈ rules ∧ (¬∃ other, (rule, other) ∈ r.openRules) ∧ first = line := by
  have hopen : r.openRules.any (·.1 == rule) = true ↔ ∃ other, (rule, other) ∈ r.openRules := by
    simp
  rw [← hopen, Bool.not_eq_true, List.mem_map]
  simp only [List.mem_filter, Prod.mk.injEq, Bool.not_eq_true']
  constructor
  · rintro ⟨_, ⟨hmem, hfresh⟩, rfl, rfl⟩
    exact ⟨hmem, hfresh, rfl⟩
  · rintro ⟨hmem, hfresh, rfl⟩
    exact ⟨rule, ⟨hmem, hfresh⟩, rfl, rfl⟩

/-- What is on stays on until it is restored, and what is disabled is on since
this line unless it was on before. -/
theorem since_step (d : Directive) : (r.step line d).Since topic first ↔
    (r.Since topic first ∧ ¬d.Restores topic) ∨
      (d.Disables topic ∧ (¬∃ other, r.Since topic other) ∧ first = line) := by
  cases d with
  | disable scope =>
    cases topic with
    | none =>
      cases scope <;> cases hall : r.openAll <;>
        simp [step, Since, Directive.Restores, Directive.Disables, Topic.In, hall, eq_comm]
    | some rule =>
      cases scope with
      | everything => simp [step, Since, Directive.Restores, Directive.Disables, Topic.In]
      | only rules =>
        simp only [step, Since, Directive.Restores, Directive.Disables, Topic.In,
          List.mem_append, mem_fresh_iff, not_false_eq_true, and_true]
  | restore scope =>
    cases scope <;> cases topic <;>
      simp [step, close, addRanges, Since, Directive.Restores, Directive.Disables, Topic.In]
  | ignoreNext scope =>
    cases topic <;> simp [step, addComment, Since, Directive.Restores, Directive.Disables]
  | ignoreHere scope =>
    cases topic <;> simp [step, addComment, Since, Directive.Restores, Directive.Disables]

/-- The ranges gathered so far are ranges of topics. -/
def OfTopics (r : Replay) : Prop :=
  ∀ range ∈ r.gathered.ranges, ∃ topic : Topic, range.scope = topic.scope

theorem OfTopics.step (h : r.OfTopics) (d : Directive) : (r.step line d).OfTopics := by
  intro range hrange
  rcases (mem_ranges_step d).1 hrange with hrange | ⟨topic, first, -, -, rfl⟩
  · exact h range hrange
  · exact ⟨topic, rfl⟩

/-- Closing is restoring everything. -/
theorem close_eq_step : r.close line = r.step line (.restore .everything) :=
  rfl

theorem OfTopics.close (h : r.OfTopics) : (r.close line).OfTopics :=
  h.step (.restore .everything)

/-- The ranges that cover a rule are those of everything and of the rule itself. -/
theorem OfTopics.rangeSilences_eq_true_iff {rule : Rule} (h : r.OfTopics) :
    r.gathered.rangeSilences line rule = true ↔
      ∃ topic, (topic = none ∨ topic = some rule) ∧
        ∃ first last, r.Closed topic first last ∧ first ≤ line ∧ line ≤ last := by
  simp only [rangeSilences, List.any_eq_true, Bool.and_eq_true, decide_eq_true_eq]
  constructor
  · rintro ⟨⟨first, last, scope⟩, hrange, ⟨hlow, hhigh⟩, hcovers⟩
    obtain ⟨topic, rfl⟩ := h _ hrange
    exact ⟨topic, Topic.scope_covers_iff.1 hcovers, first, last, hrange, hlow, hhigh⟩
  · rintro ⟨topic, hrule, first, last, hrange, hlow, hhigh⟩
    exact ⟨_, hrange, ⟨hlow, hhigh⟩, Topic.scope_covers_iff.2 hrule⟩

theorem closed_close : (r.close line).Closed topic first last ↔
    r.Closed topic first last ∨ (r.Since topic first ∧ last = line) := by
  have hrestores : (Directive.restore .everything).Restores topic := .inl trivial
  simp only [close_eq_step, closed_step, hrestores, true_and]

theorem since_eq {r' : Replay} (h : Reordered r r') : r'.Since topic = r.Since topic := by
  funext first
  cases topic with
  | none => rw [Since, Since, h.openAll_eq]
  | some rule => exact propext h.openRules_perm.mem_iff

theorem closed_eq {r' : Replay} (h : Reordered r r') : r'.Closed topic = r.Closed topic := by
  funext first last
  rw [Closed, Closed, h.gathered_eq]

end Replay

/-! ## A source -/

/-- The line is a pragma that silences the topic. -/
def Disabled (source : List Char) (topic : Topic) (line : Nat) : Prop :=
  AtLine source line (topic.StatedIn "disable".toList)

/-- The line is a pragma that restores the topic or everything. -/
def Restored (source : List Char) (topic : Topic) (line : Nat) : Prop :=
  AtLine source line fun text =>
    Topic.StatedIn none "restore".toList text ∨ topic.StatedIn "restore".toList text

section Source

variable {source : List Char} {topic : Topic} {line k : Nat} {r r' : Replay}

theorem disabled_iff :
    Disabled source topic line ↔ ∃ d, directiveAt? source line = some d ∧ d.Disables topic := by
  simp only [Disabled, AtLine, ← Directive.exists_disable_iff, directiveAt?_eq_some_iff]
  constructor
  · rintro ⟨text, hline, scope, htext, htopic⟩
    exact ⟨.disable scope, ⟨text, hline, htext⟩, htopic⟩
  · rintro ⟨d, ⟨text, hline, htext⟩, htopic⟩
    cases d with
    | disable scope => exact ⟨text, hline, scope, htext, htopic⟩
    | restore scope => exact htopic.elim
    | ignoreNext scope => exact htopic.elim
    | ignoreHere scope => exact htopic.elim

theorem restored_iff :
    Restored source topic line ↔ ∃ d, directiveAt? source line = some d ∧ d.Restores topic := by
  simp only [Restored, AtLine, ← Directive.exists_restore_iff, ← exists_or, ← and_or_left,
    directiveAt?_eq_some_iff]
  constructor
  · rintro ⟨text, hline, scope, htext, htopic⟩
    exact ⟨.restore scope, ⟨text, hline, htext⟩, htopic⟩
  · rintro ⟨d, ⟨text, hline, htext⟩, htopic⟩
    cases d with
    | disable scope => exact htopic.elim
    | restore scope => exact ⟨text, hline, scope, htext, htopic⟩
    | ignoreNext scope => exact htopic.elim
    | ignoreHere scope => exact htopic.elim

/-- After `k` lines the replay keeps the switches of all topics, and it has
gathered ranges of topics only. -/
structure Follows (source : List Char) (k : Nat) (r : Replay) : Prop where
  ofTopics : r.OfTopics
  tracks : ∀ topic, Tracks (Disabled source topic) (Restored source topic) (r.Closed topic)
    (r.Since topic) k

theorem follows_start : Follows source 0 .start := by
  have hsince : ∀ topic first, ¬Replay.start.Since topic first := by
    rintro (_ | rule) first hfirst <;> cases hfirst
  have hclosed : ∀ topic first last, ¬Replay.start.Closed topic first last :=
    fun _ _ _ => List.not_mem_nil
  refine ⟨fun _ hrange => absurd hrange List.not_mem_nil, fun topic => ⟨?_, ?_, ?_, ?_⟩⟩
  · intro line hpos hline
    omega
  · constructor
    · rintro ⟨first, hfirst⟩
      exact absurd hfirst (hsince topic first)
    · -- there is no line of the number 0 in which it could have been turned on
      rintro ⟨start, hstart, ⟨text, hline, -⟩, -⟩
      obtain rfl := Nat.le_zero.1 hstart
      cases hline
  · exact fun first hfirst => absurd hfirst (hsince topic first)
  · exact fun first last hrange => absurd hrange (hclosed topic first last)

theorem Follows.reordered (horder : Reordered r r') (h : Follows source k r) :
    Follows source k r' := by
  refine ⟨?_, fun topic => ?_⟩
  · rw [Replay.OfTopics, horder.gathered_eq]
    exact h.ofTopics
  · rw [Replay.closed_eq horder, Replay.since_eq horder]
    exact h.tracks topic

theorem Follows.skip (hline : directiveAt? source (k + 1) = none) (h : Follows source k r) :
    Follows source (k + 1) r := by
  refine ⟨h.ofTopics, fun topic => (h.tracks topic).step ?_⟩
  have hon : ¬Disabled source topic (k + 1) := by simp [disabled_iff, hline]
  have hoff : ¬Restored source topic (k + 1) := by simp [restored_iff, hline]
  exact ⟨fun _ => hoff, fun _ _ => by simp [hoff], fun _ => by simp [hon, hoff]⟩

theorem Follows.step {d : Directive} (hline : directiveAt? source (k + 1) = some d)
    (h : Follows source k r) : Follows source (k + 1) (r.step (k + 1) d) := by
  refine ⟨h.ofTopics.step d, fun topic => (h.tracks topic).step ?_⟩
  have hon : Disabled source topic (k + 1) ↔ d.Disables topic := by simp [disabled_iff, hline]
  have hoff : Restored source topic (k + 1) ↔ d.Restores topic := by simp [restored_iff, hline]
  refine ⟨?_, fun first last => ?_, fun first => ?_⟩
  · rw [hon, hoff]
    exact Directive.Disables.not_restores
  · rw [hoff]
    exact Replay.closed_step d
  · rw [hon, hoff]
    exact Replay.since_step d

theorem follows_invariant : Invariant source (Follows source) :=
  ⟨follows_start, .reordered, .skip, .step⟩

/-- When the end closes what is still on, the ranges of a topic are the lines in
which its switch is in force. -/
theorem Follows.closed_close_iff {last : Nat} (h : Follows source k r) (hpos : 1 ≤ line)
    (hline : line ≤ k) (hlast : k ≤ last) :
    (∃ first stop, (r.close last).Closed topic first stop ∧ first ≤ line ∧ line ≤ stop) ↔
      InForce (Disabled source topic) (Restored source topic) line := by
  rw [← (h.tracks topic).inForce_iff line hpos hline]
  simp only [Replay.closed_close]
  constructor
  · rintro ⟨first, stop, hrange | ⟨hfirst, -⟩, hlow, hhigh⟩
    · exact .inl ⟨first, stop, hrange, hlow, hhigh⟩
    · exact .inr ⟨first, hfirst, hlow⟩
  · rintro (⟨first, stop, hrange, hlow, hhigh⟩ | ⟨first, hfirst, hlow⟩)
    · exact ⟨first, stop, .inl hrange, hlow, hhigh⟩
    · exact ⟨first, last, .inr ⟨hfirst, rfl⟩, hlow, Nat.le_trans hline hlast⟩

end Source

/-- Whatever the order of the open rules, a rule is silenced in a line of a source
exactly if a line up to it silences everything or the rule, and no line between
them restores that: everything is only restored as a whole. -/
theorem rangeSilences_iff (source : List Char) :
    Gathers source (ofSource source) ∧
    ∀ d, Gathers source d → ∀ line, 1 ≤ line → line ≤ (Text.lines source).length → ∀ rule,
      (d.rangeSilences line rule = true ↔
        InForce (Disabled source none) (Restored source none) line ∨
        InForce (Disabled source (some rule)) (Restored source (some rule)) line) := by
  refine ⟨gathers_ofSource source, fun d hd line hpos hline rule => ?_⟩
  obtain ⟨r, hr, rfl⟩ := follows_invariant.of_gathers hd
  rw [hr.ofTopics.close.rangeSilences_eq_true_iff]
  simp only [hr.closed_close_iff hpos hline (Nat.le_max_left _ _), or_and_right, exists_or,
    exists_eq_left]

/-- A rule that is silenced by itself and with everything, and restored by itself. -/
def silencedTwice : List Char :=
  ("#pragma warning disable\n#pragma warning disable MSTEST0017 // order\n" ++
    "#pragma warning restore MSTEST0017\nclass C;").toList

theorem rangeSilences_iff_silencedTwice :
    (Gathers silencedTwice (ofSource silencedTwice) ∧
      1 ≤ 4 ∧ 4 ≤ (Text.lines silencedTwice).length) ∧
    (ofSource silencedTwice).rangeSilences 4 .assertionArgsShouldBePassedInCorrectOrder = true ∧
    (InForce (Disabled silencedTwice none) (Restored silencedTwice none) 4 ∨
      InForce (Disabled silencedTwice (some .assertionArgsShouldBePassedInCorrectOrder))
        (Restored silencedTwice (some .assertionArgsShouldBePassedInCorrectOrder)) 4) := by
  have hlines : 4 ≤ (Text.lines silencedTwice).length := by decide +kernel
  have hsilenced : (ofSource silencedTwice).rangeSilences 4
      .assertionArgsShouldBePassedInCorrectOrder = true := by decide +kernel
  refine ⟨⟨gathers_ofSource silencedTwice, by decide, hlines⟩, hsilenced, ?_⟩
  exact ((rangeSilences_iff silencedTwice).2 _ (gathers_ofSource silencedTwice) 4 (by decide)
    hlines .assertionArgsShouldBePassedInCorrectOrder).1 hsilenced

/-- Everything is silenced, and one rule restored. -/
def partlyRestored : List Char :=
  "#pragma warning disable\n#pragma warning restore MSTEST0003\nclass C;".toList

/-- The rules that a line restores stay silenced if it was everything that was silenced. -/
theorem restored_rule_stays_silenced :
    ¬((ofSource partlyRestored).rangeSilences 3 .testMethodShouldBeValid = true ↔
      InForce
        (fun line => Disabled partlyRestored none line ∨
          Disabled partlyRestored (some .testMethodShouldBeValid) line)
        (Restored partlyRestored (some .testMethodShouldBeValid)) 3) := by
  intro h
  have hsilenced : (ofSource partlyRestored).rangeSilences 3 .testMethodShouldBeValid = true := by
    decide +kernel
  have hrestore : directiveAt? partlyRestored 2 =
      some (.restore (.only [.testMethodShouldBeValid])) := by decide +kernel
  have hclass : directiveAt? partlyRestored 3 = none := by decide +kernel
  obtain ⟨start, hstart, hon, hoff⟩ := h.1 hsilenced
  have hrestored : Restored partlyRestored (some .testMethodShouldBeValid) 2 :=
    restored_iff.2 ⟨_, hrestore, .inr List.mem_cons_self⟩
  have hlate : 2 ≤ start :=
    Nat.le_of_not_lt fun hearly => hoff 2 hearly (by decide) hrestored
  -- and neither of the last two lines silences anything
  have hlast : start = 2 ∨ start = 3 := by omega
  rcases hlast with rfl | rfl <;> simp [disabled_iff, hrestore, hclass, Directive.Disables] at hon

end Directives

end TestLint
