import TestLint.Proofs.Check.AssertOutcome
import Mathlib.Algebra.Ring.Nat
import Mathlib.Logic.Relation

/-!
# Rewriting assertions ends

Four checks write a call on `Assert` in another way, and what one of them has
written another may write again: `IsTrue(!(x == null))` becomes
`IsFalse(x == null)` and then `IsNotNull(x)`.  The rules never disagree, since
the method and the shape of the first argument say which of them can report a
call (`WrittenCall.soleRule`).  Nor do they go round in circles: all of them
take something away from the operands but the one that swaps two arguments, and
what has been swapped does not look swapped (`Rewrites.not_swapped_again`).  So
every call ends as one that none of the rules reports (`rewriting_ends`).
-/

namespace TestLint.Check

/-! ## The call that a rule writes -/

/-- The rules that write an assertion in another way. -/
def rewritingRules : List Rule :=
  [.assertionArgsShouldBePassedInCorrectOrder, .doNotNegateBooleanAssertion,
   .preferAssertFailOverAlwaysFalseConditions, .useProperAssertMethods]

def Rewriting.written (r : Rewriting) : WrittenCall :=
  ⟨r.method, kept r.before ++ (r.operands ++ kept r.after)⟩

/-- The fix that a rule has for a call on `Assert`, if it reports the call, and
the call that is then written.  Each argument of the new call has the operand
that the old one holds for its text. -/
def rewrite? (rule : Rule) (call : Invocation) : Option (Fix × WrittenCall) :=
  match rule with
  | .assertionArgsShouldBePassedInCorrectOrder =>
    (swapped? call).map fun (expected, actual) =>
      (swapFix expected actual, ⟨call.method, kept (actual :: expected :: call.arguments.drop 2)⟩)
  | .doNotNegateBooleanAssertion => (withoutNegation? call).map fun r => (r.fix call, r.written)
  | .preferAssertFailOverAlwaysFalseConditions =>
    if outcome? call = some false then
      some (failFix call, ⟨"Fail", kept (withoutSubject call.arguments)⟩)
    else
      none
  | .useProperAssertMethods => (proper? call).map fun r => (r.fix call, r.written)
  | _ => none

/-- The fix writes this call: it edits the method and the arguments of the old
one, or replaces all of it. -/
def Writes (fix : Fix) (call : Invocation) (new : WrittenCall) : Prop :=
  WritesCall fix call new ∨
    fix.edits = [.replace call.location (call.receiver.getD "Assert" ++ "." ++ new.method ++ "(" ++
      ", ".intercalate (new.arguments.map (·.2)) ++ ")")]

/-- One of the rules writes the new call in place of the old one. -/
def Step (old new : WrittenCall) : Prop :=
  ∃ rule call fix, (∀ a ∈ call.arguments, a.name = none) ∧ .ofInvocation call = old ∧
    rewrite? rule call = some (fix, new)

/-- None of the rules reports a call that is written like this. -/
def Settled (c : WrittenCall) : Prop :=
  ∀ rule call, (∀ a ∈ call.arguments, a.name = none) → .ofInvocation call = c →
    rewrite? rule call = none

theorem settled_iff (c : WrittenCall) : Settled c ↔ ∀ new, ¬Step c new := by
  constructor
  · rintro hsettled new ⟨rule, call, fix, hunnamed, hcall, hrewrite⟩
    rw [hsettled rule call hunnamed hcall] at hrewrite
    cases hrewrite
  · intro hstep rule call hunnamed hcall
    cases hrewrite : rewrite? rule call with
    | none => rfl
    | some written => exact absurd ⟨rule, call, _, hunnamed, hcall, hrewrite⟩ (hstep written.2)

theorem check_eq_rewrite? (ctx : CheckedFile) {rule : Rule} (hrule : rule ∈ rewritingRules) :
    (rule.check ctx).map (fun finding => (finding.location, finding.fix)) =
      (ctx.invocations.filter fun call => ctx.assertClass? call == some "Assert").filterMap
        fun call => (rewrite? rule call).map fun (fix, _) => (call.location, some fix) := by
  simp only [rewritingRules, List.mem_cons, List.not_mem_nil, or_false] at hrule
  rcases hrule with rfl | rfl | rfl | rfl
  · simp only [Rule.check, assertionArgsShouldBePassedInCorrectOrder, List.map_filterMap, rewrite?,
      Option.map_map]
    rfl
  · simp only [Rule.check, doNotNegateBooleanAssertion, List.map_filterMap, rewrite?,
      Option.map_map]
    rfl
  · rw [Rule.check, preferAssertFailOverAlwaysFalseConditions, callsWithOutcome, List.map_map]
    induction ctx.invocations with
    | nil => rfl
    | cons call calls ih =>
      by_cases hclass : ctx.assertClass? call = some "Assert"
      · have hhere : rewrite? .preferAssertFailOverAlwaysFalseConditions call =
            if outcome? call = some false then
              some (failFix call, ⟨"Fail", kept (withoutSubject call.arguments)⟩)
            else none := rfl
        by_cases houtcome : outcome? call = some false
        · simpa [hclass, houtcome, hhere] using ⟨⟨rfl, rfl⟩, ih⟩
        · simpa [hclass, houtcome, hhere] using ih
      · simpa [hclass] using ih
  · simp only [Rule.check, useProperAssertMethods, List.map_filterMap, rewrite?, Option.map_map]
    rfl

/-! ## What each rule does to a call -/

/-- The rule writes the new call in place of the old one. -/
inductive Rewrites : Rule → WrittenCall → WrittenCall → Prop
  | swapped {method : String} {first second : Operand × String}
      {further : List (Operand × String)} {expected actual : Argument}
      (hmethod : method ∈ equalityAsserts) (hfirst : expected.operand = first.1)
      (hsecond : actual.operand = second.1) (h : looksSwapped expected actual = true) :
      Rewrites .assertionArgsShouldBePassedInCorrectOrder ⟨method, first :: second :: further⟩
        ⟨method, second :: first :: further⟩
  | negation {method other text whole : String} {operand : Operand} {location : Location}
      {further : List (Operand × String)} (h : opposite? method = some other) :
      Rewrites .doNotNegateBooleanAssertion
        ⟨method, (.negation operand text location, whole) :: further⟩
        ⟨other, (operand, text) :: further⟩
  | failing {method : String} {subject : Operand × String} {further : List (Operand × String)}
      (h : passes? method subject.1 = some false) :
      Rewrites .preferAssertFailOverAlwaysFalseConditions ⟨method, subject :: further⟩
        ⟨"Fail", further⟩
  | comparison {method : String} {condition : Operand × String} {c : Comparison}
      {further : List (Operand × String)} (expected : Bool)
      (hmethod : method = if expected then "IsTrue" else "IsFalse")
      (h : comparison? condition.1 = some c) :
      Rewrites .useProperAssertMethods ⟨method, condition :: further⟩
        ⟨(c.asserted expected).1, (c.asserted expected).2 ++ further⟩
  | constant {method other : String} {first second : Operand × String}
      {further : List (Operand × String)} (equal : Bool)
      (hmethod : method = if equal then "AreEqual" else "AreNotEqual")
      (h : unary? equal first.1 = some other) :
      Rewrites .useProperAssertMethods ⟨method, first :: second :: further⟩
        ⟨other, second :: further⟩

/-- The rule writes the new call, made of parts of the old one, and its fix does so. -/
structure RewritesCall (rule : Rule) (call : Invocation) (fix : Fix) (new : WrittenCall) :
    Prop where
  rewrites : Rewrites rule (.ofInvocation call) new
  writes : Writes fix call new
  parts : ∀ p ∈ new.arguments, IsPart call.arguments p.1 p.2

section Call

variable {call : Invocation}

theorem rewritesCall_swapFix {expected actual : Argument}
    (h : swapped? call = some (expected, actual)) :
    RewritesCall .assertionArgsShouldBePassedInCorrectOrder call (swapFix expected actual)
      ⟨call.method, kept (actual :: expected :: call.arguments.drop 2)⟩ := by
  obtain ⟨hmethod, hlooks, further, hargs⟩ := swapped?_spec h
  obtain ⟨hwrites, hparts⟩ := swapFix_writes hargs
  have hdrop : call.arguments.drop 2 = further := by
    rw [hargs]
    rfl
  rw [hdrop]
  refine ⟨?_, .inl hwrites, hparts⟩
  rw [WrittenCall.ofInvocation, hargs]
  exact .swapped hmethod rfl rfl hlooks

theorem rewritesCall_withoutNegation? {r : Rewriting}
    (hunnamed : ∀ a ∈ call.arguments, a.name = none) (h : withoutNegation? call = some r) :
    RewritesCall .doNotNegateBooleanAssertion call (r.fix call) r.written := by
  obtain ⟨method, condition, operand, text, location, further, hmethod, hargs, hcondition, hpart,
    rfl⟩ := withoutNegation?_eq_some hunnamed h
  obtain ⟨hwrites, hparts⟩ := Rewriting.writes
    (r := ⟨method, [], condition, condition, further, [(operand, text)]⟩) [condition] hargs rfl rfl
    fun p hp => by
      rw [List.mem_singleton.1 hp]
      exact hpart
  refine ⟨?_, .inl hwrites, hparts⟩
  rw [WrittenCall.ofInvocation, hargs, List.map_cons, hcondition]
  exact .negation hmethod

theorem rewritesCall_byComparison? {r : Rewriting} (expected : Bool)
    (hmethod : call.method = if expected then "IsTrue" else "IsFalse")
    (h : byComparison? expected call.arguments = some r) :
    RewritesCall .useProperAssertMethods call (r.fix call) r.written := by
  obtain ⟨condition, further, c, hargs, hc, rfl⟩ := byComparison?_eq_some h
  have hpart : IsPart call.arguments condition.operand condition.text :=
    .argument (hargs ▸ List.mem_cons_self)
  obtain ⟨hwrites, hparts⟩ := Rewriting.writes
    (r := ⟨_, [], condition, condition, further, (c.asserted expected).2⟩) [condition] hargs rfl rfl
    (Comparison.asserted_isPart hpart hc expected)
  refine ⟨?_, .inl hwrites, hparts⟩
  rw [WrittenCall.ofInvocation, hargs]
  exact .comparison expected hmethod hc

theorem rewritesCall_byConstant? {r : Rewriting} (equal : Bool)
    (hmethod : call.method = if equal then "AreEqual" else "AreNotEqual")
    (h : byConstant? equal call.arguments = some r) :
    RewritesCall .useProperAssertMethods call (r.fix call) r.written := by
  obtain ⟨expected, actual, further, method, hargs, hunary, rfl⟩ := byConstant?_eq_some h
  obtain ⟨hwrites, hparts⟩ := Rewriting.writes
    (r := ⟨method, [], expected, actual, further, [(actual.operand, actual.text)]⟩)
    [expected, actual] hargs rfl rfl fun p hp => by
      rw [List.mem_singleton.1 hp]
      refine .argument ?_
      rw [hargs]
      exact List.mem_cons_of_mem _ List.mem_cons_self
  refine ⟨?_, .inl hwrites, hparts⟩
  rw [WrittenCall.ofInvocation, hargs]
  exact .constant equal hmethod hunary

theorem rewritesCall_proper? {r : Rewriting} (h : proper? call = some r) :
    RewritesCall .useProperAssertMethods call (r.fix call) r.written := by
  unfold proper? at h
  split at h
  case isTrue => cases h
  case isFalse =>
    split at h
    case h_1 hmethod => exact rewritesCall_byComparison? true hmethod h
    case h_2 hmethod => exact rewritesCall_byComparison? false hmethod h
    case h_3 hmethod => exact rewritesCall_byConstant? true hmethod h
    case h_4 hmethod => exact rewritesCall_byConstant? false hmethod h
    case h_5 => cases h

theorem rewritesCall_failFix (hunnamed : ∀ a ∈ call.arguments, a.name = none)
    (h : outcome? call = some false) :
    RewritesCall .preferAssertFailOverAlwaysFalseConditions call (failFix call)
      ⟨"Fail", kept (withoutSubject call.arguments)⟩ := by
  cases hargs : call.arguments with
  | nil =>
    rw [outcome?, hargs] at h
    cases h
  | cons subject further =>
    have hsubject : isSubject subject = true := by
      rw [isSubject, hunnamed subject (hargs ▸ List.mem_cons_self)]
      rfl
    rw [outcome?, hargs, List.find?_cons_of_pos hsubject] at h
    rw [withoutSubject, List.eraseP_cons_of_pos hsubject]
    refine ⟨?_, .inr ?_, fun p hp => ?_⟩
    · rw [WrittenCall.ofInvocation, hargs]
      exact .failing h
    · rw [failFix, hargs, withoutSubject, List.eraseP_cons_of_pos hsubject]
      simp [String.append_assoc, Function.comp_def]
    · exact isPart_of_mem_kept (hargs ▸ List.subset_cons_self subject further) hp

end Call

theorem rewritesCall_of_rewrite? {rule : Rule} {call : Invocation} {fix : Fix} {new : WrittenCall}
    (hunnamed : ∀ a ∈ call.arguments, a.name = none) (h : rewrite? rule call = some (fix, new)) :
    RewritesCall rule call fix new := by
  unfold rewrite? at h
  split at h
  case h_1 =>
    obtain ⟨⟨expected, actual⟩, hswapped, hnew⟩ := Option.map_eq_some_iff.1 h
    cases hnew
    exact rewritesCall_swapFix hswapped
  case h_2 =>
    obtain ⟨r, hr, hnew⟩ := Option.map_eq_some_iff.1 h
    cases hnew
    exact rewritesCall_withoutNegation? hunnamed hr
  case h_3 =>
    split at h
    case isFalse => cases h
    case isTrue houtcome =>
      cases h
      exact rewritesCall_failFix hunnamed houtcome
  case h_4 =>
    obtain ⟨r, hr, hnew⟩ := Option.map_eq_some_iff.1 h
    cases hnew
    exact rewritesCall_proper? hr
  case h_5 => cases h

/-! ## The rules do not disagree -/

/-- The only rule that can report a call that is written like this. -/
def WrittenCall.soleRule (c : WrittenCall) : Rule :=
  if judgedCount c.method = 2 then
    if c.arguments.head?.any (·.1.isConstant) then .useProperAssertMethods
    else .assertionArgsShouldBePassedInCorrectOrder
  else
    match c.arguments.head? with
    | some (.negation _ _ _, _) => .doNotNegateBooleanAssertion
    | some (.literal _, _) => .preferAssertFailOverAlwaysFalseConditions
    | _ => .useProperAssertMethods

theorem isConstant_of_unary? {equal : Bool} {constant : Operand} {method : String}
    (h : unary? equal constant = some method) : constant.isConstant = true := by
  unfold unary? at h
  split at h
  case h_1 hbool =>
    rw [Operand.bool?_eq_some_iff.1 hbool]
    rfl
  case h_2 hbool =>
    rw [Operand.bool?_eq_some_iff.1 hbool]
    rfl
  case h_3 =>
    split at h
    case isFalse => cases h
    case isTrue hnull =>
      rw [Operand.isNull_iff.1 hnull]
      rfl

theorem isConstant_of_looksSwapped {expected actual : Argument}
    (h : looksSwapped expected actual = true) : expected.operand.isConstant = false := by
  unfold looksSwapped at h
  split at h
  case isTrue => cases h
  case isFalse hconstant => exact eq_false_of_ne_true hconstant

theorem Rewrites.rule_eq {rule : Rule} {old new : WrittenCall} (h : Rewrites rule old new) :
    rule = old.soleRule := by
  cases h with
  | swapped hmethod hfirst hsecond h =>
    obtain ⟨hcount, -⟩ := equalityAsserts_spec hmethod
    have hconstant := isConstant_of_looksSwapped h
    simp [WrittenCall.soleRule, hcount, ← hfirst, hconstant]
  | negation h =>
    obtain ⟨hcount, -⟩ := opposite?_spec h
    simp [WrittenCall.soleRule, hcount]
  | @failing method subject further h =>
    obtain ⟨hcount, c, hliteral⟩ := exists_literal_of_passes? h
    obtain ⟨operand, text⟩ := subject
    cases hliteral
    simp [WrittenCall.soleRule, hcount]
  | @comparison method condition c further expected hmethod h =>
    have hcount : judgedCount method = 1 := hmethod ▸ judgedCount_truth expected
    obtain ⟨operand, text⟩ := condition
    cases operand <;> first | cases h | simp [WrittenCall.soleRule, hcount]
  | @constant method other first second further equal hmethod h =>
    have hcount : judgedCount method = 2 := hmethod ▸ judgedCount_equality equal
    have hconstant := isConstant_of_unary? h
    simp [WrittenCall.soleRule, hcount, hconstant]

theorem eq_of_ite_eq {b b' : Bool} {x y : String} (hne : x ≠ y)
    (h : (if b then x else y) = if b' then x else y) : b = b' := by
  cases b <;> cases b' <;> first | rfl | exact absurd h hne | exact absurd h hne.symm

theorem truth_ne_equality (expected equal : Bool) :
    (if expected then "IsTrue" else "IsFalse") ≠ if equal then "AreEqual" else "AreNotEqual" := by
  intro h
  have hcount := (judgedCount_truth expected).symm.trans (h ▸ judgedCount_equality equal)
  cases hcount

theorem Rewrites.unique {rule rule' : Rule} {old new new' : WrittenCall}
    (h : Rewrites rule old new) (h' : Rewrites rule' old new') : new = new' := by
  obtain rfl : rule = rule' := h.rule_eq.trans h'.rule_eq.symm
  cases h with
  | swapped =>
    cases h' with
    | swapped => rfl
  | negation h =>
    cases h' with
    | negation h' =>
      rw [h] at h'
      cases h'
      rfl
  | failing =>
    cases h' with
    | failing => rfl
  | comparison expected hmethod h =>
    cases h' with
    | comparison expected' hmethod' h' =>
      obtain rfl := eq_of_ite_eq (by decide) (hmethod.symm.trans hmethod')
      rw [h] at h'
      cases h'
      rfl
    | constant equal hmethod' =>
      exact absurd (hmethod.symm.trans hmethod') (truth_ne_equality expected equal)
  | constant equal hmethod h =>
    cases h' with
    | comparison expected hmethod' =>
      exact absurd (hmethod'.symm.trans hmethod) (truth_ne_equality expected equal)
    | constant equal' hmethod' h' =>
      obtain rfl := eq_of_ite_eq (by decide) (hmethod.symm.trans hmethod')
      rw [h] at h'
      cases h'
      rfl

/-! ## Rewriting ends -/

/-- The number of negations and comparisons in an operand, and of what they are about. -/
def weight : Operand → Nat
  | .negation operand _ _ => weight operand + 1
  | .binary _ left right _ _ => weight left + weight right + 1
  | .isPattern operand _ _ => weight operand + 1
  | _ => 1

theorem weight_pos (o : Operand) : 0 < weight o := by
  cases o <;> simp [weight]

def WrittenCall.weight (c : WrittenCall) : Nat :=
  (c.arguments.map fun p => Check.weight p.1).sum

def Comparison.weight : Comparison → Nat
  | .toNull _ operand => Check.weight operand.1
  | .toEach _ left right => Check.weight left.1 + Check.weight right.1

theorem Comparison.weight_asserted (c : Comparison) (expected : Bool) :
    ((c.asserted expected).2.map fun p => Check.weight p.1).sum = c.weight := by
  cases c with
  | toNull holds operand => rfl
  | toEach holds left right => simp [asserted, weight, Nat.add_comm]

theorem comparison?_weight_lt {o : Operand} {c : Comparison} (h : comparison? o = some c) :
    c.weight < weight o := by
  cases o with
  | binary operator left right leftText rightText =>
    simp only [comparison?] at h
    rw [weight]
    split at h
    case isFalse => cases h
    case isTrue =>
      split at h
      case isTrue =>
        cases h
        exact Nat.lt_succ_of_le (Nat.le_add_right _ _)
      case isFalse =>
        split at h
        case isTrue =>
          cases h
          exact Nat.lt_succ_of_le (Nat.le_add_left _ _)
        case isFalse =>
          cases h
          exact Nat.lt_succ_self _
  | isPattern operand text pattern =>
    simp only [comparison?] at h
    rw [weight]
    split at h
    case h_1 =>
      cases h
      exact Nat.lt_succ_self _
    case h_2 =>
      cases h
      exact Nat.lt_succ_self _
    case h_3 => cases h
  | _ => cases h

/-- Every rule takes something away from the operands, but the one that swaps two of them. -/
theorem Rewrites.weight_lt {rule : Rule} {old new : WrittenCall} (h : Rewrites rule old new)
    (hrule : rule ≠ .assertionArgsShouldBePassedInCorrectOrder) : new.weight < old.weight := by
  cases h with
  | swapped => contradiction
  | negation => simp [WrittenCall.weight, weight]
  | @failing method subject further =>
    have hsubject := weight_pos subject.1
    simp [WrittenCall.weight, hsubject]
  | comparison expected hmethod h =>
    have hcondition := comparison?_weight_lt h
    simp [WrittenCall.weight, Comparison.weight_asserted, hcondition]
  | @constant method other first second further =>
    have hfirst := weight_pos first.1
    simp [WrittenCall.weight, hfirst]

theorem Rewrites.weight_swapped {old new : WrittenCall}
    (h : Rewrites .assertionArgsShouldBePassedInCorrectOrder old new) :
    new.weight = old.weight := by
  cases h
  simp [WrittenCall.weight, Nat.add_left_comm]

/-- No name begins with both of the words that are looked for. -/
theorem isNamed_actual_of_expected {a : Argument} (h : isNamed "expected" a = true) :
    isNamed "actual" a = false := by
  unfold isNamed at h ⊢
  cases hname : a.operand.referencedName? with
  | none => rfl
  | some name =>
    rw [hname, Option.any_some] at h
    rw [Option.any_some]
    refine eq_false_of_ne_true fun h' => ?_
    have hprefix : "actual".toList <+: "expected".toList :=
      List.prefix_of_prefix_length_le (List.isPrefixOf_iff_prefix.1 h')
        (List.isPrefixOf_iff_prefix.1 h) (by decide)
    exact absurd hprefix (by decide)

theorem looksSwapped_congr {expected expected' actual actual' : Argument}
    (hexpected : expected.operand = expected'.operand)
    (hactual : actual.operand = actual'.operand) :
    looksSwapped expected actual = looksSwapped expected' actual' := by
  simp only [looksSwapped, isNamed, hexpected, hactual]

theorem looksSwapped_antisymm {expected actual : Argument}
    (h : looksSwapped expected actual = true) : looksSwapped actual expected = false := by
  have hexpected := isConstant_of_looksSwapped h
  cases hactual : actual.operand.isConstant with
  | true => rw [looksSwapped, if_pos hactual]
  | false =>
    simp only [looksSwapped, hexpected, hactual, Bool.false_eq_true, if_false, Bool.false_or,
      Bool.or_eq_true, Bool.and_eq_true, Bool.not_eq_true'] at h ⊢
    rcases h with ⟨hname, hother⟩ | ⟨hname, hother⟩
    · have hactual : isNamed "actual" actual = false := isNamed_actual_of_expected hname
      simp [hother, hactual]
    · have hexpected : isNamed "expected" expected = false := by
        refine eq_false_of_ne_true fun h => ?_
        rw [isNamed_actual_of_expected h] at hname
        cases hname
      simp [hother, hexpected]

theorem Rewrites.not_swapped_again {old new newer : WrittenCall}
    (h : Rewrites .assertionArgsShouldBePassedInCorrectOrder old new) :
    ¬Rewrites .assertionArgsShouldBePassedInCorrectOrder new newer := by
  intro h'
  cases h with
  | swapped hmethod hfirst hsecond h =>
    cases h' with
    | swapped hmethod' hsecond' hfirst' h' =>
      have hcongr := looksSwapped_congr (hsecond'.trans hsecond.symm) (hfirst'.trans hfirst.symm)
      rw [hcongr, looksSwapped_antisymm h] at h'
      cases h'

theorem exists_rewrites_of_step {old new : WrittenCall} (h : Step old new) :
    ∃ rule, Rewrites rule old new := by
  obtain ⟨rule, call, fix, hunnamed, rfl, hrewrite⟩ := h
  exact ⟨rule, (rewritesCall_of_rewrite? hunnamed hrewrite).rewrites⟩

theorem step_unique : Relator.RightUnique Step := by
  intro old new new' h h'
  obtain ⟨rule, h⟩ := exists_rewrites_of_step h
  obtain ⟨rule', h'⟩ := exists_rewrites_of_step h'
  exact h.unique h'

theorem acc_step (c : WrittenCall) : Acc (fun new old => Step old new) c := by
  -- by weight, and among calls of one weight those that are swapped come first
  induction hweight : c.weight using Nat.strongRecOn generalizing c with
  | ind w ih =>
    -- a call that is not swapped next gets lighter next
    have hlighter : ∀ d : WrittenCall, d.weight = w →
        (∀ new, ¬Rewrites .assertionArgsShouldBePassedInCorrectOrder d new) →
        Acc (fun new old => Step old new) d := by
      intro d hd hnot
      refine ⟨d, fun new hstep => ?_⟩
      obtain ⟨rule, h⟩ := exists_rewrites_of_step hstep
      have hrule : rule ≠ .assertionArgsShouldBePassedInCorrectOrder := by
        rintro rfl
        exact hnot new h
      exact ih new.weight (hd ▸ h.weight_lt hrule) new rfl
    refine ⟨c, fun new hstep => ?_⟩
    obtain ⟨rule, h⟩ := exists_rewrites_of_step hstep
    by_cases hrule : rule = .assertionArgsShouldBePassedInCorrectOrder
    · subst hrule
      exact hlighter new (h.weight_swapped.trans hweight) fun newer => h.not_swapped_again
    · exact ih new.weight (hweight ▸ h.weight_lt hrule) new rfl

theorem exists_settled (c : WrittenCall) :
    ∃ final, Relation.ReflTransGen Step c final ∧ Settled final := by
  induction acc_step c with
  | intro c _ ih =>
    by_cases hstep : ∃ new, Step c new
    · obtain ⟨new, hnew⟩ := hstep
      obtain ⟨final, hrun, hsettled⟩ := ih new hnew
      exact ⟨final, .head hnew hrun, hsettled⟩
    · exact ⟨c, .refl, (settled_iff c).2 (not_exists.1 hstep)⟩

theorem settled_unique {c final final' : WrittenCall} (h : Relation.ReflTransGen Step c final)
    (h' : Relation.ReflTransGen Step c final') (hfinal : Settled final) (hfinal' : Settled final') :
    final = final' := by
  have hstop : ∀ {c d}, Settled c → Relation.ReflTransGen Step c d → c = d := by
    intro c d hsettled hrun
    obtain rfl | ⟨new, hstep, -⟩ := hrun.cases_head
    · rfl
    · exact absurd hstep ((settled_iff c).1 hsettled new)
  rcases Relation.ReflTransGen.total_of_right_unique step_unique h h' with hrun | hrun
  · exact hstop hfinal hrun
  · exact (hstop hfinal' hrun).symm

/-- The checks that write assertions in another way report the calls on `Assert`
for which `rewrite?` has a fix, and offer that fix.  A call without named
arguments is reported by one of them at most, and the fix writes the new call.
Rewriting a call again and again ends, always with the same call, which none of
them reports. -/
theorem rewriting_ends :
    (∀ (ctx : CheckedFile), ∀ rule ∈ rewritingRules,
      (rule.check ctx).map (fun finding => (finding.location, finding.fix)) =
        (ctx.invocations.filter fun call => ctx.assertClass? call == some "Assert").filterMap
          fun call => (rewrite? rule call).map fun (fix, _) => (call.location, some fix)) ∧
    ∀ call : Invocation, (∀ a ∈ call.arguments, a.name = none) →
      (∀ rule fix new, rewrite? rule call = some (fix, new) →
        Writes fix call new ∧ (∀ p ∈ new.arguments, IsPart call.arguments p.1 p.2) ∧
          ∀ rule', (rewrite? rule' call).isSome → rule' = rule) ∧
      Acc (fun new old => Step old new) (.ofInvocation call) ∧
      ∃! final, Relation.ReflTransGen Step (.ofInvocation call) final ∧ Settled final := by
  refine ⟨fun ctx rule hrule => check_eq_rewrite? ctx hrule, fun call hunnamed => ?_⟩
  refine ⟨fun rule fix new h => ?_, acc_step _, ?_⟩
  · obtain ⟨hrewrites, hwrites, hparts⟩ := rewritesCall_of_rewrite? hunnamed h
    refine ⟨hwrites, hparts, fun rule' hsome => ?_⟩
    obtain ⟨⟨fix', new'⟩, h'⟩ := Option.isSome_iff_exists.1 hsome
    have hrewrites' := (rewritesCall_of_rewrite? hunnamed h').rewrites
    exact hrewrites'.rule_eq.trans hrewrites.rule_eq.symm
  · obtain ⟨final, hrun, hsettled⟩ := exists_settled (.ofInvocation call)
    exact ⟨final, ⟨hrun, hsettled⟩, fun other h => settled_unique h.1 hrun h.2 hsettled⟩

/-! ## A negated comparison -/

/-- The comparison `x == null`. -/
def nullComparison : Operand :=
  .binary "==" (.identifier "x") (.literal .null) "x" "null"

/-- The call `Assert.IsTrue(!(x == null))`. -/
def negatedComparison : Invocation :=
  ⟨some "Assert", "IsTrue", [],
    [⟨none, .negation nullComparison "(x == null)" default, "!(x == null)", default⟩],
    default, default, default, false⟩

theorem rewriting_ends_negatedComparison :
    (∀ a ∈ negatedComparison.arguments, a.name = none) ∧
      ∀ final, Relation.ReflTransGen Step (.ofInvocation negatedComparison) final →
        Settled final → final = ⟨"IsNotNull", [(.identifier "x", "x")]⟩ := by
  have hunnamed : ∀ a ∈ negatedComparison.arguments, a.name = none := by
    simp [negatedComparison]
  have hnegation : Step (.ofInvocation negatedComparison)
      ⟨"IsFalse", [(nullComparison, "(x == null)")]⟩ :=
    ⟨.doNotNegateBooleanAssertion, _, _, hunnamed, rfl, rfl⟩
  have hcomparison : Step ⟨"IsFalse", [(nullComparison, "(x == null)")]⟩
      ⟨"IsNotNull", [(.identifier "x", "x")]⟩ :=
    ⟨.useProperAssertMethods,
      ⟨none, "IsFalse", [], [⟨none, nullComparison, "(x == null)", default⟩], default, default,
        default, false⟩, _, by simp, rfl, rfl⟩
  have hsettled : Settled ⟨"IsNotNull", [(.identifier "x", "x")]⟩ := by
    refine (settled_iff _).2 fun new hstep => ?_
    obtain ⟨rule, h⟩ := exists_rewrites_of_step hstep
    cases h with
    | failing h => cases h
    | comparison expected hmethod => cases expected <;> simp at hmethod
  obtain ⟨-, -, last, -, hunique⟩ := rewriting_ends.2 negatedComparison hunnamed
  have hlast := hunique _ ⟨.head hnegation (.single hcomparison), hsettled⟩
  exact ⟨hunnamed, fun final hrun hfinal => (hunique final ⟨hrun, hfinal⟩).trans hlast.symm⟩

end TestLint.Check
