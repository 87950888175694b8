import TestLint.Proofs.Check.ConditionValue
import TestLint.Proofs.Declaration.Places

/-!
# Assertions with a fixed outcome have it

Two checks say of an assertion that it always passes or never does, and they
say so from the syntax of its condition alone.  They are right for all values
that the condition may have, unless what they take for a constant is a member
access behind a cast or a sign: they hold it for a member of an enumeration and
so for an object, while it may be null (`reported_alwaysJudged_iff`).
-/

namespace TestLint.Check

/-! ## What is said of conditions -/

/-- The operand is a member access that was taken for a member of an enumeration. -/
def isMemberConstant : Operand → Bool
  | .literal (.enumMember _ _) => true
  | _ => false

/-- An assertion with this method passes, or fails, for all values of its condition. -/
def AlwaysJudged (method : String) (passes : Bool) (source : List Char) (e : Tree) : Prop :=
  ∀ (α : Type) (E : Environment α) (V : Valuation α),
    judge? V method [E.eval source e] = some passes

instance {α : Type} : Inhabited (Valuation α) :=
  ⟨⟨fun _ => .null, fun _ _ => true, fun _ _ => rfl, fun _ _ => true, fun _ _ => rfl⟩⟩

/-- The environment in which nothing is known to be an object that need not be one. -/
def Environment.allNull : Environment Unit :=
  ⟨fun _ => .null, fun _ => (), fun _ => id⟩

variable {source : List Char} {e : Tree} {isNull passes : Bool}

/-- A constant that is no member tells whether the value of the expression is null. -/
theorem Fits.isNull_eq {c : Constant} (hc : Fits source e c)
    (h : nullness? (.literal c) = some isNull) (hmember : isMemberConstant (.literal c) = false)
    (α : Type) (E : Environment α) : (E.eval source e).isNull = isNull := by
  cases c with
  | null =>
    cases h
    rw [hc α E]
    rfl
  | bool b =>
    cases h
    rw [hc α E]
    rfl
  | enumMember typeName member => cases hmember
  | defaultValue => cases h
  | nonConstant text => cases h
  | _ =>
    cases h
    obtain ⟨a, ha⟩ := hc α E
    rw [ha]
    rfl

theorem exists_literal_of_nullness? {o : Operand} (h : nullness? o = some isNull) :
    ∃ c, o = .literal c := by
  cases o with
  | literal c => exact ⟨c, rfl⟩
  | _ => cases h

theorem exists_literal_of_passes? {method : String} {o : Operand}
    (h : passes? method o = some passes) : judgedCount method = 1 ∧ ∃ c, o = .literal c := by
  unfold passes? at h
  split at h
  case h_1 => exact ⟨rfl, _, Operand.bool?_eq_some_iff.1 h⟩
  case h_2 =>
    obtain ⟨b, hb, -⟩ := Option.map_eq_some_iff.1 h
    exact ⟨rfl, _, Operand.bool?_eq_some_iff.1 hb⟩
  case h_3 => exact ⟨rfl, exists_literal_of_nullness? h⟩
  case h_4 =>
    obtain ⟨isNull, hnull, -⟩ := Option.map_eq_some_iff.1 h
    exact ⟨rfl, exists_literal_of_nullness? hnull⟩
  case h_5 => cases h

/-- What is taken for null or for an object is so for all values, unless it is a
member access. -/
theorem nullness?_iff (h : nullness? (Operand.ofTree source e) = some isNull) :
    (∀ (α : Type) (E : Environment α), (E.eval source e).isNull = isNull) ↔
      isMemberConstant (Operand.ofTree source e) = false := by
  obtain ⟨c, hliteral⟩ := exists_literal_of_nullness? h
  have hc := fits_of_literal source e hliteral
  rw [hliteral] at h ⊢
  refine ⟨fun hall => ?_, hc.isNull_eq h⟩
  unfold isMemberConstant
  split
  case h_1 hmember =>
    -- where nothing need be an object, the member is null
    cases hmember
    cases h
    obtain ⟨m, -, -, hnull⟩ := hc
    have hfalse := hall Unit .allNull
    rw [hnull] at hfalse
    cases hfalse
  case h_2 => rfl

theorem alwaysJudged_isNull_iff :
    AlwaysJudged "IsNull" passes source e ↔
      ∀ (α : Type) (E : Environment α), (E.eval source e).isNull = passes :=
  ⟨fun h α E => Option.some.inj (h α E default), fun h α E _ => congrArg some (h α E)⟩

theorem alwaysJudged_isNotNull_iff :
    AlwaysJudged "IsNotNull" (!passes) source e ↔
      ∀ (α : Type) (E : Environment α), (E.eval source e).isNull = passes :=
  ⟨fun h α E => Bool.not_inj (Option.some.inj (h α E default)),
    fun h α E _ => congrArg (some !·) (h α E)⟩

/-- What is said of an assertion about a truth value holds for all values. -/
theorem alwaysJudged_of_bool? {b : Bool} (h : (Operand.ofTree source e).bool? = some b) :
    AlwaysJudged "IsTrue" b source e ∧ AlwaysJudged "IsFalse" (!b) source e ∧
      isMemberConstant (Operand.ofTree source e) = false := by
  have hliteral := Operand.bool?_eq_some_iff.1 h
  have hc := fits_of_literal source e hliteral
  refine ⟨fun α E V => ?_, fun α E V => ?_, ?_⟩
  · rw [hc α E]
    cases b <;> rfl
  · rw [hc α E]
    cases b <;> rfl
  · rw [hliteral]
    rfl

/-- What is said of an assertion holds for all values of its condition, unless
the condition is a member access that was taken for a constant. -/
theorem passes?_iff {method : String} (h : passes? method (Operand.ofTree source e) = some passes) :
    AlwaysJudged method passes source e ↔
      isMemberConstant (Operand.ofTree source e) = false := by
  unfold passes? at h
  split at h
  case h_1 =>
    obtain ⟨htrue, -, hmember⟩ := alwaysJudged_of_bool? h
    exact iff_of_true htrue hmember
  case h_2 =>
    obtain ⟨b, hb, rfl⟩ := Option.map_eq_some_iff.1 h
    obtain ⟨-, hfalse, hmember⟩ := alwaysJudged_of_bool? hb
    exact iff_of_true hfalse hmember
  case h_3 => exact alwaysJudged_isNull_iff.trans (nullness?_iff h)
  case h_4 =>
    obtain ⟨isNull, hnull, rfl⟩ := Option.map_eq_some_iff.1 h
    exact alwaysJudged_isNotNull_iff.trans (nullness?_iff hnull)
  case h_5 => cases h

/-! ## What is reported -/

/-- The name of the parameter that takes what an assertion judges. -/
def conditionParameter : String → String
  | "IsTrue" | "IsFalse" => "condition"
  | _ => "value"

/-- The call gives this argument for what the assertion judges: the argument is
named for the parameter, and those before it are named for other parameters, or
it comes first and has no name.  No assertion has parameters of both names. -/
def Judges (call : Invocation) (a : Argument) : Prop :=
  ∃ before after, call.arguments = before ++ a :: after ∧
    (a.name = some (conditionParameter call.method) ∨ before = [] ∧ a.name = none) ∧
    ∀ b ∈ before, ∃ name, b.name = some name ∧ name ≠ "condition" ∧ name ≠ "value"

theorem Judges.find?_isSubject {call : Invocation} {a : Argument} (h : Judges call a) :
    call.arguments.find? isSubject = some a := by
  obtain ⟨before, after, hargs, ha, hbefore⟩ := h
  have hnone : before.find? isSubject = none := by
    refine List.find?_eq_none.2 fun b hb => ?_
    obtain ⟨name, hname, hcondition, hvalue⟩ := hbefore b hb
    simp [isSubject, hname, hcondition, hvalue]
  have hsubject : isSubject a = true := by
    rcases ha with ha | ⟨-, ha⟩
    · unfold conditionParameter at ha
      split at ha <;> rw [isSubject, ha] <;> rfl
    · rw [isSubject, ha]
      rfl
  rw [hargs, List.find?_append, hnone, List.find?_cons_of_pos hsubject]
  rfl

/-- What a rule says of the assertions that it reports. -/
def saysPasses? : Rule → Option Bool
  | .preferAssertFailOverAlwaysFalseConditions => some false
  | .reviewAlwaysTrueAssertCondition => some true
  | _ => none

theorem exists_call_of_saysPasses? {ctx : CheckedFile} {rule : Rule}
    (hrule : saysPasses? rule = some passes) {finding : Finding}
    (hfinding : finding ∈ rule.check ctx) :
    ∃ call ∈ ctx.invocations, ctx.assertClass? call = some "Assert" ∧
      outcome? call = some passes ∧ finding.location = call.location ∧
      (passes = false → finding.fix = some (failFix call)) := by
  have hcalls : ∀ call ∈ callsWithOutcome ctx passes, call ∈ ctx.invocations ∧
      ctx.assertClass? call = some "Assert" ∧ outcome? call = some passes := by
    intro call hcall
    obtain ⟨hmem, hcall⟩ := List.mem_filter.1 hcall
    rw [Bool.and_eq_true, beq_iff_eq, beq_iff_eq] at hcall
    exact ⟨hmem, hcall⟩
  unfold saysPasses? at hrule
  split at hrule
  case h_1 =>
    cases hrule
    obtain ⟨call, hcall, rfl⟩ := List.mem_map.1 hfinding
    obtain ⟨hmem, hclass, houtcome⟩ := hcalls call hcall
    exact ⟨call, hmem, hclass, houtcome, rfl, fun _ => rfl⟩
  case h_2 =>
    cases hrule
    obtain ⟨call, hcall, rfl⟩ := List.mem_map.1 hfinding
    obtain ⟨hmem, hclass, houtcome⟩ := hcalls call hcall
    exact ⟨call, hmem, hclass, houtcome, rfl, fun h => by cases h⟩
  case h_3 => cases hrule

/-- The calls of a file were read off call expressions of its tree. -/
theorem exists_node_of_mem_invocations {parse : Parser} {id : FileId} {path : Path}
    {text : String} {ctx : CheckedFile} (hfile : ctx.file = .read parse id path text)
    {call : Invocation} (hcall : call ∈ ctx.invocations) :
    ∃ n, ctx.file.tree.Holds n ∧ n.kind = "invocation_expression" ∧
      ∃ read inside, Invocation.ofTree? ctx.file.source n = some read ∧
        call = { read with inAsyncVoidLocal := inside } := by
  obtain ⟨m, hm, hcall⟩ := List.mem_flatMap.1 hcall
  obtain ⟨d, hd, hm⟩ := List.mem_flatMap.1 hm
  rw [CheckedFile.types, hfile] at hd
  rw [hfile]
  obtain ⟨method, hmethod, hread⟩ := FileDeclarations.exists_method_node hd hm
  obtain ⟨n, hn, hcall⟩ := Method.exists_call_node hread hcall
  exact ⟨n, hmethod.trans hn, hcall⟩

/-- An assertion on `Assert` that a rule reports as one that always passes, or
never does, has this outcome for all values of its condition, unless the
condition is a member access that was taken for a constant; of those the report
is wrong for some values.  What is reported never to pass is written as a failure. -/
theorem reported_alwaysJudged_iff {parse : Parser} {id : FileId} {path : Path} {text : String}
    {ctx : CheckedFile} (hfile : ctx.file = .read parse id path text) {rule : Rule}
    (hrule : saysPasses? rule = some passes) {finding : Finding}
    (hfinding : finding ∈ rule.check ctx) :
    ∃ call ∈ ctx.invocations, ctx.assertClass? call = some "Assert" ∧
      finding.location = call.location ∧
      (passes = false → finding.fix = some (failFix call)) ∧
      ∃ n, ctx.file.tree.Holds n ∧ n.kind = "invocation_expression" ∧
        call.location = n.location ctx.file.source ∧
        ∀ a, Judges call a → ∃ e, n.Holds e ∧ a.text = e.text ctx.file.source ∧
          a.operand = .ofTree ctx.file.source e ∧
          (AlwaysJudged call.method passes ctx.file.source e ↔
            isMemberConstant a.operand = false) := by
  obtain ⟨call, hcall, hclass, houtcome, hlocation, hfix⟩ :=
    exists_call_of_saysPasses? hrule hfinding
  refine ⟨call, hcall, hclass, hlocation, hfix, ?_⟩
  obtain ⟨n, hn, hkind, read, inside, hread, rfl⟩ := exists_node_of_mem_invocations hfile hcall
  obtain ⟨-, -, -, -, -, -, -, -, hplace, -, -⟩ := Invocation.exists_nodes hread
  refine ⟨n, hn, hkind, hplace, fun a ha => ?_⟩
  have hsubject := ha.find?_isSubject
  obtain ⟨e, he, htext, hoperand⟩ :=
    Invocation.arguments_writtenIn hread a (List.mem_of_find?_eq_some hsubject)
  simp only [outcome?, Option.bind_eq_bind, hsubject, Option.bind_some] at houtcome
  rw [← hoperand] at houtcome ⊢
  exact ⟨e, he, htext.symm, rfl, passes?_iff houtcome⟩

/-! ## Casts -/

/-- A class with one method, which asserts that a member and a number are null,
both behind casts. -/
def castSource : String :=
  "class T\x7bvoid M()\x7bAssert.IsNull((object)p.Q);Assert.IsNull(value:(object)-(5));\x7d\x7d"

/-- The member behind its cast. -/
def memberCast : Tree :=
  .node ⟨"cast_expression", none, true, false, 31, 42⟩
    [.node ⟨"predefined_type", some "type", true, false, 32, 38⟩ [],
     .node ⟨"member_access_expression", some "value", true, false, 39, 42⟩
      [.node ⟨"identifier", some "expression", true, false, 39, 40⟩ [],
       .node ⟨"identifier", some "name", true, false, 41, 42⟩ []]]

/-- The tree of the class. -/
def castTree : Tree :=
  .node ⟨"compilation_unit", none, true, false, 0, 80⟩
    [.node ⟨"class_declaration", none, true, false, 0, 80⟩
      [.node ⟨"class", none, false, false, 0, 5⟩ [],
       .node ⟨"identifier", some "name", true, false, 6, 7⟩ [],
       .node ⟨"declaration_list", some "body", true, false, 7, 80⟩
        [.node ⟨"method_declaration", none, true, false, 8, 79⟩
          [.node ⟨"predefined_type", some "returns", true, false, 8, 12⟩ [],
           .node ⟨"identifier", some "name", true, false, 13, 14⟩ [],
           .node ⟨"parameter_list", some "parameters", true, false, 14, 16⟩ [],
           .node ⟨"block", some "body", true, false, 16, 79⟩
            [.node ⟨"expression_statement", none, true, false, 17, 44⟩
              [.node ⟨"invocation_expression", none, true, false, 17, 43⟩
                [.node ⟨"member_access_expression", some "function", true, false, 17, 30⟩
                  [.node ⟨"identifier", some "expression", true, false, 17, 23⟩ [],
                   .node ⟨"identifier", some "name", true, false, 24, 30⟩ []],
                 .node ⟨"argument_list", some "arguments", true, false, 30, 43⟩
                  [.node ⟨"argument", none, true, false, 31, 42⟩ [memberCast]]]],
             .node ⟨"expression_statement", none, true, false, 44, 78⟩
              [.node ⟨"invocation_expression", none, true, false, 44, 77⟩
                [.node ⟨"member_access_expression", some "function", true, false, 44, 57⟩
                  [.node ⟨"identifier", some "expression", true, false, 44, 50⟩ [],
                   .node ⟨"identifier", some "name", true, false, 51, 57⟩ []],
                 .node ⟨"argument_list", some "arguments", true, false, 57, 77⟩
                  [.node ⟨"argument", none, true, false, 58, 76⟩
                    [.node ⟨"identifier", some "name", true, false, 58, 63⟩ [],
                     .node ⟨"cast_expression", none, true, false, 64, 76⟩
                      [.node ⟨"predefined_type", some "type", true, false, 65, 71⟩ [],
                       .node ⟨"prefix_unary_expression", some "value", true, false, 72, 76⟩
                        [.node ⟨"parenthesized_expression", none, true, false, 73, 76⟩
                          [.node ⟨"integer_literal", none, true, false, 74, 75⟩ []]]]]]]]]]]]]

/-- The class as the one file of a compilation that refers to the framework. -/
def castContext : CheckedFile :=
  let parse : Parser := fun _ => castTree
  let path : Path := ⟨"T.cs"⟩
  ⟨.ofSources parse [(path, castSource)] .empty, ⟨true⟩, .read parse 0 path castSource⟩

/-- What is found at a call between two columns of the class. -/
def castFinding (start stop : Nat) : Finding :=
  Finding.new ⟨1, start, some 1, some stop, none⟩
      "Use 'Assert.Fail' instead of an always-failing 'Assert.IsNull' assert"
    |>.withFix ⟨"Use 'Assert.Fail'", [⟨1, start, 1, stop, "Assert.Fail()"⟩]⟩

theorem reported_alwaysJudged_iff_number :
    castFinding 45 78 ∈ Rule.preferAssertFailOverAlwaysFalseConditions.check castContext ∧
      ∃ e, e.text castContext.file.source = "(object)-(5)" ∧
        AlwaysJudged "IsNull" false castContext.file.source e := by
  have hfinding :
      castFinding 45 78 ∈ Rule.preferAssertFailOverAlwaysFalseConditions.check castContext := by
    decide +kernel
  have hcalls : ∀ call ∈ castContext.invocations,
      call.location = (castFinding 45 78).location → call.method = "IsNull" ∧
        call.arguments.map (fun a => (a.name, a.text, isMemberConstant a.operand)) =
          [(some "value", "(object)-(5)", false)] := by
    decide +kernel
  have hfile : castContext.file = .read (fun _ => castTree) 0 ⟨"T.cs"⟩ castSource := rfl
  refine ⟨hfinding, ?_⟩
  obtain ⟨call, hcall, -, hlocation, -, n, -, -, -, hjudged⟩ :=
    reported_alwaysJudged_iff hfile rfl hfinding
  obtain ⟨hmethod, harguments⟩ := hcalls call hcall hlocation.symm
  obtain ⟨a, hargs, ha⟩ := List.map_eq_singleton_iff.1 harguments
  simp only [Prod.mk.injEq] at ha
  have hjudges : Judges call a := by
    refine ⟨[], [], hargs, .inl ?_, fun b hb => by cases hb⟩
    rw [ha.1, hmethod]
    rfl
  obtain ⟨e, -, htext, -, hiff⟩ := hjudged a hjudges
  rw [hmethod] at hiff
  exact ⟨e, htext.symm.trans ha.2.1, hiff.2 ha.2.2⟩

/-- A member behind a cast is reported never to be null, and may be null. -/
theorem memberCast_may_be_null :
    castFinding 18 44 ∈ Rule.preferAssertFailOverAlwaysFalseConditions.check castContext ∧
      memberCast.text castContext.file.source = "(object)p.Q" ∧
      judge? default "IsNull" [Environment.allNull.eval castContext.file.source memberCast] =
        some true := by
  decide +kernel

end TestLint.Check
