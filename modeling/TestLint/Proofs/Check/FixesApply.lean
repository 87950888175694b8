import TestLint.Proofs.Check.AssertMeaning
import TestLint.Proofs.Declaration.Places

/-!
# Every proposed fix applies

A fix that a check proposes can be made in the file under check: its edits mark
forward ranges of the source, and no two of them collide.  Checks write their
edits at the places of what they have read, so this follows from where the
parts of methods and calls stand (`Method.Placed`, `Invocation.Placed`); two
fixes count columns inside a place, which is right on one line.

The first part takes the fixes one by one, the second goes through the checks
and says which fixes each of them proposes (`Check.AllFixes`).
-/

namespace TestLint

open Text

variable {source : List Char}

namespace Check

/-! ## The fixes of methods -/

section fixes

variable (hsize : byteSize source < Position.wordSize)

include hsize in
theorem publicFix_applies {m : Modifiers} (hm : m.Placed source) {fallback : Location}
    (hfallback : ∃ r, fallback.Covers source r) : (publicFix m fallback).Applies source := by
  unfold publicFix
  have hsub : m.accessibilityTokens.Sublist m.tokens := List.filter_sublist
  cases htokens : m.accessibilityTokens with
  | nil =>
    obtain ⟨r, hr⟩ : ∃ r, ((m.tokens.head?.map (·.location)).getD fallback).Covers source r := by
      cases hhead : m.tokens.head? with
      | none => exact hfallback
      | some token => exact hm.covers token (List.mem_of_mem_head? hhead)
    exact Fix.applies_single (TextEdit.resolves_insert hsize hr _)
  | cons first rest =>
    rw [htokens] at hsub
    obtain ⟨r, hr⟩ := hm.covers first (hsub.subset List.mem_cons_self)
    cases hlast : rest.getLast? with
    | none =>
      simp only [hlast, Option.getD_none]
      exact Fix.applies_single (TextEdit.resolves_replace hsize hr _)
    | some last =>
      simp only [hlast, Option.getD_some]
      obtain ⟨hfirst, -⟩ := List.pairwise_cons.1 (hm.ordered.sublist hsub)
      obtain ⟨r, s, hr, hs, hle⟩ := hfirst last (List.mem_of_getLast? hlast)
      have hforward : r.start ≤ s.stop := Nat.le_trans hr.fits.1 (Nat.le_trans hle hs.fits.1)
      exact Fix.applies_single (TextEdit.resolves_replaceSpan hsize hr hs hforward _)

include hsize in
theorem taskFix_applies {returnType : Location} (h : ∃ r, returnType.Covers source r) :
    (taskFix returnType).Applies source := by
  obtain ⟨r, hr⟩ := h
  exact Fix.applies_single (TextEdit.resolves_replace hsize hr _)

/-! ## The fixes of calls -/

variable {call : Invocation} {name list : ByteRange} (hcall : call.Placed source name list)

include hsize hcall in
/-- A rewriting replaces arguments of the call, apart from the name of its method. -/
theorem rewriting_applies {r : Rewriting}
    (hspan : (r.first ∈ call.arguments ∧ r.last = r.first) ∨
      [r.first, r.last].Sublist call.arguments) : (r.fix call).Applies source := by
  have hmem : r.first ∈ call.arguments ∧ r.last ∈ call.arguments := by
    rcases hspan with ⟨hmem, hlast⟩ | hsub
    · exact ⟨hmem, hlast ▸ hmem⟩
    · exact ⟨hsub.subset (by simp), hsub.subset (by simp)⟩
  obtain ⟨f, hf, hinside⟩ := hcall.inside r.first hmem.1
  obtain ⟨l, hl, hinside'⟩ := hcall.inside r.last hmem.2
  have hforward : f.start ≤ l.stop := by
    rcases hspan with ⟨-, hlast⟩ | hsub
    · rw [hlast] at hl
      rw [hl.unique hf]
      exact hf.fits.1
    · obtain ⟨f', l', hf', hl', hle⟩ := hcall.ordered.forall_sublist hsub
      rw [hf'.unique hf, hl'.unique hl] at hle
      exact Nat.le_trans hf.fits.1 (Nat.le_trans hle hl.fits.1)
  refine Fix.applies_pair (TextEdit.resolves_replace hsize hcall.nameAt _)
    (TextEdit.resolves_replaceSpan hsize hf hl hforward _) ?_
  have hapart := hcall.apart
  dsimp only
  omega

include hsize hcall in
theorem swapFix_applies {expected actual : Argument}
    (h : [expected, actual].Sublist call.arguments) : (swapFix expected actual).Applies source := by
  obtain ⟨r, s, hr, hs, hle⟩ := hcall.ordered.forall_sublist h
  exact Fix.applies_pair (TextEdit.resolves_replace hsize hr _)
    (TextEdit.resolves_replace hsize hs _) (.inl hle)

include hsize hcall in
theorem failFix_applies : (failFix call).Applies source := by
  obtain ⟨r, hr⟩ := hcall.whole
  exact Fix.applies_single (TextEdit.resolves_replace hsize hr _)

include hsize hcall in
/-- One column before the end of the arguments is the closing parenthesis. -/
theorem tokenFix?_applies {context : String} {fix : Fix} (h : tokenFix? call context = some fix) :
    fix.Applies source := by
  obtain ⟨before, after, hsource, hstop⟩ := hcall.closed
  have hposition : Position.ofOffset list.stop source =
      ⟨(Position.ofOffset (byteSize before) source).line,
        (Position.ofOffset (byteSize before) source).column + 1⟩ := by
    rw [← hstop, ← hsource]
    exact Position.ofOffset_append after (by decide)
  simp only [tokenFix?, hcall.listAt.eq, Location.ofOffsets, Location.between, hposition,
    Option.bind_eq_bind, Option.bind_some, Nat.add_sub_cancel] at h
  rw [if_neg (Nat.succ_ne_zero _)] at h
  cases h
  have hboundary : isBoundary (byteSize before) source = true :=
    isBoundary_iff.2 ⟨before, [')'] ++ after, by rw [← hsource, List.append_assoc], rfl⟩
  have hcovers : (Location.ofOffsets (byteSize before) (byteSize before) source).Covers source
      ⟨byteSize before, byteSize before⟩ := ⟨rfl, Nat.le_refl _, hboundary, hboundary⟩
  exact Fix.applies_single (TextEdit.resolves_insert hsize hcovers _)

/-! ## The fix of attribute names -/

/-- What a name ends in, and what is replaced of it, are parts of the name. -/
theorem dataTest_parts {name kept : List Char}
    (h : Text.dropEnd? "DataTestMethod".toList
      ((Text.dropEnd? "Attribute".toList name).getD name) = some kept) :
    ∃ ending, (ending = [] ∨ ending = "Attribute".toList) ∧
      kept ++ "DataTest".toList ++ ("Method".toList ++ ending) = name := by
  have hstem := Text.dropEnd?_eq_some h
  cases hending : Text.dropEnd? "Attribute".toList name with
  | none =>
    rw [hending, Option.getD_none] at hstem
    refine ⟨[], .inl rfl, ?_⟩
    rw [List.append_nil, List.append_assoc]
    exact hstem
  | some stem =>
    rw [hending, Option.getD_some] at hstem
    refine ⟨"Attribute".toList, .inr rfl, ?_⟩
    rw [← Text.dropEnd?_eq_some hending, ← hstem]
    simp only [List.append_assoc]
    rfl

/-- A part of a name on one line is found by counting columns. -/
theorem dataTestSpan?_covers {a : Attribute} (ha : a.NamePlaced source) {span : Location}
    (h : dataTestSpan? a.name a.nameLocation = some span) :
    ∃ before kept ending after, (ending = [] ∨ ending = "Attribute".toList) ∧
      before ++ kept ++ "DataTest".toList ++ ("Method".toList ++ ending ++ after) = source ∧
      kept ++ "DataTest".toList ++ ("Method".toList ++ ending) = a.name.toList ∧
      a.nameLocation = .ofOffsets (byteSize before) (byteSize (before ++ a.name.toList)) source ∧
      span.Covers source
        ⟨byteSize (before ++ kept), byteSize (before ++ kept ++ "DataTest".toList)⟩ := by
  obtain ⟨before, name, after, hsource, hname, hlocation⟩ := ha
  rw [hname, hlocation] at h ⊢
  simp only [dataTestSpan?, String.toList_ofList] at h ⊢
  split at h
  case isTrue => cases h
  case isFalse hline =>
    obtain ⟨kept, hkept, hspan⟩ := Option.bind_eq_some_iff.1 h
    cases hspan
    obtain ⟨ending, hending, hname⟩ := dataTest_parts hkept
    have honeLine : '\n' ∉ name := by
      subst hsource
      apply Position.not_mem_of_line_eq (a := before) (c := after)
      simpa [Location.ofOffsets, Location.between] using hline
    -- the position after any beginning of the name
    have hposition : ∀ part rest, part ++ rest = name →
        Position.ofOffset (byteSize (before ++ part)) source =
          ⟨(Position.ofOffset (byteSize before) source).line,
            (Position.ofOffset (byteSize before) source).column + byteSize part⟩ := by
      rintro part rest rfl
      have hparts : before ++ part ++ (rest ++ after) = source := by
        rw [← hsource]
        simp only [List.append_assoc]
      rw [← hparts]
      exact Position.ofOffset_append _ fun hmem => honeLine (List.mem_append_left rest hmem)
    have hstart := hposition kept ("DataTest".toList ++ ("Method".toList ++ ending))
      (by rw [← hname, List.append_assoc])
    have hstop := hposition (kept ++ "DataTest".toList) ("Method".toList ++ ending) hname
    have hparts : before ++ kept ++ "DataTest".toList ++ ("Method".toList ++ ending ++ after) =
        source := by
      rw [← hsource, ← hname]
      simp only [List.append_assoc]
    have hlength : byteSize "DataTest".toList = "DataTest".length := by decide
    refine ⟨before, kept, ending, after, hending, hparts, hname, rfl, ?_⟩
    have hcovers := Location.covers_between (before ++ kept) "DataTest".toList
      ("Method".toList ++ ending ++ after)
    rw [hparts] at hcovers
    refine ⟨?_, hcovers.fits⟩
    simp only [Location.ofOffsets, Location.between, hstart, List.append_assoc before, hstop,
      byteSize_append kept, hlength, Nat.add_assoc]

end fixes

/-! ## Findings and their fixes -/

/-- Every fix that one of the findings carries has the property. -/
def AllFixes (P : Fix → Prop) (findings : List Finding) : Prop :=
  ∀ finding ∈ findings, ∀ fix ∈ finding.fix, P fix

namespace AllFixes

variable {α : Type} {P : Fix → Prop} {xs : List α}

theorem of_eq_none {finding : Finding} (h : finding.fix = none) : ∀ fix ∈ finding.fix, P fix := by
  intro fix hfix
  rw [h] at hfix
  cases hfix

theorem of_eq_some {finding : Finding} {fix : Fix} (h : finding.fix = some fix) (hfix : P fix) :
    ∀ fix ∈ finding.fix, P fix := by
  intro fix' hfix'
  rw [h] at hfix'
  cases hfix'
  exact hfix

theorem nil : AllFixes P [] := by
  intro finding h
  cases h

theorem singleton {finding : Finding} (h : ∀ fix ∈ finding.fix, P fix) : AllFixes P [finding] := by
  intro f hf
  rw [List.mem_singleton.1 hf]
  exact h

theorem unfixed {finding : Finding} (h : finding.fix = none) : AllFixes P [finding] :=
  singleton (of_eq_none h)

theorem fixed {finding : Finding} {fix : Fix} (h : finding.fix = some fix) (hfix : P fix) :
    AllFixes P [finding] :=
  singleton (of_eq_some h hfix)

theorem append {a b : List Finding} (ha : AllFixes P a) (hb : AllFixes P b) :
    AllFixes P (a ++ b) := by
  intro finding h
  rcases List.mem_append.1 h with h | h
  · exact ha finding h
  · exact hb finding h

theorem map {f : α → Finding} (h : ∀ x ∈ xs, ∀ fix ∈ (f x).fix, P fix) :
    AllFixes P (xs.map f) := by
  intro finding hfinding
  obtain ⟨x, hx, rfl⟩ := List.mem_map.1 hfinding
  exact h x hx

theorem filterMap {f : α → Option Finding}
    (h : ∀ x ∈ xs, ∀ finding, f x = some finding → ∀ fix ∈ finding.fix, P fix) :
    AllFixes P (xs.filterMap f) := by
  intro finding hfinding
  obtain ⟨x, hx, hfound⟩ := List.mem_filterMap.1 hfinding
  exact h x hx finding hfound

theorem flatMap {f : α → List Finding} (h : ∀ x ∈ xs, AllFixes P (f x)) :
    AllFixes P (xs.flatMap f) := by
  intro finding hfinding
  obtain ⟨x, hx, hfound⟩ := List.mem_flatMap.1 hfinding
  exact h x hx finding hfound

/-- A finding that is made under a condition, or others. -/
theorem ite {c : Prop} [Decidable c] {a b : List Finding} (ha : AllFixes P a)
    (hb : AllFixes P b) : AllFixes P (if c then a else b) := by
  split
  · exact ha
  · exact hb

/-- Findings with a message alone carry no fix. -/
theorem map_new {messages : List String} (location : Location) :
    AllFixes P (messages.map (Finding.new location)) :=
  map fun _ _ => of_eq_none rfl

end AllFixes

/-! ## Checks that propose nothing

Their fixes have any property, as there are none.
-/

section unfixed

variable {ctx : CheckedFile} {P : Fix → Prop}

open AllFixes (of_eq_none)

theorem testClassShouldBeValid_allFixes : AllFixes P (testClassShouldBeValid ctx) := by
  refine .filterMap fun t _ finding h => ?_
  split at h
  · cases h
  · split at h
    · cases h
    · cases h
      exact of_eq_none rfl

theorem testClassShouldHaveTestMethod_allFixes :
    AllFixes P (testClassShouldHaveTestMethod ctx) := by
  refine .filterMap fun t _ finding h => ?_
  split at h
  · cases h
  · cases h
    exact of_eq_none rfl

theorem typeContainingTestMethodShouldBeATestClass_allFixes :
    AllFixes P (typeContainingTestMethodShouldBeATestClass ctx) := by
  refine .filterMap fun t _ finding h => ?_
  split at h
  · cases h
    exact of_eq_none rfl
  · cases h

theorem testContextShouldBeValid_allFixes : AllFixes P (testContextShouldBeValid ctx) := by
  refine .flatMap fun t _ => .filterMap fun p _ finding h => ?_
  split at h
  · split at h
    · cases h
    · cases h
      exact of_eq_none rfl
  · cases h

theorem avoidExpectedExceptionAttribute_allFixes :
    AllFixes P (avoidExpectedExceptionAttribute ctx) := by
  refine .filterMap fun m _ finding h => ?_
  obtain ⟨a, -, rfl⟩ := Option.map_eq_some_iff.1 h
  exact of_eq_none rfl

theorem useAttributeOnTestMethod_allFixes : AllFixes P (useAttributeOnTestMethod ctx) := by
  refine .flatMap fun m _ => .filterMap fun a _ finding h => ?_
  obtain ⟨bound, -, h⟩ := Option.bind_eq_some_iff.1 h
  split at h
  · cases h
    exact of_eq_none rfl
  · cases h

theorem testMethodShouldNotBeIgnored_allFixes :
    AllFixes P (testMethodShouldNotBeIgnored ctx) := by
  refine .filterMap fun m _ finding h => ?_
  obtain ⟨a, -, rfl⟩ := Option.map_eq_some_iff.1 h
  exact of_eq_none rfl

theorem publicMethodShouldBeTestMethod_allFixes :
    AllFixes P (publicMethodShouldBeTestMethod ctx) := by
  refine .flatMap fun t _ => .filterMap fun m _ finding h => ?_
  split at h
  · cases h
  · cases h
    exact of_eq_none rfl

theorem generalFinding?_fix {m : Method} {a : Attribute} {finding : Finding}
    (h : generalFinding? ctx m a = some finding) : finding.fix = none := by
  unfold generalFinding? at h
  dsimp only at h
  split at h
  · cases h
    rfl
  · split at h
    · cases h
    · cases h
      rfl

theorem rowFinding?_fix {m : Method} {a : Attribute} {finding : Finding}
    (h : rowFinding? ctx m a = some finding) : finding.fix = none := by
  unfold rowFinding? at h
  split at h
  · split at h
    · cases h
    · cases h
      rfl
  · exact generalFinding?_fix h

theorem dataRowShouldBeValid_allFixes : AllFixes P (dataRowShouldBeValid ctx) :=
  .flatMap fun _ _ => .filterMap fun _ _ _ h => of_eq_none (rowFinding?_fix h)

theorem dynamicDataShouldBeValid_allFixes : AllFixes P (dynamicDataShouldBeValid ctx) :=
  .flatMap fun _ _ => .flatMap fun _ _ => .flatMap fun _ _ => .map_new _

theorem duplicateDataRow_allFixes : AllFixes P (duplicateDataRow ctx) :=
  .flatMap fun _ _ => .map fun _ _ => of_eq_none rfl

theorem assertionArgsShouldAvoidConditionalAccess_allFixes :
    AllFixes P (assertionArgsShouldAvoidConditionalAccess ctx) := by
  refine .flatMap fun call _ => ?_
  split
  · exact .nil
  · exact .ite .nil (.map fun _ _ => of_eq_none rfl)

theorem avoidUsingAssertsInAsyncVoidContext_allFixes :
    AllFixes P (avoidUsingAssertsInAsyncVoidContext ctx) :=
  .flatMap fun _ _ => .map fun _ _ => of_eq_none rfl

theorem reviewAlwaysTrueAssertCondition_allFixes :
    AllFixes P (reviewAlwaysTrueAssertCondition ctx) :=
  .map fun _ _ => of_eq_none rfl

end unfixed

/-! ## Checks that propose fixes -/

section fixed

variable {ctx : CheckedFile} {P : Fix → Prop}

open AllFixes (of_eq_none of_eq_some)

/-- A fixture proposes to make its method public and to have it return a task. -/
theorem fixtureShouldBeValid_allFixes (fixture : Fixture)
    (hpublic : ∀ m ∈ ctx.methods, P (publicFix m.modifiers m.returnTypeLocation))
    (htask : ∀ m ∈ ctx.methods, P (taskFix m.returnTypeLocation)) :
    AllFixes P (fixtureShouldBeValid fixture ctx) := by
  refine .flatMap fun t ht => .flatMap fun m hm => ?_
  have hm : m ∈ ctx.methods := List.mem_flatMap.2 ⟨t, ht, (List.mem_filter.1 hm).1⟩
  refine .append (.append (.append (.append (.append (.append (.append ?_ ?_) ?_) ?_) ?_) ?_) ?_) ?_
  · exact .ite (.fixed rfl (hpublic m hm)) .nil
  · exact .ite (.unfixed rfl) .nil
  · exact .ite (.unfixed rfl) .nil
  · exact .ite (.unfixed rfl) .nil
  · exact .ite (.unfixed rfl) .nil
  · cases parameterProblem? fixture m with
    | none => exact .nil
    | some problem => exact .unfixed rfl
  · exact .ite (.fixed rfl (htask m hm)) (.ite (.unfixed rfl) .nil)
  · exact .ite .nil (.ite (.unfixed rfl) (.ite (.unfixed rfl) .nil))

theorem testMethodShouldBeValid_allFixes
    (hpublic : ∀ m ∈ ctx.methods, P (publicFix m.modifiers m.returnTypeLocation))
    (htask : ∀ m ∈ ctx.methods, P (taskFix m.returnTypeLocation)) :
    AllFixes P (testMethodShouldBeValid ctx) := by
  refine .flatMap fun m hm => ?_
  have hm : m ∈ ctx.methods := (List.mem_filter.1 hm).1
  refine .append (.append (.append (.append (.append ?_ ?_) ?_) ?_) ?_) ?_
  · exact .ite (.fixed rfl (hpublic m hm)) .nil
  · exact .ite (.unfixed rfl) .nil
  · exact .ite (.unfixed rfl) .nil
  · exact .ite (.unfixed rfl) .nil
  · exact .ite (.fixed rfl (htask m hm)) (.ite (.unfixed rfl) .nil)
  · exact .ite (.unfixed rfl) .nil

theorem preferTestMethodOverDataTestMethod_allFixes
    (hspan : ∀ m ∈ ctx.methods, ∀ a ∈ m.attributes, ∀ span,
      dataTestSpan? a.name a.nameLocation = some span → ∀ description,
        P ⟨description, [.replace span "Test"]⟩) :
    AllFixes P (preferTestMethodOverDataTestMethod ctx) := by
  refine .flatMap fun m hm => .map fun a ha => ?_
  have ha : a ∈ m.attributes := (List.mem_filter.1 ha).1
  dsimp only
  split
  case h_1 span h => exact of_eq_some rfl (hspan m hm a ha span h _)
  case h_2 => exact of_eq_none rfl

theorem flowTestContextCancellationToken_allFixes
    (htoken : ∀ call ∈ ctx.invocations, ∀ context fix, tokenFix? call context = some fix → P fix) :
    AllFixes P (flowTestContextCancellationToken ctx) := by
  refine .flatMap fun t ht => .flatMap fun m hm => ?_
  have hm : m ∈ ctx.methods := List.mem_flatMap.2 ⟨t, ht, (List.mem_filter.1 hm).1⟩
  split
  case h_1 => exact .nil
  case h_2 context _ =>
    refine .map fun call hcall => ?_
    have hcall : call ∈ ctx.invocations :=
      List.mem_flatMap.2 ⟨m, hm, (List.mem_filter.1 hcall).1⟩
    dsimp only
    split
    case h_1 fix h => exact of_eq_some rfl (htoken call hcall context fix h)
    case h_2 => exact of_eq_none rfl

theorem preferAssertFailOverAlwaysFalseConditions_allFixes
    (hfail : ∀ call ∈ ctx.invocations, P (failFix call)) :
    AllFixes P (preferAssertFailOverAlwaysFalseConditions ctx) :=
  .map fun call hcall => of_eq_some rfl (hfail call (List.mem_filter.1 hcall).1)

/-- The checks that write an assertion in another way propose what they read of a call. -/
theorem rewriting_allFixes {α : Type} {read? : Invocation → Option α}
    {report : Invocation → α → Finding} {fix : Invocation → α → Fix}
    (hreport : ∀ call r, (report call r).fix = some (fix call r))
    (hread : ∀ call ∈ ctx.invocations, ∀ r, read? call = some r → P (fix call r)) :
    AllFixes P ((ctx.invocations.filter fun call =>
      ctx.assertClass? call == some "Assert").filterMap fun call =>
        (read? call).map (report call)) := by
  intro finding hfinding
  obtain ⟨call, hcall, -, r, hr, rfl⟩ := exists_call_of_mem hfinding
  exact of_eq_some (hreport call r) (hread call hcall r hr)

end fixed

/-! ## What rewritings replace -/

theorem splitAtCondition?_spec {arguments before after : List Argument} {a : Argument}
    (h : splitAtCondition? arguments = some (before, a, after)) : a ∈ arguments := by
  induction arguments generalizing before with
  | nil => cases h
  | cons first rest ih =>
    rw [splitAtCondition?] at h
    split at h
    · cases h
      exact List.mem_cons_self
    · obtain ⟨⟨before', a', after'⟩, hrest, heq⟩ := Option.map_eq_some_iff.1 h
      cases heq
      exact List.mem_cons_of_mem first (ih hrest)

theorem withoutNegation?_span {call : Invocation} {r : Rewriting}
    (h : withoutNegation? call = some r) : r.first ∈ call.arguments ∧ r.last = r.first := by
  simp only [withoutNegation?, Option.bind_eq_bind, Option.bind_eq_some_iff] at h
  obtain ⟨method, -, ⟨before, condition, after⟩, hsplit, h⟩ := h
  dsimp only at h
  split at h
  · cases h
    exact ⟨splitAtCondition?_spec hsplit, rfl⟩
  · cases h

theorem byComparison?_span {expected : Bool} {arguments : List Argument} {r : Rewriting}
    (h : byComparison? expected arguments = some r) :
    r.first ∈ arguments ∧ r.last = r.first := by
  obtain ⟨condition, after, c, rfl, -, rfl⟩ := byComparison?_eq_some h
  exact ⟨List.mem_cons_self, rfl⟩

theorem byConstant?_span {equal : Bool} {arguments : List Argument} {r : Rewriting}
    (h : byConstant? equal arguments = some r) : [r.first, r.last].Sublist arguments := by
  obtain ⟨expected, actual, after, method, rfl, -, rfl⟩ := byConstant?_eq_some h
  exact List.sublist_append_left [expected, actual] after

theorem proper?_span {call : Invocation} {r : Rewriting} (h : proper? call = some r) :
    (r.first ∈ call.arguments ∧ r.last = r.first) ∨
      [r.first, r.last].Sublist call.arguments := by
  unfold proper? at h
  split at h
  · cases h
  · split at h
    · exact .inl (byComparison?_span h)
    · exact .inl (byComparison?_span h)
    · exact .inr (byConstant?_span h)
    · exact .inr (byConstant?_span h)
    · cases h

theorem swapped?_span {call : Invocation} {expected actual : Argument}
    (h : swapped? call = some (expected, actual)) :
    [expected, actual].Sublist call.arguments := by
  obtain ⟨-, -, after, hargs⟩ := swapped?_spec h
  rw [hargs]
  exact List.sublist_append_left [expected, actual] after

/-! ## All checks -/

/-- All fixes that a check proposes for a file apply to it, if the methods of
the file are placed in its source. -/
theorem allFixes_apply {ctx : CheckedFile}
    (hsize : byteSize ctx.file.source < Position.wordSize)
    (hmethods : ∀ m ∈ ctx.methods, m.Placed ctx.file.source) (rule : Rule) :
    AllFixes (Fix.Applies ctx.file.source) (rule.check ctx) := by
  have hcalls : ∀ call ∈ ctx.invocations,
      ∃ name list, call.Placed ctx.file.source name list := by
    intro call hcall
    obtain ⟨m, hm, hcall⟩ := List.mem_flatMap.1 hcall
    exact (hmethods m hm).invocations call hcall
  have hpublic : ∀ m ∈ ctx.methods,
      (publicFix m.modifiers m.returnTypeLocation).Applies ctx.file.source := fun m hm =>
    publicFix_applies hsize (hmethods m hm).modifiers (hmethods m hm).returnType
  have htask : ∀ m ∈ ctx.methods, (taskFix m.returnTypeLocation).Applies ctx.file.source :=
    fun m hm => taskFix_applies hsize (hmethods m hm).returnType
  cases rule with
  | testClassShouldBeValid => exact testClassShouldBeValid_allFixes
  | testMethodShouldBeValid => exact testMethodShouldBeValid_allFixes hpublic htask
  | testContextShouldBeValid => exact testContextShouldBeValid_allFixes
  | avoidExpectedExceptionAttribute => exact avoidExpectedExceptionAttribute_allFixes
  | useAttributeOnTestMethod => exact useAttributeOnTestMethod_allFixes
  | testInitializeShouldBeValid => exact fixtureShouldBeValid_allFixes _ hpublic htask
  | testCleanupShouldBeValid => exact fixtureShouldBeValid_allFixes _ hpublic htask
  | classInitializeShouldBeValid => exact fixtureShouldBeValid_allFixes _ hpublic htask
  | classCleanupShouldBeValid => exact fixtureShouldBeValid_allFixes _ hpublic htask
  | assemblyInitializeShouldBeValid => exact fixtureShouldBeValid_allFixes _ hpublic htask
  | assemblyCleanupShouldBeValid => exact fixtureShouldBeValid_allFixes _ hpublic htask
  | dataRowShouldBeValid => exact dataRowShouldBeValid_allFixes
  | testMethodShouldNotBeIgnored => exact testMethodShouldNotBeIgnored_allFixes
  | testClassShouldHaveTestMethod => exact testClassShouldHaveTestMethod_allFixes
  | assertionArgsShouldBePassedInCorrectOrder =>
    refine rewriting_allFixes (fun _ _ => rfl) ?_
    rintro call hcall ⟨expected, actual⟩ h
    obtain ⟨name, list, hplaced⟩ := hcalls call hcall
    exact swapFix_applies hsize hplaced (swapped?_span h)
  | dynamicDataShouldBeValid => exact dynamicDataShouldBeValid_allFixes
  | doNotNegateBooleanAssertion =>
    refine rewriting_allFixes (fun _ _ => rfl) ?_
    intro call hcall r h
    obtain ⟨name, list, hplaced⟩ := hcalls call hcall
    exact rewriting_applies hsize hplaced (.inl (withoutNegation?_span h))
  | preferAssertFailOverAlwaysFalseConditions =>
    refine preferAssertFailOverAlwaysFalseConditions_allFixes fun call hcall => ?_
    obtain ⟨name, list, hplaced⟩ := hcalls call hcall
    exact failFix_applies hsize hplaced
  | assertionArgsShouldAvoidConditionalAccess =>
    exact assertionArgsShouldAvoidConditionalAccess_allFixes
  | publicMethodShouldBeTestMethod => exact publicMethodShouldBeTestMethod_allFixes
  | typeContainingTestMethodShouldBeATestClass =>
    exact typeContainingTestMethodShouldBeATestClass_allFixes
  | reviewAlwaysTrueAssertCondition => exact reviewAlwaysTrueAssertCondition_allFixes
  | useProperAssertMethods =>
    refine rewriting_allFixes (fun _ _ => rfl) ?_
    intro call hcall r h
    obtain ⟨name, list, hplaced⟩ := hcalls call hcall
    exact rewriting_applies hsize hplaced (proper?_span h)
  | avoidUsingAssertsInAsyncVoidContext => exact avoidUsingAssertsInAsyncVoidContext_allFixes
  | duplicateDataRow => exact duplicateDataRow_allFixes
  | preferTestMethodOverDataTestMethod =>
    refine preferTestMethodOverDataTestMethod_allFixes fun m hm a ha span h _ => ?_
    obtain ⟨_, _, _, _, -, -, -, -, hr⟩ :=
      dataTestSpan?_covers ((hmethods m hm).attributes a ha) h
    exact Fix.applies_single (TextEdit.resolves_replace hsize hr _)
  | flowTestContextCancellationToken =>
    refine flowTestContextCancellationToken_allFixes fun call hcall context fix h => ?_
    obtain ⟨name, list, hplaced⟩ := hcalls call hcall
    exact tokenFix?_applies hsize hplaced h
  | avoidDuplicateTestMethods => exact .nil

end Check

/-- Every fix that a rule proposes for a file of a compilation applies to the
source of the file, if the tree of the file is well formed.  The source is a
text in memory, so a machine word counts its bytes. -/
theorem Rule.fix_applies {parse : Parser} {sources : List (Path × String)}
    {project : ProjectFacts} {framework : Framework} {file : SourceFile}
    (hfile : file ∈ (Compilation.ofSources parse sources project).files)
    (hsize : byteSize file.source < Position.wordSize)
    (hwellFormed : file.tree.WellFormed file.source) {rule : Rule} {finding : Finding}
    (hfinding : finding ∈
      rule.check ⟨Compilation.ofSources parse sources project, framework, file⟩)
    {fix : Fix} (hfix : finding.fix = some fix) :
    ∃ out, Edit.apply (String.ofList file.source) fix.edits = .ok out := by
  let ctx : CheckedFile := ⟨Compilation.ofSources parse sources project, framework, file⟩
  obtain ⟨⟨⟨path, text⟩, id⟩, -, rfl⟩ := List.mem_map.1 hfile
  have hmethods : ∀ m ∈ ctx.methods, m.Placed ctx.file.source := by
    intro m hm
    obtain ⟨t, ht, hm⟩ := List.mem_flatMap.1 hm
    exact FileDeclarations.placed_of_mem hwellFormed ht hm
  exact Check.allFixes_apply hsize hmethods rule finding hfinding fix hfix

open Check (negatedContext negatedFinding) in
theorem Rule.fix_applies_negated :
    negatedFinding ∈ Rule.doNotNegateBooleanAssertion.check negatedContext ∧
      ∃ fix, negatedFinding.fix = some fix ∧
        ∃ out, Edit.apply (String.ofList negatedContext.file.source) fix.edits = .ok out := by
  have hfinding : negatedFinding ∈ Rule.doNotNegateBooleanAssertion.check negatedContext := by
    decide +kernel
  refine ⟨hfinding, _, rfl, Rule.fix_applies (List.mem_singleton.2 rfl) ?_ ?_ hfinding rfl⟩
  · show byteSize negatedContext.file.source < Position.wordSize
    decide +kernel
  · show negatedContext.file.tree.WellFormed negatedContext.file.source
    decide +kernel

end TestLint
