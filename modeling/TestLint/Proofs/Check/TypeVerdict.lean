import Mathlib.Data.List.Sublists
import TestLint.Check.OfRule
import TestLint.Proofs.Compilation.WholeType
import TestLint.Proofs.StableOrder

/-!
# Verdicts on types as a whole

Three rules judge a type by all its parts: whether some part marks it as a test class, what
the parts write of its modifiers, and which methods they have, each read in the file of its
part (`WholeType.Judged`).  Files are checked one by one, and all parts of a type have the
same verdict; it is reported by the file of the first part alone.  So over all files each
type is reported at most once (`Compilation.typeRules_speakOnce`).
-/

namespace TestLint

open Relation (ReflTransGen)

/-- The rules that judge a type by all its parts. -/
def Rule.onTypes : List Rule :=
  [.testClassShouldBeValid, .testClassShouldHaveTestMethod,
   .typeContainingTestMethodShouldBeATestClass]

example : Rule.onTypes.map (·.id) = ["MSTEST0002", "MSTEST0016", "MSTEST0030"] := rfl

namespace Fixture

theorem mem_all (fixture : Fixture) : fixture ∈ all := by
  cases fixture <;> decide

/-- The fixtures of an assembly come after all others. -/
theorem pairwise_isAssemblyLevel :
    all.Pairwise fun a b => a.isAssemblyLevel = true → b.isAssemblyLevel = true := by
  decide

/-- The first fixture that is found is one of the assembly only if no other kind is there. -/
theorem isAssemblyLevel_iff_of_find? {p : Fixture → Bool} {found : Fixture}
    (h : all.find? p = some found) :
    found.isAssemblyLevel = true ↔
      ∀ fixture, p fixture = true → fixture.isAssemblyLevel = true := by
  obtain ⟨hfound, before, after, hall, hbefore⟩ := List.find?_eq_some_iff_append.1 h
  constructor
  · intro hlevel fixture hfixture
    have hmem := hall ▸ mem_all fixture
    have hpairwise := hall ▸ pairwise_isAssemblyLevel
    rcases List.mem_append.1 hmem with hmem | hmem
    · exact absurd hfixture (by simpa using hbefore fixture hmem)
    · rcases List.mem_cons.1 hmem with rfl | hmem
      · exact hlevel
      · exact List.rel_of_pairwise_cons (List.pairwise_append.1 hpairwise).2.1 hmem hlevel
  · exact fun hlevels => hlevels found hfound

/-- A method is no obstacle to a class of assembly fixtures. -/
theorem harmless_iff (p : Fixture → Bool) (test : Bool) (found? : Option Fixture) :
    all.find? p = found? → ((match found? with
      | some fixture => fixture.isAssemblyLevel
      | none => !test) = true ↔
    (∀ fixture, p fixture = true → fixture.isAssemblyLevel = true) ∧
      (test = true → ∃ fixture, p fixture = true)) := by
  intro h
  cases found? with
  | some found =>
    rw [isAssemblyLevel_iff_of_find? h]
    exact ⟨fun h' => ⟨h', fun _ => ⟨found, List.find?_some h⟩⟩, fun h' => h'.1⟩
  | none =>
    have hnot : ∀ fixture, ¬p fixture = true :=
      fun fixture => List.find?_eq_none.1 h fixture (mem_all fixture)
    rw [Bool.not_eq_true', ← Bool.not_eq_true]
    exact ⟨fun h' => ⟨fun fixture hp => absurd hp (hnot fixture), fun ht => absurd ht h'⟩,
      fun h' ht => (h'.2 ht).elim hnot⟩

/-- The method is no fixture but one of the assembly, and a test only if it is a fixture. -/
def AtMostAssembly (c : Compilation) (framework : Framework) (file : SourceFile) (m : Method) :
    Prop :=
  (∀ fixture : Fixture, framework.has c file m.attributes fixture.marker = true →
    fixture.isAssemblyLevel = true) ∧
  (framework.has c file m.attributes .testMethod = true →
    ∃ fixture : Fixture, framework.has c file m.attributes fixture.marker = true)

end Fixture

/-! ## What the parts of a type say together -/

/-- What can be wrong with a test class. -/
inductive ClassProblem where
  | notPublic
  | isStatic
  | isGeneric
  deriving DecidableEq, Repr

namespace ClassProblem

/-- All problems in the order in which they are named. -/
def all : List ClassProblem :=
  [.notPublic, .isStatic, .isGeneric]

def text : ClassProblem → String
  | .notPublic => "it should be 'public'"
  | .isStatic => "it should not be 'static'"
  | .isGeneric => "it should not be generic"

end ClassProblem

namespace WholeType

section

variable (c : Compilation) (framework : Framework) (w : WholeType)

def IsStatic : Prop :=
  ∃ part ∈ w.parts, part.declaration.isStatic = true

def IsAbstract : Prop :=
  ∃ part ∈ w.parts, part.declaration.isAbstract = true

/-- The accessibility that the first part to write one gives; the default if none does. -/
def accessibility : Accessibility :=
  ((w.parts.find? fun part => !part.declaration.modifiers.accessibilityTokens.isEmpty).getD
    w.first).declaration.accessibility

/-- Some part carries the attribute. -/
def Carries (target : FrameworkType) : Prop :=
  ∃ part ∈ w.parts, framework.has c part.file part.declaration.attributes target = true

/-- A method of some part carries the attribute. -/
def Declares (target : FrameworkType) : Prop :=
  ∃ part ∈ w.parts, ∃ m ∈ part.declaration.methods,
    framework.has c part.file m.attributes target = true

/-- The type or a type that it derives from declares a test. -/
def HasTest : Prop :=
  ∃ part ∈ c.allParts, ReflTransGen c.Derives w.fullName part.declaration.fullName ∧
    ∃ m ∈ part.declaration.methods, framework.has c part.file m.attributes .testMethod = true

def HasAssemblyFixture : Prop :=
  ∃ fixture : Fixture, fixture.isAssemblyLevel = true ∧ w.Declares c framework fixture.marker

/-- The type has fixtures of the assembly, and neither other fixtures nor further tests. -/
def OnlyAssemblyFixtures : Prop :=
  w.HasAssemblyFixture c framework ∧ ∀ part ∈ w.parts, ∀ m ∈ part.declaration.methods,
    Fixture.AtMostAssembly c framework part.file m

/-- Some file has the internal tests of the assembly discovered. -/
def InternalsDiscovered : Prop :=
  ∃ file ∈ c.files,
    framework.has c file file.declarations.globalAttributes .discoverInternals = true

/-- The type has the problem. -/
def Has : ClassProblem → Prop
  | .notPublic => ¬(w.accessibility = .isPublic ∨
      w.accessibility = .isInternal ∧ InternalsDiscovered c framework)
  | .isStatic => w.IsStatic ∧ ¬w.OnlyAssemblyFixtures c framework
  | .isGeneric => w.first.declaration.isGeneric = true

/-- What the rules find in a type, said at its first part. -/
inductive Judged : Rule → Finding → Prop
  | notValid {problems : List ClassProblem} (hkind : w.first.declaration.kind ≠ .isInterface)
      (hmarked : w.Carries c framework .testClass) (hproblems : problems ≠ [])
      (hordered : problems.Sublist ClassProblem.all)
      (hall : ∀ problem, problem ∈ problems ↔ w.Has c framework problem) :
      Judged .testClassShouldBeValid
        ((Finding.new w.first.declaration.nameLocation
          ("Test class '" ++ w.first.declaration.name ++ "' is not valid: " ++
            ", ".intercalate (problems.map (·.text)))).withSuggestion
          "Test classes should be 'public', non-'static' and non-generic")
  | withoutTest (hkind : w.first.declaration.kind ≠ .isInterface)
      (hmarked : w.Carries c framework .testClass) (habstract : ¬w.IsAbstract)
      (htest : ¬w.HasTest c framework) (hfixture : ¬w.HasAssemblyFixture c framework) :
      Judged .testClassShouldHaveTestMethod
        ((Finding.new w.first.declaration.nameLocation
          ("Test class '" ++ w.first.declaration.name ++
            "' should have at least one test method")).withSuggestion
          "Add a [TestMethod] or remove [TestClass]")
  | notMarked
      (hkind : w.first.declaration.kind = .isClass ∨ w.first.declaration.kind = .isRecord)
      (hmarked : ¬w.Carries c framework .testClass) (habstract : ¬w.IsAbstract)
      (htest : w.Declares c framework .testMethod) :
      Judged .typeContainingTestMethodShouldBeATestClass
        ((Finding.new w.first.declaration.nameLocation
          ("Type '" ++ w.first.declaration.name ++
            "' contains test methods and should be marked with [TestClass]")).withSuggestion
          "Add [TestClass] so its tests are discovered")

end

/-! ## The questions of the checks -/

section

variable {c : Compilation} {framework : Framework} {file : SourceFile} {w : WholeType}
  (hnumbered : c.Numbered) (hw : w ∈ c.wholeTypes)

include hw

theorem typeParts_eq : c.typeParts w.first.declaration.fullName = w.parts.map (·.declaration) := by
  rw [Compilation.parts_of_mem_wholeTypes hw, Compilation.map_declaration_partsOf]
  rfl

theorem checkedParts_eq :
    CheckedFile.parts ⟨c, framework, file⟩ w.first.declaration = w.parts.map (·.declaration) := by
  rw [CheckedFile.parts, typeParts_eq hw]
  rfl

theorem typeIsStatic_iff :
    CheckedFile.typeIsStatic ⟨c, framework, file⟩ w.first.declaration = true ↔ w.IsStatic := by
  rw [CheckedFile.typeIsStatic, checkedParts_eq hw, List.any_map, List.any_eq_true]
  rfl

theorem typeIsAbstract_iff :
    CheckedFile.typeIsAbstract ⟨c, framework, file⟩ w.first.declaration = true ↔
      w.IsAbstract := by
  rw [CheckedFile.typeIsAbstract, checkedParts_eq hw, List.any_map, List.any_eq_true]
  rfl

theorem typeAccessibility_eq :
    CheckedFile.typeAccessibility ⟨c, framework, file⟩ w.first.declaration = w.accessibility := by
  rw [CheckedFile.typeAccessibility, checkedParts_eq hw, List.find?_map, accessibility]
  unfold Function.comp
  cases w.parts.find? fun part => !part.declaration.modifiers.accessibilityTokens.isEmpty <;> rfl

include hnumbered

omit hw in
theorem fileOf_part {part : Part} (hpart : part ∈ c.allParts) :
    CheckedFile.fileOf ⟨c, framework, file⟩ part.declaration = part.file := by
  rw [CheckedFile.fileOf, hnumbered.file?_part hpart, Option.getD_some]

theorem isTestClass_iff :
    CheckedFile.isTestClass ⟨c, framework, file⟩ w.first.declaration = true ↔
      w.Carries c framework .testClass := by
  have hany : CheckedFile.isTestClass ⟨c, framework, file⟩ w.first.declaration =
      (w.parts.map (·.declaration)).any fun part => CheckedFile.hasIn ⟨c, framework, file⟩
        (CheckedFile.fileOf ⟨c, framework, file⟩ part) part.attributes .testClass := by
    rw [CheckedFile.isTestClass, typeParts_eq hw]
    rfl
  rw [hany, List.any_map, List.any_eq_true]
  refine exists_congr fun part => and_congr_right fun hpart => ?_
  rw [Function.comp_apply, fileOf_part hnumbered ((Compilation.mem_parts_iff hw).1 hpart).1]
  rfl

theorem methodsOfAllParts_eq :
    CheckedFile.methodsOfAllParts ⟨c, framework, file⟩ w.first.declaration =
      w.parts.flatMap fun part => part.declaration.methods.map (part.file, ·) := by
  rw [CheckedFile.methodsOfAllParts, typeParts_eq hw, List.flatMap_map]
  refine List.flatMap_congr fun part hpart => ?_
  rw [hnumbered.file?_part ((Compilation.mem_parts_iff hw).1 hpart).1]

theorem any_methods_iff (p : SourceFile × Method → Bool) :
    (CheckedFile.methodsOfAllParts ⟨c, framework, file⟩ w.first.declaration).any p = true ↔
      ∃ part ∈ w.parts, ∃ m ∈ part.declaration.methods, p (part.file, m) = true := by
  rw [methodsOfAllParts_eq hnumbered hw, List.any_flatMap, List.any_eq_true]
  simp only [List.any_map, List.any_eq_true, Function.comp_apply]

theorem declaresTest_iff :
    CheckedFile.declaresTest ⟨c, framework, file⟩ w.first.declaration = true ↔
      w.Declares c framework .testMethod := by
  rw [CheckedFile.declaresTest, any_methods_iff hnumbered hw]
  rfl

theorem holdsAssemblyFixture_iff :
    Check.holdsAssemblyFixture ⟨c, framework, file⟩ w.first.declaration = true ↔
      w.HasAssemblyFixture c framework := by
  rw [Check.holdsAssemblyFixture, any_methods_iff hnumbered hw]
  simp only [List.any_eq_true, List.mem_filter, Fixture.mem_all, true_and]
  constructor
  · rintro ⟨part, hpart, m, hm, fixture, hlevel, hhas⟩
    exact ⟨fixture, hlevel, part, hpart, m, hm, hhas⟩
  · rintro ⟨fixture, hlevel, part, hpart, m, hm, hhas⟩
    exact ⟨part, hpart, m, hm, fixture, hlevel, hhas⟩

theorem holdsOnlyAssemblyFixtures_iff :
    Check.holdsOnlyAssemblyFixtures ⟨c, framework, file⟩ w.first.declaration = true ↔
      w.OnlyAssemblyFixtures c framework := by
  rw [Check.holdsOnlyAssemblyFixtures, Bool.and_eq_true, any_methods_iff hnumbered hw,
    methodsOfAllParts_eq hnumbered hw]
  simp only [List.all_flatMap, List.all_map, List.all_eq_true, Function.comp_apply,
    List.find?_isSome, Fixture.mem_all, true_and]
  refine (and_congr_left' (forall₂_congr
    (q := fun (part : Part) _ => ∀ m ∈ part.declaration.methods,
      Fixture.AtMostAssembly c framework part.file m)
    fun part _ => forall₂_congr fun m _ => ?_)).trans ⟨?_, ?_⟩
  · -- the fixture that is found gets a name, as the search itself must not be unfolded
    generalize hfind : Fixture.all.find? _ = found?
    exact Fixture.harmless_iff _ _ found? hfind
  · rintro ⟨hatMost, part, hpart, m, hm, fixture, hhas⟩
    have hlevel := (hatMost part hpart m hm).1 fixture hhas
    exact ⟨⟨fixture, hlevel, part, hpart, m, hm, hhas⟩, hatMost⟩
  · rintro ⟨⟨fixture, -, part, hpart, m, hm, hhas⟩, hatMost⟩
    exact ⟨hatMost, part, hpart, m, hm, fixture, hhas⟩

theorem hasTestInHierarchy_iff :
    CheckedFile.hasTestInHierarchy ⟨c, framework, file⟩ w.first.declaration = true ↔
      w.HasTest c framework := by
  have hfirst := ((Compilation.mem_parts_iff hw).1 List.mem_cons_self).1
  have htype := Compilation.mem_types_of_mem_allParts hfirst
  rw [CheckedFile.hasTestInHierarchy, Bool.or_eq_true, declaresTest_iff hnumbered hw,
    List.any_eq_true]
  constructor
  · rintro (⟨part, hpart, m, hm, htest⟩ | ⟨base, hbase, htest⟩)
    · obtain ⟨hmem, heq⟩ := (Compilation.mem_parts_iff hw).1 hpart
      exact ⟨part, hmem, heq ▸ .refl, m, hm, htest⟩
    · obtain ⟨hmem, -, hderives⟩ := (Compilation.mem_baseTypes_iff htype).1 hbase
      obtain ⟨part, hpart, rfl⟩ := Compilation.exists_part_of_mem_types hmem
      obtain ⟨m, hm, htest⟩ := List.any_eq_true.1 htest
      rw [fileOf_part hnumbered hpart] at htest
      exact ⟨part, hpart, hderives.to_reflTransGen, m, hm, htest⟩
  · rintro ⟨part, hpart, hderives, m, hm, htest⟩
    -- parts with the type's own name are its parts, all others are those of base types
    by_cases heq : part.declaration.fullName = w.fullName
    · exact .inl ⟨part, (Compilation.mem_parts_iff hw).2 ⟨hpart, heq⟩, m, hm, htest⟩
    · have hbase : part.declaration ∈ c.baseTypes w.first.declaration :=
        (Compilation.mem_baseTypes_iff htype).2
          ⟨Compilation.mem_types_of_mem_allParts hpart, heq,
            (Relation.reflTransGen_iff_eq_or_transGen.1 hderives).resolve_left heq⟩
      refine .inr ⟨_, hbase, List.any_eq_true.2 ⟨m, hm, ?_⟩⟩
      rw [fileOf_part hnumbered hpart]
      exact htest

omit hnumbered in
/-- Findings about a type are reported at its first part. -/
theorem isPrimaryPart_first :
    CheckedFile.isPrimaryPart ⟨c, framework, file⟩ w.first.declaration = true := by
  change (c.type? w.fullName).all _ = true
  rw [Compilation.type?_fullName hw, Option.all_some, beq_self_eq_true]

omit hnumbered in
/-- It is the only part that they are reported at. -/
theorem filter_isPrimaryPart (hdistinct : (c.types.map (·.handle)).Nodup) :
    w.parts.filter (fun part =>
      CheckedFile.isPrimaryPart ⟨c, framework, part.file⟩ part.declaration) = [w.first] := by
  have hhandles : (w.parts.map (·.declaration.handle)).Nodup := by
    rw [← Compilation.map_declaration_allParts, List.map_map] at hdistinct
    rw [Compilation.parts_of_mem_wholeTypes hw]
    exact hdistinct.sublist (List.filter_sublist.map _)
  rw [parts, List.map_cons, List.nodup_cons] at hhandles
  rw [parts, List.filter_cons_of_pos (p := fun part : Part =>
      CheckedFile.isPrimaryPart ⟨c, framework, part.file⟩ part.declaration)
    (isPrimaryPart_first hw), List.cons.injEq, List.filter_eq_nil_iff]
  refine ⟨rfl, fun part hpart hprimary => ?_⟩
  have hname : part.declaration.fullName = w.fullName :=
    ((Compilation.mem_parts_iff hw).1 (List.mem_cons_of_mem _ hpart)).2
  rw [CheckedFile.isPrimaryPart, hname, Compilation.type?_fullName hw, Option.all_some,
    beq_iff_eq] at hprimary
  exact hhandles.1 (hprimary ▸ List.mem_map_of_mem hpart)

omit hnumbered hw in
theorem discoversInternals_iff (file : SourceFile) :
    CheckedFile.discoversInternals ⟨c, framework, file⟩ = true ↔
      InternalsDiscovered c framework := by
  rw [CheckedFile.discoversInternals, List.any_eq_true]
  rfl

end

end WholeType

/-! ## The problems of a test class -/

namespace ClassProblem

theorem mem_all (problem : ClassProblem) : problem ∈ all := by
  cases problem <;> decide

/-- A list of problems in this order is made up of its members. -/
theorem filter_mem_eq {problems : List ClassProblem} (h : problems.Sublist all) :
    all.filter (· ∈ problems) = problems := by
  have hall : ∀ problems ∈ all.sublists, all.filter (· ∈ problems) = problems := by decide
  exact hall problems (List.mem_sublists.2 h)

/-- The check finds the problem. -/
def isFound (ctx : CheckedFile) (t : TypeDeclaration) : ClassProblem → Bool
  | .notPublic => match ctx.typeAccessibility t with
    | .isPublic => false
    | .isInternal => !ctx.discoversInternals
    | _ => true
  | .isStatic => ctx.typeIsStatic t && !Check.holdsOnlyAssemblyFixtures ctx t
  | .isGeneric => t.isGeneric

theorem filter_all (p : ClassProblem → Bool) : all.filter p =
    (if p .notPublic then [.notPublic] else []) ++ (if p .isStatic then [.isStatic] else []) ++
      (if p .isGeneric then [.isGeneric] else []) := by
  simp only [all, List.filter_cons, List.filter_nil]
  cases p .notPublic <;> cases p .isStatic <;> cases p .isGeneric <;> rfl

theorem testClassProblems_eq (ctx : CheckedFile) (t : TypeDeclaration) :
    Check.testClassProblems ctx t = (all.filter (isFound ctx t)).map (·.text) := by
  rw [filter_all, List.map_append, List.map_append, apply_ite (List.map _), apply_ite (List.map _),
    apply_ite (List.map _), Check.testClassProblems]
  congr 2
  rw [isFound]
  cases ctx.typeAccessibility t <;> cases ctx.discoversInternals <;> rfl

theorem isFound_iff {c : Compilation} {w : WholeType} (hnumbered : c.Numbered)
    (hw : w ∈ c.wholeTypes) (framework : Framework) (file : SourceFile) (problem : ClassProblem) :
    isFound ⟨c, framework, file⟩ w.first.declaration problem = true ↔
      w.Has c framework problem := by
  cases problem with
  | notPublic =>
    rw [isFound, WholeType.typeAccessibility_eq hw, WholeType.Has,
      ← WholeType.discoversInternals_iff file]
    cases w.accessibility <;> simp
  | isStatic =>
    rw [isFound, Bool.and_eq_true, WholeType.typeIsStatic_iff hw, Bool.not_eq_true',
      ← Bool.not_eq_true, WholeType.holdsOnlyAssemblyFixtures_iff hnumbered hw]
    rfl
  | isGeneric => rfl

/-- The check finds the problems that the type has, in their order. -/
theorem filter_isFound_eq_iff {c : Compilation} {w : WholeType} (hnumbered : c.Numbered)
    (hw : w ∈ c.wholeTypes) (framework : Framework) (file : SourceFile)
    (problems : List ClassProblem) :
    all.filter (isFound ⟨c, framework, file⟩ w.first.declaration) = problems ↔
      problems.Sublist all ∧ ∀ problem, problem ∈ problems ↔ w.Has c framework problem := by
  have hfound := isFound_iff hnumbered hw framework file
  constructor
  · rintro rfl
    refine ⟨List.filter_sublist, fun problem => ?_⟩
    rw [List.mem_filter, hfound problem, and_iff_right (mem_all problem)]
  · rintro ⟨hordered, hhas⟩
    rw [← filter_mem_eq hordered]
    refine List.filter_congr fun problem _ => Bool.eq_iff_iff.2 ?_
    rw [hfound problem, decide_eq_true_iff, hhas problem]

end ClassProblem

/-! ## One finding for each type -/

namespace Compilation

variable {c : Compilation} {framework : Framework} {rule : Rule} {w : WholeType}

/-- What the rule reports over all files, each finding with the number of its file. -/
def findingsOf (c : Compilation) (framework : Framework) (rule : Rule) : List (Nat × Finding) :=
  c.files.flatMap fun file => (rule.check ⟨c, framework, file⟩).map (file.id, ·)

/-- A check that asks every type for its verdict asks the parts of all types in turn. -/
theorem findingsOf_eq {judge : CheckedFile → TypeDeclaration → Option Finding}
    (hcheck : ∀ ctx, rule.check ctx = ctx.types.filterMap (judge ctx)) :
    c.findingsOf framework rule = c.allParts.filterMap fun part =>
      (judge ⟨c, framework, part.file⟩ part.declaration).map (part.file.id, ·) := by
  rw [findingsOf, allParts, List.filterMap_flatMap]
  refine List.flatMap_congr fun file _ => ?_
  rw [hcheck, List.map_filterMap, List.filterMap_map]
  rfl

/-- Over all files, the rule says of each type what it says at the first part, and nothing
else. -/
def SpeaksOnce (c : Compilation) (framework : Framework) (rule : Rule) : Prop :=
  ∃ reported : List (WholeType × Finding),
    c.findingsOf framework rule = reported.map (fun (w, finding) => (w.first.file.id, finding)) ∧
    (reported.map (·.1)).Sublist c.wholeTypes ∧
    ∀ w finding, (w, finding) ∈ reported ↔
      w ∈ c.wholeTypes ∧ w.Judged c framework rule finding

theorem speaksOnce_of_judge (hdistinct : (c.types.map (·.handle)).Nodup)
    {judge : CheckedFile → TypeDeclaration → Option Finding}
    (hcheck : ∀ ctx, rule.check ctx = ctx.types.filterMap (judge ctx))
    (hprimary : ∀ ctx t finding, judge ctx t = some finding → ctx.isPrimaryPart t = true)
    (hjudged : ∀ w ∈ c.wholeTypes, ∀ finding,
      judge ⟨c, framework, w.first.file⟩ w.first.declaration = some finding ↔
        w.Judged c framework rule finding) :
    c.SpeaksOnce framework rule := by
  let verdict (part : Part) := judge ⟨c, framework, part.file⟩ part.declaration
  have hfirst : c.allParts.filterMap (fun part => (verdict part).map (part.file.id, ·)) =
      c.wholeTypes.filterMap fun w => (verdict w.first).map (w.first.file.id, ·) := by
    have hskip : (fun part => (verdict part).map (part.file.id, ·)) = fun part =>
        if (c.type? part.declaration.fullName).all (·.handle == part.declaration.handle) then
          (verdict part).map (part.file.id, ·)
        else none := by
      funext part
      split
      · rfl
      · next hnot =>
        cases hverdict : verdict part with
        | none => rfl
        | some finding => exact absurd (hprimary _ _ _ hverdict) hnot
    rw [hskip, ← List.filterMap_filter, filter_isPrimary hdistinct, List.filterMap_map]
    rfl
  refine ⟨c.wholeTypes.filterMap fun w => (verdict w.first).map (w, ·), ?_, ?_, ?_⟩
  · rw [findingsOf_eq hcheck, hfirst, List.map_filterMap]
    simp only [Option.map_map, Function.comp_def]
  · refine map_filterMap_sublist (fun w pair h => ?_) c.wholeTypes
    obtain ⟨finding, -, rfl⟩ := Option.map_eq_some_iff.1 h
    rfl
  · intro w finding
    simp only [List.mem_filterMap, Option.map_eq_some_iff, Prod.mk.injEq]
    constructor
    · rintro ⟨w, hw, finding, hverdict, rfl, rfl⟩
      exact ⟨hw, (hjudged w hw finding).1 hverdict⟩
    · rintro ⟨hw, hfinding⟩
      exact ⟨w, hw, finding, (hjudged w hw finding).2 hfinding, rfl, rfl⟩

/-! ## The rules -/

section

variable (hnumbered : c.Numbered) (hdistinct : (c.types.map (·.handle)).Nodup)

include hnumbered hdistinct

theorem speaksOnce_testClassShouldBeValid : c.SpeaksOnce framework .testClassShouldBeValid := by
  refine speaksOnce_of_judge hdistinct (fun _ => rfl) ?_ ?_
  · intro ctx t finding h
    by_contra hnot
    simp [hnot] at h
  · intro w hw finding
    have hfound := ClassProblem.filter_isFound_eq_iff hnumbered hw framework w.first.file
    simp only [WholeType.isPrimaryPart_first hw, ClassProblem.testClassProblems_eq, Bool.not_true,
      Bool.or_false]
    constructor
    · intro h
      split at h
      · cases h
      · next hcond =>
        rw [Bool.or_eq_true, not_or, decide_eq_true_iff, Bool.not_eq_true', Bool.not_eq_false,
          WholeType.isTestClass_iff hnumbered hw] at hcond
        obtain ⟨hordered, hhas⟩ := (hfound _).1 rfl
        split at h
        · cases h
        · next hne =>
          cases h
          refine .notValid hcond.1 hcond.2 (fun hnil => hne ?_) hordered hhas
          rw [hnil]
          rfl
    · intro hjudged
      cases hjudged with
      | notValid hkind hmarked hproblems hordered hhas =>
        rw [(hfound _).2 ⟨hordered, hhas⟩, if_neg]
        · split
          · next hnil => exact absurd (List.map_eq_nil_iff.1 hnil) hproblems
          · rfl
        · rw [Bool.or_eq_true, not_or, decide_eq_true_iff, Bool.not_eq_true', Bool.not_eq_false,
            WholeType.isTestClass_iff hnumbered hw]
          exact ⟨hkind, hmarked⟩

theorem speaksOnce_testClassShouldHaveTestMethod :
    c.SpeaksOnce framework .testClassShouldHaveTestMethod := by
  refine speaksOnce_of_judge hdistinct (fun _ => rfl) ?_ ?_
  · intro ctx t finding h
    by_contra hnot
    simp [hnot] at h
  · intro w hw finding
    simp only [WholeType.isPrimaryPart_first hw, Bool.not_true, Bool.or_false, Bool.or_eq_true,
      decide_eq_true_iff, Bool.not_eq_true', ← Bool.not_eq_true,
      WholeType.isTestClass_iff hnumbered hw, WholeType.typeIsAbstract_iff hw,
      WholeType.hasTestInHierarchy_iff hnumbered hw,
      WholeType.holdsAssemblyFixture_iff hnumbered hw, Option.ite_none_left_eq_some, not_or,
      Option.some.injEq]
    constructor
    · rintro ⟨⟨⟨⟨⟨hkind, hmarked⟩, habstract⟩, htest⟩, hfixture⟩, rfl⟩
      exact .withoutTest hkind (not_not.1 hmarked) habstract htest hfixture
    · intro hjudged
      cases hjudged with
      | withoutTest hkind hmarked habstract htest hfixture =>
        exact ⟨⟨⟨⟨⟨hkind, not_not.2 hmarked⟩, habstract⟩, htest⟩, hfixture⟩, rfl⟩

theorem speaksOnce_typeContainingTestMethodShouldBeATestClass :
    c.SpeaksOnce framework .typeContainingTestMethodShouldBeATestClass := by
  refine speaksOnce_of_judge hdistinct (fun _ => rfl) ?_ ?_
  · intro ctx t finding h
    by_contra hnot
    simp [hnot] at h
  · intro w hw finding
    simp only [WholeType.isPrimaryPart_first hw, Bool.and_true, Bool.and_eq_true, Bool.or_eq_true,
      decide_eq_true_iff, Bool.not_eq_true', ← Bool.not_eq_true,
      WholeType.isTestClass_iff hnumbered hw, WholeType.typeIsAbstract_iff hw,
      WholeType.declaresTest_iff hnumbered hw, Option.ite_none_right_eq_some, Option.some.injEq]
    constructor
    · rintro ⟨⟨⟨⟨hkind, habstract⟩, hmarked⟩, htest⟩, rfl⟩
      exact .notMarked hkind hmarked habstract htest
    · intro hjudged
      cases hjudged with
      | notMarked hkind hmarked habstract htest =>
        exact ⟨⟨⟨⟨hkind, habstract⟩, hmarked⟩, htest⟩, rfl⟩

end

/-- Rules about types as a whole report each type once.  There is one type for each full name,
and exactly one of its parts, the first, is where findings about it go.  Over all files, such
a rule says there what all parts together call for. -/
theorem typeRules_speakOnce (parse : Parser) (sources : List (Path × String))
    (project : ProjectFacts) (framework : Framework)
    (hdistinct : ((ofSources parse sources project).types.map (·.handle)).Nodup) :
    let c := ofSources parse sources project
    (c.wholeTypes.map (·.fullName)).Nodup ∧
      (∀ t ∈ c.types, ∃ w ∈ c.wholeTypes, w.fullName = t.fullName) ∧
      (∀ w ∈ c.wholeTypes, w.parts = c.partsOf w.fullName ∧
        w.parts.filter (fun part =>
          CheckedFile.isPrimaryPart ⟨c, framework, part.file⟩ part.declaration) = [w.first]) ∧
      ∀ rule ∈ Rule.onTypes, c.SpeaksOnce framework rule := by
  intro c
  refine ⟨?_, fun t ht => ?_, fun w hw => ⟨parts_of_mem_wholeTypes hw, ?_⟩, fun rule hrule => ?_⟩
  · rw [map_fullName_wholeTypes]
    exact nodup_typeNames c
  · have hname : t.fullName ∈ c.wholeTypes.map (·.fullName) := by
      rw [map_fullName_wholeTypes, typeNames, List.mem_eraseDups]
      exact List.mem_map_of_mem ht
    exact List.mem_map.1 hname
  · exact WholeType.filter_isPrimaryPart hw hdistinct
  · have hnumbered := numbered_ofSources parse sources project
    simp only [Rule.onTypes, List.mem_cons, List.not_mem_nil, or_false] at hrule
    rcases hrule with rfl | rfl | rfl
    · exact speaksOnce_testClassShouldBeValid hnumbered hdistinct
    · exact speaksOnce_testClassShouldHaveTestMethod hnumbered hdistinct
    · exact speaksOnce_typeContainingTestMethodShouldBeATestClass hnumbered hdistinct

/-- A class without members, `partial` being written at an offset behind the attributes. -/
def partialClass (start : Nat) (attributes : List Tree) : Tree :=
  .node ⟨"compilation_unit", none, true, false, 0, start + 17⟩
    [.node ⟨"class_declaration", none, true, false, 0, start + 17⟩ <| attributes ++
      [.node ⟨"modifier", none, true, false, start, start + 7⟩ [],
       .node ⟨"identifier", some "name", true, false, start + 14, start + 15⟩ [],
       .node ⟨"declaration_list", some "body", true, false, start + 15, start + 17⟩ []]]

/-- A class in two files, of which the second marks it as a test class. -/
def splitClass : Compilation :=
  let unmarked := "partial class T\x7b\x7d"
  let marker : Tree := .node ⟨"attribute_list", none, true, false, 0, 11⟩
    [.node ⟨"attribute", none, true, false, 1, 10⟩
      [.node ⟨"identifier", some "name", true, false, 1, 10⟩ []]]
  .ofSources
    (fun text => if text = unmarked then partialClass 0 [] else partialClass 11 [marker])
    [(⟨"A.cs"⟩, unmarked), (⟨"B.cs"⟩, "[TestClass]" ++ unmarked)] .empty

/-- The class has no tests.  This is said at its part in the first file, which does not mark it
as a test class. -/
theorem typeRules_speakOnce_split :
    ∃ w ∈ splitClass.wholeTypes, ∃ finding,
      splitClass.findingsOf ⟨true⟩ .testClassShouldHaveTestMethod = [(w.first.file.id, finding)] ∧
        w.first.file.id = 0 ∧ w.first.declaration.attributes.isEmpty = true ∧
        w.Carries splitClass ⟨true⟩ .testClass ∧ ¬w.HasTest splitClass ⟨true⟩ := by
  have hdistinct : (splitClass.types.map (·.handle)).Nodup := by decide +kernel
  have hfound : (splitClass.findingsOf ⟨true⟩ .testClassShouldHaveTestMethod).map (·.1) = [0] := by
    decide +kernel
  obtain ⟨-, -, -, hspeaks⟩ := typeRules_speakOnce _ _ _ ⟨true⟩ hdistinct
  obtain ⟨reported, hreported, -, hmem⟩ := hspeaks .testClassShouldHaveTestMethod (by decide)
  change splitClass.findingsOf _ _ = _ at hreported
  rw [hreported, List.map_map] at hfound
  obtain ⟨⟨w, finding⟩, rfl, hid⟩ := List.map_eq_singleton_iff.1 hfound
  obtain ⟨hw, hjudged⟩ := (hmem w finding).1 (List.mem_singleton.2 rfl)
  refine ⟨w, hw, finding, hreported, hid, ?_, ?_⟩
  · have hunmarked : ∀ w ∈ splitClass.wholeTypes,
        w.first.declaration.attributes.isEmpty = true := by
      decide +kernel
    exact hunmarked w hw
  · cases hjudged with
    | withoutTest _ hmarked _ htest _ => exact ⟨hmarked, htest⟩

end Compilation

end TestLint
