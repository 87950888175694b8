import TestLint.Framework.Binding
import TestLint.Proofs.Compilation.Numbering
import TestLint.Proofs.Compilation.Resolving
import TestLint.Proofs.DepthFirst

/-!
# What an attribute leads to

A name that is not qualified by the framework's namespace, and means a class that is
declared, leads to the bases of the class.  Where no class is in the way, it may be a
type of the framework itself (`Framework.Ends`).  An attribute is bound if its name
leads to a type of the framework, and to the one that comes first
(`Framework.bind?_spec`).

All bases of a class are read where its first part stands, so this holds as long as
the classes have one part each.
-/

namespace TestLint

namespace Framework

/-- A name as it is written in a file, perhaps as a base of a type. -/
structure Site where
  file : SourceFile
  written : String
  scope : Option TypeDeclaration

namespace Site

variable (c : Compilation) (s : Site)

def short : String :=
  Name.attributeShort s.written

/-- The parts of the declared class that the name means. -/
def parts : List TypeDeclaration :=
  declaredClass c s.short s.scope

/-- The bases that a part writes, each in the file of the part. -/
def basesOf (part : TypeDeclaration) : List Site :=
  part.baseTypes.map fun base => ⟨c.fileOf part, base, some part⟩

/-- The bases of a class, as if its first part had written all of them. -/
def basesOfFirst : List TypeDeclaration → List Site
  | [] => []
  | first :: others =>
    (Compilation.pooledBases (first :: others)).map fun base => ⟨c.fileOf first, base, some first⟩

end Site

section

variable (c : Compilation)

/-- The name stands for a declared class, and is followed by a base that a part of the
class writes. -/
def Step (s s' : Site) : Prop :=
  isQualified s.written = false ∧ ∃ part ∈ s.parts c, s' ∈ Site.basesOf c part

/-- The name is one of the framework by itself, and the class that it would mean is not
declared. -/
def Ends (f : Framework) (s : Site) (t : FrameworkType) : Prop :=
  t.shortName = s.short ∧
    (isQualified s.written = true ∨
      Name.qualifier? s.written = none ∧ f.inScope s.file = true ∧ s.parts c = [])

def Leads (f : Framework) (s : Site) (t : FrameworkType) : Prop :=
  ∃ s', Relation.ReflTransGen (Step c) s s' ∧ f.Ends c s' t

/-- No class on the way is split into several parts. -/
def Whole (s : Site) : Prop :=
  ∀ s', Relation.ReflTransGen (Step c) s s' → (s'.parts c).length ≤ 1

/-- What a name is followed by, when this is what the parts of a class are followed by. -/
def expand (bases : List TypeDeclaration → List Site) (s : Site) :
    Option (String × List Site) :=
  match isQualified s.written, s.parts c with
  | false, first :: others => some (first.fullName, bases (first :: others))
  | _, _ => none

def ways : Site → Option (String × List Site) :=
  expand c fun parts => parts.flatMap (Site.basesOf c)

def firstWays : Site → Option (String × List Site) :=
  expand c (Site.basesOfFirst c)

end

variable {c : Compilation} {f : Framework} {s s' : Site} {t : FrameworkType}
  {bases : List TypeDeclaration → List Site} {fullName : String} {next : List Site}

/-! ## Declared classes -/

theorem declaredClass_eq (short : String) (context : Option TypeDeclaration) :
    declaredClass c short context = [] ∨
      ∃ fullName, declaredClass c short context = c.typeParts fullName := by
  have hresolve (written : String) := Compilation.resolve_eq_nil_or (c := c) written context
  simp only [declaredClass]
  by_cases hsuffixed : (c.resolve (short ++ "Attribute") context).isEmpty = true
  · rw [if_pos hsuffixed]
    split
    · exact hresolve _
    · exact .inl rfl
  · rw [if_neg hsuffixed]
    split
    · exact hresolve _
    · exact .inl rfl

theorem parts_eq_typeParts {first : TypeDeclaration} {others : List TypeDeclaration}
    (h : s.parts c = first :: others) : first :: others = c.typeParts first.fullName := by
  rw [Site.parts] at h
  obtain hnil | ⟨fullName, hparts⟩ := declaredClass_eq (c := c) s.short s.scope
  · rw [h] at hnil
    cases hnil
  · have hfirst : first ∈ c.typeParts fullName := by
      rw [← hparts, h]
      exact List.mem_cons_self
    rw [(Compilation.mem_typeParts.1 hfirst).2, ← hparts, h]

theorem mem_types_of_mem_parts {part : TypeDeclaration} (h : part ∈ s.parts c) :
    part ∈ c.types := by
  cases hparts : s.parts c with
  | nil =>
    rw [hparts] at h
    cases h
  | cons first others =>
    rw [hparts, parts_eq_typeParts hparts] at h
    exact (Compilation.mem_typeParts.1 h).1

theorem expand_eq_some_iff : expand c bases s = some (fullName, next) ↔
    isQualified s.written = false ∧ ∃ first others, s.parts c = first :: others ∧
      first.fullName = fullName ∧ bases (first :: others) = next := by
  unfold expand
  cases isQualified s.written with
  | true => simp
  | false =>
    cases s.parts c with
    | nil => simp
    | cons first others => simp

theorem expand_eq_none_iff :
    expand c bases s = none ↔ isQualified s.written = true ∨ s.parts c = [] := by
  unfold expand
  cases isQualified s.written with
  | true => simp
  | false => cases s.parts c <;> simp

/-- A class is followed by the same wherever its name stands. -/
theorem expand_same (s s' : Site) (fullName : String) (next next' : List Site)
    (h : expand c bases s = some (fullName, next))
    (h' : expand c bases s' = some (fullName, next')) : next = next' := by
  obtain ⟨-, first, others, hparts, hname, rfl⟩ := expand_eq_some_iff.1 h
  obtain ⟨-, first', others', hparts', hname', rfl⟩ := expand_eq_some_iff.1 h'
  rw [parts_eq_typeParts hparts, parts_eq_typeParts hparts', hname, hname']

theorem expand_mem_types (s : Site) (fullName : String) (next : List Site)
    (h : expand c bases s = some (fullName, next)) : fullName ∈ c.types.map (·.fullName) := by
  obtain ⟨-, first, others, hparts, rfl, -⟩ := expand_eq_some_iff.1 h
  refine List.mem_map_of_mem (mem_types_of_mem_parts (s := s) ?_)
  rw [hparts]
  exact List.mem_cons_self

theorem step_ways_iff : DepthFirst.Step (ways c) s s' ↔ Step c s s' := by
  constructor
  · rintro ⟨fullName, next, hexpand, hmem⟩
    obtain ⟨hqualified, first, others, hparts, -, rfl⟩ := expand_eq_some_iff.1 hexpand
    rw [← hparts, List.mem_flatMap] at hmem
    exact ⟨hqualified, hmem⟩
  · rintro ⟨hqualified, part, hpart, hmem⟩
    cases hparts : s.parts c with
    | nil =>
      rw [hparts] at hpart
      cases hpart
    | cons first others =>
      have hnext : s' ∈ (first :: others).flatMap (Site.basesOf c) := by
        rw [← hparts]
        exact List.mem_flatMap.2 ⟨part, hpart, hmem⟩
      exact ⟨_, _, expand_eq_some_iff.2 ⟨hqualified, first, others, hparts, rfl, rfl⟩, hnext⟩

/-! ## Names of the framework -/

theorem mem_all (t : FrameworkType) : t ∈ FrameworkType.all := by
  cases t <;> decide

theorem nodup_shortNames : (FrameworkType.all.map (·.shortName)).Nodup := by
  decide +kernel

theorem ofShortName?_eq_some_iff {short : String} :
    FrameworkType.ofShortName? short = some t ↔ t.shortName = short := by
  rw [FrameworkType.ofShortName?]
  constructor
  · intro h
    have hshort := List.find?_some h
    exact beq_iff_eq.1 hshort
  · rintro rfl
    cases hfound : FrameworkType.all.find? (·.shortName == t.shortName) with
    | none =>
      have hnone := List.find?_eq_none.1 hfound t (mem_all t)
      exact absurd (beq_self_eq_true t.shortName) hnone
    | some t' =>
      have hsame := List.find?_some hfound
      exact congrArg some
        (List.inj_on_of_nodup_map nodup_shortNames (mem_all t') (mem_all t) (beq_iff_eq.1 hsame))

theorem known?_eq_some_iff : f.known? s.file s.written = some t ↔
    t.shortName = s.short ∧ (isQualified s.written = true ∨
      Name.qualifier? s.written = none ∧ f.inScope s.file = true) := by
  rw [known?, ← Site.short, isQualified, ← ofShortName?_eq_some_iff]
  cases hknown : FrameworkType.ofShortName? s.short with
  | none => simp
  | some known => cases Name.qualifier? s.written <;> simp [and_comm]

theorem ends_iff :
    f.Ends c s t ↔ expand c bases s = none ∧ f.known? s.file s.written = some t := by
  rw [Ends, expand_eq_none_iff, known?_eq_some_iff]
  cases hqualified : isQualified s.written with
  | true => simp
  | false => simp [and_comm, and_left_comm, and_assoc]

theorem step_ways : DepthFirst.Step (ways c) = Step c := by
  ext s s'
  exact step_ways_iff

theorem reaches_ways_iff :
    DepthFirst.Reaches (ways c) (fun s => f.known? s.file s.written) s t ↔ f.Leads c s t := by
  have hends (s' : Site) :
      ways c s' = none ∧ f.known? s'.file s'.written = some t ↔ f.Ends c s' t :=
    ends_iff.symm
  simp only [DepthFirst.Reaches, Leads, step_ways, hends]

/-! ## The search -/

section search

-- unfolding it does not come to an end in reasonable time where names are unknown
attribute [local irreducible] declaredClass

theorem bindName_zero (file : SourceFile) (written : String) (context : Option TypeDeclaration)
    (visited : List String) : f.bindName c 0 file written context visited = (none, visited) :=
  rfl

/-- One step of going through declared classes. -/
theorem bindName_succ (fuel : Nat) (file : SourceFile) (written : String)
    (context : Option TypeDeclaration) (visited : List String) :
    f.bindName c (fuel + 1) file written context visited =
      match declaredClass c (Name.attributeShort written) context with
      | [] => (f.known? file written, visited)
      | first :: others =>
        if isQualified written then
          (f.known? file written, visited)
        else if visited.contains first.fullName then
          (none, visited)
        else
          (Compilation.pooledBases (first :: others)).foldl
            (fun state base => match state with
              | (some found, visited) => (some found, visited)
              | (none, visited) =>
                f.bindName c fuel ((c.file? first.file).getD file) base (some first) visited)
            (none, first.fullName :: visited) :=
  rfl

end search

/-- Going through declared classes is the search that reads all bases of a class where
its first part stands. -/
theorem bindName_eq_search (hc : c.Numbered) (fuel : Nat) (s : Site) (visited : List String) :
    f.bindName c fuel s.file s.written s.scope visited =
      DepthFirst.search (firstWays c) (fun s => f.known? s.file s.written) fuel s visited := by
  induction fuel generalizing s visited with
  | zero => rfl
  | succ fuel ih =>
    rw [bindName_succ, ← Site.short, ← Site.parts, DepthFirst.search]
    cases hparts : s.parts c with
    | nil =>
      have hexpand : firstWays c s = none := expand_eq_none_iff.2 (.inr hparts)
      simp only [hexpand]
    | cons first others =>
      cases hqualified : isQualified s.written with
      | true =>
        have hexpand : firstWays c s = none := expand_eq_none_iff.2 (.inl hqualified)
        simp only [hexpand, if_true]
      | false =>
        have hexpand : firstWays c s =
            some (first.fullName, Site.basesOfFirst c (first :: others)) :=
          expand_eq_some_iff.2 ⟨hqualified, first, others, hparts, rfl, rfl⟩
        have hfirst : first ∈ c.types := by
          refine mem_types_of_mem_parts (s := s) ?_
          rw [hparts]
          exact List.mem_cons_self
        have hfile : (c.file? first.file).getD s.file = c.fileOf first := by
          rw [hc.file?_eq hfirst, Option.getD_some]
        have hlook (base : String) (visited : List String) :=
          ih ⟨c.fileOf first, base, some first⟩ visited
        simp only [hexpand, hfile, hlook, Bool.false_eq_true, if_false, Site.basesOfFirst]
        split
        · rfl
        · exact DepthFirst.foldl_eq_firstOf (fun _ _ _ => rfl) (fun _ _ => rfl) _ _

variable {fuel : Nat} {file : SourceFile} {a : Attribute}

theorem bindName_isSome_iff (hc : c.Numbered) (hfuel : c.types.length < fuel) :
    (f.bindName c fuel file a.name none []).1.isSome = true ↔
      ∃ t, DepthFirst.Reaches (firstWays c) (fun s => f.known? s.file s.written)
        ⟨file, a.name, none⟩ t := by
  rw [bindName_eq_search hc fuel ⟨file, a.name, none⟩ []]
  exact DepthFirst.search_isSome_iff expand_same expand_mem_types (by rwa [List.length_map])

theorem bindName_eq_some_iff (hc : c.Numbered) (hfuel : c.types.length < fuel) :
    (f.bindName c fuel file a.name none []).1 = some t ↔
      DepthFirst.First (firstWays c) (fun s => f.known? s.file s.written) []
        ⟨file, a.name, none⟩ t := by
  rw [bindName_eq_search hc fuel ⟨file, a.name, none⟩ []]
  exact DepthFirst.search_eq_some_iff expand_same expand_mem_types (by rwa [List.length_map])

/-- More fuel than there are types changes nothing. -/
theorem bindName_fuel (hc : c.Numbered) (hfuel : c.types.length < fuel) :
    (f.bindName c fuel file a.name none []).1 = f.bind? c file a := by
  ext t
  exact (bindName_eq_some_iff hc hfuel).trans (bindName_eq_some_iff hc (Nat.lt_succ_self _)).symm

/-! ## Classes with one part -/

/-- Types with different names have one part each. -/
theorem whole_of_nodup (h : (c.types.map (·.fullName)).Nodup) : Whole c s := by
  intro s' _
  cases hparts : s'.parts c with
  | nil => exact Nat.zero_le 1
  | cons first others =>
    have hone : (c.typeParts first.fullName).length ≤ 1 := by
      have hcount := List.nodup_iff_count_le_one.1 h first.fullName
      rwa [List.count, List.countP_map, List.countP_eq_length_filter] at hcount
    rwa [parts_eq_typeParts hparts]

/-- A class with one part is followed by the same, wherever its bases are read. -/
theorem Whole.agree (h : Whole c s) (s' : Site)
    (hs' : Relation.ReflTransGen (DepthFirst.Step (ways c)) s s') :
    firstWays c s' = ways c s' := by
  rw [step_ways] at hs'
  have hone := h s' hs'
  rw [firstWays, ways, expand, expand]
  cases isQualified s'.written with
  | true => rfl
  | false =>
    cases hparts : s'.parts c with
    | nil => rfl
    | cons first others =>
      rw [hparts, List.length_cons] at hone
      obtain rfl : others = [] := List.length_eq_zero_iff.1 (by omega)
      simp [Site.basesOfFirst, Site.basesOf, Compilation.pooledBases]

/-- An attribute is bound exactly if its name leads to a type of the framework, and to
the type at the end of the first way in the order of the bases, as long as no class on
the way is split.  Binding comes to an end, whichever classes derive from each other. -/
theorem bind?_spec (parse : Parser) (sources : List (Path × String)) (project : ProjectFacts)
    (f : Framework) (file : SourceFile) (a : Attribute)
    (hwhole : Whole (.ofSources parse sources project) ⟨file, a.name, none⟩) :
    let c := Compilation.ofSources parse sources project
    (∀ fuel, c.types.length < fuel →
      (f.bindName c fuel file a.name none []).1 = f.bind? c file a) ∧
    ((f.bind? c file a).isSome = true ↔ ∃ t, f.Leads c ⟨file, a.name, none⟩ t) ∧
    ∀ t, f.bind? c file a = some t ↔
      DepthFirst.First (ways c) (fun s => f.known? s.file s.written) []
        ⟨file, a.name, none⟩ t := by
  intro c
  have hc : c.Numbered := Compilation.numbered_ofSources parse sources project
  have hagree := hwhole.agree
  refine ⟨fun fuel hfuel => bindName_fuel hc hfuel, ?_, fun t => ?_⟩
  · refine (bindName_isSome_iff hc (Nat.lt_succ_self _)).trans (exists_congr fun t => ?_)
    rw [← DepthFirst.Reaches.congr_iff hagree, reaches_ways_iff]
  · refine (bindName_eq_some_iff hc (Nat.lt_succ_self _)).trans ?_
    rw [← DepthFirst.First.congr_iff hagree]

/-! ## Classes that derive from each other -/

/-- Two attribute classes, each a base of the other; the first one has a second base. -/
def cyclicTree : Tree :=
  .node ⟨"compilation_unit", none, true, false, 0, 33⟩
    [.node ⟨"class_declaration", none, true, false, 0, 22⟩
      [.node ⟨"identifier", some "name", true, false, 6, 7⟩ [],
       .node ⟨"base_list", none, true, false, 7, 20⟩
        [.node ⟨"identifier", none, true, false, 8, 9⟩ [],
         .node ⟨"identifier", none, true, false, 10, 20⟩ []],
       .node ⟨"declaration_list", some "body", true, false, 20, 22⟩ []],
     .node ⟨"class_declaration", none, true, false, 22, 33⟩
      [.node ⟨"identifier", some "name", true, false, 28, 29⟩ [],
       .node ⟨"base_list", none, true, false, 29, 31⟩
        [.node ⟨"identifier", none, true, false, 30, 31⟩ []],
       .node ⟨"declaration_list", some "body", true, false, 31, 33⟩ []]]

def cyclicSource : String :=
  "class A:B,TestMethod\x7b\x7dclass B:A\x7b\x7d"

/-- An attribute without arguments. -/
def named (name : String) : Attribute :=
  { (default : Attribute) with name }

theorem bind?_spec_cyclic :
    let c := Compilation.ofSources (fun _ => cyclicTree) [(⟨"T.cs"⟩, cyclicSource)] .empty
    Whole c ⟨default, "B", none⟩ ∧
      DepthFirst.First (ways c) (fun s => known? ⟨true⟩ s.file s.written) []
        ⟨default, "B", none⟩ .testMethod := by
  intro c
  have hnodup : (c.types.map (·.fullName)).Nodup := by decide +kernel
  have hbound : bind? ⟨true⟩ c default (named "B") = some .testMethod := by decide +kernel
  have hwhole : Whole c ⟨default, "B", none⟩ := whole_of_nodup hnodup
  obtain ⟨-, -, hfirst⟩ := bind?_spec (fun _ => cyclicTree) [(⟨"T.cs"⟩, cyclicSource)] .empty
    ⟨true⟩ default (named "B") hwhole
  exact ⟨hwhole, (hfirst .testMethod).1 hbound⟩

/-! ## A class in the framework's namespace -/

/-- An attribute class that is declared in the framework's namespace. -/
def insideTree : Tree :=
  .node ⟨"compilation_unit", none, true, false, 0, 76⟩
    [.node ⟨"namespace_declaration", none, true, false, 0, 76⟩
      [.node ⟨"qualified_name", some "name", true, false, 10, 54⟩ [],
       .node ⟨"declaration_list", some "body", true, false, 54, 76⟩
        [.node ⟨"class_declaration", none, true, false, 55, 75⟩
          [.node ⟨"identifier", some "name", true, false, 61, 62⟩ [],
           .node ⟨"base_list", none, true, false, 62, 73⟩
            [.node ⟨"identifier", none, true, false, 63, 73⟩ []],
           .node ⟨"declaration_list", some "body", true, false, 73, 75⟩ []]]]]

def insideSource : String :=
  "namespace Microsoft.VisualStudio.TestTools.UnitTesting\x7bclass C:TestMethod\x7b\x7d\x7d"

/-- A name that is qualified by the framework's namespace means a type of the framework
or nothing: the class of this name is not gone into, though it leads to a test method. -/
theorem qualified_class_is_not_bound :
    let c := Compilation.ofSources (fun _ => insideTree) [(⟨"T.cs"⟩, insideSource)] .empty
    let a := named "Microsoft.VisualStudio.TestTools.UnitTesting.C"
    (c.types.map (·.fullName)).Nodup ∧
      (∃ part ∈ Site.parts c ⟨default, a.name, none⟩, ∃ s ∈ Site.basesOf c part,
        Ends c ⟨true⟩ s .testMethod) ∧
      bind? ⟨true⟩ c default a = none := by
  intro c a
  have hnodup : (c.types.map (·.fullName)).Nodup := by decide +kernel
  have hparts : (Site.parts c ⟨default, a.name, none⟩).any (fun part =>
      (Site.basesOf c part).any fun s =>
        s.short == FrameworkType.shortName .testMethod && (Name.qualifier? s.written).isNone &&
          (s.parts c).isEmpty) = true := by
    decide +kernel
  have hbound : bind? ⟨true⟩ c default a = none := by decide +kernel
  obtain ⟨part, hpart, hbases⟩ := List.any_eq_true.1 hparts
  obtain ⟨s, hs, hends⟩ := List.any_eq_true.1 hbases
  rw [Bool.and_eq_true, Bool.and_eq_true, beq_iff_eq, Option.isNone_iff_eq_none,
    List.isEmpty_iff] at hends
  obtain ⟨⟨hshort, hqualifier⟩, hdeclared⟩ := hends
  exact ⟨hnodup, ⟨part, hpart, s, hs, hshort.symm, .inr ⟨hqualifier, rfl, hdeclared⟩⟩, hbound⟩

end Framework

end TestLint
