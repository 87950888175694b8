import TestLint.Proofs.Check.FixesApply
import TestLint.Proofs.Framework.Reach
import TestLint.Proofs.Syntax.Name

/-!
# Attributes renamed to `TestMethod`

Where an attribute is bound to `DataTestMethod` and its name is written with this word at the
end, the fix takes `Data` out of the word and leaves all else (`DataTestName`).  The word need
not be a whole segment of the name.  If it is, and the framework is visible, the new name means
the framework's `TestMethod`, unless a class of this name is declared; if the segment begins
with anything else, the attribute is a class that derives from `DataTestMethod`, and the new
name means nothing unless a class happens to be declared under it (`DataTestName.Outcome`).
-/

namespace TestLint

open Text

/-! ## Names that mean types of the framework by themselves -/

namespace Framework

/-- No declared class is behind the name of an attribute, or none is looked for. -/
def ByItself (c : Compilation) (written : String) : Prop :=
  isQualified written = true ∨ declaredClass c (Name.attributeShort written) none = []

/-- A type of the framework may be written in the file as the name is qualified. -/
def Visible (f : Framework) (file : SourceFile) (written : String) : Prop :=
  isQualified written = true ∨ Name.qualifier? written = none ∧ f.inScope file = true

variable {c : Compilation} {f : Framework} {file : SourceFile} {a b : Attribute}
  {t : FrameworkType}

theorem bind?_of_byItself (h : ByItself c a.name) :
    f.bind? c file a = f.known? file a.name := by
  rw [bind?, bindName_succ]
  cases hclass : declaredClass c (Name.attributeShort a.name) none with
  | nil => rfl
  | cons first others =>
    have hqualified : isQualified a.name = true :=
      h.resolve_right fun hnone => by rw [hclass] at hnone; cases hnone
    simp only [hqualified, if_true]

theorem bind?_of_byItself_iff (h : ByItself c a.name) : f.bind? c file a = some t ↔
    t.shortName = Name.attributeShort a.name ∧ f.Visible file a.name := by
  rw [bind?_of_byItself h]
  exact known?_eq_some_iff (s := ⟨file, a.name, none⟩)

/-- Binding looks at the short name and the qualifier of a name only. -/
theorem bind?_congr (hshort : Name.attributeShort a.name = Name.attributeShort b.name)
    (hqualifier : Name.qualifier? a.name = Name.qualifier? b.name) :
    f.bind? c file a = f.bind? c file b := by
  have hqualified : isQualified a.name = isQualified b.name := by
    rw [isQualified, isQualified, hqualifier]
  have hknown : f.known? file a.name = f.known? file b.name := by
    rw [known?, known?, hshort, hqualifier]
  rw [bind?, bind?, bindName_succ, bindName_succ, hshort, hqualified, hknown]

end Framework

namespace FrameworkType

/-- Two types of the framework have names that end in `TestMethod`. -/
theorem shortName_eq_append_iff {t : FrameworkType} {segment : List Char} :
    t.shortName = String.ofList (segment ++ "TestMethod".toList) ↔
      (t = .testMethod ∧ segment = []) ∨ (t = .dataTestMethod ∧ segment = "Data".toList) := by
  have hplain : shortName .testMethod = String.ofList ([] ++ "TestMethod".toList) := by
    decide +kernel
  have hdata : shortName .dataTestMethod =
      String.ofList ("Data".toList ++ "TestMethod".toList) := by
    decide +kernel
  have hends : ∀ t ∈ all, "TestMethod".toList.isSuffixOf t.shortName.toList = true →
      t = .testMethod ∨ t = .dataTestMethod := by
    decide +kernel
  constructor
  · intro h
    have hsuffix : "TestMethod".toList.isSuffixOf t.shortName.toList = true := by
      rw [h, List.isSuffixOf_iff_suffix]
      generalize "TestMethod".toList = word
      rw [String.toList_ofList]
      exact List.suffix_append _ _
    rcases hends t (Framework.mem_all t) hsuffix with rfl | rfl
    · rw [hplain, String.ofList_inj] at h
      exact .inl ⟨rfl, (List.append_cancel_right h).symm⟩
    · rw [hdata, String.ofList_inj] at h
      exact .inr ⟨rfl, (List.append_cancel_right h).symm⟩
  · rintro (⟨rfl, rfl⟩ | ⟨rfl, rfl⟩)
    · exact hplain
    · exact hdata

end FrameworkType

/-! ## Names that end in `DataTestMethod` -/

/-- A source with a name of an attribute, the name cut up at a word near its end. -/
structure DataTestName where
  before : List Char
  kept : List Char
  ending : List Char
  after : List Char
  deriving DecidableEq, Repr, Inhabited

namespace DataTestName

/-- The name with a word in its place. -/
def written (d : DataTestName) (word : String) : String :=
  String.ofList (d.kept ++ (word.toList ++ d.ending))

theorem toList_written (d : DataTestName) (word : String) :
    (d.written word).toList = d.kept ++ (word.toList ++ d.ending) :=
  String.toList_ofList

/-- The source with a word in its place. -/
def source (d : DataTestName) (word : String) : List Char :=
  d.before ++ (d.written word).toList ++ d.after

/-- What stands before the word in the last segment of the name. -/
def segment (d : DataTestName) : List Char :=
  Name.lastSegment d.kept

/-- The attribute under its new name. -/
def renamed (d : DataTestName) (a : Attribute) : Attribute :=
  { a with name := d.written "TestMethod" }

/-- The source holds the name of the attribute, which ends in `DataTestMethod`, with or without
`Attribute`. -/
structure Names (d : DataTestName) (source : List Char) (a : Attribute) : Prop where
  ending : d.ending = [] ∨ d.ending = "Attribute".toList
  source_eq : d.source "DataTestMethod" = source
  name_eq : d.written "DataTestMethod" = a.name
  place : a.nameLocation =
    .ofOffsets (byteSize d.before) (byteSize (d.before ++ a.name.toList)) source

/-- What the new name is and means, compared with the old one. -/
structure Outcome (d : DataTestName) (ctx : CheckedFile) (a : Attribute) : Prop where
  qualifier : Name.qualifier? (d.renamed a).name = Name.qualifier? a.name
  /-- Behind type arguments the change does not count. -/
  arguments : '<' ∈ d.kept → ctx.bind? (d.renamed a) = some .dataTestMethod
  simple : '<' ∉ d.kept →
    Name.simple a.name = String.ofList (d.segment ++ ("DataTestMethod".toList ++ d.ending)) ∧
      Name.simple (d.renamed a).name =
        String.ofList (d.segment ++ ("TestMethod".toList ++ d.ending))
  /-- The framework's own attribute has the word as its last segment. -/
  own : '<' ∉ d.kept → Framework.ByItself ctx.compilation a.name →
    d.segment = [] ∧ ctx.framework.Visible ctx.file a.name
  /-- A new name that no class is declared under means the framework's attribute exactly if the
  word is the last segment and the framework is visible. -/
  bound_iff : '<' ∉ d.kept → Framework.ByItself ctx.compilation (d.renamed a).name →
    (ctx.bind? (d.renamed a) = some .testMethod ↔
      d.segment = [] ∧ ctx.framework.Visible ctx.file a.name)
  /-- In nearly all other cases it means nothing. -/
  lost_iff : '<' ∉ d.kept → Framework.ByItself ctx.compilation (d.renamed a).name →
    (ctx.bind? (d.renamed a) = none ↔
      ¬((d.segment = [] ∨ d.segment = "Data".toList) ∧
        ctx.framework.Visible ctx.file a.name))

variable {d : DataTestName} {ctx : CheckedFile} {a : Attribute} {source : List Char}
  {word : String}

theorem plainWord (hword : word = "DataTestMethod" ∨ word = "TestMethod") {ending : List Char}
    (hending : ending = [] ∨ ending = "Attribute".toList) :
    Name.PlainWord (word.toList ++ ending) := by
  rcases hword with rfl | rfl <;> rcases hending with rfl | rfl <;> decide +kernel

theorem simple_written (hword : word = "DataTestMethod" ∨ word = "TestMethod")
    (hending : d.ending = [] ∨ d.ending = "Attribute".toList) (hkept : '<' ∉ d.kept) :
    Name.simple (d.written word) = String.ofList (d.segment ++ (word.toList ++ d.ending)) := by
  rw [Name.simple, onString, toList_written,
    Name.simpleChars_append hkept (plainWord hword hending), segment]

theorem attributeShort_written (hword : word = "DataTestMethod" ∨ word = "TestMethod")
    (hending : d.ending = [] ∨ d.ending = "Attribute".toList) (hkept : '<' ∉ d.kept) :
    Name.attributeShort (d.written word) = String.ofList (d.segment ++ word.toList) := by
  have hplain := plainWord hword (.inl rfl)
  have hfull := plainWord hword (.inr rfl)
  rw [List.append_nil] at hplain
  have hlength : "Attribute".length ≤ word.toList.length := by
    rcases hword with rfl | rfl <;> decide
  have hsuffix : ¬"Attribute".toList <:+ word.toList := by
    rcases hword with rfl | rfl <;> decide
  rw [written, segment]
  rcases hending with hending | hending
  · rw [hending, List.append_nil]
    exact Name.attributeShort_append hkept hplain hlength hsuffix
  · rw [hending]
    exact Name.attributeShort_append_attribute hkept hplain hfull

theorem Names.qualifier_renamed (h : d.Names source a) :
    Name.qualifier? (d.renamed a).name = Name.qualifier? a.name := by
  rw [← h.name_eq]
  exact Name.qualifier?_append (plainWord (.inr rfl) h.ending) (plainWord (.inl rfl) h.ending) _

/-- A new name that no class is declared under. -/
theorem Names.bind?_renamed_iff (h : d.Names source a) (hkept : '<' ∉ d.kept)
    (hitself : Framework.ByItself ctx.compilation (d.renamed a).name) {t : FrameworkType} :
    ctx.bind? (d.renamed a) = some t ↔
      ((t = .testMethod ∧ d.segment = []) ∨ (t = .dataTestMethod ∧ d.segment = "Data".toList)) ∧
        ctx.framework.Visible ctx.file a.name := by
  have hvisible : ctx.framework.Visible ctx.file (d.renamed a).name ↔
      ctx.framework.Visible ctx.file a.name := by
    rw [Framework.Visible, Framework.Visible, Framework.isQualified, Framework.isQualified,
      h.qualifier_renamed]
  have hshort : Name.attributeShort (d.renamed a).name =
      String.ofList (d.segment ++ "TestMethod".toList) :=
    attributeShort_written (.inr rfl) h.ending hkept
  rw [CheckedFile.bind?, Framework.bind?_of_byItself_iff hitself, hvisible, hshort,
    FrameworkType.shortName_eq_append_iff]

/-- A name that means the framework's `DataTestMethod` by itself. -/
theorem Names.segment_eq_nil (h : d.Names source a) (hkept : '<' ∉ d.kept)
    (hbound : ctx.bind? a = some .dataTestMethod)
    (hitself : Framework.ByItself ctx.compilation a.name) :
    d.segment = [] ∧ ctx.framework.Visible ctx.file a.name := by
  obtain ⟨hshort, hvisible⟩ := (Framework.bind?_of_byItself_iff hitself).1 hbound
  have hword : "DataTestMethod".toList = "Data".toList ++ "TestMethod".toList := by decide
  rw [← h.name_eq, attributeShort_written (.inl rfl) h.ending hkept, hword,
    ← List.append_assoc] at hshort
  rcases FrameworkType.shortName_eq_append_iff.1 hshort with ⟨ht, -⟩ | ⟨-, hsegment⟩
  · cases ht
  · exact ⟨List.append_left_eq_self.1 hsegment, hvisible⟩

theorem Names.outcome (h : d.Names source a) (hbound : ctx.bind? a = some .dataTestMethod) :
    d.Outcome ctx a := by
  refine ⟨h.qualifier_renamed, ?_, ?_, fun hkept hitself => h.segment_eq_nil hkept hbound hitself,
    ?_, ?_⟩
  · intro hkept
    rw [← hbound]
    refine Framework.bind?_congr ?_ h.qualifier_renamed
    rw [← h.name_eq]
    exact Name.attributeShort_append_of_mem hkept _ _
  · intro hkept
    rw [← h.name_eq]
    exact ⟨simple_written (.inl rfl) h.ending hkept, simple_written (.inr rfl) h.ending hkept⟩
  · intro hkept hitself
    rw [h.bind?_renamed_iff hkept hitself]
    simp
  · intro hkept hitself
    rw [Option.eq_none_iff_forall_ne_some]
    simp only [ne_eq, h.bind?_renamed_iff hkept hitself]
    constructor
    · rintro hnone ⟨hsegment | hsegment, hvisible⟩
      · exact hnone .testMethod ⟨.inl ⟨rfl, hsegment⟩, hvisible⟩
      · exact hnone .dataTestMethod ⟨.inr ⟨rfl, hsegment⟩, hvisible⟩
    · rintro hnone t ⟨⟨-, hsegment⟩ | ⟨-, hsegment⟩, hvisible⟩
      · exact hnone ⟨.inl hsegment, hvisible⟩
      · exact hnone ⟨.inr hsegment, hvisible⟩

end DataTestName

/-! ## The fix -/

namespace Check

variable {ctx : CheckedFile} {source : List Char} {a : Attribute} {span : Location}

theorem exists_attribute_of_mem {finding : Finding}
    (hfinding : finding ∈ preferTestMethodOverDataTestMethod ctx) {fix : Fix}
    (hfix : finding.fix = some fix) :
    ∃ m ∈ ctx.methods, ∃ a ∈ m.attributes, ctx.bind? a = some .dataTestMethod ∧
      finding.location = a.location ∧ ∃ span, dataTestSpan? a.name a.nameLocation = some span ∧
        fix.edits = [.replace span "Test"] := by
  obtain ⟨m, hm, hfinding⟩ := List.mem_flatMap.1 hfinding
  obtain ⟨a, ha, rfl⟩ := List.mem_map.1 hfinding
  obtain ⟨ha, hbound⟩ := List.mem_filter.1 ha
  refine ⟨m, hm, a, ha, beq_iff_eq.1 hbound, ?_⟩
  cases hspan : dataTestSpan? a.name a.nameLocation with
  | none =>
    rw [hspan] at hfix
    cases hfix
  | some span =>
    rw [hspan] at hfix
    cases hfix
    exact ⟨rfl, span, rfl, rfl⟩

/-- The fix takes `Data` out of the name's last word. -/
theorem exists_names (hsize : byteSize source < Position.wordSize) (ha : a.NamePlaced source)
    (hspan : dataTestSpan? a.name a.nameLocation = some span) :
    ∃ d : DataTestName, d.Names source a ∧
      Edit.apply (String.ofList source) [.replace span "Test"] =
        .ok (String.ofList (d.source "TestMethod")) := by
  obtain ⟨before, kept, ending, after, hending, hsource, hname, hplace, hcovers⟩ :=
    dataTestSpan?_covers ha hspan
  have hold : "DataTestMethod".toList = "DataTest".toList ++ "Method".toList := by decide
  have hnew : "TestMethod".toList = "Test".toList ++ "Method".toList := by decide
  refine ⟨⟨before, kept, ending, after⟩, ⟨hending, ?_, ?_, hplace⟩, ?_⟩
  · rw [← hsource, DataTestName.source, DataTestName.toList_written, hold]
    simp only [List.append_assoc]
  · rw [DataTestName.written, ← String.ofList_toList (s := a.name), ← hname, hold]
    simp only [List.append_assoc]
  · subst hsource
    rw [Edit.apply_between (TextEdit.resolves_replace hsize hcovers "Test") rfl rfl,
      DataTestName.source, DataTestName.toList_written, hnew]
    simp only [List.append_assoc]

/-- Every fix renames an attribute that is bound to `DataTestMethod`. -/
theorem preferTestMethod_renames {parse : Parser} {sources : List (Path × String)}
    {project : ProjectFacts} {framework : Framework} {file : SourceFile}
    (hfile : file ∈ (Compilation.ofSources parse sources project).files)
    (hsize : byteSize file.source < Position.wordSize) (hnested : file.tree.Nested file.source)
    (hnames : file.tree.NamesTrimmed file.source) {finding : Finding}
    (hfinding : finding ∈ preferTestMethodOverDataTestMethod
      ⟨Compilation.ofSources parse sources project, framework, file⟩)
    {fix : Fix} (hfix : finding.fix = some fix) :
    let ctx : CheckedFile := ⟨Compilation.ofSources parse sources project, framework, file⟩
    ∃ m ∈ ctx.methods, ∃ a ∈ m.attributes, ctx.bind? a = some .dataTestMethod ∧
      finding.location = a.location ∧ ∃ d : DataTestName, d.Names file.source a ∧
        Edit.apply (String.ofList file.source) fix.edits =
          .ok (String.ofList (d.source "TestMethod")) ∧ d.Outcome ctx a := by
  intro ctx
  obtain ⟨m, hm, a, ha, hbound, hlocation, span, hspan, hedits⟩ :=
    exists_attribute_of_mem hfinding hfix
  have hplaced : a.NamePlaced file.source := by
    obtain ⟨⟨⟨path, text⟩, id⟩, -, rfl⟩ := List.mem_map.1 hfile
    obtain ⟨t, ht, hm⟩ := List.mem_flatMap.1 hm
    obtain ⟨n, hn, hread⟩ := FileDeclarations.exists_method_node ht hm
    exact Method.attributes_namePlaced (hnested.of_holds hn) (hnames.of_holds hn) hread a ha
  obtain ⟨d, hd, happly⟩ := exists_names hsize hplaced hspan
  rw [hedits]
  exact ⟨m, hm, a, ha, hbound, hlocation, d, hd, happly, hd.outcome hbound⟩

/-- A class from an offset on, with one method under an attribute whose name has this length. -/
def markedClass (start length : Nat) : Tree :=
  let name := start + 9
  let returns := name + length + 1
  .node ⟨"class_declaration", none, true, false, start, returns + 11⟩
    [.node ⟨"identifier", some "name", true, false, start + 6, start + 7⟩ [],
     .node ⟨"declaration_list", some "body", true, false, start + 7, returns + 11⟩
      [.node ⟨"method_declaration", none, true, false, start + 8, returns + 10⟩
        [.node ⟨"attribute_list", none, true, false, start + 8, returns⟩
          [.node ⟨"attribute", none, true, false, name, name + length⟩
            [.node ⟨"identifier", some "name", true, false, name, name + length⟩ []]],
         .node ⟨"predefined_type", some "returns", true, false, returns, returns + 4⟩ [],
         .node ⟨"identifier", some "name", true, false, returns + 5, returns + 6⟩ [],
         .node ⟨"parameter_list", some "parameters", true, false, returns + 6, returns + 8⟩ [],
         .node ⟨"block", some "body", true, false, returns + 8, returns + 10⟩ []]]]

/-- A source as the one file of a compilation that refers to the framework. -/
def markedContext (source : String) (classes : List Tree) : CheckedFile :=
  let parse : Parser := fun text =>
    .node ⟨"compilation_unit", none, true, false, 0, byteSize text.toList⟩ classes
  let path : Path := ⟨"T.cs"⟩
  ⟨.ofSources parse [(path, source)] .empty, ⟨true⟩, .read parse 0 path source⟩

/-- What is found at an attribute between two columns, `Data` being written at the third. -/
def markedFinding (start stop data : Nat) : Finding :=
  Finding.new ⟨1, start, some 1, some stop, none⟩ "Use '[TestMethod]' instead of '[DataTestMethod]'"
    |>.withFix ⟨"Replace 'DataTestMethod' with 'TestMethod'", [⟨1, data, 1, data + 8, "Test"⟩]⟩

theorem preferTestMethod_renames_plain :
    let ctx := markedContext "class T\x7b[DataTestMethod]void M()\x7b\x7d\x7d" [markedClass 0 14]
    markedFinding 10 24 10 ∈ preferTestMethodOverDataTestMethod ctx ∧
      ∃ a d, DataTestName.Names d ctx.file.source a ∧ d.Outcome ctx a ∧
        ∃ fix, (markedFinding 10 24 10).fix = some fix ∧
          Edit.apply (String.ofList ctx.file.source) fix.edits =
            .ok (String.ofList (d.source "TestMethod")) := by
  intro ctx
  have hfinding : markedFinding 10 24 10 ∈ preferTestMethodOverDataTestMethod ctx := by
    decide +kernel
  have hsize : byteSize ctx.file.source < Position.wordSize := by decide +kernel
  have hnested : ctx.file.tree.Nested ctx.file.source := by decide +kernel
  have hnames : ctx.file.tree.NamesTrimmed ctx.file.source := by decide +kernel
  obtain ⟨m, -, a, -, -, -, d, hd, happly, houtcome⟩ :=
    preferTestMethod_renames (List.mem_singleton.2 rfl) hsize hnested hnames hfinding rfl
  exact ⟨hfinding, a, d, hd, houtcome, _, rfl, happly⟩

/-- A class that derives from `DataTestMethod` and has the word at the end of its name: the
attribute is renamed to something that is declared nowhere. -/
theorem derived_name_is_lost :
    let declared : Tree := .node ⟨"class_declaration", none, true, false, 0, 57⟩
      [.node ⟨"identifier", some "name", true, false, 6, 31⟩ [],
       .node ⟨"base_list", none, true, false, 31, 55⟩
        [.node ⟨"identifier", none, true, false, 32, 55⟩ []],
       .node ⟨"declaration_list", some "body", true, false, 55, 57⟩ []]
    let ctx := markedContext ("class MyDataTestMethodAttribute:DataTestMethodAttribute\x7b\x7d" ++
      "class T\x7b[MyDataTestMethod]void M()\x7b\x7d\x7d") [declared, markedClass 57 16]
    preferTestMethodOverDataTestMethod ctx = [markedFinding 67 83 69] ∧
      Edit.apply (String.ofList ctx.file.source) [⟨1, 69, 1, 77, "Test"⟩] =
        .ok ("class MyDataTestMethodAttribute:DataTestMethodAttribute\x7b\x7d" ++
          "class T\x7b[MyTestMethod]void M()\x7b\x7d\x7d") ∧
      ctx.bind? { (default : Attribute) with name := "MyTestMethod" } = none := by
  intro declared ctx
  refine ⟨by decide +kernel, by decide +kernel, by decide +kernel⟩

end Check

end TestLint
