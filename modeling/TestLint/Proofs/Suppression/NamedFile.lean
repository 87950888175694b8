import TestLint.Proofs.Check.TestMethodName
import TestLint.Proofs.Framework.Reach
import TestLint.Proofs.StableOrder
import TestLint.Suppression.External

/-!
# The file that a diagnostic names

A diagnostic of another tool is judged by one file: the first one whose path overlaps the
reported path, one of the two ending in the other (`Compilation.IsReported`).  A file with
the very path that is reported is such a file, but not always the first.

Where it is the first, it decides alone.  Attributes are bound by what is declared in the
compilation, and no path is looked at (`Compilation.explains_moved`).
-/

namespace TestLint

/-! ## Paths that overlap -/

/-- One of the paths ends in the other, component by component. -/
def Path.Overlaps (p q : Path) : Prop :=
  p.components <:+ q.components ∨ q.components <:+ p.components

instance (p q : Path) : Decidable (p.Overlaps q) :=
  inferInstanceAs (Decidable (_ ∨ _))

theorem Path.overlaps_iff_endsWith {p q : Path} :
    p.Overlaps q ↔ (p.endsWith q || q.endsWith p) = true := by
  rw [Bool.or_eq_true, endsWith, endsWith, List.isSuffixOf_iff_suffix, List.isSuffixOf_iff_suffix,
    Overlaps, or_comm]

theorem Path.overlaps_of_same {p q : Path} (h : p.same q = true) : p.Overlaps q := by
  rw [same, beq_iff_eq] at h
  exact .inl (h ▸ List.suffix_rfl)

/-! ## Files in other places -/

/-- The file at another path. -/
def SourceFile.movedTo (file : SourceFile) (path : Path) : SourceFile :=
  { file with path }

namespace Compilation

/-- The same files, each at the path that is given for it. -/
def moved (c : Compilation) (place : SourceFile → Path) : Compilation :=
  { c with files := c.files.map fun file => file.movedTo (place file) }

variable (c : Compilation) (place : SourceFile → Path)

@[simp] theorem types_moved : (c.moved place).types = c.types := by
  rw [types, moved, List.flatMap_map]
  rfl

theorem file?_moved (id : FileId) :
    (c.moved place).file? id = (c.file? id).map fun file => file.movedTo (place file) :=
  List.getElem?_map

theorem typeParts_moved (fullName : String) :
    (c.moved place).typeParts fullName = c.typeParts fullName := by
  rw [typeParts, types_moved, typeParts]

theorem resolve_moved (written : String) (context : Option TypeDeclaration) :
    (c.moved place).resolve written context = c.resolve written context := by
  simp only [resolve, typeParts_moved, candidates, types_moved]

theorem ofCompilation?_moved :
    Framework.ofCompilation? (c.moved place) = Framework.ofCompilation? c := by
  simp only [Framework.ofCompilation?, hasGlobalImport, moved, List.any_map]
  rfl

end Compilation

namespace Framework

variable (f : Framework) (c : Compilation) (place : SourceFile → Path)

theorem declaredClass_moved (short : String) (context : Option TypeDeclaration) :
    declaredClass (c.moved place) short context = declaredClass c short context := by
  simp only [declaredClass, Compilation.resolve_moved]

/-- A name leads to the same type of the framework wherever the files are. -/
theorem bindName_moved (fuel : Nat) (file : SourceFile) (path : Path) (written : String)
    (context : Option TypeDeclaration) (visited : List String) :
    f.bindName (c.moved place) fuel (file.movedTo path) written context visited =
      f.bindName c fuel file written context visited := by
  -- the file of a declared class has moved too, to a path of its own
  induction fuel generalizing file path written context visited with
  | zero => rw [bindName_zero, bindName_zero]
  | succ fuel ih =>
    have hknown : f.known? (file.movedTo path) written = f.known? file written := rfl
    rw [bindName_succ, bindName_succ, declaredClass_moved, hknown]
    cases declaredClass c (Name.attributeShort written) context with
    | nil => rfl
    | cons first others =>
      have hlook (base : String) (visited : List String) :
          f.bindName (c.moved place) fuel
              (((c.moved place).file? first.file).getD (file.movedTo path)) base (some first)
              visited =
            f.bindName c fuel ((c.file? first.file).getD file) base (some first) visited := by
        rw [Compilation.file?_moved]
        cases c.file? first.file with
        | none => exact ih ..
        | some declaring => exact ih ..
      simp only [hlook]

theorem has_moved (file : SourceFile) (path : Path) (attributes : List Attribute)
    (target : FrameworkType) :
    f.has (c.moved place) (file.movedTo path) attributes target =
      f.has c file attributes target := by
  simp only [has, find?, attributeIs, bind?, bindName_moved, Compilation.types_moved]

end Framework

namespace CheckedFile

variable (c : Compilation) (f : Framework) (file : SourceFile) (place : SourceFile → Path)
  (path : Path)

theorem isTestClass_moved (t : TypeDeclaration) :
    isTestClass ⟨c.moved place, f, file.movedTo path⟩ t = isTestClass ⟨c, f, file⟩ t := by
  have hpart (part : TypeDeclaration) :
      hasIn ⟨c.moved place, f, file.movedTo path⟩
          (fileOf ⟨c.moved place, f, file.movedTo path⟩ part) part.attributes .testClass =
        hasIn ⟨c, f, file⟩ (fileOf ⟨c, f, file⟩ part) part.attributes .testClass := by
    simp only [fileOf, Compilation.file?_moved, hasIn]
    cases c.file? part.file with
    | none => exact f.has_moved ..
    | some declaring => exact f.has_moved ..
  simp only [isTestClass, Compilation.typeParts_moved, hpart, has, Framework.has_moved]

/-- Whether a diagnostic is explained does not hang on where the files are. -/
theorem explains_moved (line column : Nat) (t : TypeDeclaration) (s : Suppressor) :
    s.explains ⟨c.moved place, f, file.movedTo path⟩ line column t =
      s.explains ⟨c, f, file⟩ line column t := by
  cases s <;> simp only [Suppressor.explains, isTestMethod, isFixtureMethod, has,
    Framework.has_moved, isTestClass_moved]

end CheckedFile

/-! ## The judged file -/

namespace Compilation

/-- The file that a reported path is taken for: the first whose path overlaps it. -/
def IsReported (c : Compilation) (path : Path) (file : SourceFile) : Prop :=
  ∃ before after, c.files = before ++ file :: after ∧ file.path.Overlaps path ∧
    ∀ other ∈ before, ¬other.path.Overlaps path

/-- The suppressor is the one for the diagnostic, and something in the file explains it. -/
def Explains (c : Compilation) (file : SourceFile) (d : ExternalDiagnostic) (s : Suppressor) :
    Prop :=
  ∃ framework, Framework.ofCompilation? c = some framework ∧ Suppressor.ofId? d.id = some s ∧
    ∃ t ∈ file.declarations.types, s.explains ⟨c, framework, file⟩ d.line d.column t = true

/-- The suppressor of a diagnostic that does not apply. -/
def verdict? (c : Compilation) (d : ExternalDiagnostic) : Option Suppressor :=
  (Framework.ofCompilation? c).bind fun framework => c.suppressor? framework d

variable {c : Compilation} {d : ExternalDiagnostic} {s : Suppressor} {file : SourceFile}

theorem reportedFile?_eq_some_iff {path : Path} :
    c.reportedFile? path = some file ↔ c.IsReported path file := by
  rw [reportedFile?, List.find?_eq_some_iff_append, IsReported]
  simp only [Bool.not_eq_true', ← Bool.not_eq_true, ← Path.overlaps_iff_endsWith]
  constructor
  · rintro ⟨hfile, before, after, hfiles, hbefore⟩
    exact ⟨before, after, hfiles, hfile, hbefore⟩
  · rintro ⟨before, after, hfiles, hfile, hbefore⟩
    exact ⟨hfile, before, after, hfiles, hbefore⟩

theorem suppressed_eq (c : Compilation) (ds : List ExternalDiagnostic) :
    c.suppressed ds = ds.filterMap fun d => (c.verdict? d).map (⟨d, ·⟩) := by
  unfold suppressed verdict?
  cases Framework.ofCompilation? c with
  | none => simp
  | some framework => simp only [Option.bind_some]

theorem verdict?_eq_some_iff :
    c.verdict? d = some s ↔ ∃ file, c.IsReported d.path file ∧ c.Explains file d s := by
  simp only [verdict?, suppressor?, Explains, Option.bind_eq_bind, Option.bind_eq_some_iff,
    Option.ite_none_right_eq_some, Option.some.injEq, List.any_eq_true,
    ← reportedFile?_eq_some_iff]
  constructor
  · rintro ⟨framework, hframework, suppressor, hid, file, hfile, hexplains, rfl⟩
    exact ⟨file, hfile, framework, hframework, hid, hexplains⟩
  · rintro ⟨file, hfile, framework, hframework, hid, hexplains⟩
    exact ⟨framework, hframework, s, hid, file, hfile, hexplains, rfl⟩

theorem explains_moved_iff (place : SourceFile → Path) (path : Path) :
    (c.moved place).Explains (file.movedTo path) d s ↔ c.Explains file d s := by
  simp only [Explains, ofCompilation?_moved, CheckedFile.explains_moved]
  rfl

theorem isReported_unique {path : Path} {other : SourceFile} (h : c.IsReported path file)
    (h' : c.IsReported path other) : file = other := by
  rw [← reportedFile?_eq_some_iff] at h h'
  exact Option.some.inj (h.symm.trans h')

/-- A file without overlapping files before it decides alone, wherever the files are. -/
theorem verdict?_moved {before after : List SourceFile}
    (hfiles : c.files = before ++ file :: after) (place : SourceFile → Path)
    (hsame : (place file).same d.path = true)
    (hbefore : ∀ other ∈ before, ¬(place other).Overlaps d.path) :
    (c.moved place).verdict? d = some s ↔ c.Explains file d s := by
  have hreported : (c.moved place).IsReported d.path (file.movedTo (place file)) := by
    refine ⟨before.map fun other => other.movedTo (place other),
      after.map fun other => other.movedTo (place other), ?_, Path.overlaps_of_same hsame, ?_⟩
    · rw [moved, hfiles, List.map_append, List.map_cons]
    · exact List.forall_mem_map.2 hbefore
  rw [verdict?_eq_some_iff, ← explains_moved_iff place (place file)]
  constructor
  · rintro ⟨other, hother, hexplains⟩
    rwa [isReported_unique hreported hother]
  · exact fun hexplains => ⟨_, hreported, hexplains⟩

theorem moved_path (c : Compilation) : c.moved (·.path) = c := by
  have hstay : (fun file : SourceFile => file.movedTo file.path) = id := rfl
  rw [moved, hstay, List.map_id]

/-- A diagnostic is judged by the first file whose path overlaps the reported one.  That is the
file with the reported path as long as no other overlapping file comes before it; then this
file alone decides, wherever all the others are. -/
theorem suppressed_named (c : Compilation) (ds : List ExternalDiagnostic) :
    c.suppressed ds = ds.filterMap (fun d => (c.verdict? d).map (⟨d, ·⟩)) ∧
    ((c.suppressed ds).map (·.diagnostic)).Sublist ds ∧
    (∀ d s, c.verdict? d = some s ↔ ∃ file, c.IsReported d.path file ∧ c.Explains file d s) ∧
    ∀ before file after d, c.files = before ++ file :: after → file.path.same d.path = true →
      ((∀ other ∈ before, ¬other.path.Overlaps d.path) →
        (∀ s, c.verdict? d = some s ↔ c.Explains file d s) ∧
        ∀ place : SourceFile → Path, (place file).same d.path = true →
          (∀ other ∈ before, ¬(place other).Overlaps d.path) →
          (c.moved place).verdict? d = c.verdict? d) ∧
      ((∃ other ∈ before, other.path.Overlaps d.path) →
        ∃ other ∈ before, c.IsReported d.path other) := by
  refine ⟨suppressed_eq c ds, ?_, fun d s => verdict?_eq_some_iff, ?_⟩
  · rw [suppressed_eq]
    refine map_filterMap_sublist (fun d suppressed h => ?_) ds
    obtain ⟨s, -, rfl⟩ := Option.map_eq_some_iff.1 h
    rfl
  · intro before file after d hfiles hsame
    refine ⟨fun hbefore => ?_, ?_⟩
    · have hverdict (s : Suppressor) : c.verdict? d = some s ↔ c.Explains file d s := by
        have hstay := verdict?_moved (s := s) hfiles (·.path) hsame hbefore
        rwa [moved_path] at hstay
      refine ⟨hverdict, fun place hplace hplaces => Option.ext fun s => ?_⟩
      rw [hverdict, verdict?_moved hfiles place hplace hplaces]
    · rintro ⟨earlier, hmem, hoverlaps⟩
      cases hfind : before.find? fun other =>
          other.path.endsWith d.path || d.path.endsWith other.path with
      | none =>
        exact absurd (Path.overlaps_iff_endsWith.1 hoverlaps)
          (List.find?_eq_none.1 hfind earlier hmem)
      | some other =>
        refine ⟨other, List.mem_of_find?_eq_some hfind, reportedFile?_eq_some_iff.1 ?_⟩
        rw [reportedFile?, hfiles, List.find?_append, hfind, Option.some_or]

def emptyFile (path : Path) : SourceFile :=
  .read (fun _ => .node ⟨"compilation_unit", none, true, false, 0, 0⟩ []) 0 path ""

/-- A file with one test. -/
def testFile (path : Path) : SourceFile :=
  .read
    (fun text => .node ⟨"compilation_unit", none, true, false, 0, text.utf8ByteSize⟩
      [Check.markedClass 0 10])
    1 path "class T\x7b[TestMethod]void M()\x7b\x7d\x7d"

/-- A project that refers to the framework, with an empty file before one with a test. -/
def emptyAndTest (empty test : Path) : Compilation :=
  ⟨[emptyFile empty, testFile test],
    { ProjectFacts.empty with references := some true, implicitImport := true }⟩

/-- What another tool says of the name of the test. -/
def aboutTest : ExternalDiagnostic :=
  ⟨"CA1707", ⟨"T.cs"⟩, 1, 26, none⟩

/-- The file with the test is the only one that the path may mean, and still is when the other
one is below a directory. -/
theorem suppressed_named_beside :
    let c := emptyAndTest ⟨"B.cs"⟩ ⟨"T.cs"⟩
    c.Explains (testFile ⟨"T.cs"⟩) aboutTest .underscoreInTestMethodName ∧
      (c.moved fun file => if file.id = 0 then ⟨"lib/B.cs"⟩ else file.path).verdict? aboutTest =
        some .underscoreInTestMethodName := by
  intro c
  have hverdict : c.verdict? aboutTest = some .underscoreInTestMethodName := by decide +kernel
  obtain ⟨-, -, -, hnamed⟩ := suppressed_named c []
  obtain ⟨hexplains, hmoved⟩ :=
    (hnamed [emptyFile ⟨"B.cs"⟩] (testFile ⟨"T.cs"⟩) [] aboutTest rfl (by decide +kernel)).1
      (by decide +kernel)
  refine ⟨(hexplains _).1 hverdict, ?_⟩
  rw [hmoved _ (by decide +kernel) (by decide +kernel), hverdict]

/-- A file below a directory comes before the one with the path that is reported.  The
diagnostic is judged by the first, which explains nothing, and stays. -/
theorem named_file_is_passed_over :
    let c := emptyAndTest ⟨"lib/T.cs"⟩ ⟨"T.cs"⟩
    c.suppressed [aboutTest] = [] ∧
      ∃ file ∈ c.files, file.path = aboutTest.path ∧
        c.Explains file aboutTest .underscoreInTestMethodName := by
  intro c
  refine ⟨by decide +kernel, testFile ⟨"T.cs"⟩, List.mem_cons_of_mem _ List.mem_cons_self, rfl,
    ⟨true⟩, by decide +kernel, by decide +kernel, ?_⟩
  have hexplained : (testFile ⟨"T.cs"⟩).declarations.types.any (fun t =>
      Suppressor.underscoreInTestMethodName.explains ⟨c, ⟨true⟩, testFile ⟨"T.cs"⟩⟩ 1 26 t) =
        true := by
    decide +kernel
  exact List.any_eq_true.1 hexplained

end Compilation

end TestLint
