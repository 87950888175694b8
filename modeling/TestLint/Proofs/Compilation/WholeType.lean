import TestLint.Proofs.Compilation.BaseTypes
import TestLint.Proofs.Compilation.Numbering
import TestLint.Proofs.SortedNames

/-!
# Types as a whole

A type is spread over the files in parts.  As a whole it is the list of its parts in the
order of the files, each with its file; there is one such type for each full name
(`Compilation.map_fullName_wholeTypes`).

Nothing marks the first part of a type: it is the one that is found when its full name is
looked up.  Where no two declarations have one handle, the declarations that are found in
this way are the first parts of the types, one for each full name (`filter_isFirst`,
`Compilation.filter_isPrimary`).
-/

namespace TestLint

/-! ## The first items of their keys -/

section

variable {α κ ι : Type} [DecidableEq κ] [DecidableEq ι]

/-- Items with the key of the first one do not matter when another key is looked up. -/
theorem find?_other_key {key : α → κ} {a : α} {k : κ} (hk : k ≠ key a) (rest : List α) :
    (a :: rest).find? (key · == k) = (rest.filter (!key · == key a)).find? (key · == k) := by
  rw [List.find?_cons_of_neg (by simpa using Ne.symm hk), List.find?_filter]
  congr 1
  funext b
  by_cases hb : key b = k
  · simp [hb, hk]
  · simp [hb]

/-- Where the handles of a list are distinct, the items that have the handle of the first item
of their key are the first items, one for each key. -/
theorem filter_isFirst (key : α → κ) (handle : α → ι) {l : List α}
    (hdistinct : (l.map handle).Nodup) :
    l.filter (fun a => (l.find? (key · == key a)).all (handle · == handle a)) =
      (l.map key).eraseDups.filterMap fun k => l.find? (key · == k) := by
  induction hlength : l.length using Nat.strongRecOn generalizing l with
  | ind n ih =>
    cases l with
    | nil => rfl
    | cons a rest =>
      -- all items with the key of `a` are dropped together
      let others := rest.filter (!key · == key a)
      have hshorter : others.length < n := by
        rw [← hlength, List.length_cons]
        exact Nat.lt_succ_of_le (List.length_filter_le _ rest)
      rw [List.map_cons, List.nodup_cons] at hdistinct
      have hothers := ih _ hshorter (hdistinct.2.sublist (List.filter_sublist.map handle)) rfl
      have hkeys : (rest.map key).filter (fun k => !k == key a) = others.map key := by
        rw [List.filter_map]
        rfl
      have hleft : rest.filter (fun b =>
          ((a :: rest).find? (key · == key b)).all (handle · == handle b)) =
            others.filter fun b => (others.find? (key · == key b)).all (handle · == handle b) := by
        rw [List.filter_filter]
        refine List.filter_congr fun b hb => ?_
        by_cases hkey : key b = key a
        · have hhandle : handle a ≠ handle b :=
            fun heq => hdistinct.1 (heq ▸ List.mem_map_of_mem hb)
          simp [hkey, hhandle]
        · rw [find?_other_key hkey]
          simp [hkey, others]
      have hright : (others.map key).eraseDups.filterMap (fun k => others.find? (key · == k)) =
          (others.map key).eraseDups.filterMap fun k => (a :: rest).find? (key · == k) := by
        refine List.filterMap_congr fun k hk => ?_
        rw [List.mem_eraseDups, List.mem_map] at hk
        obtain ⟨b, hb, rfl⟩ := hk
        exact (find?_other_key (by simpa using (List.mem_filter.1 hb).2) rest).symm
      rw [List.map_cons, List.eraseDups_cons, hkeys, List.filterMap_cons,
        List.find?_cons_of_pos (by simp), List.filter_cons_of_pos (by simp), hleft, hothers, hright]

end

/-! ## Parts and whole types -/

/-- A part of a type, and the file that declares it. -/
structure Part where
  file : SourceFile
  declaration : TypeDeclaration
  deriving Inhabited

/-- A type with all its parts in the order of the files. -/
structure WholeType where
  first : Part
  others : List Part
  deriving Inhabited

namespace WholeType

def parts (w : WholeType) : List Part :=
  w.first :: w.others

/-- The full name of the first part, which is that of all parts. -/
def fullName (w : WholeType) : String :=
  w.first.declaration.fullName

/-- The type that has these parts. -/
def ofParts? : List Part → Option WholeType
  | [] => none
  | first :: others => some ⟨first, others⟩

theorem map_first_ofParts? (parts : List Part) : (ofParts? parts).map (·.first) = parts.head? := by
  cases parts <;> rfl

theorem parts_of_ofParts? {parts : List Part} {w : WholeType} (h : ofParts? parts = some w) :
    w.parts = parts := by
  cases parts with
  | nil => cases h
  | cons first others =>
    cases h
    rfl

end WholeType

namespace Compilation

/-- The parts of all types in the order of the files. -/
def allParts (c : Compilation) : List Part :=
  c.files.flatMap fun file => file.declarations.types.map (⟨file, ·⟩)

/-- The parts of the type with a full name. -/
def partsOf (c : Compilation) (fullName : String) : List Part :=
  c.allParts.filter (·.declaration.fullName == fullName)

/-- The full names of all types in the order of their first parts, each once. -/
def typeNames (c : Compilation) : List String :=
  (c.types.map (·.fullName)).eraseDups

/-- All types, one for each full name. -/
def wholeTypes (c : Compilation) : List WholeType :=
  c.typeNames.filterMap fun fullName => WholeType.ofParts? (c.partsOf fullName)

variable {c : Compilation} {part : Part} {fullName : String} {w : WholeType}

theorem map_declaration_allParts (c : Compilation) :
    c.allParts.map (·.declaration) = c.types := by
  simp only [allParts, types, List.map_flatMap, List.map_map, Function.comp_def, List.map_id']

theorem mem_allParts : part ∈ c.allParts ↔
    part.file ∈ c.files ∧ part.declaration ∈ part.file.declarations.types := by
  obtain ⟨file, declaration⟩ := part
  simp only [allParts, List.mem_flatMap, List.mem_map, Part.mk.injEq]
  constructor
  · rintro ⟨_, hfile, _, hdeclaration, rfl, rfl⟩
    exact ⟨hfile, hdeclaration⟩
  · rintro ⟨hfile, hdeclaration⟩
    exact ⟨file, hfile, declaration, hdeclaration, rfl, rfl⟩

theorem mem_partsOf : part ∈ c.partsOf fullName ↔
    part ∈ c.allParts ∧ part.declaration.fullName = fullName := by
  rw [partsOf, List.mem_filter, beq_iff_eq]

theorem mem_types_of_mem_allParts (h : part ∈ c.allParts) : part.declaration ∈ c.types :=
  map_declaration_allParts c ▸ List.mem_map_of_mem h

theorem exists_part_of_mem_types {t : TypeDeclaration} (h : t ∈ c.types) :
    ∃ part ∈ c.allParts, part.declaration = t := by
  rw [← map_declaration_allParts] at h
  exact List.mem_map.1 h

theorem map_declaration_partsOf (c : Compilation) (fullName : String) :
    (c.partsOf fullName).map (·.declaration) = c.typeParts fullName := by
  rw [typeParts, ← map_declaration_allParts, List.filter_map]
  rfl

/-- The number that a part knows its file by leads to the file. -/
theorem Numbered.file?_part (h : c.Numbered) (hpart : part ∈ c.allParts) :
    c.file? part.declaration.file = some part.file := by
  obtain ⟨hfile, hdeclaration⟩ := mem_allParts.1 hpart
  rw [h.typeFile _ hfile _ hdeclaration, h.file?_id hfile]

theorem nodup_typeNames (c : Compilation) : c.typeNames.Nodup := by
  have hpairwise : (c.types.map (·.fullName)).Pairwise fun _ _ => True :=
    List.pairwise_of_forall fun _ _ => trivial
  exact (pairwise_eraseDups hpairwise).imp fun h => h.2

theorem exists_mem_partsOf (h : fullName ∈ c.typeNames) : ∃ part, part ∈ c.partsOf fullName := by
  rw [typeNames, List.mem_eraseDups, List.mem_map] at h
  obtain ⟨t, ht, hname⟩ := h
  obtain ⟨part, hpart, rfl⟩ := exists_part_of_mem_types ht
  exact ⟨part, mem_partsOf.2 ⟨hpart, hname⟩⟩

theorem fullName_of_ofParts? (h : WholeType.ofParts? (c.partsOf fullName) = some w) :
    w.fullName = fullName := by
  have hfirst : w.first ∈ c.partsOf fullName :=
    WholeType.parts_of_ofParts? h ▸ List.mem_cons_self
  exact (mem_partsOf.1 hfirst).2

/-- There is one type for each full name. -/
theorem map_fullName_wholeTypes (c : Compilation) :
    c.wholeTypes.map (·.fullName) = c.typeNames := by
  have hname : ∀ fullName ∈ c.typeNames,
      (WholeType.ofParts? (c.partsOf fullName)).map (·.fullName) = some fullName := by
    intro fullName h
    obtain ⟨part, hpart⟩ := exists_mem_partsOf h
    cases hw : WholeType.ofParts? (c.partsOf fullName) with
    | none =>
      cases hparts : c.partsOf fullName with
      | nil => rw [hparts] at hpart; cases hpart
      | cons first others => rw [hparts] at hw; cases hw
    | some w => rw [Option.map_some, fullName_of_ofParts? hw]
  rw [wholeTypes, List.map_filterMap, List.filterMap_congr hname, List.filterMap_some]

theorem map_first_wholeTypes (c : Compilation) : c.wholeTypes.map (·.first) =
    c.typeNames.filterMap fun fullName =>
      c.allParts.find? (·.declaration.fullName == fullName) := by
  rw [wholeTypes, List.map_filterMap]
  refine List.filterMap_congr fun fullName _ => ?_
  rw [WholeType.map_first_ofParts?, partsOf, List.head?_filter]

/-- A type consists of all parts with its full name. -/
theorem parts_of_mem_wholeTypes (h : w ∈ c.wholeTypes) : w.parts = c.partsOf w.fullName := by
  obtain ⟨fullName, -, hw⟩ := List.mem_filterMap.1 h
  rw [fullName_of_ofParts? hw]
  exact WholeType.parts_of_ofParts? hw

theorem mem_parts_iff (h : w ∈ c.wholeTypes) : part ∈ w.parts ↔
    part ∈ c.allParts ∧ part.declaration.fullName = w.fullName := by
  rw [parts_of_mem_wholeTypes h, mem_partsOf]

/-- The first part of a type is what is found under its full name. -/
theorem type?_fullName (h : w ∈ c.wholeTypes) : c.type? w.fullName = some w.first.declaration := by
  have hparts := parts_of_mem_wholeTypes h
  rw [partsOf, WholeType.parts] at hparts
  rw [type?, ← map_declaration_allParts, List.find?_map, Function.comp_def, ← List.head?_filter,
    ← hparts]
  rfl

/-- The parts whose handle is that of the first part with their full name are the first parts
of the types. -/
theorem filter_isPrimary (hdistinct : (c.types.map (·.handle)).Nodup) :
    c.allParts.filter (fun part =>
      (c.type? part.declaration.fullName).all (·.handle == part.declaration.handle)) =
        c.wholeTypes.map (·.first) := by
  have hhandles : (c.allParts.map (·.declaration.handle)).Nodup := by
    rwa [← map_declaration_allParts, List.map_map] at hdistinct
  have hkeys : c.allParts.map (·.declaration.fullName) = c.types.map (·.fullName) := by
    rw [← map_declaration_allParts, List.map_map]
    rfl
  have hfirst := filter_isFirst (fun part : Part => part.declaration.fullName)
    (fun part => part.declaration.handle) hhandles
  rw [map_first_wholeTypes, typeNames, ← hkeys, ← hfirst]
  refine List.filter_congr fun part _ => ?_
  rw [type?, ← map_declaration_allParts, List.find?_map, Option.all_map]
  rfl

end Compilation

end TestLint
