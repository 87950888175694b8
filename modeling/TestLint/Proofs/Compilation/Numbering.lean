import Mathlib.Data.List.Nodup
import TestLint.Compilation
import TestLint.Proofs.Declaration.Places

/-!
# Files and their numbers

The files of a compilation are numbered in their order, and what a file declares knows
the number of its file (`Compilation.Numbered`).  So the number leads back to the file.
-/

namespace TestLint

namespace TypeDeclaration

variable {file : FileId} {source : List Char} {d : TypeDeclaration}

/-- A type that was read off a file knows its file, and so do its methods. -/
theorem ReadOff.file_eq {t : Tree} (h : ReadOff file source t d) :
    d.file = file ∧ ∀ m ∈ d.methods, m.handle.file = file := by
  obtain ⟨n, namespaceName, containing, -, hd⟩ := h
  simp only [ofNode?, Option.bind_eq_bind, Option.bind_eq_some_iff] at hd
  obtain ⟨name, -, hd⟩ := hd
  cases hd
  refine ⟨rfl, fun m hm => ?_⟩
  obtain ⟨member, -, hm⟩ := List.mem_filterMap.1 hm
  simp only [Method.ofTree?, Option.bind_eq_bind, Option.bind_eq_some_iff] at hm
  obtain ⟨methodName, -, hm⟩ := hm
  cases hm
  rfl

end TypeDeclaration

namespace Compilation

/-- Files stand at their numbers, and declarations know the number of their file. -/
structure Numbered (c : Compilation) : Prop where
  ids : c.files.map (·.id) = List.range c.files.length
  typeFile : ∀ file ∈ c.files, ∀ t ∈ file.declarations.types, t.file = file.id
  methodFile : ∀ file ∈ c.files, ∀ t ∈ file.declarations.types, ∀ m ∈ t.methods,
    m.handle.file = file.id

theorem numbered_ofSources (parse : Parser) (sources : List (Path × String))
    (project : ProjectFacts) : (ofSources parse sources project).Numbered := by
  have hread : ∀ file ∈ (ofSources parse sources project).files, ∃ id path text,
      file = .read parse id path text := by
    intro file hfile
    obtain ⟨⟨⟨path, text⟩, id⟩, -, rfl⟩ := List.mem_map.1 hfile
    exact ⟨id, path, text, rfl⟩
  have hoff : ∀ file ∈ (ofSources parse sources project).files,
      ∀ t ∈ file.declarations.types, t.ReadOff file.id file.source file.tree := by
    intro file hfile t ht
    obtain ⟨id, path, text, rfl⟩ := hread file hfile
    obtain ⟨child, hchild, h⟩ := FileDeclarations.mem_types_ofMembers _ ht
    exact h.of_mem hchild
  refine ⟨?_, fun file hfile t ht => (hoff file hfile t ht).file_eq.1,
    fun file hfile t ht => (hoff file hfile t ht).file_eq.2⟩
  have hids : (ofSources parse sources project).files.map (·.id) = sources.zipIdx.map (·.2) := by
    rw [ofSources, List.map_map]
    rfl
  rw [hids, List.zipIdx_map_snd, ofSources, List.length_map, List.length_zipIdx,
    List.range_eq_range']

variable {c : Compilation} {file : SourceFile}

theorem Numbered.nodup_ids (h : c.Numbered) : (c.files.map (·.id)).Nodup :=
  h.ids ▸ List.nodup_range

theorem Numbered.file?_id (h : c.Numbered) (hfile : file ∈ c.files) :
    c.file? file.id = some file := by
  obtain ⟨i, hi, rfl⟩ := List.mem_iff_getElem.1 hfile
  have hid : c.files[i].id = i := by
    have hget := congrArg (·[i]?) h.ids
    simpa [hi] using hget
  rw [file?, hid, List.getElem?_eq_getElem hi]

/-- Exactly one file has the number of a file. -/
theorem Numbered.filter_id (h : c.Numbered) (hfile : file ∈ c.files) :
    c.files.filter (·.id == file.id) = [file] := by
  have hnodup := h.nodup_ids
  obtain ⟨before, after, hfiles⟩ := List.append_of_mem hfile
  rw [hfiles, List.map_append, List.map_cons, List.nodup_append, List.nodup_cons] at hnodup
  obtain ⟨-, ⟨hafter, -⟩, hbefore⟩ := hnodup
  have hnone (files : List SourceFile) (hfiles : ∀ other ∈ files, other.id ≠ file.id) :
      files.filter (·.id == file.id) = [] :=
    List.filter_eq_nil_iff.2 fun other hother => by simpa using hfiles other hother
  rw [hfiles, List.filter_append, List.filter_cons_of_pos (by simp), hnone before, hnone after,
    List.nil_append]
  · exact fun other hother heq => hafter (heq ▸ List.mem_map_of_mem hother)
  · exact fun other hother => hbefore _ (List.mem_map_of_mem hother) _ List.mem_cons_self

variable (c) in
/-- The file that declares a type. -/
def fileOf (t : TypeDeclaration) : SourceFile :=
  (c.file? t.file).getD default

theorem Numbered.fileOf_eq (h : c.Numbered) (hfile : file ∈ c.files) {t : TypeDeclaration}
    (ht : t ∈ file.declarations.types) : c.fileOf t = file := by
  rw [fileOf, h.typeFile file hfile t ht, h.file?_id hfile, Option.getD_some]

theorem Numbered.file?_eq (h : c.Numbered) {t : TypeDeclaration} (ht : t ∈ c.types) :
    c.file? t.file = some (c.fileOf t) := by
  obtain ⟨file, hfile, ht⟩ := List.mem_flatMap.1 ht
  rw [h.fileOf_eq hfile ht, h.typeFile file hfile t ht, h.file?_id hfile]

end Compilation

end TestLint
