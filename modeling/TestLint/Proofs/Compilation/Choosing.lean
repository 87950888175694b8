import TestLint.Proofs.Compilation.Resolving
import TestLint.Proofs.Compilation.WrittenName
import TestLint.Proofs.Framework.Parts

/-!
# Which of several types is chosen

A written name stands for a type with the name and the number of type parameters of its last
segment (`Compilation.Fits`).  Of several such types one is preferred that has one of the
full names which are looked for in turn, else the alphabetically first (`Preferred`).
-/

namespace TestLint

open Name (IsWord Writes)
open TypeDeclaration (inScope metadataName)

/-! ## Preferences -/

/-- The name is the first of some names that is fit; if none of them is, it is the least of
all that are. -/
inductive Preferred (Fits : String → Prop) : List String → String → Prop
  | here {name : String} {others : List String} (h : Fits name) :
      Preferred Fits (name :: others) name
  | next {name chosen : String} {others : List String} (h : ¬Fits name)
      (hothers : Preferred Fits others chosen) : Preferred Fits (name :: others) chosen
  | least {chosen : String} (h : Fits chosen) (hleast : ∀ other, Fits other → chosen ≤ other) :
      Preferred Fits [] chosen

namespace Preferred

variable {Fits Fits' : String → Prop} {name chosen : String} {names : List String}

theorem fits (h : Preferred Fits names chosen) : Fits chosen := by
  induction h with
  | here h => exact h
  | next _ _ ih => exact ih
  | least h => exact h

theorem congr (hfits : ∀ name, Fits name ↔ Fits' name) :
    Preferred Fits names chosen ↔ Preferred Fits' names chosen := by
  rw [show Fits = Fits' from funext fun name => propext (hfits name)]

theorem cons_iff_of_fits (h : Fits name) :
    Preferred Fits (name :: names) chosen ↔ chosen = name := by
  constructor
  · intro hchosen
    cases hchosen with
    | here => rfl
    | next hnot => exact absurd h hnot
  · rintro rfl
    exact .here h

theorem cons_iff_of_not_fits (h : ¬Fits name) :
    Preferred Fits (name :: names) chosen ↔ Preferred Fits names chosen := by
  constructor
  · intro hchosen
    cases hchosen with
    | here hfits => exact absurd hfits h
    | next _ hothers => exact hothers
  · exact .next h

/-- Names that are not fit may be left out. -/
theorem iff_of_none (h : ∀ name ∈ names, ¬Fits name) :
    Preferred Fits names chosen ↔ Preferred Fits [] chosen := by
  induction names with
  | nil => exact Iff.rfl
  | cons name names ih =>
    obtain ⟨hname, hnames⟩ := List.forall_mem_cons.1 h
    rw [cons_iff_of_not_fits hname, ih hnames]

theorem iff_of_unique (h : ∀ other, Fits other ↔ other = name) :
    Preferred Fits names chosen ↔ chosen = name := by
  refine ⟨fun hchosen => (h chosen).1 hchosen.fits, ?_⟩
  rintro rfl
  induction names with
  | nil => exact .least ((h chosen).2 rfl) fun other hother => (h other).1 hother ▸ String.le_refl _
  | cons name names ih =>
    by_cases hname : name = chosen
    · subst hname
      exact .here ((h name).2 rfl)
    · exact .next (mt (h name).1 hname) ih

theorem nil_iff_of_sorted {first : String} {rest : List String}
    (hsorted : (first :: rest).Pairwise (· < ·)) (chosen : String) :
    Preferred (· ∈ first :: rest) [] chosen ↔ chosen = first := by
  have hlater : ∀ other ∈ first :: rest, first ≤ other := by
    intro other hother
    rcases List.mem_cons.1 hother with rfl | hother
    · exact String.le_refl _
    · exact Std.le_of_lt ((List.pairwise_cons.1 hsorted).1 other hother)
  constructor
  · rintro ⟨⟩
    rename_i hmem hleast
    exact String.le_antisymm (hleast first List.mem_cons_self) (hlater chosen hmem)
  · rintro rfl
    exact .least List.mem_cons_self hlater

end Preferred

namespace Compilation

variable {c : Compilation}

/-- The full names that are looked for in turn, for a last segment in a context. -/
def tried (context : Option TypeDeclaration) (last : String) : List String :=
  match context with
  | some t => inScope (some t.fullName) last ::
    (t.namespaceName.map fun ns => inScope (some ns) last).toList
  | none => []

theorem find?_name (names : List String) (name : String) :
    names.find? (· == name) = if name ∈ names then some name else none := by
  split
  case isTrue h =>
    obtain ⟨found, hfound⟩ := Option.isSome_iff_exists.1
      (List.find?_isSome.2 ⟨name, h, BEq.rfl⟩ : (names.find? (· == name)).isSome = true)
    have hname := List.find?_some hfound
    rw [hfound, eq_of_beq hname]
  case isFalse h =>
    rw [List.find?_eq_none]
    rintro other hother hname
    exact h (eq_of_beq hname ▸ hother)

theorem choose_eq_some_iff {last chosen : String} {context : Option TypeDeclaration}
    {names : List String} (hsorted : names.Pairwise (· < ·)) :
    choose last context names = some chosen ↔
      Preferred (· ∈ names) (tried context last) chosen := by
  match names with
  | [] =>
    refine ⟨fun h => ?_, fun h => ?_⟩
    · cases h
    · cases h.fits
  | [only] =>
    rw [Preferred.iff_of_unique fun other => List.mem_singleton, choose, Option.some.injEq, eq_comm]
  | first :: second :: rest =>
    have hfirst := Preferred.nil_iff_of_sorted hsorted chosen
    have hsingle (name : String) (names : List String) (h : name ∈ first :: second :: rest) :
        Preferred (· ∈ first :: second :: rest) (name :: names) chosen ↔ name = chosen :=
      (Preferred.cons_iff_of_fits h).trans eq_comm
    have hskip (name : String) (names : List String) (h : name ∉ first :: second :: rest) :
        Preferred (· ∈ first :: second :: rest) (name :: names) chosen ↔
          Preferred (· ∈ first :: second :: rest) names chosen :=
      Preferred.cons_iff_of_not_fits h
    simp only [choose, find?_name, Option.some.injEq, tried]
    cases context with
    | none => exact eq_comm.trans hfirst.symm
    | some t =>
      by_cases hnested : t.fullName ++ "." ++ last ∈ first :: second :: rest
      · simp only [Option.bind_some, if_pos hnested]
        exact (hsingle _ _ hnested).symm
      · simp only [Option.bind_some, if_neg hnested]
        refine Iff.trans ?_ (hskip _ _ hnested).symm
        cases t.namespaceName with
        | none => exact eq_comm.trans hfirst.symm
        | some ns =>
          by_cases hsibling : ns ++ "." ++ last ∈ first :: second :: rest
          · simp only [Option.bind_some, if_pos hsibling]
            exact (hsingle _ _ hsibling).symm
          · simp only [Option.bind_some, if_neg hsibling, Option.map_some, Option.toList_some]
            exact (eq_comm.trans hfirst.symm).trans (hskip _ _ hsibling).symm

/-! ## What a written name means -/

/-- A type with the full name is declared, and it has the name and the number of type
parameters of the segment. -/
def Fits (c : Compilation) (s : Segment) (fullName : String) : Prop :=
  ∃ t ∈ c.types, t.fullName = fullName ∧
    t.name = s.identifier.name ∧ t.typeParameters.length = s.counted

theorem mem_candidates_iff {s : Segment} {fullName : String} :
    fullName ∈ c.candidates s.identifier.name s.counted ↔ c.Fits s fullName := by
  simp only [candidates, List.mem_eraseDups, List.mem_mergeSort, List.mem_map, List.mem_filter,
    Bool.and_eq_true, beq_iff_eq, Fits]
  grind

/-- If some type is fit, one is preferred, whatever is looked for. -/
theorem exists_preferred {s : Segment} {fullName : String} (h : c.Fits s fullName)
    (names : List String) : ∃ chosen, Preferred (c.Fits s) names chosen := by
  induction names with
  | nil =>
    have hsorted : (c.candidates s.identifier.name s.counted).Pairwise (· < ·) :=
      pairwise_sortedNames _
    cases hcandidates : c.candidates s.identifier.name s.counted with
    | nil => cases hcandidates ▸ mem_candidates_iff.2 h
    | cons first rest =>
      rw [hcandidates] at hsorted
      refine ⟨first, (Preferred.congr fun name => ?_).1
        ((Preferred.nil_iff_of_sorted hsorted first).2 rfl)⟩
      rw [← hcandidates]
      exact mem_candidates_iff
  | cons name names ih =>
    by_cases hname : c.Fits s name
    · exact ⟨name, .here hname⟩
    · obtain ⟨chosen, hchosen⟩ := ih
      exact ⟨chosen, .next hname hchosen⟩

theorem means_iff_meant? {context : Option TypeDeclaration} {text fullName : String} :
    c.Means context text fullName ↔
      c.meant? text context = some fullName ∧ fullName ∈ c.types.map (·.fullName) := by
  constructor
  · intro h
    refine ⟨?_, h.mem_types⟩
    obtain ⟨part, hpart, rfl⟩ := h
    rw [resolve_eq] at hpart
    cases hmeant : c.meant? text context with
    | none =>
      rw [hmeant] at hpart
      cases hpart
    | some other =>
      rw [hmeant] at hpart
      rw [(mem_typeParts.1 hpart).2]
  · rintro ⟨hmeant, hmem⟩
    obtain ⟨part, hpart, hname⟩ := List.mem_map.1 hmem
    refine ⟨part, ?_, hname⟩
    rw [resolve_eq, hmeant]
    exact mem_typeParts.2 ⟨hpart, hname⟩

/-- A dotted name that is a full name means the type that has it, any other name means the
type that is preferred among those with the name and number of its last segment. -/
theorem means_iff {w : WrittenName} {text : String} (hw : Writes text w.chars)
    (hlength : text.length < 2 ^ 64) (context : Option TypeDeclaration) (fullName : String) :
    c.Means context text fullName ↔
      if w.name.scope ≠ [] ∧ w.metadata text ∈ c.types.map (·.fullName) then
        fullName = w.metadata text
      else
        Preferred (c.Fits w.name.last) (tried context (w.lookedFor text)) fullName := by
  have harity := Nat.lt_of_le_of_lt (WrittenName.counted_le_length hw) hlength
  have hexact : ((w.metadata text).toList.contains '.' && !(c.typeParts (w.metadata text)).isEmpty)
      = true ↔ w.name.scope ≠ [] ∧ w.metadata text ∈ c.types.map (·.fullName) := by
    rw [Bool.and_eq_true, List.contains_iff_mem, w.mem_metadata_iff, Bool.not_eq_true',
      List.isEmpty_eq_false_iff_exists_mem, List.mem_map]
    simp only [mem_typeParts]
  have hchosen : choose (w.lookedFor text) context
      (c.candidates w.name.last.identifier.name w.name.last.counted) = some fullName ↔
      Preferred (c.Fits w.name.last) (tried context (w.lookedFor text)) fullName :=
    (choose_eq_some_iff (pairwise_sortedNames _)).trans
      (Preferred.congr fun _ => mem_candidates_iff)
  rw [means_iff_meant?, meant?, WrittenName.metadataForm_plainName hw]
  simp only [hexact, w.lastSegment_metadata, w.simpleAndArity_lookedFor text harity]
  split
  case isTrue h =>
    rw [Option.some.injEq, eq_comm, and_iff_left_iff_imp]
    rintro rfl
    exact h.2
  case isFalse h =>
    rw [hchosen, and_iff_left_iff_imp]
    intro hpreferred
    obtain ⟨t, ht, hname, -⟩ := hpreferred.fits
    exact List.mem_map.2 ⟨t, ht, hname⟩

end Compilation

/-! ## Declared names -/

namespace TypeDeclaration

/-- The name of a type with the number of its type parameters. -/
def ownName (t : TypeDeclaration) : String :=
  metadataName t.name t.typeParameters.length

/-- The full name of a type ends in its own name, which has no dots in it. -/
structure WellNamed (t : TypeDeclaration) : Prop where
  isWord : IsWord t.name
  fullName : ∃ scope, t.fullName = inScope scope t.ownName

namespace WellNamed

variable {t : TypeDeclaration}

theorem not_mem_ownName (h : t.WellNamed) {c : Char} (hmark : c ∈ Name.marks) (hquote : c ≠ '\x60')
    (hdigit : c.isDigit = false) : c ∉ t.ownName.toList :=
  not_mem_metadataName (fun hc => (h.isWord c hc).2 hmark) hquote hdigit _

/-- What stands behind the last dot of the full name is the own name. -/
theorem ownName_eq (h : t.WellNamed) {before after : String}
    (hfull : t.fullName = before ++ "." ++ after) (hafter : '.' ∉ after.toList) :
    t.ownName = after := by
  have hown := h.not_mem_ownName (c := '.') (by decide) (by decide) (by decide)
  have hcut := Text.cutLast?_join hafter before
  rw [← hfull] at hcut
  obtain ⟨scope, hscope⟩ := h.fullName
  cases scope with
  | none =>
    rw [hscope, inScope, Text.cutLast?_eq_none hown] at hcut
    cases hcut
  | some outer =>
    rw [hscope, inScope, Text.cutLast?_join hown outer] at hcut
    exact String.toList_injective (Prod.ext_iff.1 (Option.some.inj hcut)).2

/-- Types of one full name have one name of their own. -/
theorem ownName_congr {t' : TypeDeclaration} (h : t.WellNamed) (h' : t'.WellNamed)
    (hfull : t.fullName = t'.fullName) : t.ownName = t'.ownName := by
  have hown := h.not_mem_ownName (c := '.') (by decide) (by decide) (by decide)
  have hown' := h'.not_mem_ownName (c := '.') (by decide) (by decide) (by decide)
  obtain ⟨scope', hscope'⟩ := h'.fullName
  cases scope' with
  | some outer => exact h.ownName_eq (hfull.trans hscope') hown'
  | none =>
    obtain ⟨scope, hscope⟩ := h.fullName
    cases scope with
    | some outer => exact (h'.ownName_eq (hfull.symm.trans hscope) hown).symm
    | none => rw [← show t.fullName = t.ownName from hscope, hfull]; exact hscope'

end WellNamed

theorem ReadOff.fullName_eq {file : FileId} {source : List Char} {t : Tree} {d : TypeDeclaration}
    (h : ReadOff file source t d) : ∃ scope, d.fullName = inScope scope d.ownName := by
  obtain ⟨n, namespaceName, containing, -, hd⟩ := h
  simp only [ofNode?, Option.bind_eq_bind, Option.bind_eq_some_iff] at hd
  obtain ⟨nameNode, -, hd⟩ := hd
  cases hd
  exact ⟨_, rfl⟩

end TypeDeclaration

namespace Compilation

variable {parse : Parser} {sources : List (Path × String)} {project : ProjectFacts}

theorem wellNamed_ofSources {t : TypeDeclaration} (ht : t ∈ (ofSources parse sources project).types)
    (hname : IsWord t.name) : t.WellNamed := by
  obtain ⟨file, hfile, ht⟩ := List.mem_flatMap.1 ht
  obtain ⟨⟨⟨path, text⟩, id⟩, -, rfl⟩ := List.mem_map.1 hfile
  obtain ⟨child, -, hread⟩ := FileDeclarations.mem_types_ofMembers _ ht
  exact ⟨hname, hread.fullName_eq⟩

variable {c : Compilation}

/-- The parts of a type stand in the order of the files. -/
theorem Numbered.pairwise_types (h : c.Numbered) : c.types.Pairwise (·.file ≤ ·.file) := by
  have hids : c.files.Pairwise (·.id < ·.id) := by
    rw [← List.pairwise_map (R := (· < ·)), h.ids]
    exact List.pairwise_lt_range
  refine List.pairwise_flatMap.2 ⟨fun file hfile => ?_, ?_⟩
  · refine List.pairwise_of_forall_mem_list fun a ha b hb => ?_
    rw [h.typeFile file hfile a ha, h.typeFile file hfile b hb]
  · refine hids.imp_of_mem fun {file file'} hfile hfile' hlt => ?_
    intro a ha b hb
    rw [h.typeFile file hfile a ha, h.typeFile file' hfile' b hb]
    exact Nat.le_of_lt hlt

/-- All parts of one type, in the order of the files, each with the name and the number of
type parameters of the segment. -/
structure PartsOf (c : Compilation) (s : Segment) (parts : List TypeDeclaration) : Prop where
  all : ∃ fullName, parts = c.typeParts fullName
  nonempty : parts ≠ []
  ordered : parts.Pairwise (·.file ≤ ·.file)
  fit : ∀ part ∈ parts,
    part.name = s.identifier.name ∧ part.typeParameters.length = s.counted

/-- The full names that are looked for in turn where `context` is declared: that of a type
nested in it, and that of a type in its namespace. -/
def sought (context : Option TypeDeclaration) (last : String) : List String :=
  match context with
  | some t => [inScope (some t.fullName) last, inScope t.namespaceName last]
  | none => []

theorem tried_eq_sought {context : Option TypeDeclaration} (last : String)
    (h : ∀ t, context = some t → t.namespaceName ≠ none) :
    tried context last = sought context last := by
  cases context with
  | none => rfl
  | some t =>
    obtain ⟨ns, hns⟩ := Option.ne_none_iff_exists'.1 (h t rfl)
    rw [tried, sought, hns]
    rfl

theorem tried_eq_nested {context : Option TypeDeclaration} (last : String) {t : TypeDeclaration}
    (ht : context = some t) (h : t.namespaceName = none) :
    tried context last = [inScope (some t.fullName) last] := by
  rw [ht, tried, h]
  rfl

section Chosen

variable {w : WrittenName} {text : String} {context : Option TypeDeclaration}

theorem exists_tried_eq {last name : String} (h : name ∈ tried context last) :
    ∃ outer, name = outer ++ "." ++ last := by
  cases context with
  | none => cases h
  | some t =>
    rcases List.mem_cons.1 h with rfl | h
    · exact ⟨t.fullName, rfl⟩
    · cases hns : t.namespaceName with
      | none =>
        rw [hns] at h
        cases h
      | some ns =>
        rw [hns] at h
        exact ⟨ns, List.mem_singleton.1 h⟩

/-- Where a label is left before the last segment, no type has the names that are looked for. -/
theorem not_fits_of_leftover (hnames : ∀ t ∈ c.types, t.WellNamed) (h : w.leftover text ≠ [])
    {s : Segment} {name : String} (hname : name ∈ tried context (w.lookedFor text)) :
    ¬c.Fits s name := by
  rintro ⟨t, ht, hfull, -⟩
  obtain ⟨outer, rfl⟩ := exists_tried_eq hname
  have hown := (hnames t ht).ownName_eq hfull (w.not_mem_lookedFor text)
  have hcolon := (hnames t ht).not_mem_ownName (c := ':') (by decide) (by decide) (by decide)
  rw [hown, WrittenName.lookedFor, String.toList_append, String.toList_ofList, List.mem_append,
    not_or] at hcolon
  rcases w.isLabel_leftover text with hnil | ⟨label, hlabel⟩
  · exact h hnil
  · rw [hlabel] at hcolon
    simp at hcolon

theorem fit_of_ownName {t : TypeDeclaration} {s : Segment} (ht : t.WellNamed)
    (h : t.ownName = s.form) :
    t.name = s.identifier.name ∧ t.typeParameters.length = s.counted :=
  TypeDeclaration.metadataName_inj (fun hc => (ht.isWord _ hc).2 (by decide))
    (s.identifier.not_mem_chars (by decide)) h

/-- All types with the full name that a written name means have the name and the number of
type parameters of its last segment. -/
theorem fit_of_means (hnames : ∀ t ∈ c.types, t.WellNamed) (hw : Writes text w.chars)
    (hlength : text.length < 2 ^ 64) {fullName : String} (h : c.Means context text fullName)
    {part : TypeDeclaration} (hpart : part ∈ c.typeParts fullName) :
    part.name = w.name.last.identifier.name ∧
      part.typeParameters.length = w.name.last.counted := by
  obtain ⟨hpart, hfull⟩ := mem_typeParts.1 hpart
  have hnamed := hnames part hpart
  refine fit_of_ownName hnamed ?_
  have hmeans := (means_iff hw hlength context fullName).1 h
  split at hmeans
  case isTrue hexact =>
    obtain ⟨before, hbefore⟩ := WrittenName.exists_metadata_eq text hexact.1
    rw [hmeans, hbefore] at hfull
    rw [hnamed.ownName_eq hfull (w.not_mem_lookedFor text),
      WrittenName.lookedFor_eq (WrittenName.leftover_eq_nil text hexact.1)]
  case isFalse =>
    obtain ⟨t, ht, htfull, hname, harity⟩ := hmeans.fits
    have hown : t.ownName = w.name.last.form := by
      rw [TypeDeclaration.ownName, hname, harity]
      rfl
    rw [← hown]
    exact hnamed.ownName_congr (hnames t ht) (hfull.trans htfull.symm)

end Chosen

theorem means_iff_of_perm {sources' : List (Path × String)} {context' : Option TypeDeclaration}
    (hperm : sources.Perm sources') (hscope : Framework.SameScope context context') :
    (ofSources parse sources project).Means context text fullName ↔
      (ofSources parse sources' project).Means context' text fullName := by
  have hall : Framework.SameReadings ⟨false⟩ (ofSources parse sources project)
      (ofSources parse sources' project) _ _ := Framework.sameReadings_perm hperm
  have hsame := hall.resolve hscope text
  constructor
  · rintro ⟨part, hpart, rfl⟩
    obtain ⟨part', hpart', houtline, -⟩ := hsame.exists_mem hpart
    exact ⟨part', hpart', congrArg TypeDeclaration.Outline.fullName houtline⟩
  · rintro ⟨part, hpart, rfl⟩
    obtain ⟨part', hpart', houtline, -⟩ := hsame.symm.exists_mem hpart
    exact ⟨part', hpart', congrArg TypeDeclaration.Outline.fullName houtline⟩

/-- A written name without array or pointer suffix means nothing, exactly if no type has the
name and the number of type parameters of its last segment, or all parts of one such type.
The choice does not depend on the order of the files.  A dotted name that is a full name means
the type that has it.  Otherwise a type nested in the context is preferred to one in its
namespace, and that one to the alphabetically first, with two exceptions: to a context in the
global namespace no type is preferred that is declared there, and where a label is left before
the last segment no type is preferred but the alphabetically first. -/
theorem resolve_written (parse : Parser) (sources : List (Path × String)) (project : ProjectFacts)
    (hnames : ∀ t ∈ (ofSources parse sources project).types, IsWord t.name) (w : WrittenName)
    {text : String} (hw : Writes text w.chars) (hlength : text.length < 2 ^ 64)
    (context : Option TypeDeclaration) :
    let c := ofSources parse sources project
    let last := w.name.last
    ((c.resolve text context = [] ∧ ∀ fullName, ¬c.Fits last fullName) ∨
      c.PartsOf last (c.resolve text context)) ∧
    (∀ sources' context', sources.Perm sources' → Framework.SameScope context context' →
      ∀ fullName, (ofSources parse sources' project).Means context' text fullName ↔
        c.Means context text fullName) ∧
    (w.name.scope ≠ [] ∧ w.metadata text ∈ c.types.map (·.fullName) →
      c.resolve text context = c.typeParts (w.metadata text)) ∧
    (¬(w.name.scope ≠ [] ∧ w.metadata text ∈ c.types.map (·.fullName)) → ∀ fullName,
      (w.leftover text = [] → (∀ t, context = some t → t.namespaceName ≠ none) →
        (c.Means context text fullName ↔
          Preferred (c.Fits last) (sought context last.form) fullName)) ∧
      (w.leftover text = [] → ∀ t, context = some t → t.namespaceName = none →
        (c.Means context text fullName ↔
          Preferred (c.Fits last) [inScope (some t.fullName) last.form] fullName)) ∧
      (w.leftover text ≠ [] →
        (c.Means context text fullName ↔ Preferred (c.Fits last) [] fullName))) := by
  intro c last
  have hnamed : ∀ t ∈ c.types, t.WellNamed := fun t ht => wellNamed_ofSources ht (hnames t ht)
  have hmeans := means_iff (c := c) hw hlength context
  refine ⟨?_, fun sources' context' hperm hscope fullName => ?_, fun hexact => ?_,
    fun hinexact fullName => ?_⟩
  · cases hparts : c.resolve text context with
    | nil =>
      refine .inl ⟨rfl, fun fullName hfits => ?_⟩
      obtain ⟨chosen, hchosen⟩ : ∃ chosen, c.Means context text chosen := by
        by_cases hexact : w.name.scope ≠ [] ∧ w.metadata text ∈ c.types.map (·.fullName)
        · exact ⟨w.metadata text, (hmeans _).2 (by rw [if_pos hexact])⟩
        · obtain ⟨chosen, hpreferred⟩ :=
            exists_preferred hfits (tried context (w.lookedFor text))
          exact ⟨chosen, (hmeans _).2 (by rwa [if_neg hexact])⟩
      obtain ⟨part, hpart, -⟩ := hchosen
      rw [hparts] at hpart
      cases hpart
    | cons first others =>
      have hall := resolve_eq_typeParts hparts
      have hfirst : c.Means context text first.fullName :=
        ⟨first, hparts ▸ List.mem_cons_self, rfl⟩
      refine .inr ⟨⟨first.fullName, hall⟩, List.cons_ne_nil _ _, ?_, fun part hpart => ?_⟩
      · rw [hall]
        exact (numbered_ofSources parse sources project).pairwise_types.filter _
      · exact fit_of_means hnamed hw hlength hfirst (hall ▸ hpart)
  · exact (means_iff_of_perm hperm hscope).symm
  · refine Means.resolve_eq ((hmeans _).2 ?_)
    rw [if_pos hexact]
  · have hmeans := hmeans fullName
    rw [if_neg hinexact] at hmeans
    refine ⟨fun hleft hns => ?_, fun hleft t ht hns => ?_, fun hleft => ?_⟩
    · rw [hmeans, WrittenName.lookedFor_eq hleft, tried_eq_sought _ hns]
    · rw [hmeans, WrittenName.lookedFor_eq hleft, tried_eq_nested _ ht hns]
    · rw [hmeans]
      exact Preferred.iff_of_none fun name hname => not_fits_of_leftover hnamed hleft hname

/-! ## Three classes of one name -/

/-- A class with an empty body, behind its keyword. -/
def classAt (start nameStop : Nat) : Tree :=
  .node ⟨"class_declaration", none, true, false, start, nameStop + 2⟩
    [.node ⟨"identifier", some "name", true, false, start + 6, nameStop⟩ [],
     .node ⟨"declaration_list", some "body", true, false, nameStop, nameStop + 2⟩ []]

/-- A namespace with a name of one letter. -/
def namespaceAt (start stop : Nat) (members : List Tree) : Tree :=
  .node ⟨"namespace_declaration", none, true, false, start, stop⟩
    [.node ⟨"identifier", some "name", true, false, start + 10, start + 11⟩ [],
     .node ⟨"declaration_list", some "body", true, false, start + 11, stop⟩ members]

def foosSource : String :=
  "class Foo\x7b\x7d class User\x7b\x7d namespace A\x7bclass Foo\x7b\x7d\x7d " ++
    "namespace B\x7bclass Foo\x7b\x7d class User\x7b\x7d\x7d"

def foosTree : Tree :=
  .node ⟨"compilation_unit", none, true, false, 0, 87⟩
    [classAt 0 9, classAt 12 22, namespaceAt 25 49 [classAt 37 46],
     namespaceAt 50 87 [classAt 62 71, classAt 74 84]]

/-- The classes `Foo` and `User` in the global namespace and in `B`, and `Foo` in `A`. -/
def foos : Compilation :=
  .ofSources (fun _ => foosTree) [(⟨"Foos.cs"⟩, foosSource)] .empty

def segmentFoo : Segment :=
  ⟨.named "Foo", .none⟩

theorem fits_foos (name : String) :
    foos.Fits segmentFoo name ↔ name ∈ ["Foo", "A.Foo", "B.Foo"] := by
  have hnames : (foos.types.filter fun t =>
      t.name == "Foo" && t.typeParameters.length == 0).map (·.fullName) =
        ["Foo", "A.Foo", "B.Foo"] := by
    decide +kernel
  rw [← hnames]
  simp only [Fits, List.mem_map, List.mem_filter, Bool.and_eq_true, beq_iff_eq]
  have hname : segmentFoo.identifier.name = "Foo" := rfl
  have hcounted : segmentFoo.counted = 0 := rfl
  grind

theorem exists_user (fullName : String) (namespaceName : Option String)
    (h : foos.types.any
      (fun t => t.fullName == fullName && t.namespaceName == namespaceName) = true) :
    ∃ user ∈ foos.types, user.fullName = fullName ∧ user.namespaceName = namespaceName := by
  obtain ⟨user, huser, hfound⟩ := List.any_eq_true.1 h
  simp only [Bool.and_eq_true, beq_iff_eq] at hfound
  exact ⟨user, huser, hfound⟩

/-- In `B` the class `Foo` of this namespace is preferred to that of `A`. -/
theorem resolve_written_foo :
    (∀ t ∈ foos.types, IsWord t.name) ∧
      Writes "Foo ?" (WrittenName.chars ⟨none, ⟨[], segmentFoo⟩, true⟩) ∧
      ∃ user ∈ foos.types, user.fullName = "B.User" ∧ user.namespaceName = some "B" ∧
        foos.Means (some user) "Foo ?" "B.Foo" := by
  have hnames : ∀ t ∈ foos.types, IsWord t.name := by decide +kernel
  have hwrites : Writes "Foo ?" (WrittenName.chars ⟨none, ⟨[], segmentFoo⟩, true⟩) := by
    decide +kernel
  obtain ⟨user, huser, hfull, hns⟩ := exists_user "B.User" (some "B") (by decide +kernel)
  obtain ⟨-, -, -, hpreferred⟩ :=
    resolve_written _ _ _ hnames _ hwrites (by decide +kernel) (some user)
  refine ⟨hnames, hwrites, user, huser, hfull, hns, ?_⟩
  refine ((hpreferred (fun h => h.1 rfl) "B.Foo").1 (by decide +kernel) ?_).2 ?_
  · rintro t ⟨⟩
    rw [hns]
    exact nofun
  · have hnested : inScope (some user.fullName) segmentFoo.form = "B.User.Foo" := by
      rw [hfull]
      decide +kernel
    have hsibling : inScope user.namespaceName segmentFoo.form = "B.Foo" := by
      rw [hns]
      decide +kernel
    rw [sought, hnested, hsibling]
    exact .next (mt (fits_foos _).1 (by decide +kernel))
      (.here ((fits_foos _).2 (by decide +kernel)))

/-- In the global namespace the class `Foo` of this namespace is not preferred to that of `A`,
and behind the label of an alias no class is preferred to it. -/
theorem foo_of_global_namespace_is_passed_over :
    (∃ user ∈ foos.types, user.fullName = "User" ∧ user.namespaceName = none ∧
      foos.Fits segmentFoo (inScope user.namespaceName segmentFoo.form) ∧
      foos.Means (some user) "Foo" "A.Foo") ∧
    ∃ user ∈ foos.types, user.fullName = "B.User" ∧ user.namespaceName = some "B" ∧
      foos.Fits segmentFoo (inScope user.namespaceName segmentFoo.form) ∧
      foos.Means (some user) "C::Foo" "A.Foo" := by
  have hleast : Preferred (foos.Fits segmentFoo) [] "A.Foo" := by
    refine .least ((fits_foos _).2 (by decide +kernel)) fun other hother => ?_
    have hall : ∀ name ∈ ["Foo", "A.Foo", "B.Foo"], "A.Foo" ≤ name := by decide +kernel
    exact hall other ((fits_foos other).1 hother)
  constructor
  · obtain ⟨user, huser, hfull, hns⟩ := exists_user "User" none (by decide +kernel)
    have hwrites : Writes "Foo" (WrittenName.chars ⟨none, ⟨[], segmentFoo⟩, false⟩) := by
      decide +kernel
    refine ⟨user, huser, hfull, hns, ?_, ?_⟩
    · rw [hns]
      exact (fits_foos _).2 (by decide +kernel)
    · rw [means_iff hwrites (by decide +kernel), if_neg (fun h => h.1 rfl),
        WrittenName.lookedFor_eq (by decide +kernel), tried_eq_nested _ rfl hns, hfull]
      exact .next (mt (fits_foos _).1 (by decide +kernel)) hleast
  · obtain ⟨user, huser, hfull, hns⟩ := exists_user "B.User" (some "B") (by decide +kernel)
    have hwrites : Writes "C::Foo"
        (WrittenName.chars ⟨some (.named "C"), ⟨[], segmentFoo⟩, false⟩) := by
      decide +kernel
    have hnamed : ∀ t ∈ foos.types, t.WellNamed := fun t ht => by
      have hwords : ∀ t ∈ foos.types, IsWord t.name := by decide +kernel
      exact wellNamed_ofSources ht (hwords t ht)
    refine ⟨user, huser, hfull, hns, ?_, ?_⟩
    · rw [hns]
      exact (fits_foos _).2 (by decide +kernel)
    · rw [means_iff hwrites (by decide +kernel), if_neg (fun h => h.1 rfl),
        Preferred.iff_of_none fun name hname =>
          not_fits_of_leftover hnamed (by decide +kernel) hname]
      exact hleast

end Compilation

end TestLint
