import TestLint.Compilation
import TestLint.Proofs.Declaration.Nesting
import TestLint.Proofs.Syntax.TypeName

/-!
# Names in the form of full names

The form of a written name under which its type is looked up.  Brackets and commas are counted
in one pass (`metadataChars`): the text of an argument is passed over, its commas outside further
angle brackets being counted (`PassesOver`).  So a name becomes its segments, each of those with
arguments marked with the number of these commas and one more (`metadataForm_eq_form`).  This
is the full name of the type that the name means if no argument has a comma of its own there
(`metadataForm_eq_fullName_iff`); the commas of tuples and of ranks of arrays do stand there
(`commas_of_type_argument_are_counted`).
-/

namespace TestLint

open Name (Writes)

namespace Compilation

/-! ## Inside angle brackets -/

/-- Blanks do not count. -/
theorem metadataChars_filter (b : Brackets) (cs : List Char) :
    metadataChars b (cs.filter (!Text.isBlank ·)) = metadataChars b cs := by
  induction cs generalizing b with
  | nil => rfl
  | cons c cs ih =>
    by_cases hc : Text.isBlank c = true
    · have hne : c ≠ '<' ∧ c ≠ '>' ∧ c ≠ ',' := by
        refine ⟨?_, ?_, ?_⟩ <;> rintro rfl <;> revert hc <;> decide
      rw [List.filter_cons_of_neg (by simp [hc]), ih b, metadataChars, if_neg (by simp [hne.2.1]),
        if_neg (by simp [hne.2.2]), if_neg (by simp [hc])]
      exact hne.1
    · rw [List.filter_cons_of_pos (by simp [hc])]
      by_cases hopen : c = '<'
      · subst hopen
        rw [metadataChars, metadataChars, ih]
      · rw [metadataChars, metadataChars, ih, ih, ih]
        all_goals exact hopen

/-- Inside angle brackets the text is gone over with nothing but its commas being counted,
and these only at the first level. -/
structure PassesOver (cs : List Char) (commas : Nat) : Prop where
  passes : ∀ depth arity rest, metadataChars ⟨depth + 1, arity⟩ (cs ++ rest) =
    metadataChars ⟨depth + 1, if depth = 0 then arity + commas else arity⟩ rest
  le_length : commas ≤ cs.length

namespace PassesOver

variable {cs cs' : List Char} {commas commas' : Nat}

theorem append (h : PassesOver cs commas) (h' : PassesOver cs' commas') :
    PassesOver (cs ++ cs') (commas + commas') where
  passes depth arity rest := by
    rw [List.append_assoc, h.passes, h'.passes]
    by_cases hdepth : depth = 0
    · simp only [hdepth, if_true, Nat.add_assoc]
    · simp only [hdepth, if_false]
  le_length := List.length_append ▸ Nat.add_le_add h.le_length h'.le_length

theorem single {c : Char} (h : c ≠ '<' ∧ c ≠ '>' ∧ c ≠ ',') : PassesOver [c] 0 where
  passes depth arity rest := by
    rw [List.singleton_append, metadataChars, if_neg (by simp [h.2.1]), if_neg (by simp [h.2.2]),
      if_neg (by simp)]
    · simp
    · exact h.1
  le_length := Nat.zero_le 1

theorem nil : PassesOver [] 0 where
  passes depth arity rest := by simp
  le_length := Nat.le_refl 0

theorem word (h : ∀ c ∈ cs, c ≠ '<' ∧ c ≠ '>' ∧ c ≠ ',') : PassesOver cs 0 := by
  induction cs with
  | nil => exact nil
  | cons c cs ih =>
    exact (single (h c List.mem_cons_self)).append (ih fun d hd => h d (List.mem_cons_of_mem c hd))

theorem token (h : cs.all (fun c => c != '<' && c != '>' && c != ',') = true) :
    PassesOver cs 0 := by
  refine word fun c hc => ?_
  have hc := List.all_eq_true.1 h c hc
  simpa only [Bool.and_eq_true, bne_iff_ne, and_assoc] using hc

theorem comma : PassesOver [','] 1 where
  passes depth arity rest := by
    rw [List.singleton_append, metadataChars]
    · by_cases hdepth : depth = 0
      · simp [hdepth]
      · simp [hdepth]
    · decide
  le_length := Nat.le_refl 1

theorem replicate (n : Nat) : PassesOver (List.replicate n ',') n := by
  induction n with
  | zero => exact nil
  | succ n ih =>
    rw [List.replicate_succ, Nat.add_comm]
    exact comma.append ih

/-- Of a list in brackets of its own nothing is counted. -/
theorem brackets (h : PassesOver cs commas) : PassesOver ('<' :: (cs ++ ['>'])) 0 where
  passes depth arity rest := by
    have hinner := h.passes (depth + 1) arity ('>' :: rest)
    rw [if_neg (Nat.succ_ne_zero depth)] at hinner
    simp only [List.cons_append, List.append_assoc, List.nil_append, metadataChars]
    rw [if_neg (Nat.succ_ne_zero depth), hinner, metadataChars]
    · simp
    · decide
  le_length := Nat.zero_le _

theorem identifier (i : Identifier) : PassesOver i.chars 0 := by
  refine word fun c hc => ⟨?_, ?_, ?_⟩ <;> rintro rfl <;>
    exact i.not_mem_chars (by decide) hc

/-- Words with commas between them: their own commas, and those between them. -/
theorem intercalate {words : List (List Char)} {counts : List Nat}
    (h : List.Forall₂ PassesOver words counts) :
    PassesOver ([','].intercalate words) (counts.sum + (words.length - 1)) := by
  induction h with
  | nil => exact nil
  | @cons word count words counts hword hwords ih =>
    cases hwords with
    | nil =>
      rw [List.intercalate_singleton]
      exact hword
    | @cons word' count' words counts hword' hwords =>
      rw [List.intercalate_cons_cons]
      have hall := (hword.append comma).append ih
      simp only [List.sum_cons, List.length_cons, Nat.add_sub_cancel] at hall ⊢
      rwa [show count + 1 + (count' + counts.sum + words.length) =
        count + (count' + counts.sum) + (words.length + 1) by omega] at hall

theorem bracketed {words : List (List Char)} {counts : List Nat}
    (h : List.Forall₂ PassesOver words counts) : PassesOver (WrittenType.bracketed words) 0 := by
  cases h with
  | nil => exact nil
  | cons hword hwords => exact brackets (intercalate (.cons hword hwords))

theorem conventionChars (conventions : List Identifier) :
    PassesOver (WrittenType.conventionChars conventions) (conventions.length - 1) := by
  have hnames : List.Forall₂ PassesOver (conventions.map (·.chars))
      (List.replicate conventions.length 0) := by
    induction conventions with
    | nil => exact .nil
    | cons first others ih => exact .cons (identifier first) ih
  have hjoined := intercalate hnames
  rw [List.sum_replicate_nat, Nat.mul_zero, Nat.zero_add, List.length_map] at hjoined
  cases conventions with
  | nil => exact nil
  | cons first others =>
    have hopen : PassesOver "unmanaged[".toList 0 := token (by decide +kernel)
    have hclose : PassesOver [']'] 0 := single (by decide)
    have hall := (hopen.append hjoined).append hclose
    rw [Nat.zero_add] at hall
    exact hall

end PassesOver

/-! ## Types -/

open WrittenType (allChars allExposedCommas length_allChars)

mutual

/-- Of a type in angle brackets its exposed commas are counted. -/
theorem passesOver_chars (t : WrittenType) : PassesOver t.chars t.exposedCommas := by
  match t with
  | .simple identifier arguments =>
    exact (PassesOver.identifier identifier).append (.bracketed (passesOver_allChars arguments))
  | .member scope identifier arguments =>
    exact (((passesOver_chars scope).append (.single (by decide))).append
      (.identifier identifier)).append (.bracketed (passesOver_allChars arguments))
  | .aliased label identifier arguments =>
    exact (((PassesOver.identifier label).append (.token (by decide))).append
      (.identifier identifier)).append (.bracketed (passesOver_allChars arguments))
  | .tuple elements =>
    have hopen : PassesOver ['('] 0 := .single (by decide)
    have hall := (hopen.append (.intercalate (passesOver_allChars elements))).append
      (.single (by decide) : PassesOver [')'] 0)
    rw [length_allChars, Nat.zero_add] at hall
    exact hall
  | .element type name => exact (passesOver_chars type).append (.identifier name)
  | .array type commas =>
    exact (((passesOver_chars type).append (.single (by decide))).append
      (.replicate commas)).append (.single (by decide))
  | .nullable type => exact (passesOver_chars type).append (.single (by decide))
  | .pointer type => exact (passesOver_chars type).append (.single (by decide))
  | .function conventions signature =>
    have hopen : PassesOver "delegate*".toList 0 := .token (by decide +kernel)
    have hall := (hopen.append (.conventionChars conventions)).append
      (.bracketed (passesOver_allChars signature))
    rw [Nat.zero_add] at hall
    exact hall
  | .passed modifier type =>
    have hall := (PassesOver.identifier modifier).append (passesOver_chars type)
    rw [Nat.zero_add] at hall
    exact hall

theorem passesOver_allChars (ts : List WrittenType) :
    List.Forall₂ PassesOver (allChars ts) (allExposedCommas ts) := by
  match ts with
  | [] => exact .nil
  | t :: ts => exact .cons (passesOver_chars t) (passesOver_allChars ts)

end

/-! ## Names -/

open TypeDeclaration (toList_metadataName)

/-- Outside of angle brackets, the characters become these, whatever stands behind them. -/
def Becomes (cs out : List Char) : Prop :=
  ∀ arity rest, metadataChars ⟨0, arity⟩ (cs ++ rest) = out ++ metadataChars ⟨0, 0⟩ rest

namespace Becomes

variable {cs cs' out out' : List Char}

/-- Outside of angle brackets no arguments have been counted. -/
theorem nil : Becomes [] [] := by
  intro arity rest
  rw [List.nil_append, List.nil_append]
  induction rest generalizing arity with
  | nil => rfl
  | cons c rest ih =>
    by_cases hopen : c = '<'
    · subst hopen
      rw [metadataChars, metadataChars, if_pos rfl, if_pos rfl]
    · rw [metadataChars, metadataChars]
      · simp only [Nat.lt_irrefl, and_false, if_false, Nat.zero_ne_one, true_and, ih arity]
      all_goals exact hopen

theorem append (h : Becomes cs out) (h' : Becomes cs' out') :
    Becomes (cs ++ cs') (out ++ out') := by
  intro arity rest
  rw [List.append_assoc, h, h', List.append_assoc]

theorem single {c : Char} (hopen : c ≠ '<') (hsolid : Text.isBlank c = false) :
    Becomes [c] [c] := by
  intro arity rest
  rw [List.singleton_append, metadataChars]
  · have hrest := nil arity rest
    rw [List.nil_append] at hrest
    simp only [Nat.lt_irrefl, and_false, if_false, Nat.zero_ne_one, hsolid, Bool.not_false,
      and_self, if_true, hrest, List.nil_append, List.singleton_append]
  · exact hopen

theorem word (h : ∀ c ∈ cs, c ≠ '<' ∧ Text.isBlank c = false) : Becomes cs cs := by
  induction cs with
  | nil => exact nil
  | cons c cs ih =>
    have hc := h c List.mem_cons_self
    exact (single hc.1 hc.2).append (ih fun d hd => h d (List.mem_cons_of_mem c hd))

theorem token (h : cs.all (fun c => c != '<' && !Text.isBlank c) = true) : Becomes cs cs := by
  refine word fun c hc => ?_
  have hc := List.all_eq_true.1 h c hc
  simpa only [Bool.and_eq_true, bne_iff_ne, Bool.not_eq_true'] using hc

theorem identifier (i : Identifier) : Becomes i.chars i.chars := by
  refine word fun c hc => ⟨?_, i.plainWord.solid c hc⟩
  rintro rfl
  exact i.not_mem_chars (by decide) hc

/-- Angle brackets become the number of the commas between them, and one. -/
theorem brackets {commas : Nat} (h : PassesOver cs commas) :
    Becomes ('<' :: (cs ++ ['>'])) ('\x60' :: (Nat.repr (1 + commas)).toList) := by
  intro arity rest
  have hinner := h.passes 0 1 ('>' :: rest)
  have hrest := nil (1 + commas) rest
  rw [if_pos rfl, Nat.zero_add] at hinner
  rw [List.nil_append, List.nil_append] at hrest
  simp only [List.cons_append, List.append_assoc, List.nil_append]
  rw [metadataChars, if_pos rfl, Nat.zero_add, hinner, metadataChars]
  · simp only [Nat.zero_lt_one, gt_iff_lt, and_self, if_true, Nat.sub_self, hrest,
      List.cons_append]
  · decide

theorem segment (s : Segment) : Becomes s.chars s.form.toList := by
  rw [Segment.form, toList_metadataName]
  refine (identifier s.identifier).append ?_
  obtain ⟨i, arguments⟩ := s
  cases arguments with
  | none => exact nil
  | given first others =>
    have hinner := brackets (.intercalate (passesOver_allChars (first :: others)))
    have hcounted : 1 + ((allExposedCommas (first :: others)).sum +
        ((allChars (first :: others)).length - 1)) =
        Segment.counted ⟨i, .given first others⟩ := by
      rw [length_allChars, List.length_cons, Nat.add_sub_cancel]
      simp only [Segment.counted, TypeArguments.count, TypeArguments.exposedCommas]
      omega
    rw [hcounted] at hinner
    rwa [if_neg (by omega)]
  | omitted commas =>
    have hinner := brackets (.replicate commas)
    rw [Nat.add_comm] at hinner
    exact hinner

theorem segments (ss : List Segment) :
    Becomes (['.'].intercalate (ss.map (·.chars)))
      (['.'].intercalate (ss.map (·.form.toList))) := by
  induction ss with
  | nil => exact nil
  | cons s ss ih =>
    cases ss with
    | nil =>
      simp only [List.map_cons, List.map_nil, List.intercalate_singleton]
      exact segment s
    | cons s₂ ss =>
      simp only [List.map_cons, List.intercalate_cons_cons] at ih ⊢
      exact ((segment s).append (single (by decide) (by decide))).append ih

end Becomes

/-- Behind each segment stands one more than the commas of its arguments that no further
angle brackets hold. -/
theorem metadataForm_eq_form {n : TypeName} {text : String} (h : Writes text n.chars) :
    metadataForm text = n.form := by
  have hname := Becomes.segments n.segments 0 []
  rw [List.append_nil, metadataChars, List.append_nil] at hname
  rw [metadataForm, Text.onString, ← metadataChars_filter, h, TypeName.chars, hname]
  apply String.toList_injective
  rw [String.toList_ofList, TypeName.form, String.toList_intercalate, List.map_map]
  rfl

end Compilation

/-! ## The way down to a type -/

/-- The segments of a name that lead one step down, into a namespace, whose name may have
several parts, or into a type. -/
inductive Segment.Enters : List Segment → String → Prop
  | intoNamespace (first : Identifier) (others : List Identifier) {name : String}
      (h : Writes name (['.'].intercalate ((first :: others).map (·.chars)))) :
      Enters ((first :: others).map (⟨·, .none⟩)) name
  | intoType (s : Segment) : Enters [s] s.declared

/-- The segments of the name lead down the namespaces and types of a path. -/
def TypeName.LeadsDown (n : TypeName) (path : List String) : Prop :=
  ∃ steps, steps.flatten = n.segments ∧ List.Forall₂ Segment.Enters steps path

/-- No blanks stand in the text. -/
def Name.Solid (text : String) : Prop :=
  ∀ c ∈ text.toList, Text.isBlank c = false

instance (text : String) : Decidable (Name.Solid text) :=
  List.decidableBAll (fun c => Text.isBlank c = false) text.toList

namespace Name

variable {text : String} {chars : List Char} {parts : List String}

theorem Solid.writes (h : Solid text) : Writes text text.toList :=
  List.filter_eq_self.2 fun c hc => by rw [h c hc]; rfl

theorem Writes.solid_iff (h : Writes text chars) : Solid text ↔ text.toList = chars := by
  constructor
  · intro hsolid
    rw [← h, hsolid.writes]
  · intro heq c hc
    rw [heq, ← h, List.mem_filter] at hc
    simpa using hc.2

theorem solid_join_iff : Solid (".".intercalate parts) ↔ ∀ part ∈ parts, Solid part := by
  have hdot : ".".toList.filter (!Text.isBlank ·) = ".".toList := by decide +kernel
  constructor
  · intro h part hpart c hc
    refine h c ?_
    rw [String.toList_intercalate]
    exact Text.mem_intercalate_of_mem _ (List.mem_map_of_mem hpart) hc
  · intro h
    have hsame : (parts.map String.toList).map (·.filter (!Text.isBlank ·)) =
        parts.map String.toList := by
      rw [List.map_map]
      exact List.map_congr_left fun part hpart => (h part hpart).writes
    have hwrites : Writes (".".intercalate parts) (".".intercalate parts).toList := by
      rw [Writes, String.toList_intercalate, Text.filter_intercalate, hdot, hsame]
    exact hwrites.solid_iff.2 rfl

end Name

open Name (Solid)

theorem Identifier.solid_metadataName (i : Identifier) (arity : Nat) :
    Solid (TypeDeclaration.metadataName i.name arity) := by
  intro c hc
  rcases TypeDeclaration.mem_metadataName hc with hname | rfl | hdigit
  · exact i.plainWord.solid c hname
  · decide
  · exact Text.isBlank_eq_false_of_isDigit hdigit

theorem TypeName.solid_form (n : TypeName) : Solid n.form :=
  Name.solid_join_iff.2 (List.forall_mem_map.2 fun s _ => s.identifier.solid_metadataName s.counted)

/-- The segments are declared with the characters of the name, blanks aside. -/
theorem Segment.Enters.writes {ss : List Segment} {name : String} (h : Enters ss name) :
    ss ≠ [] ∧ Writes name (['.'].intercalate (ss.map (·.declared.toList))) := by
  cases h with
  | intoNamespace first others h =>
    refine ⟨List.cons_ne_nil _ _, ?_⟩
    rw [List.map_map]
    exact h
  | intoType s =>
    refine ⟨List.cons_ne_nil _ _, ?_⟩
    rw [List.map_singleton, List.intercalate_singleton]
    exact (s.identifier.solid_metadataName _).writes

theorem Segment.writes_of_enters {steps : List (List Segment)} {path : List String}
    (h : List.Forall₂ Enters steps path) :
    Writes (".".intercalate path) (['.'].intercalate (steps.flatten.map (·.declared.toList))) := by
  have hdot : ".".toList.filter (!Text.isBlank ·) = ['.'] := by decide +kernel
  rw [Writes, String.toList_intercalate, Text.filter_intercalate, hdot, List.map_map]
  induction h with
  | nil => rfl
  | @cons ss name steps path hstep hsteps ih =>
    obtain ⟨hne, hwrites⟩ := hstep.writes
    rw [List.map_cons, List.flatten_cons, List.map_append]
    cases hsteps with
    | nil =>
      rw [List.map_nil, List.intercalate_singleton, List.flatten_nil, List.map_nil,
        List.append_nil]
      exact hwrites
    | @cons ss' name' steps path hstep' hsteps =>
      have hne' : (ss' :: steps).flatten ≠ [] := by
        rw [List.flatten_cons]
        exact List.append_ne_nil_of_left_ne_nil hstep'.writes.1 _
      rw [Text.intercalate_append ['.'] (by simpa using hne) (by simpa using hne'), ← ih,
        List.map_cons, List.intercalate_cons_cons]
      congr 2

/-- The names of the path, joined by dots, are the full name of the type, blanks aside. -/
theorem TypeName.LeadsDown.writes {n : TypeName} {path : List String} (h : n.LeadsDown path) :
    Writes (".".intercalate path) n.declared.toList := by
  obtain ⟨steps, hsteps, hpath⟩ := h
  have hwrites := Segment.writes_of_enters hpath
  rw [hsteps] at hwrites
  rwa [declared, String.toList_intercalate, List.map_map]

open Enclosed (Declared Describes segment?)

theorem Enclosed.exists_described {file : FileId} {source : List Char} {sites : List Enclosed}
    {types : List TypeDeclaration} (h : List.Forall₂ (Describes source file) sites types)
    {s : Enclosed} (hs : s ∈ sites) : ∃ d ∈ types, Describes source file s d := by
  induction h with
  | nil => cases hs
  | cons hdescribes _ ih =>
    rcases List.mem_cons.1 hs with rfl | hs
    · exact ⟨_, List.mem_cons_self, hdescribes⟩
    · obtain ⟨d, hd, hdescribes⟩ := ih hs
      exact ⟨d, List.mem_cons_of_mem _ hd, hdescribes⟩

namespace Compilation

/-- A written name has the form of the full name of the type so named if and only if each
comma that no further angle brackets hold parts two type arguments, and no blanks stand in
the names of the namespaces where the type is declared. -/
theorem metadataForm_eq_fullName_iff (n : TypeName) {text : String} (htext : Writes text n.chars) :
    metadataForm text = n.form ∧
    (metadataForm text = n.declared ↔ n.Plain) ∧
    ∀ (file : FileId) (source : List Char) (t : Tree), t.WellNested →
      ∀ s, Declared source ⟨t, []⟩ s → ∀ name ∈ segment? source s.node,
        n.LeadsDown (s.path ++ [name]) →
        ∃ d ∈ (FileDeclarations.ofTree file source t).types,
          d.handle = ⟨file, s.node.start, s.node.stop⟩ ∧
          (metadataForm text = d.fullName ↔
            n.Plain ∧ ∀ part ∈ s.path ++ [name], Solid part) := by
  have hform := metadataForm_eq_form htext
  refine ⟨hform, by rw [hform, n.form_eq_declared_iff], ?_⟩
  intro file source t hnested s hs name hname hpath
  obtain ⟨-, sites, -, hsites, hdescribed⟩ := FileDeclarations.types_spec file source hnested
  obtain ⟨d, hd, hdescribes⟩ := Enclosed.exists_described hdescribed ((hsites s).2 hs)
  have hfull : d.fullName = ".".intercalate (s.path ++ [name]) := by
    obtain ⟨name', hname', hfull⟩ := hdescribes.fullName
    rwa [Option.mem_unique hname hname']
  have hsolid : Solid d.fullName ↔ d.fullName = n.declared := by
    rw [hfull, hpath.writes.solid_iff, String.toList_inj]
  refine ⟨d, hd, hdescribes.handle, ?_⟩
  rw [hform, ← Name.solid_join_iff, ← hfull, hsolid, ← n.form_eq_declared_iff]
  constructor
  · intro heq
    have hdeclared := hsolid.1 (heq ▸ n.solid_form)
    exact ⟨heq.trans hdeclared, hdeclared⟩
  · rintro ⟨hplain, hdeclared⟩
    rw [hplain, hdeclared]

/-- `A` in the namespace `N`, with one type argument. -/
def nameInN (argument : WrittenType) : TypeName :=
  ⟨[⟨.named "N", .none⟩], ⟨.named "A", .given argument []⟩⟩

def writtenInt : WrittenType :=
  .simple (.named "int") []

theorem leadsDown_nameInN (argument : WrittenType) :
    (nameInN argument).LeadsDown ["N", "A\x601"] := by
  have hname : TypeDeclaration.metadataName "A" 1 = "A\x601" := by decide +kernel
  refine ⟨[[⟨.named "N", .none⟩], [(nameInN argument).last]], rfl, ?_⟩
  rw [← hname]
  exact .cons (.intoNamespace (.named "N") [] (by decide +kernel)) (.cons (.intoType _) .nil)

open FileDeclarations (genericSource genericTree) in
/-- The class is declared in a file as `class A<T>`, behind a namespace directive. -/
theorem metadataForm_eq_fullName_iff_generic :
    Writes "N . A< int? >" (nameInN (.nullable writtenInt)).chars ∧ genericTree.WellNested ∧
      ∃ d ∈ (FileDeclarations.ofTree 0 genericSource genericTree).types,
        d.handle = ⟨0, 13, 54⟩ ∧ metadataForm "N . A< int? >" = d.fullName := by
  have hwrites : Writes "N . A< int? >" (nameInN (.nullable writtenInt)).chars := by
    decide +kernel
  have hnested : genericTree.WellNested := by decide +kernel
  obtain ⟨node, hdeclared, hstart, hstop, hname⟩ : ∃ node,
      Declared genericSource ⟨genericTree, []⟩ ⟨node, ["N"]⟩ ∧ node.start = 13 ∧ node.stop = 54 ∧
        segment? genericSource node = some "A\x601" := by
    refine ⟨_, ⟨_, _, .refl, ⟨[_], [], rfl, ?_, ?_⟩, ?_, .refl, ?_⟩, rfl, rfl, ?_⟩
    all_goals decide +kernel
  obtain ⟨-, -, hfull⟩ := metadataForm_eq_fullName_iff _ hwrites
  obtain ⟨d, hd, hhandle, heq⟩ := hfull 0 genericSource genericTree hnested _ hdeclared _ hname
    (leadsDown_nameInN _)
  have hplain : (nameInN (.nullable writtenInt)).Plain := by
    unfold TypeName.Plain
    decide +kernel
  have hsolid : ∀ part ∈ ["N"] ++ ["A\x601"], Solid part := by decide +kernel
  rw [hstart, hstop] at hhandle
  exact ⟨hwrites, hnested, d, hd, hhandle, heq.2 ⟨hplain, hsolid⟩⟩

/-- The class `A<T>` in the namespace `N` is not found under its name with a tuple, or an
array of two dimensions, as type argument. -/
theorem commas_of_type_argument_are_counted :
    Writes "N.A<(int, string)>"
        (nameInN (.tuple [writtenInt, .simple (.named "string") []])).chars ∧
      Writes "N.A<int[,]>" (nameInN (.array writtenInt 1)).chars ∧
      (nameInN (.tuple [writtenInt, .simple (.named "string") []])).declared = "N.A\x601" ∧
      (nameInN (.array writtenInt 1)).declared = "N.A\x601" ∧
      metadataForm "N.A<(int, string)>" = "N.A\x602" ∧ metadataForm "N.A<int[,]>" = "N.A\x602" := by
  decide +kernel

end Compilation
end TestLint
