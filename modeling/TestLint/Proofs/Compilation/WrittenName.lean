import TestLint.Proofs.Compilation.MetadataForm

/-!
# Names as they are resolved

A written name may have the label of an alias before it and a question mark behind it
(`WrittenName`).  What is looked for under it: the form of full names that it has without
them (`WrittenName.metadataForm_plainName`), and the simple name and number of type
parameters of its last segment (`WrittenName.simpleAndArity_lastSegment`).

Only the label of the global namespace is taken off, and only when it is written without
blanks.  Any other label stays where it is (`WrittenName.kept`).
-/

namespace TestLint

open Name (Writes)

/-! ## Dots and marks -/

namespace Text

variable {cs : List Char}

theorem cutLast?_join {after : String} (hafter : '.' ∉ after.toList) (before : String) :
    cutLast? ['.'] (before ++ "." ++ after).toList = some (before.toList, after.toList) := by
  have hdot : ".".toList = ['.'] := by decide +kernel
  have hcut := cutLast?_append_word [] hafter (before.toList ++ ['.'])
  rw [List.nil_append, cutLast?_append_self (by decide)] at hcut
  rw [String.toList_append, String.toList_append, hdot, hcut]
  rfl

/-- One mark at the end of a text without blanks around it is dropped, blanks aside. -/
theorem filter_dropEndWhile_question {base : List Char} (isMarked : Bool)
    (hsolid : ∀ c ∈ cs.getLast?, isBlank c = false)
    (hbase : ∀ c ∈ base.getLast?, (c == '?') = false)
    (h : cs.filter (!isBlank ·) = base ++ if isMarked then ['?'] else []) :
    (dropEndWhile (· == '?') cs).filter (!isBlank ·) = base := by
  have hkept {cs : List Char} (h : cs.filter (!isBlank ·) = base) :
      dropEndWhile (· == '?') cs = cs := by
    refine dropEndWhile_eq_self fun c hc => ?_
    obtain ⟨init, rfl⟩ := List.getLast?_eq_some_iff.1 hc
    by_cases hmark : c = '?'
    · subst hmark
      rw [List.filter_append] at h
      exact hbase '?' (h ▸ List.getLast?_concat)
    · simpa using hmark
  cases isMarked with
  | false =>
    rw [if_neg Bool.false_ne_true, List.append_nil] at h
    rw [hkept h, h]
  | true =>
    rw [if_pos rfl] at h
    rcases List.eq_nil_or_concat' cs with rfl | ⟨init, c, rfl⟩
    · exact absurd h.symm (List.append_ne_nil_of_right_ne_nil _ (List.cons_ne_nil _ _))
    · have hc := hsolid c List.getLast?_concat
      rw [List.filter_append, List.filter_cons_of_pos (by simp [hc]), List.filter_nil] at h
      obtain ⟨hinit, hmark⟩ := List.append_inj' h rfl
      obtain rfl := List.singleton_inj.1 hmark
      rw [dropEndWhile_concat rfl, hkept hinit, hinit]

end Text

/-! ## The ends of a name -/

/-- The last character of a segment is of its identifier, or closes its type arguments. -/
theorem Segment.last_chars (s : Segment) :
    s.chars ≠ [] ∧ ∀ c ∈ s.chars.getLast?, (c == '?') = false := by
  have hne := s.identifier.plainWord.ne_nil
  refine ⟨List.append_ne_nil_of_left_ne_nil hne _, fun c hc => ?_⟩
  rw [beq_eq_false_iff_ne]
  rintro rfl
  obtain ⟨i, arguments⟩ := s
  cases arguments with
  | none =>
    rw [Segment.chars, TypeArguments.chars, List.append_nil] at hc
    exact i.not_mem_chars (by decide) (List.mem_of_mem_getLast? hc)
  | given first others =>
    rw [Segment.chars, TypeArguments.chars, WrittenType.allChars, WrittenType.bracketed,
      List.getLast?_append_of_ne_nil _ (List.cons_ne_nil _ _), ← List.cons_append,
      List.getLast?_concat] at hc
    cases hc
  | omitted commas =>
    rw [Segment.chars, TypeArguments.chars,
      List.getLast?_append_of_ne_nil _ (List.cons_ne_nil _ _), ← List.cons_append,
      List.getLast?_concat] at hc
    cases hc

namespace TypeName

/-- Words with dots between them, the last one apart. -/
theorem intercalate_segments (f : Segment → List Char) (n : TypeName) :
    ['.'].intercalate (n.segments.map f) =
      (if n.scope = [] then [] else ['.'].intercalate (n.scope.map f) ++ ['.']) ++ f n.last := by
  rw [segments, List.map_append, List.map_singleton]
  split
  case isTrue h =>
    rw [h, List.map_nil, List.nil_append, List.nil_append, List.intercalate_singleton]
  case isFalse h =>
    rw [Text.intercalate_append ['.'] (by simpa using h) (List.cons_ne_nil _ _),
      List.intercalate_singleton]

theorem last_chars (n : TypeName) :
    n.chars ≠ [] ∧ ∀ c ∈ n.chars.getLast?, (c == '?') = false := by
  rw [chars, intercalate_segments]
  refine ⟨List.append_ne_nil_of_right_ne_nil _ n.last.last_chars.1, fun c hc => ?_⟩
  rw [List.getLast?_append_of_ne_nil _ n.last.last_chars.1] at hc
  exact n.last.last_chars.2 c hc

/-- A name begins with an identifier, and then comes a dot or a bracket, if anything. -/
theorem exists_first (n : TypeName) : ∃ (first : Identifier) (rest : List Char),
    n.chars = first.chars ++ rest ∧ ∀ c ∈ rest.head?, c = '.' ∨ c = '<' := by
  have hsegment (s : Segment) : ∀ c ∈ s.arguments.chars.head?, c = '.' ∨ c = '<' := by
    intro c hc
    cases hs : s.arguments with
    | none => rw [hs] at hc; cases hc
    | given first others => rw [hs] at hc; cases hc; exact .inr rfl
    | omitted commas => rw [hs] at hc; cases hc; exact .inr rfl
  obtain ⟨s, others, hs⟩ := List.exists_cons_of_ne_nil n.segments_ne_nil
  refine ⟨s.identifier, s.arguments.chars ++ (if others = [] then [] else
    '.' :: ['.'].intercalate (others.map (·.chars))), ?_, fun c hc => ?_⟩
  · rw [chars, hs, ← List.append_assoc]
    cases others with
    | nil => rw [if_pos rfl, List.append_nil]; exact List.intercalate_singleton
    | cons s' others =>
      rw [if_neg (List.cons_ne_nil _ _), List.map_cons, List.map_cons, List.intercalate_cons_cons,
        List.append_assoc]
      rfl
  · rw [List.head?_append] at hc
    cases hhead : s.arguments.chars.head? with
    | some d =>
      rw [hhead] at hc
      exact hsegment s c (hhead.trans hc)
    | none =>
      rw [hhead, Option.none_or] at hc
      split at hc
      · cases hc
      · cases hc
        exact .inl rfl

end TypeName

/-- Identifiers can be told from what stands behind them. -/
theorem Identifier.append_inj {i j : Identifier} {rest rest' : List Char}
    (hrest : ∀ c ∈ rest.head?, c ∈ Name.marks) (hrest' : ∀ c ∈ rest'.head?, c ∈ Name.marks)
    (h : i.chars ++ rest = j.chars ++ rest') : i.chars = j.chars ∧ rest = rest' := by
  have hnone {i j : Identifier} {rest more rest' : List Char}
      (hrest : ∀ c ∈ rest.head?, c ∈ Name.marks) (hj : j.chars = i.chars ++ more)
      (h : rest = more ++ rest') : more = [] := by
    cases more with
    | nil => rfl
    | cons c more =>
      refine absurd ?_ (j.not_mem_chars (hrest c (by rw [h]; rfl)))
      rw [hj]
      exact List.mem_append_right _ List.mem_cons_self
  rcases List.append_eq_append_iff.1 h with ⟨more, hj, hmore⟩ | ⟨more, hi, hmore⟩
  · obtain rfl := hnone hrest hj hmore
    exact ⟨by rw [hj, List.append_nil], hmore⟩
  · obtain rfl := hnone hrest' hi hmore
    exact ⟨by rw [hi, List.append_nil], hmore.symm⟩

/-- A name as it is written for a type. -/
structure WrittenName where
  /-- The alias before it, as in `label::A.B`. -/
  label : Option Identifier
  name : TypeName
  isNullable : Bool

namespace WrittenName

open Compilation (metadataForm plainName)

def labelChars (w : WrittenName) : List Char :=
  match w.label with
  | some label => label.chars ++ [':', ':']
  | none => []

def chars (w : WrittenName) : List Char :=
  w.labelChars ++ w.name.chars ++ if w.isNullable then ['?'] else []

/-- The label is taken off a text that writes the name: it is that of the global namespace,
and no blanks stand in it. -/
def LosesLabel (text : String) : Prop :=
  Text.startsWith (Text.trimmed text) "global::" = true

instance (text : String) : Decidable (LosesLabel text) :=
  inferInstanceAs (Decidable (_ = _))

/-- What is left of the label. -/
def kept (w : WrittenName) (text : String) : List Char :=
  if LosesLabel text then [] else w.labelChars

variable {w : WrittenName} {text : String}

theorem losesLabel_iff (text : String) : LosesLabel text ↔
    "global::".toList <+: Text.dropEndWhile (· == '?') (Text.trim text.toList) := by
  have hcolon : "global::".toList.getLast? = some ':' := by decide +kernel
  have hlast : ∀ c ∈ "global::".toList.getLast?, (c == '?') = false := by
    intro c hc
    rw [hcolon] at hc
    cases hc
    rfl
  have hne : "global::".toList ≠ [] := by decide +kernel
  rw [Text.prefix_dropEndWhile_iff hne hlast, LosesLabel, Text.startsWith, Text.trimmed,
    Text.onString, List.isPrefixOf_iff_prefix]
  generalize "global::".toList = mark
  rw [String.toList_ofList]

theorem writes_plainName (h : Writes text w.chars) :
    Writes (plainName text) (w.kept text ++ w.name.chars) := by
  have hloses := losesLabel_iff text
  have hstripped : (Text.dropEndWhile (· == '?') (Text.trim text.toList)).filter
      (!Text.isBlank ·) = w.labelChars ++ w.name.chars := by
    refine Text.filter_dropEndWhile_question w.isNullable
      Text.of_mem_getLast?_dropEndWhile (fun c hc => ?_) ?_
    · rw [List.getLast?_append_of_ne_nil _ w.name.last_chars.1] at hc
      exact w.name.last_chars.2 c hc
    · rw [Text.filter_trim]
      exact h
  rw [plainName, Text.onString, Writes, Name.toList_withoutGlobal, kept]
  generalize Text.dropEndWhile (· == '?') (Text.trim text.toList) = cs at hloses hstripped ⊢
  have hglobal : "global::".toList = (Identifier.named "global").chars ++ [':', ':'] := by
    decide +kernel
  cases hdrop : Text.dropStart? "global::".toList cs with
  | none =>
    rw [if_neg]
    · exact hstripped
    · rw [hloses]
      rintro ⟨rest, hrest⟩
      rw [Text.dropStart?_eq_some_iff.2 hrest.symm] at hdrop
      cases hdrop
  | some rest =>
    have hcs := Text.dropStart?_eq_some_iff.1 hdrop
    rw [if_pos (hloses.2 ⟨rest, hcs.symm⟩), Option.getD_some, List.nil_append]
    have hsolid : "global::".toList.filter (!Text.isBlank ·) = "global::".toList := by
      decide +kernel
    rw [hcs, List.filter_append, hsolid, hglobal, List.append_assoc, labelChars] at hstripped
    obtain ⟨first, behind, hname, hbehind⟩ := w.name.exists_first
    have hcolon : ∀ c ∈ (':' :: ':' :: rest.filter (!Text.isBlank ·)).head?, c ∈ Name.marks := by
      rintro c ⟨⟩
      decide
    cases hlabel : w.label with
    | none =>
      -- a name without a label does not begin like this
      rw [hlabel, hname, List.nil_append] at hstripped
      have hmarks : ∀ c ∈ behind.head?, c ∈ Name.marks := by
        intro c hc
        rcases hbehind c hc with rfl | rfl <;> decide
      have heq := (Identifier.append_inj hcolon hmarks hstripped).2
      rcases hbehind ':' (heq ▸ rfl) with h | h <;> exact absurd h (by decide)
    | some label =>
      rw [hlabel, List.append_assoc] at hstripped
      have hmarks : ∀ c ∈ (':' :: ':' :: w.name.chars).head?, c ∈ Name.marks := by
        rintro c ⟨⟩
        decide
      have heq := (Identifier.append_inj hcolon hmarks hstripped).2
      exact (List.cons.inj (List.cons.inj heq).2).2

/-- The form of full names that the name has, behind what is left of its label. -/
def metadata (w : WrittenName) (text : String) : String :=
  String.ofList (w.kept text) ++ w.name.form

/-- The characters are a label, or nothing. -/
def IsLabel (cs : List Char) : Prop :=
  cs = [] ∨ ∃ label : Identifier, cs = label.chars ++ [':', ':']

theorem isLabel_kept (w : WrittenName) (text : String) : IsLabel (w.kept text) := by
  unfold kept labelChars
  split
  · exact .inl rfl
  · cases w.label with
    | none => exact .inl rfl
    | some label => exact .inr ⟨label, rfl⟩

namespace IsLabel

variable {cs : List Char}

theorem not_mem (h : IsLabel cs) {c : Char} (hmark : c ∈ Name.marks) (hcolon : c ≠ ':') :
    c ∉ cs := by
  rcases h with rfl | ⟨label, rfl⟩
  · exact List.not_mem_nil
  · simp [label.not_mem_chars hmark, hcolon]

theorem becomes (h : IsLabel cs) : Compilation.Becomes cs cs := by
  rcases h with rfl | ⟨label, rfl⟩
  · exact .nil
  · exact (Compilation.Becomes.identifier label).append (.token (by decide))

/-- A label before an identifier is not looked at. -/
theorem simple (h : IsLabel cs) (i : Identifier) :
    Name.simple (String.ofList (cs ++ i.chars)) = i.name := by
  have hlast : Name.lastSegment cs = [] := by
    rcases h with rfl | ⟨label, rfl⟩
    · decide
    · have hcut : Text.cutLast? [':', ':'] (label.chars ++ [':', ':']) = some (label.chars, []) :=
        Text.cutLast?_append_self (by decide) label.chars
      rw [Name.lastSegment, Name.afterLast, Name.afterLast, hcut]
      rfl
  rw [Name.simple, Text.onString, String.toList_ofList,
    Name.simpleChars_append (h.not_mem (by decide) (by decide)) i.plainWord, hlast,
    List.nil_append]
  exact String.ofList_toList

end IsLabel

theorem metadataForm_plainName (h : Writes text w.chars) :
    metadataForm (plainName text) = w.metadata text := by
  have hname := (w.isLabel_kept text).becomes.append
    (Compilation.Becomes.segments w.name.segments) 0 []
  rw [List.append_nil, Compilation.metadataChars, List.append_nil] at hname
  rw [metadataForm, Text.onString, ← Compilation.metadataChars_filter, writes_plainName h,
    TypeName.chars, hname]
  apply String.toList_injective
  rw [String.toList_ofList, metadata, String.toList_append, String.toList_ofList,
    TypeName.form, String.toList_intercalate, List.map_map]
  rfl

end WrittenName

/-! ## The last segment -/

theorem Segment.not_mem_form (s : Segment) : '.' ∉ s.form.toList :=
  TypeDeclaration.not_mem_metadataName (s.identifier.not_mem_chars (by decide)) (by decide)
    (by decide) s.counted

namespace WrittenName

variable {w : WrittenName} {text : String}

/-- What is left of the label, if it is left before the last segment. -/
def leftover (w : WrittenName) (text : String) : List Char :=
  if w.name.scope = [] then w.kept text else []

/-- The last segment of the form that is looked for. -/
def lookedFor (w : WrittenName) (text : String) : String :=
  String.ofList (w.leftover text) ++ w.name.last.form

end WrittenName

namespace Compilation

/-- The digits of a number are read as this number, if it fits the machine word. -/
theorem arityOf_repr {n : Nat} (h : n < 2 ^ 64) : arityOf (Nat.repr n).toList = n := by
  have hdigit : ∀ c ∈ (Nat.repr n).toList, c.isDigit = true := fun c hc => by
    rw [Nat.toList_repr] at hc
    exact Nat.isDigit_of_mem_toDigits (by decide) (by decide) hc
  have hvalue {c : Char} (hc : c.isDigit = true) :
      Literal.digitValue? 10 c = some (c.toNat - '0'.toNat) := by
    rw [Char.isDigit, Bool.and_eq_true, decide_eq_true_eq, decide_eq_true_eq] at hc
    have hbounds : '0' ≤ c ∧ c ≤ '9' := hc
    have hupper : c.toNat ≤ 57 := UInt32.le_iff_toNat_le.1 hc.2
    have hzero : '0'.toNat = 48 := rfl
    simp only [Literal.digitValue?, if_pos hbounds]
    exact if_pos (by omega)
  have hread (cs : List Char) (hcs : ∀ c ∈ cs, c.isDigit = true) (m : Nat) :
      cs.foldlM (fun n c => (Literal.digitValue? 10 c).map (10 * n + ·)) m =
        some (Nat.ofDigitChars 10 cs m) := by
    induction cs generalizing m with
    | nil => rfl
    | cons c cs ih =>
      obtain ⟨hc, hcs⟩ := List.forall_mem_cons.1 hcs
      rw [List.foldlM_cons, hvalue hc, Nat.ofDigitChars_cons, ← ih hcs]
      rfl
  have hnatural : Literal.natural? 10 (Nat.repr n).toList = some n := by
    rw [Literal.natural?, if_neg, hread _ hdigit, Nat.toList_repr, Nat.ofDigitChars_ten_toDigits]
    rw [Nat.toList_repr, List.isEmpty_iff]
    exact Nat.toDigits_ne_nil
  have hspelled : Text.dropEndWhile (!Char.isDigit ·) (Nat.repr n).toList =
      (Nat.repr n).toList :=
    Text.dropEndWhile_eq_self fun c hc => by
      rw [hdigit c (List.mem_of_mem_getLast? hc)]
      rfl
  have hsign : Text.dropStart? ['+'] (Nat.repr n).toList = none := by
    rw [Option.eq_none_iff_forall_ne_some]
    intro rest hrest
    have hplus := hdigit '+' (Text.dropStart?_eq_some_iff.1 hrest ▸ List.mem_cons_self)
    cases hplus
  rw [arityOf, hspelled, hsign, Option.getD_none, hnatural]
  exact if_pos h

end Compilation

namespace WrittenName

open Compilation (lastSegment simpleAndArity)

variable {w : WrittenName} {text : String}

theorem isLabel_leftover (w : WrittenName) (text : String) : IsLabel (w.leftover text) := by
  unfold leftover
  split
  · exact w.isLabel_kept text
  · exact .inl rfl

theorem not_mem_lookedFor (w : WrittenName) (text : String) : '.' ∉ (w.lookedFor text).toList := by
  rw [lookedFor, String.toList_append, String.toList_ofList, List.mem_append, not_or]
  exact ⟨(w.isLabel_leftover text).not_mem (by decide) (by decide), w.name.last.not_mem_form⟩

theorem lookedFor_eq (h : w.leftover text = []) : w.lookedFor text = w.name.last.form := by
  rw [lookedFor, h, String.ofList_nil, String.empty_append]

theorem leftover_eq_nil (text : String) (h : w.name.scope ≠ []) : w.leftover text = [] :=
  if_neg h

theorem metadata_eq_lookedFor (text : String) (h : w.name.scope = []) :
    w.metadata text = w.lookedFor text := by
  have hname : w.name.form = w.name.last.form := by
    rw [TypeName.form, TypeName.segments, h, List.nil_append, List.map_singleton]
    rfl
  rw [metadata, lookedFor, leftover, if_pos h, hname]

theorem exists_metadata_eq (text : String) (h : w.name.scope ≠ []) :
    ∃ before, w.metadata text = before ++ "." ++ w.lookedFor text := by
  refine ⟨String.ofList (w.kept text) ++ ".".intercalate (w.name.scope.map (·.form)), ?_⟩
  rw [metadata, TypeName.form, TypeName.segments, List.map_append, List.map_singleton,
    Enclosed.intercalate_append_singleton (by simpa using h), lookedFor, leftover, if_neg h]
  simp only [String.append_assoc, String.ofList_nil, String.empty_append]

theorem mem_metadata_iff (w : WrittenName) (text : String) :
    '.' ∈ (w.metadata text).toList ↔ w.name.scope ≠ [] := by
  constructor
  · intro hdot hscope
    rw [metadata_eq_lookedFor text hscope] at hdot
    exact w.not_mem_lookedFor text hdot
  · intro hscope
    obtain ⟨before, hbefore⟩ := exists_metadata_eq text hscope
    rw [hbefore, String.toList_append, String.toList_append]
    exact List.mem_append_left _ (List.mem_append_right _ (by decide +kernel))

theorem lastSegment_metadata (w : WrittenName) (text : String) :
    lastSegment (w.metadata text) = w.lookedFor text := by
  rw [lastSegment]
  by_cases hscope : w.name.scope = []
  · rw [Text.cutLast?_eq_none (mt (w.mem_metadata_iff text).1 (not_not.2 hscope)),
      metadata_eq_lookedFor text hscope]
  · obtain ⟨before, hbefore⟩ := exists_metadata_eq text hscope
    have hcut := Text.cutLast?_join (w.not_mem_lookedFor text) before
    rw [hbefore, hcut]
    exact String.ofList_toList

theorem simpleAndArity_lookedFor (w : WrittenName) (text : String)
    (harity : w.name.last.counted < 2 ^ 64) :
    simpleAndArity (w.lookedFor text) =
      (w.name.last.identifier.name, w.name.last.counted) := by
  have hlabel := w.isLabel_leftover text
  have hsimple := hlabel.simple w.name.last.identifier
  have hlooked : (w.lookedFor text).toList = w.leftover text ++ w.name.last.identifier.chars ++
      (if w.name.last.counted = 0 then [] else
        '\x60' :: (Nat.repr w.name.last.counted).toList) := by
    rw [lookedFor, Segment.form, String.toList_append, String.toList_ofList,
      TypeDeclaration.toList_metadataName, List.append_assoc]
    rfl
  have hquote : '\x60' ∉ w.leftover text ++ w.name.last.identifier.chars := by
    rw [List.mem_append, not_or]
    exact ⟨hlabel.not_mem (by decide) (by decide),
      w.name.last.identifier.not_mem_chars (by decide)⟩
  rw [simpleAndArity, hlooked]
  split_ifs with hzero
  · rw [List.append_nil, Text.cut?_eq_none_of_not_mem hquote, hzero, ← hsimple]
    rw [hzero, if_pos rfl, List.append_nil] at hlooked
    rw [← hlooked, String.ofList_toList]
  · rw [Text.cut?_mark hquote]
    simp only [hsimple, Compilation.arityOf_repr harity]

end WrittenName

theorem Segment.counted_le_length (s : Segment) : s.counted ≤ s.chars.length := by
  rw [chars, List.length_append, counted]
  cases hs : s.arguments with
  | none => exact Nat.zero_le _
  | given first others =>
    have hinner := (Compilation.PassesOver.intercalate
      (Compilation.passesOver_allChars (first :: others))).le_length
    rw [WrittenType.length_allChars, List.length_cons, Nat.add_sub_cancel] at hinner
    simp only [TypeArguments.count, TypeArguments.exposedCommas, TypeArguments.chars,
      WrittenType.allChars, WrittenType.bracketed, List.length_cons, List.length_append] at hinner ⊢
    omega
  | omitted commas =>
    simp only [TypeArguments.count, TypeArguments.exposedCommas, TypeArguments.chars,
      List.length_cons, List.length_append, List.length_replicate]
    omega

theorem WrittenName.counted_le_length {w : WrittenName} {text : String}
    (h : Writes text w.chars) : w.name.last.counted ≤ text.length := by
  have hchars : text.toList.filter (!Text.isBlank ·) = w.chars := h
  have hfilter := List.length_filter_le (!Text.isBlank ·) text.toList
  have hlast := w.name.last.counted_le_length
  rw [hchars, chars, TypeName.chars, TypeName.intercalate_segments] at hfilter
  simp only [List.length_append, String.length_toList] at hfilter
  omega

end TestLint
