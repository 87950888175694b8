import Mathlib.Data.List.Basic
import Mathlib.Data.List.DropRight
import TestLint.Text.Blank

/-!
# Cuts as decompositions

What the cuts of a text give, said by the parts that the text falls into: a
beginning that is dropped, blanks that are passed over, and the first occurrence
of a pattern (`FirstAt`).
-/

namespace TestLint.Text

variable {needle cs before after rest : List Char}

theorem bne_of_not_mem {c : Char} (h : c ∉ cs) : ∀ d ∈ cs, (d != c) = true := by
  intro d hd
  rw [bne_iff_ne]
  rintro rfl
  exact h hd

theorem dropStart?_eq_some_iff : dropStart? needle cs = some rest ↔ cs = needle ++ rest := by
  unfold dropStart?
  constructor
  · intro h
    split at h
    · next hstart =>
      cases h
      exact (List.prefix_iff_eq_append.1 (List.isPrefixOf_iff_prefix.1 hstart)).symm
    · cases h
  · rintro rfl
    rw [if_pos (List.isPrefixOf_iff_prefix.2 (List.prefix_append _ _)), List.drop_left]

theorem dropStart?_append (start rest : List Char) : dropStart? start (start ++ rest) = some rest :=
  dropStart?_eq_some_iff.2 rfl

theorem dropEnd?_append (kept ending : List Char) :
    dropEnd? ending (kept ++ ending) = some kept := by
  rw [dropEnd?, if_pos (List.isSuffixOf_iff_suffix.2 (List.suffix_append _ _)), List.length_append,
    Nat.add_sub_cancel, List.take_left]

/-! ## Beginnings dropped one by one -/

section

variable {start : List Char}

theorem dropStarts_eq_self (h : ¬start <+: cs) : dropStarts start cs = cs := by
  rw [dropStarts, dif_neg]
  exact fun hboth => h (List.isPrefixOf_iff_prefix.1 hboth.2)

theorem dropStarts_append (hstart : start ≠ []) (cs : List Char) :
    dropStarts start (start ++ cs) = dropStarts start cs := by
  rw [dropStarts, dif_pos ⟨hstart, List.isPrefixOf_iff_prefix.2 (List.prefix_append start cs)⟩,
    List.drop_left]

theorem dropStarts_replicate (hstart : start ≠ []) (n : Nat) (h : ¬start <+: cs) :
    dropStarts start ((List.replicate n start).flatten ++ cs) = cs := by
  induction n with
  | zero => exact dropStarts_eq_self h
  | succ n ih =>
    rw [List.replicate_succ, List.flatten_cons, List.append_assoc, dropStarts_append hstart, ih]

/-- What is dropped is the beginning, some number of times. -/
theorem exists_dropStarts (hstart : start ≠ []) (cs : List Char) :
    ∃ n, cs = (List.replicate n start).flatten ++ dropStarts start cs ∧
      ¬start <+: dropStarts start cs := by
  induction hlength : cs.length using Nat.strongRecOn generalizing cs with
  | ind n ih =>
    by_cases hprefix : start <+: cs
    · obtain ⟨rest, rfl⟩ := hprefix
      have hshorter : rest.length < n := by
        have hpos := List.length_pos_iff.2 hstart
        rw [← hlength, List.length_append]
        omega
      obtain ⟨k, hrest, hnot⟩ := ih _ hshorter rest rfl
      rw [dropStarts_append hstart]
      refine ⟨k + 1, ?_, hnot⟩
      rw [List.replicate_succ, List.flatten_cons, List.append_assoc, ← hrest]
    · rw [dropStarts_eq_self hprefix]
      exact ⟨0, rfl, hprefix⟩

end

/-! ## Blanks -/

/-- There is nothing but blanks. -/
def AllBlank (cs : List Char) : Prop :=
  ∀ c ∈ cs, isBlank c = true

theorem AllBlank.nil : AllBlank [] :=
  List.forall_mem_nil _

theorem AllBlank.append {blanks : List Char} (h : AllBlank blanks) (hcs : AllBlank cs) :
    AllBlank (blanks ++ cs) := by
  intro c hc
  rcases List.mem_append.1 hc with hc | hc
  · exact h c hc
  · exact hcs c hc

/-- The text does not begin with a blank. -/
def NoBlankFirst (cs : List Char) : Prop :=
  ∀ c ∈ cs.head?, isBlank c = false

theorem exists_blanks_trimStart (cs : List Char) :
    ∃ blanks, AllBlank blanks ∧ cs = blanks ++ trimStart cs := by
  refine ⟨cs.takeWhile isBlank, fun c hc => ?_, ?_⟩
  · exact List.all_eq_true.1 List.all_takeWhile c hc
  · rw [trimStart, List.takeWhile_append_dropWhile]

theorem trimStart_append {blanks : List Char} (hblanks : AllBlank blanks)
    (hcs : NoBlankFirst cs) : trimStart (blanks ++ cs) = cs := by
  rw [trimStart, List.dropWhile_append_of_pos hblanks]
  cases cs with
  | nil => rfl
  | cons c rest =>
    have hc : isBlank c = false := hcs c rfl
    rw [List.dropWhile_cons_of_neg (by rw [hc]; decide)]

theorem NoBlankFirst.trimStart_eq (h : NoBlankFirst cs) : trimStart cs = cs :=
  trimStart_append AllBlank.nil h

theorem noBlankFirst_trimStart (cs : List Char) : NoBlankFirst (trimStart cs) := fun c hc => by
  have hfirst := List.head?_dropWhile_not isBlank cs
  rwa [show (cs.dropWhile isBlank).head? = some c from hc] at hfirst

theorem dropEndWhile_eq_self {p : Char → Bool} (h : ∀ c ∈ cs.getLast?, p c = false) :
    dropEndWhile p cs = cs := by
  induction cs with
  | nil => rfl
  | cons c cs ih =>
    cases cs with
    | nil => rw [dropEndWhile_cons, dropEndWhile_nil, h c rfl]; rfl
    | cons c' cs => rw [dropEndWhile_cons, ih h]

theorem dropEndWhile_prefix (p : Char → Bool) (cs : List Char) : dropEndWhile p cs <+: cs := by
  induction cs with
  | nil => exact List.prefix_rfl
  | cons c cs ih =>
    rw [dropEndWhile_cons]
    cases hkept : dropEndWhile p cs with
    | nil => by_cases hc : p c = true <;> simp [hc]
    | cons c' kept => exact (List.prefix_cons_inj c).2 (hkept ▸ ih)

theorem of_mem_getLast?_dropEndWhile {p : Char → Bool} :
    ∀ c ∈ (dropEndWhile p cs).getLast?, p c = false := by
  induction cs with
  | nil => simp
  | cons c cs ih =>
    rw [dropEndWhile_cons]
    cases hkept : dropEndWhile p cs with
    | nil => by_cases hc : p c = true <;> simp [hc]
    | cons c' kept => rwa [hkept] at ih

theorem dropEndWhile_eq_nil_iff {p : Char → Bool} :
    dropEndWhile p cs = [] ↔ ∀ c ∈ cs, p c = true := by
  induction cs with
  | nil => simp
  | cons c cs ih =>
    rw [dropEndWhile_cons, List.forall_mem_cons, ← ih]
    cases dropEndWhile p cs with
    | nil => by_cases hc : p c = true <;> simp [hc]
    | cons a rest => simp

theorem dropEndWhile_concat {p : Char → Bool} {c : Char} (hc : p c = true) (cs : List Char) :
    dropEndWhile p (cs ++ [c]) = dropEndWhile p cs := by
  induction cs with
  | nil => simp [dropEndWhile_cons, hc]
  | cons d cs ih => rw [List.cons_append, dropEndWhile_cons, ih, dropEndWhile_cons]

/-- Nothing is dropped of a beginning that ends in something to be kept. -/
theorem dropEndWhile_append {p : Char → Bool} (hne : cs ≠ [])
    (hlast : ∀ c ∈ cs.getLast?, p c = false) (cs' : List Char) :
    dropEndWhile p (cs ++ cs') = cs ++ dropEndWhile p cs' := by
  induction cs with
  | nil => exact absurd rfl hne
  | cons c cs ih =>
    rw [List.cons_append, dropEndWhile_cons]
    cases cs with
    | nil =>
      have hc : p c = false := hlast c rfl
      rw [List.nil_append]
      cases dropEndWhile p cs' with
      | nil => simp [hc]
      | cons d rest => rfl
    | cons d cs =>
      rw [ih (List.cons_ne_nil d cs) hlast]
      rfl

/-- What is left when one character is dropped at the end. -/
theorem dropEndWhile_eq_iff {mark : Char} {kept : List Char} (hlast : kept.getLast? ≠ some mark) :
    dropEndWhile (· == mark) cs = kept ↔ ∃ n, cs = kept ++ List.replicate n mark := by
  have hconcat (cs : List Char) :
      dropEndWhile (· == mark) (cs ++ [mark]) = dropEndWhile (· == mark) cs :=
    dropEndWhile_concat (p := (· == mark)) (beq_self_eq_true mark) cs
  constructor
  · intro h
    induction cs using List.reverseRecOn with
    | nil => exact ⟨0, by rw [← h]; rfl⟩
    | append_singleton cs c ih =>
      by_cases hc : c = mark
      · rw [hc, hconcat] at h
        obtain ⟨n, rfl⟩ := ih h
        exact ⟨n + 1, by rw [hc, List.replicate_succ', List.append_assoc]⟩
      · rw [dropEndWhile_eq_self (by simpa using hc)] at h
        exact ⟨0, by rw [h, List.replicate_zero, List.append_nil]⟩
  · rintro ⟨n, rfl⟩
    induction n with
    | zero =>
      rw [List.replicate_zero, List.append_nil]
      refine dropEndWhile_eq_self fun c hc => beq_eq_false_iff_ne.2 ?_
      rintro rfl
      exact hlast hc
    | succ n ih =>
      rw [List.replicate_succ', ← List.append_assoc, hconcat, ih]

theorem prefix_dropEndWhile_iff {p : Char → Bool} {cs' : List Char} (hne : cs ≠ [])
    (hlast : ∀ c ∈ cs.getLast?, p c = false) : cs <+: dropEndWhile p cs' ↔ cs <+: cs' := by
  constructor
  · exact fun h => h.trans ( dropEndWhile_prefix p cs')
  · rintro ⟨rest, rfl⟩
    rw [dropEndWhile_append hne hlast]
    exact List.prefix_append _ _

theorem filter_trim (cs : List Char) :
    (trim cs).filter (!isBlank ·) = cs.filter (!isBlank ·) := by
  have hend (cs : List Char) :
      (dropEndWhile isBlank cs).filter (!isBlank ·) = cs.filter (!isBlank ·) := by
    induction cs with
    | nil => rfl
    | cons c cs ih =>
      rw [dropEndWhile_cons, List.filter_cons, ← ih]
      cases dropEndWhile isBlank cs with
      | nil => by_cases hc : isBlank c = true <;> simp [hc]
      | cons d kept => rw [List.filter_cons]
  obtain ⟨blanks, hblanks, hcs⟩ := exists_blanks_trimStart cs
  have hnone : blanks.filter (!isBlank ·) = [] :=
    List.filter_eq_nil_iff.2 fun c hc => by simp [hblanks c hc]
  rw [trim, trimEnd, hend]
  conv_rhs => rw [hcs, List.filter_append, hnone, List.nil_append]

theorem trim_eq_nil_iff : trim cs = [] ↔ AllBlank cs := by
  rw [trim, trimEnd, dropEndWhile_eq_nil_iff]
  obtain ⟨blanks, hblanks, hcs⟩ := exists_blanks_trimStart cs
  constructor
  · intro h
    rw [hcs]
    exact hblanks.append h
  · intro h c hc
    exact h c (hcs ▸ List.mem_append_right blanks hc)

theorem length_trim_le (cs : List Char) : (trim cs).length ≤ cs.length :=
  Nat.le_trans ( dropEndWhile_prefix isBlank _).length_le (List.dropWhile_suffix isBlank).length_le

theorem trim_trimStart (cs : List Char) : trim (trimStart cs) = trim cs := by
  rw [trim, (noBlankFirst_trimStart cs).trimStart_eq, trim]

/-- A text that is not empty and has no blanks around it. -/
structure Unpadded (cs : List Char) : Prop where
  ne_nil : cs ≠ []
  first : NoBlankFirst cs
  last : ∀ c ∈ cs.getLast?, isBlank c = false

theorem unpadded_trim (h : trim cs ≠ []) : Unpadded (trim cs) where
  ne_nil := h
  first c hc := by
    obtain ⟨after, hcs⟩ : trim cs <+: trimStart cs := dropEndWhile_prefix isBlank (trimStart cs)
    refine noBlankFirst_trimStart cs c ?_
    rwa [← hcs, List.head?_append_of_ne_nil _ h]
  last := of_mem_getLast?_dropEndWhile

namespace Unpadded

variable {cs' : List Char}

theorem trim_eq (h : Unpadded cs) : trim cs = cs := by
  rw [trim, h.first.trimStart_eq]
  exact dropEndWhile_eq_self h.last

theorem trim_append {blanks blanks' : List Char} (h : Unpadded cs) (hblanks : AllBlank blanks)
    (hblanks' : AllBlank blanks') : trim (blanks ++ cs ++ blanks') = cs := by
  have hfirst : NoBlankFirst (cs ++ blanks') := by
    rw [NoBlankFirst, List.head?_append_of_ne_nil _ h.ne_nil]
    exact h.first
  rw [trim, List.append_assoc, trimStart_append hblanks hfirst, trimEnd,
    dropEndWhile_append h.ne_nil h.last, dropEndWhile_eq_nil_iff.2 hblanks', List.append_nil]

theorem trim_append_left (h : Unpadded cs) (cs' : List Char) :
    trim (cs' ++ cs) = trimStart cs' ++ cs := by
  have hstart : trimStart (cs' ++ cs) = trimStart cs' ++ cs := by
    rw [trimStart, List.dropWhile_append]
    split
    case isTrue hblank =>
      rw [trimStart, List.isEmpty_iff.1 hblank]
      exact h.first.trimStart_eq
    case isFalse => rfl
  rw [trim, hstart, trimEnd]
  refine dropEndWhile_eq_self fun c hc => h.last c ?_
  rwa [List.getLast?_append_of_ne_nil _ h.ne_nil] at hc

theorem append (h : Unpadded cs) (between : List Char) (h' : Unpadded cs') :
    Unpadded (cs ++ between ++ cs') where
  ne_nil := List.append_ne_nil_of_right_ne_nil _ h'.ne_nil
  first c hc := h.first c (by
    rwa [List.append_assoc, List.head?_append_of_ne_nil _ h.ne_nil] at hc)
  last c hc := h'.last c (by rwa [List.getLast?_append_of_ne_nil _ h'.ne_nil] at hc)

/-- Texts without blanks around them can be joined by anything. -/
theorem intercalate (sep : List Char) {words : List (List Char)} (hne : words ≠ [])
    (h : ∀ w ∈ words, Unpadded w) : Unpadded (sep.intercalate words) := by
  induction words with
  | nil => exact absurd rfl hne
  | cons w words ih =>
    obtain ⟨hw, hrest⟩ := List.forall_mem_cons.1 h
    cases words with
    | nil => rwa [List.intercalate_singleton]
    | cons w' words =>
      rw [List.intercalate_cons_cons]
      exact hw.append sep (ih (List.cons_ne_nil w' words) hrest)

end Unpadded

/-! ## Words -/

theorem flatten_splitOnP (p : Char → Bool) (cs : List Char) :
    (cs.splitOnP p).flatten = cs.filter fun c => !p c := by
  induction cs with
  | nil => rw [List.splitOnP_nil]; rfl
  | cons c cs ih =>
    rw [List.splitOnP_cons_eq_if_modifyHead]
    by_cases hc : p c = true
    · rw [if_pos hc, List.flatten_cons, ih, List.filter_cons_of_neg (by simp [hc]), List.nil_append]
    · obtain ⟨first, rest, hsplit⟩ := List.exists_cons_of_ne_nil (List.splitOnP_ne_nil p cs)
      rw [if_neg hc, List.filter_cons_of_pos (by simp [hc]), ← ih, hsplit, List.modifyHead_cons]
      rfl

/-- The words of a text hold its characters but for those that part them. -/
theorem mem_splitOnP_iff {p : Char → Bool} {c : Char} :
    (∃ word ∈ cs.splitOnP p, c ∈ word) ↔ c ∈ cs ∧ p c = false := by
  rw [← List.mem_flatten, flatten_splitOnP, List.mem_filter, Bool.not_eq_true']

/-- The stretches of a text between the characters that part them. -/
def wordsBy (p : Char → Bool) (cs : List Char) : List (List Char) :=
  (cs.splitOnP p).filter (!·.isEmpty)

theorem wordsBy_append_cons {p : Char → Bool} {c : Char} (hc : p c = true) (cs rest : List Char) :
    wordsBy p (cs ++ c :: rest) = wordsBy p cs ++ wordsBy p rest := by
  rw [wordsBy, List.splitOnP_append_cons cs rest hc, List.filter_append]
  rfl

/-- Two texts with a parting character where they meet have the words of both. -/
theorem wordsBy_append {p : Char → Bool} {rest : List Char}
    (h : (∀ c ∈ cs.getLast?, p c = true) ∨ ∀ c ∈ rest.head?, p c = true) :
    wordsBy p (cs ++ rest) = wordsBy p cs ++ wordsBy p rest := by
  have hnil : wordsBy p [] = [] := by simp [wordsBy, List.splitOnP_nil]
  rcases h with h | h
  · rcases List.eq_nil_or_concat' cs with rfl | ⟨init, c, rfl⟩
    · rw [hnil, List.nil_append, List.nil_append]
    · have hc : p c = true := h c List.getLast?_concat
      rw [List.append_assoc, List.singleton_append, wordsBy_append_cons hc,
        wordsBy_append_cons hc, hnil, List.append_nil]
  · cases rest with
    | nil => rw [hnil, List.append_nil, List.append_nil]
    | cons c rest =>
      have hc : p c = true := h c rfl
      have hrest := wordsBy_append_cons hc [] rest
      rw [hnil, List.nil_append, List.nil_append] at hrest
      rw [wordsBy_append_cons hc, hrest]

theorem wordsBy_eq_singleton {p : Char → Bool} (hne : cs ≠ []) (h : ∀ c ∈ cs, p c = false) :
    wordsBy p cs = [cs] := by
  rw [wordsBy, List.splitOnP_eq_singleton h]
  simp [hne]

/-- A word of a text with a word in it belongs to the text before or behind this one, or is this
one with all that touches it. -/
theorem mem_wordsBy_around {p : Char → Bool} {w x rest : List Char} (hne : w ≠ [])
    (hw : ∀ c ∈ w, p c = false) (hx : x ∈ wordsBy p (cs ++ (w ++ rest))) :
    x ∈ wordsBy p cs ∨ x ∈ wordsBy p rest ∨ ∃ before behind, x = before ++ w ++ behind ∧
      (before = [] → ∀ c ∈ cs.getLast?, p c = true) ∧
      (behind = [] → ∀ c ∈ rest.head?, p c = true) := by
  obtain ⟨ahead, before, rfl, hahead, hbefore⟩ : ∃ ahead before, cs = ahead ++ before ∧
      (∀ c ∈ ahead.getLast?, p c = true) ∧ ∀ c ∈ before, p c = false := by
    refine ⟨cs.rdropWhile (!p ·), cs.rtakeWhile (!p ·),
      List.rdropWhile_append_rtakeWhile.symm, fun c hc => ?_, fun c hc => ?_⟩
    · obtain ⟨init, hinit⟩ := List.getLast?_eq_some_iff.1 hc
      have hlast := List.rdropWhile_last_not (!p ·) cs (by simp [hinit])
      simpa [hinit] using hlast
    · simpa using List.mem_rtakeWhile_imp hc
  obtain ⟨behind, after, rfl, hbehind, hafter⟩ : ∃ behind after, rest = behind ++ after ∧
      (∀ c ∈ behind, p c = false) ∧ ∀ c ∈ after.head?, p c = true := by
    refine ⟨rest.takeWhile (!p ·), rest.dropWhile (!p ·), List.takeWhile_append_dropWhile.symm,
      fun c hc => ?_, fun c hc => ?_⟩
    · simpa using List.mem_takeWhile_imp hc
    · have hfirst := List.head?_dropWhile_not (!p ·) rest
      rw [Option.mem_def.1 hc] at hfirst
      simpa using hfirst
  have hsolid : ∀ c ∈ before ++ w ++ behind, p c = false := by
    simp only [List.mem_append]
    rintro c ((hc | hc) | hc)
    · exact hbefore c hc
    · exact hw c hc
    · exact hbehind c hc
  have htext : ahead ++ before ++ (w ++ (behind ++ after)) =
      ahead ++ (before ++ w ++ behind ++ after) := by simp
  rw [htext, wordsBy_append (.inl hahead), wordsBy_append (.inr hafter),
    wordsBy_eq_singleton (by simp [hne]) hsolid, List.mem_append, List.mem_append,
    List.mem_singleton] at hx
  rw [wordsBy_append (.inl hahead), wordsBy_append (.inr hafter), List.mem_append, List.mem_append]
  rcases hx with hx | hx | hx
  · exact .inl (.inl hx)
  · refine .inr (.inr ⟨before, behind, hx, ?_, ?_⟩)
    · rintro rfl
      rwa [List.append_nil]
    · rintro rfl
      exact hafter
  · exact .inr (.inl (.inr hx))
/-! ## The first occurrence -/

/-- The pattern occurs between the two parts of the text, and nowhere earlier. -/
structure FirstAt (needle before after cs : List Char) : Prop where
  parts : cs = before ++ (needle ++ after)
  first : ∀ before' after', cs = before' ++ (needle ++ after') → before.length ≤ before'.length

theorem FirstAt.of_start (after : List Char) : FirstAt needle [] after (needle ++ after) :=
  ⟨rfl, fun _ _ _ => Nat.zero_le _⟩

theorem FirstAt.cons {c : Char} (h : FirstAt needle before after cs)
    (hstart : ¬needle <+: c :: cs) : FirstAt needle (c :: before) after (c :: cs) := by
  refine ⟨by rw [h.parts, List.cons_append], fun before' after' hparts => ?_⟩
  cases before' with
  | nil => exact absurd ⟨after', hparts.symm⟩ hstart
  | cons c' before' =>
    rw [List.cons_append, List.cons.injEq] at hparts
    exact Nat.succ_le_succ (h.first before' after' hparts.2)

theorem FirstAt.unique {before' after' : List Char} (h : FirstAt needle before after cs)
    (h' : FirstAt needle before' after' cs) : before = before' ∧ after = after' := by
  have hlength : before.length = before'.length :=
    Nat.le_antisymm (h.first _ _ h'.parts) (h'.first _ _ h.parts)
  have hparts := h.parts.symm.trans h'.parts
  obtain ⟨hbefore, hrest⟩ := List.append_inj hparts hlength
  exact ⟨hbefore, List.append_cancel_left hrest⟩

theorem cut?_append (needle after : List Char) :
    cut? needle (needle ++ after) = some ([], after) := by
  rw [cut?.eq_def, if_pos (List.isPrefixOf_iff_prefix.2 (List.prefix_append _ _)), List.drop_left]

theorem cut?_nil (hstart : ¬needle <+: []) : cut? needle [] = none := by
  rw [cut?, if_neg (fun h => hstart (List.isPrefixOf_iff_prefix.1 h))]

theorem cut?_cons {c : Char} (hstart : ¬needle <+: c :: cs) :
    cut? needle (c :: cs) =
      (cut? needle cs).map fun (before, after) => (c :: before, after) := by
  rw [cut?, if_neg (fun h => hstart (List.isPrefixOf_iff_prefix.1 h))]

theorem firstAt_of_cut? (h : cut? needle cs = some (before, after)) :
    FirstAt needle before after cs := by
  induction cs generalizing before with
  | nil =>
    by_cases hstart : needle <+: []
    · obtain rfl := List.prefix_nil.1 hstart
      cases h
      exact .of_start []
    · rw [cut?_nil hstart] at h
      cases h
  | cons c cs ih =>
    by_cases hstart : needle <+: c :: cs
    · obtain ⟨rest, hrest⟩ := hstart
      rw [← hrest, cut?_append] at h
      cases h
      rw [← hrest]
      exact .of_start _
    · rw [cut?_cons hstart, Option.map_eq_some_iff] at h
      obtain ⟨⟨before', after'⟩, hcut, hparts⟩ := h
      cases hparts
      exact (ih hcut).cons hstart

theorem exists_cut?_of_isInfix (h : needle <:+: cs) :
    ∃ before after, cut? needle cs = some (before, after) := by
  induction cs with
  | nil =>
    rw [List.infix_nil] at h
    subst h
    exact ⟨[], [], rfl⟩
  | cons c cs ih =>
    by_cases hstart : needle <+: c :: cs
    · obtain ⟨rest, hrest⟩ := hstart
      rw [← hrest]
      exact ⟨[], rest, cut?_append needle rest⟩
    · obtain ⟨before, after, hcut⟩ := ih ((List.infix_cons_iff.1 h).resolve_left hstart)
      exact ⟨c :: before, after, by rw [cut?_cons hstart, hcut, Option.map_some]⟩

theorem FirstAt.isInfix (h : FirstAt needle before after cs) : needle <:+: cs :=
  ⟨before, after, by rw [h.parts, List.append_assoc]⟩

theorem cut?_eq_some_iff :
    cut? needle cs = some (before, after) ↔ FirstAt needle before after cs := by
  refine ⟨firstAt_of_cut?, fun h => ?_⟩
  obtain ⟨before', after', hcut⟩ := exists_cut?_of_isInfix h.isInfix
  obtain ⟨rfl, rfl⟩ := h.unique (firstAt_of_cut? hcut)
  exact hcut

theorem cut?_eq_none_iff : cut? needle cs = none ↔ ¬needle <:+: cs := by
  rw [Option.eq_none_iff_forall_ne_some]
  constructor
  · intro h hneedle
    obtain ⟨before, after, hcut⟩ := exists_cut?_of_isInfix hneedle
    exact h _ hcut
  · rintro h ⟨before, after⟩ hcut
    exact h (firstAt_of_cut? hcut).isInfix

theorem occursIn_iff : occursIn needle cs = true ↔ needle <:+: cs := by
  rw [occursIn, Option.isSome_iff_ne_none, Ne, cut?_eq_none_iff, not_not]

theorem cut?_mark {mark : Char} {before : List Char} (hbefore : mark ∉ before)
    (after : List Char) : cut? [mark] (before ++ mark :: after) = some (before, after) := by
  induction before with
  | nil => exact cut?_append [mark] after
  | cons c before ih =>
    rw [List.cons_append, cut?_cons, ih fun h => hbefore (List.mem_cons_of_mem c h)]
    · rfl
    · intro h
      exact hbefore ((List.cons_prefix_cons.1 h).1 ▸ List.mem_cons_self)

theorem cut?_eq_none_of_not_mem {mark : Char} (h : mark ∉ cs) : cut? [mark] cs = none :=
  cut?_eq_none_iff.2 fun hmark => h (hmark.subset List.mem_cons_self)

end TestLint.Text
