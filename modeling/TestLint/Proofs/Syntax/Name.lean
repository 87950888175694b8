import Mathlib.Data.List.Basic
import Mathlib.Data.List.TakeWhile
import TestLint.Proofs.Text.Cutting
import TestLint.Syntax.Name

/-!
# Names that end in a word

What the parts of a written name are when the name ends in a word of letters: the word
belongs to the last segment, together with what stands before it in this segment
(`Name.simpleChars_append`), and nothing before the last dot depends on the word
(`Name.qualifier?_append`).  Behind type arguments the word is not looked at.
-/

namespace TestLint

namespace Text

variable {w : List Char} {last : Char} {p : Char → Bool}

/-! ## A word at the end of a text -/

/-- A text begins with a mark exactly if it does so before a word without the mark's last
character. -/
theorem prefix_append_word_iff (init cs : List Char) (hlast : last ∉ w) :
    init ++ [last] <+: cs ++ w ↔ init ++ [last] <+: cs := by
  refine ⟨fun h => ?_, fun h => h.trans (List.prefix_append cs w)⟩
  rcases List.prefix_or_prefix_of_prefix h (List.prefix_append cs w) with hcs | ⟨rest, hrest⟩
  · exact hcs
  · rw [← hrest] at h ⊢
    rcases List.eq_nil_or_concat' rest with rfl | ⟨rest, c, rfl⟩
    · simp
    · rw [← List.append_assoc] at hrest
      obtain rfl := List.singleton_inj.1 (List.append_inj' hrest rfl).2
      have hrest := (List.prefix_append_right_inj cs).1 h
      exact absurd (hrest.subset List.mem_concat_self) hlast

theorem cutLast?_word (init : List Char) (hlast : last ∉ w) :
    cutLast? (init ++ [last]) w = none := by
  induction w with
  | nil => simp [cutLast?]
  | cons c w ih =>
    have hprefix : ¬init ++ [last] <+: c :: w := fun h => hlast (h.subset (by simp))
    rw [cutLast?, ih fun h => hlast (List.mem_cons_of_mem c h)]
    simp [List.isPrefixOf_iff_prefix, hprefix]

theorem cutLast?_append_word (init : List Char) (hlast : last ∉ w) (cs : List Char) :
    cutLast? (init ++ [last]) (cs ++ w) =
      (cutLast? (init ++ [last]) cs).map fun (before, after) => (before, after ++ w) := by
  induction cs with
  | nil =>
    rw [List.nil_append, cutLast?_word init hlast]
    simp [cutLast?]
  | cons c cs ih =>
    rw [List.cons_append, cutLast?, cutLast?, ih]
    cases cutLast? (init ++ [last]) cs with
    | some parts => rfl
    | none =>
      have hsame := prefix_append_word_iff init (c :: cs) hlast
      rw [List.cons_append] at hsame
      simp only [Option.map_none, List.isPrefixOf_iff_prefix, hsame]
      split
      case isTrue hprefix =>
        rw [Option.map_some, ← List.cons_append, List.drop_append_of_le_length hprefix.length_le]
      case isFalse => rfl

theorem cutLast?_append_self {needle : List Char}
    (hself : cutLast? needle needle = some ([], [])) (before : List Char) :
    cutLast? needle (before ++ needle) = some (before, []) := by
  induction before with
  | nil => exact hself
  | cons c before ih => rw [List.cons_append, cutLast?, ih]

theorem cutLast?_eq_none {cs : List Char} (h : '.' ∉ cs) : cutLast? ['.'] cs = none :=
  cutLast?_word [] h

theorem dropStart?_append_word (init : List Char) (hlast : last ∉ w) (cs : List Char) :
    dropStart? (init ++ [last]) (cs ++ w) = (dropStart? (init ++ [last]) cs).map (· ++ w) := by
  simp only [dropStart?, List.isPrefixOf_iff_prefix, prefix_append_word_iff init cs hlast]
  split
  case isTrue hprefix =>
    rw [Option.map_some, List.drop_append_of_le_length hprefix.length_le]
  case isFalse => rfl

theorem dropEndWhile_append_word (hw : w ≠ []) (hkept : ∀ c ∈ w, p c = false) (cs : List Char) :
    dropEndWhile p (cs ++ w) = cs ++ w :=
  dropEndWhile_eq_self fun c hc => by
    rw [List.getLast?_append_of_ne_nil _ hw] at hc
    exact hkept c (List.mem_of_mem_getLast? hc)

theorem trimStart_append_word (hw : ∀ c ∈ w, isBlank c = false) (cs : List Char) :
    trimStart (cs ++ w) = trimStart cs ++ w := by
  induction cs with
  | nil =>
    cases w with
    | nil => rfl
    | cons c w =>
      rw [List.nil_append, trimStart, List.dropWhile_cons_of_neg]
      · rfl
      · rw [hw c List.mem_cons_self]
        decide
  | cons c cs ih =>
    rw [trimStart, trimStart, List.cons_append, List.dropWhile_cons, List.dropWhile_cons]
    split
    · exact ih
    · rfl

end Text

namespace Name

open Text

/-- None of the characters of a word has a meaning in a written name. -/
structure PlainWord (w : List Char) : Prop where
  ne_nil : w ≠ []
  solid : ∀ c ∈ w, isBlank c = false
  unmarked : ∀ c ∈ ['.', ':', '<', '?'], c ∉ w

variable {kept w v : List Char}

theorem plainWord_iff :
    PlainWord w ↔ w ≠ [] ∧ w.all (fun c => !isBlank c && ".:<?".toList.all (· != c)) = true := by
  simp only [List.all_eq_true, Bool.and_eq_true, Bool.not_eq_true', bne_iff_ne]
  constructor
  · rintro ⟨hne, hsolid, hunmarked⟩
    refine ⟨hne, fun c hc => ⟨hsolid c hc, ?_⟩⟩
    rintro mark hmark rfl
    exact hunmarked mark hmark hc
  · rintro ⟨hne, h⟩
    exact ⟨hne, fun c hc => (h c hc).1, fun mark hmark hc => (h mark hc).2 mark hmark rfl⟩

instance (w : List Char) : Decidable (PlainWord w) :=
  decidable_of_iff _ plainWord_iff.symm

/-- What of a name's beginning belongs to its last segment. -/
def lastSegment (kept : List Char) : List Char :=
  trimStart (afterLast ['.'] (afterLast [':', ':'] kept))

theorem withoutArguments_append (hkept : '<' ∉ kept) (hw : PlainWord w) :
    withoutArguments (kept ++ w) = kept ++ w := by
  refine List.takeWhile_eq_self_iff.2 (bne_of_not_mem fun hmem => ?_)
  rcases List.mem_append.1 hmem with hmem | hmem
  · exact hkept hmem
  · exact hw.unmarked '<' (by simp) hmem

theorem withoutArguments_append_of_mem (hkept : '<' ∈ kept) (w : List Char) :
    withoutArguments (kept ++ w) = withoutArguments kept := by
  obtain ⟨before, after, rfl, hbefore⟩ := List.eq_append_cons_of_mem hkept
  have hpass := bne_of_not_mem hbefore
  rw [withoutArguments, withoutArguments, List.append_assoc,
    List.takeWhile_append_of_pos hpass, List.takeWhile_append_of_pos hpass, List.cons_append,
    List.takeWhile_cons_of_neg (by decide), List.takeWhile_cons_of_neg (by decide)]

theorem afterLast_append (init : List Char) {last : Char} (hlast : last ∉ w) (cs : List Char) :
    afterLast (init ++ [last]) (cs ++ w) = afterLast (init ++ [last]) cs ++ w := by
  rw [afterLast, afterLast, cutLast?_append_word init hlast]
  cases cutLast? (init ++ [last]) cs <;> rfl

/-- The last segment of a name that ends in a word ends in this word. -/
theorem simpleChars_append (hkept : '<' ∉ kept) (hw : PlainWord w) :
    simpleChars (kept ++ w) = lastSegment kept ++ w := by
  have halias := afterLast_append [':'] (hw.unmarked ':' (by simp)) kept
  have hdot := afterLast_append [] (hw.unmarked '.' (by simp))
    (afterLast [':', ':'] kept)
  simp only [List.nil_append, List.cons_append] at halias hdot
  have hquestion : ∀ c ∈ w, (c == '?') = false := by
    intro c hc
    rw [beq_eq_false_iff_ne]
    rintro rfl
    exact hw.unmarked '?' (by simp) hc
  rw [simpleChars, withoutArguments_append hkept hw, halias, hdot, trim,
    trimStart_append_word hw.solid, trimEnd, dropEndWhile_append_word hw.ne_nil hw.solid,
    dropEndWhile_append_word hw.ne_nil hquestion]
  rfl

theorem simpleChars_append_of_mem (hkept : '<' ∈ kept) (w : List Char) :
    simpleChars (kept ++ w) = simpleChars kept := by
  rw [simpleChars, simpleChars, withoutArguments_append_of_mem hkept]

theorem toList_withoutGlobal (cs : List Char) : (withoutGlobal (String.ofList cs)).toList =
    (dropStart? "global::".toList cs).getD cs := by
  rw [withoutGlobal]
  generalize "global::".toList = mark
  rw [String.toList_ofList]
  cases dropStart? mark cs with
  | none => rw [String.toList_ofList, Option.getD_none]
  | some rest => rw [String.toList_ofList, Option.getD_some]

theorem withoutGlobal_append (hw : PlainWord w) (kept : List Char) :
    (withoutGlobal (String.ofList (kept ++ w))).toList =
      (dropStart? "global::".toList kept).getD kept ++ w := by
  have hmark : "global::".toList = "global:".toList ++ [':'] := by decide
  have hdrop := dropStart?_append_word "global:".toList (hw.unmarked ':' (by simp)) kept
  rw [← hmark] at hdrop
  rw [toList_withoutGlobal, hdrop]
  cases dropStart? "global::".toList kept with
  | none => rw [Option.map_none, Option.getD_none, Option.getD_none]
  | some rest => rw [Option.map_some, Option.getD_some, Option.getD_some]

/-- What stands before the last dot of a name that ends in a word does not depend on the word. -/
theorem qualifier?_append (hw : PlainWord w) (hv : PlainWord v) (kept : List Char) :
    qualifier? (String.ofList (kept ++ w)) = qualifier? (String.ofList (kept ++ v)) := by
  rw [qualifier?, qualifier?, withoutGlobal_append hw, withoutGlobal_append hv]
  generalize (dropStart? "global::".toList kept).getD kept = base
  by_cases hbase : '<' ∈ base
  · rw [withoutArguments_append_of_mem hbase, withoutArguments_append_of_mem hbase]
  · have hcut {w : List Char} (hw : PlainWord w) :=
      cutLast?_append_word [] (hw.unmarked '.' (by simp)) base
    simp only [List.nil_append] at hcut
    rw [withoutArguments_append hbase hw, withoutArguments_append hbase hv, hcut hw, hcut hv,
      Option.map_map, Option.map_map]
    rfl

/-- The ending that may be left out does not count. -/
theorem attributeShort_append (hkept : '<' ∉ kept) (hw : PlainWord w)
    (hlength : "Attribute".length ≤ w.length) (hending : ¬"Attribute".toList <:+ w) :
    attributeShort (String.ofList (kept ++ w)) = String.ofList (lastSegment kept ++ w) := by
  have hnone : dropEnd? "Attribute".toList (lastSegment kept ++ w) = none := by
    rw [dropEnd?, if_neg]
    rw [List.isSuffixOf_iff_suffix]
    intro h
    exact hending (List.suffix_of_suffix_length_le h (List.suffix_append _ _) hlength)
  have hsimple : simple (String.ofList (kept ++ w)) = String.ofList (lastSegment kept ++ w) := by
    rw [simple, onString, String.toList_ofList, simpleChars_append hkept hw]
  simp only [attributeShort, hsimple, String.toList_ofList, hnone]

theorem attributeShort_append_attribute (hkept : '<' ∉ kept) (hw : PlainWord w)
    (hfull : PlainWord (w ++ "Attribute".toList)) :
    attributeShort (String.ofList (kept ++ (w ++ "Attribute".toList))) =
      String.ofList (lastSegment kept ++ w) := by
  have hdrop : dropEnd? "Attribute".toList (lastSegment kept ++ (w ++ "Attribute".toList)) =
      some (lastSegment kept ++ w) := by
    rw [← List.append_assoc, dropEnd?, if_pos]
    · rw [List.length_append, Nat.add_sub_cancel, List.take_left]
    · exact List.isSuffixOf_iff_suffix.2 (List.suffix_append _ _)
  have hsimple : simple (String.ofList (kept ++ (w ++ "Attribute".toList))) =
      String.ofList (lastSegment kept ++ (w ++ "Attribute".toList)) := by
    rw [simple, onString, String.toList_ofList, simpleChars_append hkept hfull]
  simp only [attributeShort, hsimple, String.toList_ofList, hdrop]
  cases hrest : lastSegment kept ++ w with
  | nil => exact absurd (List.append_eq_nil_iff.1 hrest).2 hw.ne_nil
  | cons c rest => rfl

theorem attributeShort_append_of_mem (hkept : '<' ∈ kept) (w v : List Char) :
    attributeShort (String.ofList (kept ++ w)) = attributeShort (String.ofList (kept ++ v)) := by
  have hsimple : simple (String.ofList (kept ++ w)) = simple (String.ofList (kept ++ v)) := by
    simp only [simple, onString, String.toList_ofList, simpleChars_append_of_mem hkept]
  simp only [attributeShort, hsimple]

end Name
end TestLint
