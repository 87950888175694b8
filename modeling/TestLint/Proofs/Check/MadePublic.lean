import Mathlib.Data.List.DropRight
import TestLint.Check.Basic
import TestLint.Proofs.Declaration.Places

/-!
# Making a method public

The fix puts one `public` where the words of accessibility of a method stand, or before its
first modifier if it has none.  What it gives is said of the source cut up at the modifiers
(`ModifierList`): the words before the first word of accessibility and behind the last one
stay, and so does all that stands around them (`ModifierList.madePublic`).

All that stands between the first and the last word of accessibility goes, also modifiers
that say nothing of accessibility; these are kept exactly if none of them stands there
(`Check.publicFix_keeps_modifiers_iff`).
-/

namespace TestLint

open Text

namespace Modifiers

/-- The modifiers of a declaration as words. -/
def keywords (m : Modifiers) : List String :=
  m.tokens.map (·.text)

/-- The word is one of accessibility. -/
def isAccess (keyword : String) : Bool :=
  accessibilityKeywords.contains keyword

/-- A modifier that says nothing of accessibility stands between two that do. -/
def Interleaved (keywords : List String) : Prop :=
  ∃ a other b, [a, other, b].Sublist keywords ∧ isAccess a = true ∧ isAccess other = false ∧
    isAccess b = true

end Modifiers

/-! ## Modifiers in a source -/

/-- A modifier, and what is written between it and the next one. -/
structure WrittenModifier where
  word : List Char
  gap : List Char
  deriving DecidableEq, Repr, Inhabited

namespace WrittenModifier

def text (w : WrittenModifier) : List Char :=
  w.word ++ w.gap

def keyword (w : WrittenModifier) : String :=
  Text.trimmed (String.ofList w.word)

def isAccess (w : WrittenModifier) : Bool :=
  Modifiers.isAccess w.keyword

/-- The word `public`. -/
def publicWord (gap : List Char) : WrittenModifier :=
  ⟨"public".toList, gap⟩

/-- The token of a modifier that begins at an offset of the source. -/
def token (source : List Char) (offset : Nat) (w : WrittenModifier) : Token :=
  ⟨w.keyword, .ofOffsets offset (offset + byteSize w.word) source⟩

/-- The text of modifiers, one after the other. -/
def textOf (ws : List WrittenModifier) : List Char :=
  ws.flatMap text

/-- The tokens of modifiers, the first of which begins at an offset of the source. -/
def tokensFrom (source : List Char) (offset : Nat) : List WrittenModifier → List Token
  | [] => []
  | w :: rest => w.token source offset :: tokensFrom source (offset + byteSize w.text) rest

variable {w : WrittenModifier} {ws vs : List WrittenModifier} {source : List Char} {offset : Nat}

theorem publicWord_keyword (gap : List Char) : (publicWord gap).keyword = "public" := by
  change Text.trimmed (String.ofList "public".toList) = "public"
  decide +kernel

theorem publicWord_isAccess (gap : List Char) : (publicWord gap).isAccess = true := by
  rw [isAccess, publicWord_keyword]
  rfl

@[simp] theorem textOf_nil : textOf [] = [] := rfl

@[simp] theorem textOf_cons (w : WrittenModifier) (ws : List WrittenModifier) :
    textOf (w :: ws) = w.text ++ textOf ws := rfl

@[simp] theorem textOf_append (ws vs : List WrittenModifier) :
    textOf (ws ++ vs) = textOf ws ++ textOf vs :=
  List.flatMap_append

theorem tokensFrom_append : tokensFrom source offset (ws ++ vs) =
    tokensFrom source offset ws ++ tokensFrom source (offset + byteSize (textOf ws)) vs := by
  induction ws generalizing offset with
  | nil => rfl
  | cons w ws ih =>
    rw [List.cons_append, tokensFrom, tokensFrom, ih, textOf_cons, byteSize_append,
      Nat.add_assoc, List.cons_append]

theorem map_text_tokensFrom (source : List Char) (offset : Nat) (ws : List WrittenModifier) :
    (tokensFrom source offset ws).map (·.text) = ws.map (·.keyword) := by
  induction ws generalizing offset with
  | nil => rfl
  | cons w ws ih =>
    rw [tokensFrom, List.map_cons, List.map_cons, ih]
    rfl

/-- The place of a modifier is that of its word. -/
theorem token_covers (a c : List Char) (w : WrittenModifier) :
    (w.token (a ++ w.word ++ c) (byteSize a)).location.Covers (a ++ w.word ++ c)
      ⟨byteSize a, byteSize (a ++ w.word)⟩ := by
  rw [token, ← byteSize_append]
  exact Location.covers_between a w.word c

end WrittenModifier

open WrittenModifier (textOf tokensFrom)

/-- A source, cut up at the modifiers of a declaration. -/
structure ModifierList where
  before : List Char
  words : List WrittenModifier
  after : List Char
  deriving DecidableEq, Repr, Inhabited

namespace ModifierList

def text (l : ModifierList) : List Char :=
  l.before ++ textOf l.words ++ l.after

def modifiers (l : ModifierList) : Modifiers :=
  ⟨tokensFrom l.text (byteSize l.before) l.words⟩

/-- The words before the first word of accessibility. -/
def ahead (l : ModifierList) : List WrittenModifier :=
  l.words.takeWhile (!·.isAccess)

/-- The words from the first word of accessibility to the last one. -/
def span (l : ModifierList) : List WrittenModifier :=
  (l.words.dropWhile (!·.isAccess)).rdropWhile (!·.isAccess)

/-- The words behind the last word of accessibility. -/
def behind (l : ModifierList) : List WrittenModifier :=
  (l.words.dropWhile (!·.isAccess)).rtakeWhile (!·.isAccess)

/-- One `public` takes the place of the words of accessibility and of all between them; without
such words it comes first. -/
def madePublic (l : ModifierList) : ModifierList :=
  match l.span.getLast? with
  | none => { l with words := .publicWord [' '] :: l.words }
  | some last => { l with words := l.ahead ++ .publicWord last.gap :: l.behind }

variable {l : ModifierList} {first last : WrittenModifier}

theorem words_eq (l : ModifierList) : l.ahead ++ (l.span ++ l.behind) = l.words := by
  rw [span, behind, List.rdropWhile_append_rtakeWhile, ahead, List.takeWhile_append_dropWhile]

theorem isAccess_of_mem_ahead {w : WrittenModifier} (h : w ∈ l.ahead) : w.isAccess = false := by
  simpa using List.mem_takeWhile_imp h

theorem isAccess_of_mem_behind {w : WrittenModifier} (h : w ∈ l.behind) : w.isAccess = false := by
  simpa using List.mem_rtakeWhile_imp h

/-- Either no word is one of accessibility, or the span begins and ends with such words. -/
theorem span_cases (l : ModifierList) :
    (l.span = [] ∧ ∀ w ∈ l.words, w.isAccess = false) ∨
      ∃ first last, l.span.head? = some first ∧ l.span.getLast? = some last ∧
        first.isAccess = true ∧ last.isAccess = true := by
  cases hdrop : l.words.dropWhile (!·.isAccess) with
  | nil =>
    refine .inl ⟨by rw [span, hdrop, List.rdropWhile_nil], fun w hw => ?_⟩
    simpa using List.dropWhile_eq_nil_iff.1 hdrop w hw
  | cons first rest =>
    have hfirst : first.isAccess = true := by
      have hnot := List.head?_dropWhile_not (!·.isAccess) l.words
      rw [hdrop] at hnot
      simpa using hnot
    have hne : l.span ≠ [] := by
      rw [span, hdrop, ne_eq, List.rdropWhile_eq_nil_iff]
      intro hall
      have := hall first List.mem_cons_self
      rw [hfirst] at this
      cases this
    refine .inr ⟨first, l.span.getLast hne, ?_, List.getLast?_eq_some_getLast hne, hfirst, ?_⟩
    · obtain ⟨tail, htail⟩ := List.rdropWhile_prefix (!·.isAccess) (first :: rest)
      obtain ⟨head, more, hspan⟩ := List.exists_cons_of_ne_nil hne
      rw [← hdrop] at htail
      change l.span ++ tail = _ at htail
      rw [hspan, hdrop, List.cons_append, List.cons.injEq] at htail
      rw [hspan, htail.1, List.head?_cons]
    · have hlast := List.rdropWhile_last_not (fun w : WrittenModifier => !w.isAccess) _ hne
      simpa [span] using hlast

/-! ## The tokens of accessibility -/

theorem accessibilityTokens_eq_nil {source : List Char} {offset : Nat}
    {ws : List WrittenModifier} (h : ∀ w ∈ ws, w.isAccess = false) :
    Modifiers.accessibilityTokens ⟨tokensFrom source offset ws⟩ = [] := by
  rw [Modifiers.accessibilityTokens, List.filter_eq_nil_iff]
  intro t ht
  have htext : t.text ∈ ws.map (·.keyword) := by
    rw [← WrittenModifier.map_text_tokensFrom source offset]
    exact List.mem_map_of_mem ht
  obtain ⟨w, hw, htext⟩ := List.mem_map.1 htext
  rw [← htext]
  exact Bool.eq_false_iff.1 (h w hw)

theorem accessibilityTokens_append (ts us : List Token) :
    Modifiers.accessibilityTokens ⟨ts ++ us⟩ =
      Modifiers.accessibilityTokens ⟨ts⟩ ++ Modifiers.accessibilityTokens ⟨us⟩ :=
  List.filter_append ts us

/-- Only words of the span are words of accessibility. -/
theorem accessibilityTokens_eq (l : ModifierList) : l.modifiers.accessibilityTokens =
    Modifiers.accessibilityTokens
      ⟨tokensFrom l.text (byteSize (l.before ++ textOf l.ahead)) l.span⟩ := by
  have htokens : l.modifiers = ⟨tokensFrom l.text (byteSize l.before) l.ahead ++
      (tokensFrom l.text (byteSize (l.before ++ textOf l.ahead)) l.span ++
        tokensFrom l.text (byteSize (l.before ++ textOf l.ahead) + byteSize (textOf l.span))
          l.behind)⟩ := by
    rw [modifiers, ← words_eq, WrittenModifier.tokensFrom_append,
      WrittenModifier.tokensFrom_append, ← byteSize_append]
  rw [htokens, accessibilityTokens_append, accessibilityTokens_append,
    accessibilityTokens_eq_nil fun _ => isAccess_of_mem_ahead,
    accessibilityTokens_eq_nil fun _ => isAccess_of_mem_behind, List.nil_append, List.append_nil]

theorem accessibilityTokens_cons {w : WrittenModifier} (h : w.isAccess = true)
    (source : List Char) (offset : Nat) (ts : List Token) :
    Modifiers.accessibilityTokens ⟨w.token source offset :: ts⟩ =
      w.token source offset :: Modifiers.accessibilityTokens ⟨ts⟩ :=
  List.filter_cons_of_pos h

/-- The tokens of accessibility begin and end as the span does. -/
theorem accessibilityTokens_ends {tail init : List WrittenModifier}
    (hfirst : l.span = first :: tail) (hlast : l.span = init ++ [last])
    (hfirstAccess : first.isAccess = true) (hlastAccess : last.isAccess = true) :
    l.modifiers.accessibilityTokens.head? =
        some (first.token l.text (byteSize (l.before ++ textOf l.ahead))) ∧
      l.modifiers.accessibilityTokens.getLast? =
        some (last.token l.text (byteSize (l.before ++ textOf l.ahead ++ textOf init))) := by
  rw [accessibilityTokens_eq]
  constructor
  · rw [hfirst, tokensFrom, accessibilityTokens_cons hfirstAccess, List.head?_cons]
  · rw [hlast, WrittenModifier.tokensFrom_append, accessibilityTokens_append, tokensFrom,
      accessibilityTokens_cons hlastAccess, byteSize_append _ (textOf init)]
    exact List.getLast?_concat

end ModifierList

/-! ## The fix -/

namespace Check

theorem publicFix_edits_of_nil {m : Modifiers} (h : m.accessibilityTokens = [])
    (fallback : Location) : (publicFix m fallback).edits =
      [.insert ((m.tokens.head?.map (·.location)).getD fallback).line
        ((m.tokens.head?.map (·.location)).getD fallback).column "public "] := by
  rw [publicFix, h]

theorem publicFix_edits_of_ends {m : Modifiers} {first last : Token}
    (hfirst : m.accessibilityTokens.head? = some first)
    (hlast : m.accessibilityTokens.getLast? = some last) (fallback : Location) :
    (publicFix m fallback).edits = [.replaceSpan first.location last.location "public"] := by
  obtain ⟨rest, hrest⟩ := List.head?_eq_some_iff.1 hfirst
  rw [hrest, List.getLast?_cons] at hlast
  rw [publicFix, hrest, ← Option.some.inj hlast]

end Check

namespace ModifierList

variable {l : ModifierList} {fallback : Location}

/-- Without words of accessibility, `public` is put before all modifiers. -/
theorem apply_publicFix_of_none (hsize : byteSize l.text < Position.wordSize)
    (hfallback : l.words = [] → ∃ r, fallback.Covers l.text r ∧ byteSize l.before = r.start)
    (hspan : l.span = []) (hnone : ∀ w ∈ l.words, w.isAccess = false) :
    Edit.apply (String.ofList l.text) (Check.publicFix l.modifiers fallback).edits =
      .ok (String.ofList l.madePublic.text) := by
  obtain ⟨r, hcovers, hstart⟩ : ∃ r, ((l.modifiers.tokens.head?.map (·.location)).getD
      fallback).Covers l.text r ∧ byteSize l.before = r.start := by
    cases hwords : l.words with
    | nil =>
      have htokens : l.modifiers.tokens = [] := by rw [modifiers, hwords, tokensFrom]
      rw [htokens]
      exact hfallback hwords
    | cons w ws =>
      have htext : l.text = l.before ++ w.word ++ (w.gap ++ textOf ws ++ l.after) := by
        simp only [text, hwords, WrittenModifier.textOf_cons, WrittenModifier.text,
          List.append_assoc]
      have htokens : l.modifiers.tokens.head? = some (w.token l.text (byteSize l.before)) := by
        rw [modifiers, hwords, tokensFrom, List.head?_cons]
      rw [htokens, htext]
      exact ⟨_, WrittenModifier.token_covers _ _ w, rfl⟩
  have htext : l.text = l.before ++ (textOf l.words ++ l.after) := by
    rw [text, List.append_assoc]
  have hnil : l.modifiers.accessibilityTokens = [] := accessibilityTokens_eq_nil hnone
  rw [Check.publicFix_edits_of_nil hnil]
  generalize (l.modifiers.tokens.head?.map (·.location)).getD fallback = place at hcovers ⊢
  rw [htext] at hsize hcovers ⊢
  rw [Edit.apply_insert_between hsize hcovers hstart, madePublic, hspan]
  simp [text, WrittenModifier.text, WrittenModifier.publicWord]

/-- From the first word of accessibility to the last one, all is replaced. -/
theorem apply_publicFix_of_span {first last : WrittenModifier} {tail init : List WrittenModifier}
    (hsize : byteSize l.text < Position.wordSize) (htail : l.span = first :: tail)
    (hinit : l.span = init ++ [last]) (hfirst : first.isAccess = true)
    (hlast : last.isAccess = true) :
    Edit.apply (String.ofList l.text) (Check.publicFix l.modifiers fallback).edits =
      .ok (String.ofList l.madePublic.text) := by
  let a := l.before ++ textOf l.ahead
  let b := textOf init ++ last.word
  let c := last.gap ++ textOf l.behind ++ l.after
  obtain ⟨hheadToken, hlastToken⟩ := accessibilityTokens_ends htail hinit hfirst hlast
  have hcoversFirst : (first.token l.text (byteSize a)).location.Covers l.text
      ⟨byteSize a, byteSize (a ++ first.word)⟩ := by
    have htext : l.text = a ++ first.word ++
        (first.gap ++ textOf tail ++ textOf l.behind ++ l.after) := by
      rw [text, ← words_eq, htail]
      simp [a, WrittenModifier.text]
    rw [htext]
    exact WrittenModifier.token_covers _ _ first
  have hcoversLast : (last.token l.text (byteSize (a ++ textOf init))).location.Covers l.text
      ⟨byteSize (a ++ textOf init), byteSize (a ++ textOf init ++ last.word)⟩ := by
    have htext : l.text = a ++ textOf init ++ last.word ++ c := by
      rw [text, ← words_eq, hinit]
      simp [a, c, WrittenModifier.text]
    rw [htext]
    exact WrittenModifier.token_covers _ _ last
  have hforward : byteSize a ≤ byteSize (a ++ textOf init ++ last.word) := by
    rw [List.append_assoc, byteSize_append a]
    exact Nat.le_add_right _ _
  have hresolves := TextEdit.resolves_replaceSpan hsize hcoversFirst hcoversLast hforward "public"
  have htext : l.text = a ++ b ++ c := by
    rw [text, ← words_eq, hinit]
    simp [a, b, c, WrittenModifier.text]
  rw [Check.publicFix_edits_of_ends hheadToken hlastToken]
  change Edit.apply _ [.replaceSpan (first.token l.text (byteSize a)).location
    (last.token l.text (byteSize (a ++ textOf init))).location "public"] = _
  generalize TextEdit.replaceSpan _ _ _ = e at hresolves ⊢
  rw [htext] at hresolves ⊢
  rw [Edit.apply_between hresolves rfl (by simp only [b, List.append_assoc]), madePublic, hinit,
    List.getLast?_concat]
  simp [a, c, text, WrittenModifier.text, WrittenModifier.publicWord]

/-- The fix gives the text with the accessibility made public. -/
theorem apply_publicFix (hsize : byteSize l.text < Position.wordSize)
    (hfallback : l.words = [] → ∃ r, fallback.Covers l.text r ∧ byteSize l.before = r.start) :
    Edit.apply (String.ofList l.text) (Check.publicFix l.modifiers fallback).edits =
      .ok (String.ofList l.madePublic.text) := by
  rcases l.span_cases with ⟨hspan, hnone⟩ | ⟨first, last, hhead, hgetLast, hfirst, hlast⟩
  · exact apply_publicFix_of_none hsize hfallback hspan hnone
  · obtain ⟨tail, htail⟩ := List.head?_eq_some_iff.1 hhead
    obtain ⟨init, hinit⟩ := List.getLast?_eq_some_iff.1 hgetLast
    exact apply_publicFix_of_span hsize htail hinit hfirst hlast

/-! ## What becomes of the modifiers -/

theorem keywords_modifiers (l : ModifierList) : l.modifiers.keywords = l.words.map (·.keyword) :=
  WrittenModifier.map_text_tokensFrom _ _ _

theorem filter_keywords (ws : List WrittenModifier) :
    (ws.map (·.keyword)).filter Modifiers.isAccess = (ws.filter (·.isAccess)).map (·.keyword) :=
  List.filter_map

theorem filter_others (ws : List WrittenModifier) :
    (ws.map (·.keyword)).filter (!Modifiers.isAccess ·) =
      (ws.filter (!·.isAccess)).map (·.keyword) :=
  List.filter_map

theorem filter_access_eq_nil {ws : List WrittenModifier} (h : ∀ w ∈ ws, w.isAccess = false) :
    ws.filter (·.isAccess) = [] :=
  List.filter_eq_nil_iff.2 fun w hw => Bool.eq_false_iff.1 (h w hw)

theorem filter_others_eq_self {ws : List WrittenModifier} (h : ∀ w ∈ ws, w.isAccess = false) :
    ws.filter (!·.isAccess) = ws :=
  List.filter_eq_self.2 fun w hw => by rw [h w hw]; rfl

@[simp] theorem madePublic_before (l : ModifierList) : l.madePublic.before = l.before := by
  unfold madePublic
  split <;> rfl

@[simp] theorem madePublic_after (l : ModifierList) : l.madePublic.after = l.after := by
  unfold madePublic
  split <;> rfl

theorem madePublic_words_of_nil (h : l.span = []) :
    l.madePublic.words = .publicWord [' '] :: l.words := by
  rw [madePublic, h, List.getLast?_nil]

theorem madePublic_words_of_getLast? (h : l.span.getLast? = some last) :
    l.madePublic.words = l.ahead ++ .publicWord last.gap :: l.behind := by
  rw [madePublic, h]

/-- The only word of accessibility is `public`. -/
theorem madePublic_access (l : ModifierList) :
    l.madePublic.modifiers.keywords.filter Modifiers.isAccess = ["public"] := by
  rw [keywords_modifiers, filter_keywords]
  rcases l.span_cases with ⟨hspan, hnone⟩ | ⟨first, last, -, hlast, -, -⟩
  · rw [madePublic_words_of_nil hspan,
      List.filter_cons_of_pos (WrittenModifier.publicWord_isAccess _), filter_access_eq_nil hnone,
      List.map_singleton, WrittenModifier.publicWord_keyword]
  · rw [madePublic_words_of_getLast? hlast, List.filter_append,
      List.filter_cons_of_pos (WrittenModifier.publicWord_isAccess _),
      filter_access_eq_nil fun _ => isAccess_of_mem_ahead,
      filter_access_eq_nil fun _ => isAccess_of_mem_behind, List.nil_append,
      List.map_singleton, WrittenModifier.publicWord_keyword]

/-- The other words are kept exactly if the span is made of words of accessibility only. -/
theorem madePublic_others_iff (l : ModifierList) :
    l.madePublic.modifiers.keywords.filter (!Modifiers.isAccess ·) =
      l.modifiers.keywords.filter (!Modifiers.isAccess ·) ↔ ∀ w ∈ l.span, w.isAccess = true := by
  rw [keywords_modifiers, keywords_modifiers, filter_others, filter_others]
  have hpublic (gap : List Char) (ws : List WrittenModifier) :
      (WrittenModifier.publicWord gap :: ws).filter (!·.isAccess) = ws.filter (!·.isAccess) :=
    List.filter_cons_of_neg (by simp [WrittenModifier.publicWord_isAccess])
  rcases l.span_cases with ⟨hspan, -⟩ | ⟨first, last, -, hlast, -, -⟩
  · rw [madePublic_words_of_nil hspan, hpublic, hspan]
    simp
  · have hkept : l.madePublic.words.filter (!·.isAccess) = l.ahead ++ l.behind := by
      rw [madePublic_words_of_getLast? hlast, List.filter_append, hpublic,
        filter_others_eq_self fun _ => isAccess_of_mem_ahead,
        filter_others_eq_self fun _ => isAccess_of_mem_behind]
    have hbefore : l.words.filter (!·.isAccess) =
        l.ahead ++ (l.span.filter (!·.isAccess) ++ l.behind) := by
      rw [← l.words_eq, List.filter_append, List.filter_append,
        filter_others_eq_self fun _ => isAccess_of_mem_ahead,
        filter_others_eq_self fun _ => isAccess_of_mem_behind]
    rw [hkept, hbefore, List.map_append, List.map_append, List.map_append,
      List.append_cancel_left_eq, List.self_eq_append_left, List.map_eq_nil_iff,
      List.filter_eq_nil_iff]
    simp

theorem span_sublist (l : ModifierList) : l.span.Sublist l.words := by
  rw [← l.words_eq]
  exact (List.sublist_append_left _ _).trans (List.sublist_append_right _ _)

/-- What stands between two words of accessibility stands in the span. -/
theorem sublist_span {w : WrittenModifier} (h : [first, w, last].Sublist l.words)
    (hfirst : first.isAccess = true) (hlast : last.isAccess = true) :
    [first, w, last].Sublist l.span := by
  have hahead : first ∉ l.ahead := fun hmem =>
    Bool.eq_false_iff.1 (isAccess_of_mem_ahead hmem) hfirst
  have hbehind : last ∉ l.behind := fun hmem =>
    Bool.eq_false_iff.1 (isAccess_of_mem_behind hmem) hlast
  rw [← l.words_eq] at h
  obtain ⟨xs, ys, hparts, hxs, hys⟩ := List.sublist_append_iff.1 h
  cases xs with
  | cons x xs =>
    rw [List.cons_append, List.cons.injEq] at hparts
    exact absurd (hparts.1 ▸ hxs.subset List.mem_cons_self) hahead
  | nil =>
    rw [List.nil_append] at hparts
    rw [← hparts] at hys
    obtain ⟨ys, zs, hparts, hys, hzs⟩ := List.sublist_append_iff.1 hys
    rcases List.eq_nil_or_concat' zs with rfl | ⟨zs, z, rfl⟩
    · rw [List.append_nil] at hparts
      rwa [hparts]
    · have hz : z = last := by
        have := congrArg List.getLast? hparts
        rw [← List.append_assoc, List.getLast?_concat] at this
        exact (Option.some.inj this).symm
      exact absurd (hz ▸ hzs.subset (by simp)) hbehind

/-- Another modifier stands between two words of accessibility if the span holds one. -/
theorem interleaved_iff (l : ModifierList) :
    Modifiers.Interleaved l.modifiers.keywords ↔ ∃ w ∈ l.span, w.isAccess = false := by
  rw [keywords_modifiers]
  constructor
  · rintro ⟨a, other, b, hsub, ha, hother, hb⟩
    obtain ⟨ws, hws, hkeywords⟩ := List.sublist_map_iff.1 hsub
    obtain ⟨first, ws₁, rfl, rfl, h₁⟩ := List.map_eq_cons_iff.1 hkeywords.symm
    obtain ⟨w, ws₂, rfl, rfl, h₂⟩ := List.map_eq_cons_iff.1 h₁
    obtain ⟨last, ws₃, rfl, rfl, h₃⟩ := List.map_eq_cons_iff.1 h₂
    obtain rfl := List.map_eq_nil_iff.1 h₃
    exact ⟨w, (sublist_span hws ha hb).subset (by simp), hother⟩
  · rintro ⟨w, hw, hother⟩
    rcases l.span_cases with ⟨hspan, -⟩ | ⟨first, last, hhead, hgetLast, hfirst, hlast⟩
    · rw [hspan] at hw
      cases hw
    · have hne {v : WrittenModifier} (hv : v.isAccess = true) : w ≠ v := by
        rintro rfl
        rw [hv] at hother
        cases hother
      obtain ⟨tail, htail⟩ := List.head?_eq_some_iff.1 hhead
      rw [htail] at hw hgetLast
      have hw := List.mem_of_ne_of_mem (hne hfirst) hw
      rw [List.getLast?_cons_of_ne_nil (List.ne_nil_of_mem hw)] at hgetLast
      obtain ⟨init, rfl⟩ := List.getLast?_eq_some_iff.1 hgetLast
      have hw : w ∈ init := by
        rcases List.mem_append.1 hw with hw | hw
        · exact hw
        · exact absurd (List.mem_singleton.1 hw) (hne hlast)
      have hsub : [first, w, last].Sublist l.span := by
        rw [htail]
        exact ((List.singleton_sublist.2 hw).append (.refl [last])).cons_cons first
      exact ⟨_, _, _, (hsub.trans l.span_sublist).map _, hfirst, hother, hlast⟩

/-! ## Modifiers of a method -/

/-- The source, cut up at the modifiers of the method; before its return type, or its name, if
it has none. -/
structure Writes (l : ModifierList) (source : List Char) (m : Method) : Prop where
  text_eq : l.text = source
  modifiers_eq : l.modifiers = m.modifiers
  place : l.words = [] → ∃ r, m.returnTypeLocation.Covers source r ∧ byteSize l.before = r.start

section

variable {source : List Char} {t : Tree}

/-- The text from some point on is cut up at the nodes of a tree that stand there. -/
theorem exists_words (h : t.Nested source) {nodes : List Tree}
    (hnodes : nodes.Sublist t.children) {done rest : List Char} (hsource : done ++ rest = source)
    (hstart : ∀ n ∈ nodes, byteSize done ≤ n.start) :
    ∃ gap words after, rest = gap ++ textOf words ++ after ∧
      tokensFrom source (byteSize (done ++ gap)) words =
        nodes.map fun n => ⟨n.trimmedText source, n.location source⟩ := by
  induction nodes generalizing done rest with
  | nil => exact ⟨[], [], rest, rfl, rfl⟩
  | cons n nodes ih =>
    obtain ⟨before, word, after, hparts, hbefore, hword, htext⟩ :=
      h.parts (.of_mem (hnodes.subset List.mem_cons_self))
    obtain ⟨gap, rfl⟩ : ∃ gap, before = done ++ gap := by
      have hle : byteSize done ≤ byteSize before := hbefore ▸ hstart n List.mem_cons_self
      rw [List.append_assoc] at hparts
      exact exists_append_of_byteSize_le (hsource.trans hparts.symm) hle
    have hlater : ∀ m ∈ nodes, byteSize (done ++ gap ++ word) ≤ m.start := by
      intro m hm
      rw [hword]
      exact (List.pairwise_cons.1 (h.inPlace.ordered.sublist hnodes)).1 m hm
    obtain ⟨next, words, last, hafter, htokens⟩ :=
      ih ((List.sublist_cons_self n nodes).trans hnodes) hparts hlater
    refine ⟨gap, ⟨word, next⟩ :: words, last, ?_, ?_⟩
    · have hrest : rest = gap ++ word ++ after := by
        rw [← hparts] at hsource
        simpa only [List.append_assoc, List.append_cancel_left_eq] using hsource
      rw [hrest, hafter]
      simp [WrittenModifier.text]
    · have htoken : (⟨word, next⟩ : WrittenModifier).token source (byteSize (done ++ gap)) =
          ⟨n.trimmedText source, n.location source⟩ := by
        rw [WrittenModifier.token, ← byteSize_append, hbefore, hword, Tree.trimmedText, htext]
        rfl
      rw [tokensFrom, htoken, List.map_cons, ← htokens, ← byteSize_append]
      simp only [WrittenModifier.text, List.append_assoc]

/-- A source can be cut up at the modifiers of a declaration. -/
theorem exists_of_ofTree (h : t.Nested source) (boundary : Nat) {place : ByteRange}
    (hplace : place.FitsIn source) :
    ∃ l : ModifierList, l.text = source ∧ l.modifiers = Modifiers.ofTree source t boundary ∧
      (l.words = [] → byteSize l.before = place.start) := by
  let nodes := (t.children.takeWhile (·.start < boundary)).filter fun c =>
    c.kind == "modifier" || modifierKeywords.contains c.kind
  have hnodes : nodes.Sublist t.children :=
    List.filter_sublist.trans (List.takeWhile_prefix _).sublist
  have htokens : (Modifiers.ofTree source t boundary).tokens =
      nodes.map fun n => ⟨n.trimmedText source, n.location source⟩ := rfl
  rcases List.eq_nil_or_concat nodes with hnil | ⟨init, last, hlast⟩
  · obtain ⟨before, after, hsource, hbefore⟩ := isBoundary_iff.1 hplace.2.1
    refine ⟨⟨before, [], after⟩, ?_, ?_, fun _ => hbefore⟩
    · rw [text, WrittenModifier.textOf_nil, List.append_nil, hsource]
    · rw [hnil] at htokens
      exact congrArg Modifiers.mk htokens.symm
  · obtain ⟨before, words, after, hrest, hwords⟩ :=
      exists_words h hnodes (List.nil_append source) fun _ _ => Nat.zero_le _
    have htext : text ⟨before, words, after⟩ = source := hrest.symm
    refine ⟨⟨before, words, after⟩, htext, ?_, ?_⟩
    · rw [modifiers, htext]
      exact congrArg Modifiers.mk (hwords.trans htokens.symm)
    · rintro rfl
      have hempty := congrArg List.length hwords
      rw [hlast] at hempty
      simp [tokensFrom] at hempty

theorem exists_writes {file : FileId} {m : Method} (h : t.Nested source)
    (hm : Method.ofTree? file source t = some m) : ∃ l : ModifierList, l.Writes source m := by
  simp only [Method.ofTree?, Option.bind_eq_bind, Option.bind_eq_some_iff] at hm
  obtain ⟨name, hname, hm⟩ := hm
  cases hm
  have hmem := Method.returnType_mem hname
  obtain ⟨l, htext, hmodifiers, hplace⟩ := exists_of_ofTree h
    ((((t.childByField? "returns" <|> t.childByField? "type").map (·.start)).getD name.start))
    (h _ (.of_mem hmem)).fits
  exact ⟨l, htext, hmodifiers, fun hwords => ⟨_, h.covers (.of_mem hmem), hplace hwords⟩⟩

end

end ModifierList

namespace Check

/-- The fix gives the text in which the method is public and keeps its other modifiers, if none
of them stands between words of accessibility. -/
theorem publicFix_keeps_modifiers_iff {source : List Char} {file : FileId} {t : Tree} {m : Method}
    (hsize : byteSize source < Position.wordSize) (ht : t.Nested source)
    (hm : Method.ofTree? file source t = some m) :
    ∃ l : ModifierList, l.Writes source m ∧
      Edit.apply (String.ofList source) (publicFix m.modifiers m.returnTypeLocation).edits =
        .ok (String.ofList l.madePublic.text) ∧
      l.madePublic.before = l.before ∧ l.madePublic.after = l.after ∧
      l.madePublic.modifiers.keywords.filter Modifiers.isAccess = ["public"] ∧
      (l.madePublic.modifiers.keywords.filter (!Modifiers.isAccess ·) =
          m.modifiers.keywords.filter (!Modifiers.isAccess ·) ↔
        ¬Modifiers.Interleaved m.modifiers.keywords) := by
  obtain ⟨l, hwrites⟩ := ModifierList.exists_writes ht hm
  refine ⟨l, hwrites, ?_, l.madePublic_before, l.madePublic_after, l.madePublic_access, ?_⟩
  · rw [← hwrites.text_eq, ← hwrites.modifiers_eq]
    refine ModifierList.apply_publicFix (hwrites.text_eq ▸ hsize) ?_
    rw [hwrites.text_eq]
    exact hwrites.place
  · rw [← hwrites.modifiers_eq, ModifierList.madePublic_others_iff, ModifierList.interleaved_iff]
    simp

/-- A method declared from `start` on as `void M();`, after words that stand at these offsets. -/
def declaredTree (words : List (Nat × Nat)) (start : Nat) : Tree :=
  .node ⟨"method_declaration", none, true, false, 0, start + 9⟩
    ((words.map fun (first, last) => .node ⟨"modifier", none, true, false, first, last⟩ []) ++
      [.node ⟨"identifier", some "returns", true, false, start, start + 4⟩ [],
       .node ⟨"identifier", some "name", true, false, start + 5, start + 6⟩ [],
       .node ⟨"parameter_list", some "parameters", true, false, start + 6, start + 8⟩ [],
       .node ⟨";", none, false, false, start + 8, start + 9⟩ []])

theorem publicFix_keeps_modifiers_iff_static :
    let source := "protected internal static void M();".toList
    let t := declaredTree [(0, 9), (10, 18), (19, 25)] 26
    byteSize source < Position.wordSize ∧ t.Nested source ∧
      ∃ m, Method.ofTree? 0 source t = some m ∧ ∃ l : ModifierList, l.Writes source m ∧
        Edit.apply (String.ofList source) (publicFix m.modifiers m.returnTypeLocation).edits =
          .ok (String.ofList l.madePublic.text) ∧
        l.madePublic.modifiers.keywords.filter Modifiers.isAccess = ["public"] ∧
        l.madePublic.modifiers.keywords.filter (!Modifiers.isAccess ·) = ["static"] := by
  intro source t
  have hsize : byteSize source < Position.wordSize := by decide +kernel
  have ht : t.Nested source := by decide +kernel
  have hkeywords : (Method.ofTree? 0 source t).map (·.modifiers.keywords) =
      some ["protected", "internal", "static"] := by decide +kernel
  obtain ⟨m, hm, hkeywords⟩ := Option.map_eq_some_iff.1 hkeywords
  obtain ⟨l, hwrites, happly, -, -, haccess, hothers⟩ := publicFix_keeps_modifiers_iff hsize ht hm
  have hbetween : ¬Modifiers.Interleaved m.modifiers.keywords := by
    rintro ⟨a, other, b, hsub, -, hother, -⟩
    rw [hkeywords] at hsub
    cases hsub.eq_of_length rfl
    cases hother
  refine ⟨hsize, ht, m, hm, l, hwrites, happly, haccess, ?_⟩
  rw [hothers.2 hbetween, hkeywords]
  decide +kernel

/-- A modifier that stands between two words of accessibility goes with them. -/
theorem modifier_between_is_lost :
    let source := "protected async internal Task M();".toList
    let t := declaredTree [(0, 9), (10, 15), (16, 24)] 25
    (Method.ofTree? 0 source t).map (fun m => (m.modifiers.keywords,
        Edit.apply (String.ofList source) (publicFix m.modifiers m.returnTypeLocation).edits)) =
      some (["protected", "async", "internal"], .ok "public Task M();") := by
  decide +kernel

end Check
end TestLint
