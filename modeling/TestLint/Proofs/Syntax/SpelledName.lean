import TestLint.Proofs.Syntax.TypeName

/-!
# The parts of a name as it is spelled

A name as it stands in a text: identifiers with dots between them, each with type arguments if
it has any, perhaps with the label of the global namespace before it, and with blanks and a
question mark behind it (`SpelledName`).  Its simple name should be its last identifier, and
its qualifier all that stands before this one.

Both are cut out of the text up to the first angle bracket.  What is left are the segments up
to the first one with type arguments (`SpelledName.shown`), so that the simple name is the
identifier of this segment, and the qualifier holds the segments before it
(`SpelledName.simple_text`, `SpelledName.qualifier?_text`).  Blanks before a question mark
belong to the simple name unless a bracket comes before them (`SpelledName.leftover`).
-/

namespace TestLint

open Text

namespace Name.PlainWord

variable {w gap after : List Char}

theorem unpadded (hw : PlainWord w) : Unpadded w where
  ne_nil := hw.ne_nil
  first c hc := hw.solid c (List.mem_of_mem_head? hc)
  last c hc := hw.solid c (List.mem_of_mem_getLast? hc)

/-- Blanks behind a word are taken off, but not those before a question mark. -/
theorem trim_marked (hw : PlainWord w) (isMarked : Bool) (hgap : AllBlank gap)
    (hafter : AllBlank after) :
    dropEndWhile (· == '?') (trim (w ++ (gap ++ (if isMarked then ['?'] else []) ++ after))) =
      w ++ if isMarked then gap else [] := by
  have hkept {gap : List Char} (hgap : AllBlank gap) :
      dropEndWhile (· == '?') (w ++ gap) = w ++ gap := by
    refine dropEndWhile_eq_self fun c hc => ?_
    rw [beq_eq_false_iff_ne]
    rintro rfl
    rcases List.mem_append.1 (List.mem_of_mem_getLast? hc) with h | h
    · exact hw.unmarked '?' (by simp) h
    · exact absurd (hgap '?' h) (by decide)
  cases isMarked with
  | false =>
    have htrim := hw.unpadded.trim_append .nil (hgap.append hafter)
    have hword := hkept .nil
    rw [List.nil_append] at htrim
    rw [List.append_nil] at hword
    simp only [Bool.false_eq_true, if_false, List.append_nil]
    rw [htrim, hword]
  | true =>
    have hmark : Unpadded ['?'] := ⟨List.cons_ne_nil _ _, by rintro c ⟨⟩; rfl, by rintro c ⟨⟩; rfl⟩
    have htrim := (hw.unpadded.append gap hmark).trim_append .nil hafter
    rw [List.nil_append] at htrim
    simp only [if_true]
    rw [← List.append_assoc, ← List.append_assoc, htrim, dropEndWhile_concat (by rfl), hkept hgap]

end Name.PlainWord

/-- A segment of a name as a text has it: its type arguments from bracket to bracket, with
blanks anywhere between. -/
structure SpelledSegment extends Segment where
  brackets : List Char
  writes : brackets.filter (!isBlank ·) = arguments.chars
  opens : ∀ c ∈ brackets.head?, c = '<'
  closes : ∀ c ∈ brackets.getLast?, c = '>'

namespace SpelledSegment

variable {s : SpelledSegment} {ss : List SpelledSegment}

/-- A segment without type arguments. -/
def plain (i : Identifier) : SpelledSegment where
  identifier := i
  arguments := .none
  brackets := []
  writes := rfl
  opens := by rintro c ⟨⟩
  closes := by rintro c ⟨⟩

def text (s : SpelledSegment) : List Char :=
  s.identifier.chars ++ s.brackets

@[simp]
theorem plain_text (i : Identifier) : (plain i).text = i.chars :=
  List.append_nil _

/-- The segment has no type arguments. -/
def IsPlain (s : SpelledSegment) : Prop :=
  s.arguments.count = 0

instance (s : SpelledSegment) : Decidable s.IsPlain :=
  inferInstanceAs (Decidable (_ = _))

/-- Segments with a dot behind each of them. -/
def dotted (ss : List SpelledSegment) : List Char :=
  ss.flatMap fun s => s.text ++ ['.']

/-- Segments with dots between them; nothing if there are none. -/
def joined? (ss : List SpelledSegment) : Option String :=
  if ss = [] then none else some (String.ofList (['.'].intercalate (ss.map text)))

theorem brackets_eq_nil_iff : s.brackets = [] ↔ s.IsPlain := by
  have hwrites := s.writes
  have hopens := s.opens
  constructor
  · intro h
    rw [h, List.filter_nil] at hwrites
    unfold IsPlain
    cases hs : s.arguments with
    | none => rfl
    | given first others => rw [hs] at hwrites; cases hwrites
    | omitted commas => rw [hs] at hwrites; cases hwrites
  · intro h
    have hnone : s.arguments.chars = [] := by
      unfold IsPlain at h
      cases hs : s.arguments with
      | none => rfl
      | given first others => rw [hs] at h; cases h
      | omitted commas => rw [hs] at h; cases h
    rw [hnone] at hwrites
    cases hb : s.brackets with
    | nil => rfl
    | cons c rest =>
      rw [hb] at hopens hwrites
      obtain rfl := hopens c rfl
      rw [List.filter_cons_of_pos (by decide)] at hwrites
      cases hwrites

theorem IsPlain.text_eq (h : s.IsPlain) : s.text = s.identifier.chars := by
  rw [text, brackets_eq_nil_iff.2 h, List.append_nil]

theorem exists_brackets (h : ¬s.IsPlain) : ∃ rest, s.brackets = '<' :: rest := by
  have hopens := s.opens
  cases hb : s.brackets with
  | nil => exact absurd (brackets_eq_nil_iff.1 hb) h
  | cons c rest =>
    rw [hb] at hopens
    obtain rfl := hopens c rfl
    exact ⟨rest, rfl⟩

theorem dotted_append (ss ss' : List SpelledSegment) :
    dotted (ss ++ ss') = dotted ss ++ dotted ss' :=
  List.flatMap_append

theorem dotted_eq (h : ss ≠ []) : dotted ss = ['.'].intercalate (ss.map text) ++ ['.'] := by
  induction ss with
  | nil => exact absurd rfl h
  | cons s rest ih =>
    cases rest with
    | nil => simp [dotted]
    | cons s' rest =>
      rw [dotted, List.flatMap_cons, ← dotted, ih (List.cons_ne_nil s' rest)]
      simp only [List.map_cons, List.intercalate_cons_cons, List.append_assoc]

theorem not_mem_dotted {c : Char} (h : ∀ s ∈ ss, s.IsPlain) (hc : c ∈ Name.marks) (hdot : c ≠ '.') :
    c ∉ dotted ss := by
  intro hmem
  obtain ⟨s, hs, hmem⟩ := List.mem_flatMap.1 hmem
  rw [(h s hs).text_eq, List.mem_append, List.mem_singleton] at hmem
  rcases hmem with hmem | hmem
  · exact s.identifier.not_mem_chars hc hmem
  · exact hdot hmem

/-- Behind the last of the dots stands nothing. -/
theorem afterLast_dotted (ss : List SpelledSegment) : Name.afterLast ['.'] (dotted ss) = [] := by
  by_cases h : ss = []
  · rw [h]
    rfl
  · rw [dotted_eq h, Name.afterLast, cutLast?_append_self (by decide)]

/-- Before the last of the dots stand the segments with dots between them. -/
theorem cutLast?_dotted (ss : List SpelledSegment) :
    (cutLast? ['.'] (dotted ss)).map (fun (before, _) => String.ofList before) = joined? ss := by
  by_cases h : ss = []
  · rw [h]
    rfl
  · rw [dotted_eq h, cutLast?_append_self (by decide), joined?, if_neg h]
    rfl

/-- Segments without type arguments can be told from segments some of which have them. -/
theorem joined?_ne {ss' : List SpelledSegment} (h : ∀ s ∈ ss, s.IsPlain) (hs : s ∈ ss')
    (hplain : ¬s.IsPlain) : joined? ss ≠ joined? ss' := by
  intro heq
  have hne' : ss' ≠ [] := List.ne_nil_of_mem hs
  by_cases hne : ss = []
  · rw [joined?, if_pos hne, joined?, if_neg hne'] at heq
    cases heq
  · rw [joined?, if_neg hne, joined?, if_neg hne', Option.some.injEq, String.ofList_inj] at heq
    have hmark : '<' ∈ dotted ss' := by
      obtain ⟨rest, hrest⟩ := exists_brackets hplain
      refine List.mem_flatMap.2 ⟨s, hs, ?_⟩
      rw [text, hrest]
      simp
    rw [dotted_eq hne', ← heq, ← dotted_eq hne] at hmark
    exact not_mem_dotted h (by decide) (by decide) hmark

end SpelledSegment

/-- A name as it stands in a text. -/
structure SpelledName where
  /-- The name begins with `global::`. -/
  isGlobal : Bool
  scope : List SpelledSegment
  last : SpelledSegment
  /-- The blanks behind the last segment. -/
  gap : List Char
  isNullable : Bool
  /-- The blanks behind the question mark, if there is one. -/
  after : List Char
  allBlank_gap : AllBlank gap
  allBlank_after : AllBlank after

namespace SpelledName

open SpelledSegment (IsPlain dotted joined?)

variable {n : SpelledName}

def label (n : SpelledName) : List Char :=
  if n.isGlobal then "global::".toList else []

def ending (n : SpelledName) : List Char :=
  n.gap ++ (if n.isNullable then ['?'] else []) ++ n.after

/-- The name without the label. -/
def chars (n : SpelledName) : List Char :=
  dotted n.scope ++ n.last.text ++ n.ending

def text (n : SpelledName) : String :=
  String.ofList (n.label ++ n.chars)

/-- What stands before the dot of the last segment, if there is one. -/
def qualifier? (n : SpelledName) : Option String :=
  joined? n.scope

/-- The segments before the first one with type arguments. -/
def before (n : SpelledName) : List SpelledSegment :=
  n.scope.takeWhile (·.IsPlain)

/-- The first segment with type arguments, or else the last one. -/
def shown (n : SpelledName) : SpelledSegment :=
  (n.scope.find? (¬·.IsPlain)).getD n.last

/-- No segment has type arguments. -/
def Bare (n : SpelledName) : Prop :=
  (∀ s ∈ n.scope, s.IsPlain) ∧ n.last.IsPlain

instance (n : SpelledName) : Decidable n.Bare :=
  inferInstanceAs (Decidable (_ ∧ _))

/-- What belongs to the simple name behind the identifier: the blanks before a question mark,
if no bracket comes before them. -/
def leftover (n : SpelledName) : List Char :=
  if n.Bare ∧ n.isNullable then n.gap else []

/-- What is left behind the shown identifier when the text is cut at the first bracket. -/
def tail (n : SpelledName) : List Char :=
  if n.Bare then n.ending else []

/-- The name up to the first bracket, without the label. -/
def shortened (n : SpelledName) : List Char :=
  dotted n.before ++ (n.shown.identifier.chars ++ n.tail)

theorem mem_ending {c : Char} (h : c ∈ n.ending) : isBlank c = true ∨ c = '?' := by
  rw [ending, List.mem_append, List.mem_append] at h
  rcases h with (h | h) | h
  · exact .inl (n.allBlank_gap c h)
  · cases hn : n.isNullable with
    | true => rw [hn] at h; exact .inr (List.mem_singleton.1 h)
    | false => rw [hn] at h; cases h
  · exact .inl (n.allBlank_after c h)

theorem not_mem_ending {c : Char} (hc : isBlank c = false) (hmark : c ≠ '?') : c ∉ n.ending := by
  intro h
  rcases mem_ending h with h | h
  · rw [hc] at h
    cases h
  · exact hmark h

theorem not_mem_shown {c : Char} (hc : c ∈ Name.marks) (hmark : c ≠ '?') :
    c ∉ n.shown.identifier.chars ++ n.tail := by
  have hsolid : Name.marks.all (!isBlank ·) = true := by decide
  rw [List.mem_append, not_or]
  refine ⟨n.shown.identifier.not_mem_chars hc, ?_⟩
  unfold tail
  split
  · exact not_mem_ending (by simpa using List.all_eq_true.1 hsolid c hc) hmark
  · exact List.not_mem_nil

theorem isPlain_of_mem_before {s : SpelledSegment} (h : s ∈ n.before) : s.IsPlain := by
  simpa using List.mem_takeWhile_imp h

theorem not_mem_shortened (n : SpelledName) : ':' ∉ n.shortened := by
  rw [shortened, List.mem_append, not_or]
  exact ⟨SpelledSegment.not_mem_dotted (fun _ => isPlain_of_mem_before) (by decide) (by decide),
    not_mem_shown (by decide) (by decide)⟩

/-! ## The text up to the first bracket -/

/-- The name falls into the segments before the shown one, its identifier, and a rest that the
first bracket begins, if there is one. -/
theorem exists_rest (n : SpelledName) : ∃ rest,
    n.chars = dotted n.before ++ (n.shown.identifier.chars ++ rest) ∧
      rest.takeWhile (· != '<') = n.tail := by
  have hopen {cs : List Char} {s : SpelledSegment} (h : ¬s.IsPlain) :
      (s.brackets ++ cs).takeWhile (· != '<') = [] := by
    obtain ⟨rest, hrest⟩ := SpelledSegment.exists_brackets h
    rw [hrest, List.cons_append, List.takeWhile_cons_of_neg (by decide)]
  have hscope : n.before ++ n.scope.dropWhile (·.IsPlain) = n.scope :=
    List.takeWhile_append_dropWhile
  cases hbehind : n.scope.dropWhile (·.IsPlain) with
  | nil =>
    have hplain : ∀ s ∈ n.scope, s.IsPlain := by
      simpa using List.dropWhile_eq_nil_iff.1 hbehind
    have hshown : n.shown = n.last := by
      rw [shown, List.find?_eq_none.2 (by simpa using hplain), Option.getD_none]
    rw [hbehind, List.append_nil] at hscope
    refine ⟨n.last.brackets ++ n.ending, ?_, ?_⟩
    · rw [hshown, hscope, chars, SpelledSegment.text]
      simp only [List.append_assoc]
    · by_cases hlast : n.last.IsPlain
      · have hending : n.ending.takeWhile (· != '<') = n.ending :=
          List.takeWhile_eq_self_iff.2 (bne_of_not_mem (not_mem_ending (by decide) (by decide)))
        rw [SpelledSegment.brackets_eq_nil_iff.2 hlast, List.nil_append, hending, tail,
          if_pos ⟨hplain, hlast⟩]
      · rw [hopen hlast, tail, if_neg fun h => hlast h.2]
  | cons s rest =>
    have hs : ¬s.IsPlain := by
      have hfirst := List.head?_dropWhile_not (fun s : SpelledSegment => decide s.IsPlain) n.scope
      rw [hbehind] at hfirst
      simpa using hfirst
    have hshown : n.shown = s := by
      rw [shown, ← hscope, hbehind, List.find?_append,
        List.find?_eq_none.2 fun s hs => by simpa using isPlain_of_mem_before hs, Option.none_or,
        List.find?_cons_of_pos (by simpa using hs), Option.getD_some]
    have hmem : s ∈ n.scope := by
      rw [← hscope, hbehind]
      simp
    rw [hbehind] at hscope
    refine ⟨s.brackets ++ ('.' :: (dotted rest ++ n.last.text ++ n.ending)), ?_, ?_⟩
    · rw [hshown, chars, ← hscope, SpelledSegment.dotted_append]
      simp [dotted, SpelledSegment.text]
    · rw [hopen hs, tail, if_neg fun h => hs (h.1 s hmem)]

theorem withoutArguments_append {kept : List Char} (hkept : '<' ∉ kept) (n : SpelledName) :
    Name.withoutArguments (kept ++ n.chars) = kept ++ n.shortened := by
  obtain ⟨rest, hchars, hrest⟩ := n.exists_rest
  have hbefore : '<' ∉ dotted n.before :=
    SpelledSegment.not_mem_dotted (fun _ => isPlain_of_mem_before) (by decide) (by decide)
  rw [Name.withoutArguments, hchars, List.takeWhile_append_of_pos (bne_of_not_mem hkept),
    List.takeWhile_append_of_pos (bne_of_not_mem hbefore),
    List.takeWhile_append_of_pos (bne_of_not_mem (n.shown.identifier.not_mem_chars (by decide))),
    hrest]
  rfl

/-! ## The simple name -/

theorem trim_shown (n : SpelledName) :
    dropEndWhile (· == '?') (trim (n.shown.identifier.chars ++ n.tail)) =
      n.shown.identifier.chars ++ n.leftover := by
  have hword := n.shown.identifier.plainWord
  rw [tail, leftover]
  by_cases hbare : n.Bare
  · rw [if_pos hbare, ending, hword.trim_marked n.isNullable n.allBlank_gap n.allBlank_after]
    simp only [hbare, true_and]
  · rw [if_neg hbare, if_neg fun h => hbare h.1]
    exact hword.trim_marked false .nil .nil

/-- The simple name is the identifier of the shown segment, with blanks where they are left. -/
theorem simple_text (n : SpelledName) : Name.simple n.text =
    String.ofList (n.shown.identifier.chars ++ n.leftover) := by
  have hlabel : '<' ∉ n.label ∧ Name.afterLast [':', ':'] n.label = [] := by
    unfold label
    cases n.isGlobal <;> decide
  have halias := Name.afterLast_append [':'] n.not_mem_shortened n.label
  have hdot := Name.afterLast_append [] (n.not_mem_shown (c := '.') (by decide) (by decide))
    (dotted n.before)
  simp only [List.nil_append, List.cons_append, hlabel.2, SpelledSegment.afterLast_dotted]
    at halias hdot
  rw [Name.simple, onString, text, String.toList_ofList, Name.simpleChars,
    withoutArguments_append hlabel.1, halias, shortened, hdot, trim_shown]

/-! ## The qualifier -/

/-- Without a label the name does not begin like one. -/
theorem toList_withoutGlobal_text (n : SpelledName) :
    (Name.withoutGlobal n.text).toList = n.chars := by
  rw [text, Name.toList_withoutGlobal, label]
  generalize hmark : "global::".toList = mark
  cases n.isGlobal with
  | true => rw [if_pos rfl, dropStart?_append, Option.getD_some]
  | false =>
    rw [if_neg Bool.false_ne_true, List.nil_append]
    cases hdrop : dropStart? mark n.chars with
    | none => rfl
    | some rest =>
      -- up to the first bracket the name has no colon
      have hcut := withoutArguments_append List.not_mem_nil n
      rw [List.nil_append, List.nil_append, dropStart?_eq_some_iff.1 hdrop, ← hmark] at hcut
      refine absurd ?_ n.not_mem_shortened
      rw [← hcut, Name.withoutArguments,
        List.takeWhile_append_of_pos (bne_of_not_mem (by decide))]
      exact List.mem_append_left _ (by decide)

theorem qualifier?_text (n : SpelledName) : Name.qualifier? n.text = joined? n.before := by
  have hcut := cutLast?_append_word [] (n.not_mem_shown (c := '.') (by decide) (by decide))
    (dotted n.before)
  have hkept := withoutArguments_append List.not_mem_nil n
  simp only [List.nil_append] at hcut hkept
  rw [Name.qualifier?, toList_withoutGlobal_text, hkept, shortened, hcut, Option.map_map,
    ← SpelledSegment.cutLast?_dotted]
  rfl

/-! ## When the parts are the right ones -/

/-- Blanks before the question mark stay with the simple name. -/
def KeepsGap (n : SpelledName) : Prop :=
  n.Bare ∧ n.isNullable = true ∧ n.gap ≠ []

theorem leftover_eq_nil_iff : n.leftover = [] ↔ ¬n.KeepsGap := by
  unfold leftover KeepsGap
  split
  case isTrue h => simp [h]
  case isFalse h => simp_all

theorem allBlank_leftover (n : SpelledName) : AllBlank n.leftover := by
  unfold leftover
  split
  · exact n.allBlank_gap
  · exact .nil

/-- An identifier with blanks behind it. -/
def spaced (i : Identifier) {gap : List Char} (hgap : AllBlank gap) : SpelledName where
  isGlobal := false
  scope := []
  last := .plain i
  gap
  isNullable := false
  after := []
  allBlank_gap := hgap
  allBlank_after := .nil

theorem simple_spaced (i : Identifier) {gap : List Char} (hgap : AllBlank gap) :
    Name.simple (String.ofList (i.chars ++ gap)) = i.name := by
  have htext : (spaced i hgap).text = String.ofList (i.chars ++ gap) := by
    simp [text, chars, label, ending, spaced, dotted]
  have hleftover : (spaced i hgap).leftover = [] := if_neg fun h => Bool.false_ne_true h.2
  rw [← htext, simple_text, hleftover, List.append_nil]
  exact String.ofList_toList

/-- Blanks do not belong to an identifier. -/
theorem ofList_append_eq_iff (i j : Identifier) {gap : List Char} (hgap : AllBlank gap) :
    String.ofList (i.chars ++ gap) = j.name ↔ i.name = j.name ∧ gap = [] := by
  constructor
  · intro h
    have hchars : i.chars ++ gap = j.name.toList := by rw [← h, String.toList_ofList]
    change i.chars ++ gap = j.chars at hchars
    have hnone : gap = [] := by
      refine List.eq_nil_iff_forall_not_mem.2 fun c hc => ?_
      have hsolid := j.plainWord.solid c (hchars ▸ List.mem_append_right _ hc)
      rw [hgap c hc] at hsolid
      cases hsolid
    rw [hnone, List.append_nil] at hchars
    exact ⟨String.toList_injective hchars, hnone⟩
  · rintro ⟨h, rfl⟩
    rw [List.append_nil, ← h]
    exact String.ofList_toList

/-- The simple name is the last identifier exactly if the first segment with type arguments is
called like the last one and no blanks stand before the question mark of a name without type
arguments; the qualifier is what stands before the last segment exactly if no segment there has
type arguments; and the simple name of the simple name is this name itself unless it keeps
blanks. -/
theorem parts_iff (n : SpelledName) :
    (Name.simple n.text = n.last.identifier.name ↔
      n.shown.identifier.name = n.last.identifier.name ∧ ¬n.KeepsGap) ∧
    (Name.qualifier? n.text = n.qualifier? ↔ ∀ s ∈ n.scope, s.IsPlain) ∧
    (Name.simple (Name.simple n.text) = Name.simple n.text ↔ ¬n.KeepsGap) := by
  have hblank := n.allBlank_leftover
  refine ⟨?_, ⟨fun h s hs => ?_, fun h => ?_⟩, ?_⟩
  · rw [simple_text, ofList_append_eq_iff _ _ hblank, leftover_eq_nil_iff]
  · by_contra hplain
    rw [qualifier?_text] at h
    exact SpelledSegment.joined?_ne (fun _ => isPlain_of_mem_before) hs hplain h
  · have hbefore : n.before = n.scope := List.takeWhile_eq_self_iff.2 (by simpa using h)
    rw [qualifier?_text, hbefore, qualifier?]
  · rw [simple_text, simple_spaced _ hblank, eq_comm, ofList_append_eq_iff _ _ hblank,
      leftover_eq_nil_iff]
    simp

/-- `List<T>.Enumerator` -/
def innerArguments : SpelledName where
  isGlobal := false
  scope := [⟨⟨.named "List", .given (.simple (.named "T") []) []⟩, "<T>".toList, by decide +kernel,
    by rintro c ⟨⟩; rfl, by rintro c ⟨⟩; rfl⟩]
  last := .plain (.named "Enumerator")
  gap := []
  isNullable := false
  after := []
  allBlank_gap := .nil
  allBlank_after := .nil

/-- `long ?` -/
def spacedMark : SpelledName where
  isGlobal := false
  scope := []
  last := .plain (.named "long")
  gap := [' ']
  isNullable := true
  after := []
  allBlank_gap := List.forall_mem_singleton.2 rfl
  allBlank_after := .nil

/-- The name is cut at type arguments before its last segment, and it keeps a blank before its
question mark. -/
theorem inner_arguments_cut_name :
    (innerArguments.text = "List<T>.Enumerator" ∧
      innerArguments.last.identifier.name = "Enumerator" ∧
      innerArguments.qualifier? = some "List<T>" ∧ Name.simple innerArguments.text = "List" ∧
      Name.qualifier? innerArguments.text = none) ∧
    (spacedMark.text = "long ?" ∧ spacedMark.last.identifier.name = "long" ∧
      Name.simple spacedMark.text = "long " ∧
      Name.simple (Name.simple spacedMark.text) = "long") := by
  decide +kernel

end SpelledName

end TestLint
