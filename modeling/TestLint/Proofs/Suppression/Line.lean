import TestLint.Suppression.Directive
import TestLint.Proofs.Text.Cutting

/-!
# What a line says

The written forms of the directives, and that exactly they are read off a line:
pragmas (`Pragma`), each about one rule or about everything (`Topic.StatedIn`), and
comments for the next line or for their own (`NextComment`, `HereComment`), each
about the rules that `CommentCovers` says.
-/

namespace TestLint

open Text

/-! ## Lists of ids -/

/-- One of the words that commas and blanks part names the rule. -/
def Names (cs : List Char) (rule : Rule) : Prop :=
  ∃ word ∈ cs.splitOnP fun c => c == ',' || isBlank c,
    word ≠ [] ∧ Rule.ofText? (String.ofList word) = some rule

/-- There is no id, known or not: only commas and blanks. -/
def NamesNothing (cs : List Char) : Prop :=
  ∀ c ∈ cs, c = ',' ∨ isBlank c = true

section Lists

variable {cs : List Char} {rule : Rule}

theorem NamesNothing.not_names (h : NamesNothing cs) : ¬Names cs rule := by
  rintro ⟨word, hword, hne, -⟩
  obtain ⟨c, hc⟩ := List.exists_mem_of_ne_nil word hne
  obtain ⟨hmem, hsep⟩ := mem_splitOnP_iff.1 ⟨word, hword, hc⟩
  rw [Bool.or_eq_false_iff, beq_eq_false_iff_ne] at hsep
  rcases h c hmem with hcomma | hblank
  · exact hsep.1 hcomma
  · rw [hsep.2] at hblank
    cases hblank

theorem Directive.mem_rulesIn : rule ∈ Directive.rulesIn cs ↔ Names cs rule := by
  simp only [Directive.rulesIn, List.mem_eraseDups, List.mem_filterMap, List.mem_filter, Names]
  constructor
  · rintro ⟨word, ⟨hword, hne⟩, hrule⟩
    exact ⟨word, hword, by simpa using hne, hrule⟩
  · rintro ⟨word, hword, hne, hrule⟩
    exact ⟨word, ⟨hword, by simpa using hne⟩, hrule⟩

theorem all_splitOn_iff :
    ((cs.splitOn ',').all fun w => (trim w).isEmpty) = true ↔ NamesNothing cs := by
  rw [List.all_eq_true]
  constructor
  · intro h c hc
    by_cases hcomma : c = ','
    · exact .inl hcomma
    · obtain ⟨word, hword, hmem⟩ := mem_splitOnP_iff (p := (· == ',')).2 ⟨hc, by simpa using hcomma⟩
      exact .inr (trim_eq_nil_iff.1 (List.isEmpty_iff.1 (h word hword)) c hmem)
  · intro h word hword
    rw [List.isEmpty_iff, trim_eq_nil_iff]
    intro c hc
    obtain ⟨hmem, hcomma⟩ := mem_splitOnP_iff (p := (· == ',')).1 ⟨word, hword, hc⟩
    exact (h c hmem).resolve_left (by simpa using hcomma)

end Lists

/-! ## Pragmas -/

/-- What stands behind a pragma's word: a list, and perhaps a comment. -/
inductive WithComment (listed : List Char) : List Char → Prop
  | none (hcomment : ¬['/', '/'] <:+: listed) : WithComment listed listed
  | comment {tail after : List Char} (hfirst : FirstAt ['/', '/'] listed after tail) :
      WithComment listed tail

/-- The line is a pragma about warnings, and this is what stands behind the
words `pragma warning`. Blanks may stand around the mark and have to stand behind
each of the two words. -/
inductive WarningPragma (rest : List Char) : List Char → Prop
  | line {indent gap first second : List Char} (hindent : AllBlank indent) (hgap : AllBlank gap)
      (hfirst : AllBlank first ∧ first ≠ []) (hsecond : AllBlank second ∧ second ≠ []) :
      WarningPragma rest
        (indent ++ (['#'] ++ (gap ++ ("pragma".toList ++ (first ++ ("warning".toList ++
          (second ++ rest)))))))

/-- The line is a pragma about warnings with this word, which ends where it is
written, and this list. -/
def Pragma (word listed line : List Char) : Prop :=
  ∃ tail, WarningPragma (word ++ tail) line ∧ (∀ c ∈ tail.head?, isWordChar c = false) ∧
    WithComment listed tail

/-- What silences and is restored by itself: everything (`none`) or one rule. -/
abbrev Topic :=
  Option Rule

/-- The list of a pragma is about the topic: it has no ids at all and is about
everything, or it names the rule. -/
def Topic.ListedIn (topic : Topic) (listed : List Char) : Prop :=
  match topic with
  | none => NamesNothing listed
  | some rule => Names listed rule

/-- The line is a pragma with this word about the topic. -/
def Topic.StatedIn (topic : Topic) (word line : List Char) : Prop :=
  ∃ listed, Pragma word listed line ∧ topic.ListedIn listed

/-- The scope of a topic takes it in by itself. -/
def Topic.In (topic : Topic) (scope : RuleScope) : Prop :=
  match topic, scope with
  | none, .everything => True
  | some rule, .only rules => rule ∈ rules
  | _, _ => False

namespace Directive

section Reading

variable {cs rest blanks word listed tail line : List Char} {scope : RuleScope} {topic : Topic}

theorem blanks?_append (hblanks : AllBlank blanks ∧ blanks ≠ []) (hrest : NoBlankFirst rest) :
    blanks? (blanks ++ rest) = some rest := by
  obtain ⟨c, more, rfl⟩ := List.exists_cons_of_ne_nil hblanks.2
  have hc : isBlank c = true := hblanks.1 c List.mem_cons_self
  have htrim := trimStart_append hblanks.1 hrest
  rw [List.cons_append] at htrim ⊢
  rw [blanks?, if_pos hc, htrim]

theorem exists_blanks_of_blanks? (h : blanks? cs = some rest) :
    ∃ blanks, (AllBlank blanks ∧ blanks ≠ []) ∧ cs = blanks ++ rest := by
  cases cs with
  | nil => cases h
  | cons c more =>
    rw [blanks?] at h
    by_cases hc : isBlank c = true
    · rw [if_pos hc, Option.some.injEq] at h
      subst h
      obtain ⟨blanks, hblanks, hmore⟩ := exists_blanks_trimStart more
      have htrim : trimStart (c :: more) = trimStart more := by
        rw [trimStart, List.dropWhile_cons_of_pos hc, trimStart]
      refine ⟨c :: blanks, ⟨List.forall_mem_cons.2 ⟨hc, hblanks⟩, List.cons_ne_nil c blanks⟩, ?_⟩
      rw [htrim, List.cons_append, ← hmore]
    · rw [if_neg hc] at h
      cases h

theorem word?_eq_some_iff : word? word cs = some rest ↔
    cs = word ++ rest ∧ ∀ c ∈ rest.head?, isWordChar c = false := by
  unfold word?
  rw [Option.bind_eq_bind, Option.bind_eq_some_iff]
  simp only [dropStart?_eq_some_iff]
  constructor
  · rintro ⟨tail, rfl, htail⟩
    cases tail with
    | nil =>
      cases htail
      exact ⟨rfl, nofun⟩
    | cons c tail =>
      by_cases hc : isWordChar c = true
      · simp [hc] at htail
      · simp only [hc, Bool.false_eq_true, if_false, Option.some.injEq] at htail
        subst htail
        exact ⟨rfl, fun c' hc' => by cases hc'; exact Bool.eq_false_iff.2 hc⟩
  · rintro ⟨rfl, hend⟩
    refine ⟨rest, rfl, ?_⟩
    cases rest with
    | nil => rfl
    | cons c rest =>
      have hc : isWordChar c = false := hend c rfl
      simp [hc]

theorem beforeComment_eq (h : WithComment listed tail) : beforeComment tail = listed := by
  unfold beforeComment
  cases h with
  | none hcomment => rw [cut?_eq_none_iff.2 hcomment]
  | comment hfirst => rw [cut?_eq_some_iff.2 hfirst]

theorem withComment_beforeComment (tail : List Char) : WithComment (beforeComment tail) tail := by
  unfold beforeComment
  cases hcut : cut? ['/', '/'] tail with
  | none => exact .none (cut?_eq_none_iff.1 hcut)
  | some parts => exact .comment (firstAt_of_cut? hcut)

theorem in_listScope_iff : topic.In (listScope listed) ↔ topic.ListedIn listed := by
  unfold listScope
  by_cases hnothing : ((listed.splitOn ',').all fun w => (trim w).isEmpty) = true
  · rw [if_pos hnothing]
    have hlisted := all_splitOn_iff.1 hnothing
    cases topic with
    | none => exact ⟨fun _ => hlisted, fun _ => trivial⟩
    | some rule => exact ⟨False.elim, fun hnames => hlisted.not_names hnames⟩
  · rw [if_neg hnothing]
    cases topic with
    | none => exact ⟨False.elim, fun hlisted => hnothing (all_splitOn_iff.2 hlisted)⟩
    | some rule => exact mem_rulesIn

theorem ofPragma?_disable_iff : ofPragma? rest = some (.disable scope) ↔
    ∃ tail, word? "disable".toList rest = some tail ∧ listScope (beforeComment tail) = scope := by
  unfold ofPragma?
  generalize "restore".toList = other
  cases word? "disable".toList rest with
  | none => simp
  | some tail => simp

theorem ofPragma?_restore_iff : ofPragma? rest = some (.restore scope) ↔
    ∃ tail, word? "restore".toList rest = some tail ∧ listScope (beforeComment tail) = scope := by
  unfold ofPragma?
  cases hword : word? "disable".toList rest with
  | none => simp only [Option.map_eq_some_iff, restore.injEq]
  | some tail =>
    -- a text that begins with the one word does not begin with the other
    have hother : word? "restore".toList rest = none := by
      rw [(word?_eq_some_iff.1 hword).1]
      rfl
    rw [hother]
    simp

theorem ofPragma?_eq_some {d : Directive} (h : ofPragma? rest = some d) :
    (∃ scope, d = .disable scope) ∨ ∃ scope, d = .restore scope := by
  unfold ofPragma? at h
  split at h
  · cases h
    exact .inl ⟨_, rfl⟩
  · obtain ⟨tail, -, rfl⟩ := Option.map_eq_some_iff.1 h
    exact .inr ⟨_, rfl⟩

theorem noBlankFirst_of_ofPragma? {d : Directive} (h : ofPragma? rest = some d) :
    NoBlankFirst rest := by
  rcases ofPragma?_eq_some h with ⟨scope, rfl⟩ | ⟨scope, rfl⟩
  · obtain ⟨tail, hword, -⟩ := ofPragma?_disable_iff.1 h
    rw [(word?_eq_some_iff.1 hword).1]
    rintro c ⟨⟩
    rfl
  · obtain ⟨tail, hword, -⟩ := ofPragma?_restore_iff.1 h
    rw [(word?_eq_some_iff.1 hword).1]
    rintro c ⟨⟩
    rfl

theorem pragma?_eq_some_iff {d : Directive} :
    pragma? line = some d ↔ ∃ rest, WarningPragma rest line ∧ ofPragma? rest = some d := by
  constructor
  · intro h
    simp only [pragma?, Option.bind_eq_bind, Option.bind_eq_some_iff] at h
    obtain ⟨atGap, hmark, atFirst, hpragma, atWarning, hpast, atSecond, hwarning, rest, hpast',
      hrest⟩ := h
    rw [dropStart?_eq_some_iff] at hmark hpragma hwarning
    obtain ⟨indent, hindent, hline⟩ := exists_blanks_trimStart line
    obtain ⟨gap, hgap, hatGap⟩ := exists_blanks_trimStart atGap
    obtain ⟨first, hfirst, rfl⟩ := exists_blanks_of_blanks? hpast
    obtain ⟨second, hsecond, rfl⟩ := exists_blanks_of_blanks? hpast'
    rw [hline, hmark, hatGap, hpragma, hwarning]
    exact ⟨rest, .line hindent hgap hfirst hsecond, hrest⟩
  · rintro ⟨rest, hline, hrest⟩
    obtain @⟨indent, gap, first, second, hindent, hgap, hfirst, hsecond⟩ := hline
    have hatSecond := blanks?_append hsecond (noBlankFirst_of_ofPragma? hrest)
    have hatFirst : blanks? (first ++ ("warning".toList ++ (second ++ rest))) = some _ :=
      blanks?_append hfirst (by rintro c ⟨⟩; rfl)
    have hatGap : trimStart (gap ++ ("pragma".toList ++ (first ++ ("warning".toList ++
        (second ++ rest))))) = _ := trimStart_append hgap (by rintro c ⟨⟩; rfl)
    have hatIndent : trimStart (indent ++ (['#'] ++ (gap ++ ("pragma".toList ++ (first ++
        ("warning".toList ++ (second ++ rest))))))) = _ :=
      trimStart_append hindent (by rintro c ⟨⟩; rfl)
    simp only [pragma?, Option.bind_eq_bind, hatIndent, hatGap, hatFirst, hatSecond,
      dropStart?_append, Option.bind_some, hrest]

theorem exists_rest_iff :
    (∃ rest, WarningPragma rest line ∧
      ∃ tail, word? word rest = some tail ∧ listScope (beforeComment tail) = scope) ↔
    ∃ listed, Pragma word listed line ∧ listScope listed = scope := by
  simp only [word?_eq_some_iff]
  constructor
  · rintro ⟨rest, hline, tail, ⟨rfl, hend⟩, hscope⟩
    exact ⟨beforeComment tail, ⟨tail, hline, hend, withComment_beforeComment tail⟩, hscope⟩
  · rintro ⟨listed, ⟨tail, hline, hend, htail⟩, hscope⟩
    exact ⟨word ++ tail, hline, tail, ⟨rfl, hend⟩, by rw [beforeComment_eq htail, hscope]⟩

theorem pragma?_disable_iff : pragma? line = some (.disable scope) ↔
    ∃ listed, Pragma "disable".toList listed line ∧ listScope listed = scope := by
  simp only [pragma?_eq_some_iff, ofPragma?_disable_iff, exists_rest_iff]

theorem pragma?_restore_iff : pragma? line = some (.restore scope) ↔
    ∃ listed, Pragma "restore".toList listed line ∧ listScope listed = scope := by
  simp only [pragma?_eq_some_iff, ofPragma?_restore_iff, exists_rest_iff]

end Reading

end Directive

/-! ## Lines -/

/-- The line is a pragma that silences or restores something. -/
def IsPragma (line : List Char) : Prop :=
  ∃ listed, Pragma "disable".toList listed line ∨ Pragma "restore".toList listed line

/-- The line holds a comment for the next line with this list. -/
structure NextComment (listed line : List Char) : Prop where
  noPragma : ¬IsPragma line
  mark : ∃ before, FirstAt Directive.nextMark before listed line

/-- The line holds a comment for itself with this list. -/
structure HereComment (listed line : List Char) : Prop where
  noPragma : ¬IsPragma line
  noNext : ¬Directive.nextMark <:+: line
  mark : ∃ before, FirstAt Directive.hereMark before listed line

/-- A comment covers the known rules that it lists, and all rules if it lists none. -/
def CommentCovers (listed : List Char) (rule : Rule) : Prop :=
  Names (Directive.commentList listed) rule ∨
    ∀ other, ¬Names (Directive.commentList listed) other

namespace Directive

variable {line listed : List Char} {scope : RuleScope} {topic : Topic} {rule : Rule}

theorem pragma?_eq_none_iff : pragma? line = none ↔ ¬IsPragma line := by
  constructor
  · rintro h ⟨listed, hdisable | hrestore⟩
    · rw [pragma?_disable_iff.2 ⟨listed, hdisable, rfl⟩] at h
      cases h
    · rw [pragma?_restore_iff.2 ⟨listed, hrestore, rfl⟩] at h
      cases h
  · intro h
    refine Option.eq_none_iff_forall_ne_some.2 fun d hd => h ?_
    obtain ⟨rest, -, hrest⟩ := pragma?_eq_some_iff.1 hd
    rcases ofPragma?_eq_some hrest with ⟨scope, rfl⟩ | ⟨scope, rfl⟩
    · obtain ⟨listed, hline, -⟩ := pragma?_disable_iff.1 hd
      exact ⟨listed, .inl hline⟩
    · obtain ⟨listed, hline, -⟩ := pragma?_restore_iff.1 hd
      exact ⟨listed, .inr hline⟩

theorem ofLine?_eq_some_iff {d : Directive} :
    ofLine? line = some d ↔ pragma? line = some d ∨ (¬IsPragma line ∧ comment? line = some d) := by
  unfold ofLine?
  rw [← pragma?_eq_none_iff]
  cases pragma? line with
  | none => simp
  | some d' => simp

theorem comment?_eq_some_iff {d : Directive} : comment? line = some d ↔
    (∃ listed, (∃ before, FirstAt nextMark before listed line) ∧
      d = .ignoreNext (commentScope listed)) ∨
    (∃ listed, ¬nextMark <:+: line ∧ (∃ before, FirstAt hereMark before listed line) ∧
      d = .ignoreHere (commentScope listed)) := by
  unfold comment?
  cases hcut : cut? nextMark line with
  | none =>
    have hnext := cut?_eq_none_iff.1 hcut
    rw [Option.map_eq_some_iff]
    constructor
    · rintro ⟨⟨before, listed⟩, hhere, rfl⟩
      exact .inr ⟨listed, hnext, ⟨before, firstAt_of_cut? hhere⟩, rfl⟩
    · rintro (⟨listed, ⟨before, hfirst⟩, -⟩ | ⟨listed, -, ⟨before, hfirst⟩, rfl⟩)
      · exact absurd hfirst.isInfix hnext
      · exact ⟨(before, listed), cut?_eq_some_iff.2 hfirst, rfl⟩
  | some parts =>
    obtain ⟨before, listed⟩ := parts
    have hfirst := firstAt_of_cut? hcut
    rw [Option.some.injEq]
    constructor
    · rintro rfl
      exact .inl ⟨listed, ⟨before, hfirst⟩, rfl⟩
    · rintro (⟨listed', ⟨before', hfirst'⟩, rfl⟩ | ⟨listed', hnext, -, -⟩)
      · obtain ⟨-, rfl⟩ := hfirst.unique hfirst'
        rfl
      · exact absurd hfirst.isInfix hnext

theorem ofLine?_disable_iff : ofLine? line = some (.disable scope) ↔
    ∃ listed, Pragma "disable".toList listed line ∧ listScope listed = scope := by
  rw [ofLine?_eq_some_iff, pragma?_disable_iff, comment?_eq_some_iff]
  simp

theorem ofLine?_restore_iff : ofLine? line = some (.restore scope) ↔
    ∃ listed, Pragma "restore".toList listed line ∧ listScope listed = scope := by
  rw [ofLine?_eq_some_iff, pragma?_restore_iff, comment?_eq_some_iff]
  simp

theorem pragma?_ne_comment : pragma? line ≠ some (.ignoreNext scope) ∧
    pragma? line ≠ some (.ignoreHere scope) := by
  constructor <;> intro h <;> obtain ⟨rest, -, hrest⟩ := pragma?_eq_some_iff.1 h <;>
    rcases ofPragma?_eq_some hrest with ⟨_, hd⟩ | ⟨_, hd⟩ <;> cases hd

theorem ofLine?_ignoreNext_iff : ofLine? line = some (.ignoreNext scope) ↔
    ∃ listed, NextComment listed line ∧ commentScope listed = scope := by
  rw [ofLine?_eq_some_iff, comment?_eq_some_iff]
  constructor
  · rintro (hpragma | ⟨hpragma, ⟨listed, hmark, hscope⟩ | ⟨listed, -, -, hscope⟩⟩)
    · exact absurd hpragma pragma?_ne_comment.1
    · cases hscope
      exact ⟨listed, ⟨hpragma, hmark⟩, rfl⟩
    · cases hscope
  · rintro ⟨listed, ⟨hpragma, hmark⟩, rfl⟩
    exact .inr ⟨hpragma, .inl ⟨listed, hmark, rfl⟩⟩

theorem ofLine?_ignoreHere_iff : ofLine? line = some (.ignoreHere scope) ↔
    ∃ listed, HereComment listed line ∧ commentScope listed = scope := by
  rw [ofLine?_eq_some_iff, comment?_eq_some_iff]
  constructor
  · rintro (hpragma | ⟨hpragma, ⟨listed, -, hscope⟩ | ⟨listed, hnext, hmark, hscope⟩⟩)
    · exact absurd hpragma pragma?_ne_comment.2
    · cases hscope
    · cases hscope
      exact ⟨listed, ⟨hpragma, hnext, hmark⟩, rfl⟩
  · rintro ⟨listed, ⟨hpragma, hnext, hmark⟩, rfl⟩
    exact .inr ⟨hpragma, .inr ⟨listed, hnext, hmark, rfl⟩⟩

theorem commentScope_covers_iff :
    (commentScope listed).covers rule = true ↔ CommentCovers listed rule := by
  unfold commentScope CommentCovers
  simp only [← mem_rulesIn]
  cases rulesIn (commentList listed) with
  | nil => simp [RuleScope.covers]
  | cons first rest =>
    have hfirst : ¬∀ other, other ∉ first :: rest := fun h => h first List.mem_cons_self
    simp only [List.isEmpty_cons, Bool.false_eq_true, if_false, RuleScope.covers,
      List.contains_iff_mem, hfirst, or_false]

theorem exists_in_listScope_iff {word : List Char} :
    (∃ scope, (∃ listed, Pragma word listed line ∧ listScope listed = scope) ∧ topic.In scope) ↔
      topic.StatedIn word line := by
  simp only [Topic.StatedIn, ← in_listScope_iff]
  constructor
  · rintro ⟨scope, ⟨listed, hline, rfl⟩, htopic⟩
    exact ⟨listed, hline, htopic⟩
  · rintro ⟨listed, hline, htopic⟩
    exact ⟨_, ⟨listed, hline, rfl⟩, htopic⟩

theorem exists_disable_iff :
    (∃ scope, ofLine? line = some (.disable scope) ∧ topic.In scope) ↔
      topic.StatedIn "disable".toList line := by
  simp only [ofLine?_disable_iff, exists_in_listScope_iff]

theorem exists_restore_iff :
    (∃ scope, ofLine? line = some (.restore scope) ∧ topic.In scope) ↔
      topic.StatedIn "restore".toList line := by
  simp only [ofLine?_restore_iff, exists_in_listScope_iff]

end Directive

/-! ## Lines of a source -/

/-- The line of a source with this number, counted from 1. -/
def lineAt? (source : List Char) : Nat → Option (List Char)
  | 0 => none
  | n + 1 => (Text.lines source)[n]?

/-- The source has a line of this number, and this holds of it. -/
def AtLine (source : List Char) (n : Nat) (p : List Char → Prop) : Prop :=
  ∃ line, lineAt? source n = some line ∧ p line

/-- The directive in the line of this number. -/
def directiveAt? (source : List Char) (n : Nat) : Option Directive :=
  (lineAt? source n).bind Directive.ofLine?

theorem directiveAt?_eq_some_iff {source : List Char} {n : Nat} {d : Directive} :
    directiveAt? source n = some d ↔ AtLine source n fun line => Directive.ofLine? line = some d :=
  Option.bind_eq_some_iff

theorem directiveAt?_succ {source : List Char} {i : Nat} {d? : Option Directive}
    (h : ((Text.lines source).map Directive.ofLine?)[i]? = some d?) :
    directiveAt? source (i + 1) = d? := by
  rw [List.getElem?_map, Option.map_eq_some_iff] at h
  obtain ⟨line, hline, rfl⟩ := h
  rw [directiveAt?, lineAt?, hline, Option.bind_some]

theorem directiveAt?_eq_none {source : List Char} {n : Nat} (h : (Text.lines source).length < n) :
    directiveAt? source n = none := by
  cases n with
  | zero => rfl
  | succ n =>
    rw [directiveAt?, lineAt?, List.getElem?_eq_none (Nat.le_of_lt_succ h), Option.bind_none]

end TestLint
