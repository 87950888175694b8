import TestLint.Declaration.Members
import TestLint.Proofs.Syntax.WellFormed
import TestLint.Proofs.Text.Cutting

/-!
# The accessors of a property

What an accessor is, its node says: a keyword stands under the field `name`, and before it the
modifiers (`Accessor.kind?`, `Accessor.modifiers`).  A property should have the accessors of
its list (`Property.HasAccessors`).

The accessors are not read off these nodes but off the words of their text, the first of which
that is a keyword decides.  An accessor is read as what it is if this word is of the kind of its
keyword, and the words before say the accessibility of its modifiers (`Accessor.Legible`).  So
it is if its keyword and its modifiers stand apart and nothing else before the keyword holds a
word of these kinds (`Accessor.Clear`), whatever the attributes and the body hold besides.
-/

namespace TestLint

open Text

/-- What an accessor is for. -/
inductive AccessorKind where
  | getter
  | setter
  deriving DecidableEq

namespace Accessor

/-- The word is a keyword of accessors. -/
def isKeyword (word : String) : Bool :=
  word == "get" || word == "set" || word == "init"

def kindOfWord? (word : String) : Option AccessorKind :=
  if word = "get" then some .getter
  else if word = "set" ∨ word = "init" then some .setter
  else none

/-- The accessibility of a setter with other modifiers than the property. -/
def narrowing? (own : Accessibility) (kind? : Option AccessorKind) (modifiers : Modifiers) :
    Option Accessibility :=
  if kind? = some .setter ∧ modifiers.accessibility own ≠ own then
    some (modifiers.accessibility own)
  else
    none

theorem isSome_kindOfWord? (word : String) : (kindOfWord? word).isSome = isKeyword word := by
  unfold kindOfWord? isKeyword
  split_ifs <;> simp_all

theorem exists_kind {word : String} (h : isKeyword word = true) :
    ∃ kind, kindOfWord? word = some kind :=
  Option.isSome_iff_exists.1 ((isSome_kindOfWord? word).trans h)

theorem eq_of_isKeyword {word : String} (h : isKeyword word = true) :
    word = "get" ∨ word = "set" ∨ word = "init" := by
  simpa [isKeyword, or_assoc] using h

section

variable (source : List Char)

/-! ## What an accessor is -/

/-- The kind that the accessor's keyword says. -/
def kind? (a : Tree) : Option AccessorKind :=
  (a.childByField? "name").bind fun k => kindOfWord? (k.text source)

def modifiers (a : Tree) : Modifiers :=
  ⟨(a.childrenOfKind "modifier").map fun m => ⟨m.text source, m.location source⟩⟩

/-- The accessibility that the accessor gives the property's setter, if it is not its own. -/
def narrowed? (own : Accessibility) (a : Tree) : Option Accessibility :=
  narrowing? own (kind? source a) (modifiers source a)

/-- The node is that of an accessor: modifiers, and behind them the keyword. -/
structure IsWritten (a : Tree) : Prop where
  isSome_kind? : (kind? source a).isSome = true
  ordered : ∀ k ∈ a.childByField? "name", ∀ m ∈ a.childrenOfKind "modifier", m.stop ≤ k.start
  keywords : ∀ m ∈ a.childrenOfKind "modifier", m.text source ∈ modifierKeywords

/-! ## What its words say -/

def words (a : Tree) : List String :=
  Property.accessorWords (a.text source)

/-- The kind that the first keyword among the words says. -/
def seen? (a : Tree) : Option AccessorKind :=
  ((words source a).find? isKeyword).bind kindOfWord?

/-- The words before the first keyword. -/
def seenModifiers (a : Tree) : Modifiers :=
  ⟨((words source a).takeWhile (!isKeyword ·)).map fun w => ⟨w, a.location source⟩⟩

def seenNarrowed? (own : Accessibility) (a : Tree) : Option Accessibility :=
  narrowing? own (seen? source a) (seenModifiers source a)

/-- The words say what the accessor is. -/
structure Legible (own : Accessibility) (a : Tree) : Prop where
  kind : seen? source a = kind? source a
  access : kind? source a = some .setter →
    (seenModifiers source a).accessibility own = (modifiers source a).accessibility own

/-! ## Accessors that can be told from their surroundings -/

/-- The characters between words. -/
def partsWords (c : Char) : Bool :=
  isBlank c || c == ';' || c == '\x7b' || c == '='

/-- Where the accessor's text goes on before or behind the node, it parts words there. -/
structure StandsApart (a n : Tree) : Prop where
  before : ∀ c ∈ (between a.start n.start source).getLast?, partsWords c = true
  behind : ∀ c ∈ (between n.stop a.stop source).head?, partsWords c = true

/-- The words of the accessor's text before its keyword, of attributes, comments and modifiers. -/
def wordsBefore (a k : Tree) : List String :=
  Property.accessorWords (String.ofList (between a.start k.start source))

def wordsBehind (a k : Tree) : List String :=
  Property.accessorWords (String.ofList (between k.stop a.stop source))

/-- The keyword stands apart and is the first one; and so do the modifiers of a setter, beside
which no word of accessibility stands. -/
structure Clear (a k : Tree) : Prop where
  apart : StandsApart source a k
  first : ∀ w ∈ wordsBefore source a k, isKeyword w = false
  modifiers_apart : kind? source a = some .setter →
    ∀ m ∈ a.childrenOfKind "modifier", StandsApart source a m
  modifiers_only : kind? source a = some .setter →
    ∀ w ∈ wordsBefore source a k, w ∈ Modifiers.accessibilityKeywords →
      (modifiers source a).has w = true

instance (a n : Tree) : Decidable (StandsApart source a n) :=
  have := Option.decidableForallMem (p := (partsWords · = true))
  decidable_of_iff
    ((∀ c ∈ (between a.start n.start source).getLast?, partsWords c = true) ∧
      ∀ c ∈ (between n.stop a.stop source).head?, partsWords c = true)
    ⟨fun ⟨before, behind⟩ => ⟨before, behind⟩, fun h => ⟨h.before, h.behind⟩⟩

instance (a k : Tree) : Decidable (Clear source a k) :=
  decidable_of_iff
    (StandsApart source a k ∧ (∀ w ∈ wordsBefore source a k, isKeyword w = false) ∧
      (kind? source a = some .setter →
        ∀ m ∈ a.childrenOfKind "modifier", StandsApart source a m) ∧
      (kind? source a = some .setter →
        ∀ w ∈ wordsBefore source a k, w ∈ Modifiers.accessibilityKeywords →
          (modifiers source a).has w = true))
    ⟨fun ⟨apart, first, modifiers_apart, modifiers_only⟩ =>
        ⟨apart, first, modifiers_apart, modifiers_only⟩,
      fun h => ⟨h.apart, h.first, h.modifiers_apart, h.modifiers_only⟩⟩

instance (a : Tree) : Decidable (IsWritten source a) :=
  decidable_of_iff
    ((kind? source a).isSome = true ∧
      (∀ k ∈ a.childByField? "name", ∀ m ∈ a.childrenOfKind "modifier", m.stop ≤ k.start) ∧
      ∀ m ∈ a.childrenOfKind "modifier", m.text source ∈ modifierKeywords)
    ⟨fun ⟨isSome_kind?, ordered, keywords⟩ => ⟨isSome_kind?, ordered, keywords⟩,
      fun h => ⟨h.isSome_kind?, h.ordered, h.keywords⟩⟩

end

variable {source : List Char} {own : Accessibility} {a k n : Tree}

/-! ## Reading a list of accessors -/

theorem add_eq (read : Property.Accessors) (a : Tree) :
    Property.Accessors.add source own read a =
      { getter := read.getter || decide (seen? source a = some .getter)
        setter := read.setter || decide (seen? source a = some .setter)
        narrowed := (seenNarrowed? source own a).or read.narrowed } := by
  unfold Property.Accessors.add
  dsimp only
  split
  case h_1 hword =>
    have hseen : seen? source a = none := by
      rw [seen?, show (words source a).find? isKeyword = none from hword, Option.bind_none]
    simp [seenNarrowed?, narrowing?, hseen]
  case h_2 hword =>
    have hseen : seen? source a = some .getter := by
      rw [seen?, show (words source a).find? isKeyword = some "get" from hword]
      rfl
    simp [seenNarrowed?, narrowing?, hseen]
  case h_3 word hother hword =>
    have hseen : seen? source a = some .setter := by
      rw [seen?, show (words source a).find? isKeyword = some word from hword, Option.bind_some]
      rcases eq_of_isKeyword (List.find?_some hword) with rfl | rfl | rfl
      · exact absurd rfl hother
      · rfl
      · rfl
    change Property.Accessors.mk read.getter true
      (if (seenModifiers source a).accessibility own ≠ own then
        some ((seenModifiers source a).accessibility own) else read.narrowed) = _
    by_cases haccess : (seenModifiers source a).accessibility own = own <;>
      simp [seenNarrowed?, narrowing?, hseen, haccess]

/-- A keyword that comes once is enough, and the last accessibility counts. -/
theorem foldl_add (read : Property.Accessors) (accessors : List Tree) :
    accessors.foldl (Property.Accessors.add source own) read =
      { getter := read.getter || accessors.any (seen? source · = some .getter)
        setter := read.setter || accessors.any (seen? source · = some .setter)
        narrowed := (accessors.filterMap (seenNarrowed? source own)).getLast?.or
          read.narrowed } := by
  induction accessors generalizing read with
  | nil => simp
  | cons a rest ih =>
    rw [List.foldl_cons, ih, add_eq, List.any_cons, List.any_cons, List.filterMap_cons,
      Bool.or_assoc, Bool.or_assoc]
    cases seenNarrowed? source own a with
    | none => rfl
    | some access =>
      rw [List.getLast?_cons]
      cases (rest.filterMap (seenNarrowed? source own)).getLast? <;> rfl

/-! ## Legible accessors -/

theorem Legible.seenNarrowed?_eq (h : Legible source own a) :
    seenNarrowed? source own a = narrowed? source own a := by
  rw [seenNarrowed?, narrowed?, narrowing?, narrowing?, h.kind]
  by_cases hkind : kind? source a = some .setter
  · rw [h.access hkind]
  · rw [if_neg fun h => hkind h.1, if_neg fun h => hkind h.1]

theorem narrowing?_inj {m m' : Modifiers}
    (h : narrowing? own (some .setter) m = narrowing? own (some .setter) m') :
    m.accessibility own = m'.accessibility own := by
  unfold narrowing? at h
  split_ifs at h <;> simp_all

theorem kind_ext {kind? kind?' : Option AccessorKind}
    (hgetter : kind? = some .getter ↔ kind?' = some .getter)
    (hsetter : kind? = some .setter ↔ kind?' = some .setter) : kind? = kind?' := by
  cases kind?' with
  | some kind => cases kind <;> simp_all
  | none =>
    cases kind? with
    | none => rfl
    | some kind => cases kind <;> simp_all

/-! ## Clear accessors -/

/-- The text of an accessor and that before and behind its keyword, in words. -/
theorem words_eq (a k : Tree) :
    words source a = (wordsBy partsWords (between a.start a.stop source)).map String.ofList ∧
      wordsBefore source a k =
        (wordsBy partsWords (between a.start k.start source)).map String.ofList ∧
      wordsBehind source a k =
        (wordsBy partsWords (between k.stop a.stop source)).map String.ofList := by
  rw [words, wordsBefore, wordsBehind, Property.accessorWords, Property.accessorWords,
    Property.accessorWords, Tree.text, String.toList_ofList, String.toList_ofList,
    String.toList_ofList]
  exact ⟨rfl, rfl, rfl⟩

/-- A node parts the text of an accessor up to any place behind it. -/
theorem between_around (ha : a.InPlace source) (hmem : n ∈ a.children) (hn : n.InPlace source)
    {stop : Nat} (hstop : isBoundary stop source = true) (hle : n.stop ≤ stop) :
    between a.start stop source = between a.start n.start source ++
      (between n.start n.stop source ++ between n.stop stop source) := by
  obtain ⟨-, hastart, -⟩ := ha.bounds
  obtain ⟨hforward, hnstart, hnstop⟩ := hn.bounds
  rw [between_append hastart hnstart hstop (ha.inside n hmem).1 (Nat.le_trans hforward hle),
    between_append hnstart hnstop hstop hforward hle]

/-- Keywords and modifiers are words. -/
theorem solid_keyword (h : n.text source ∈ modifierKeywords ∨ isKeyword (n.text source) = true) :
    between n.start n.stop source ≠ [] ∧
      ∀ c ∈ between n.start n.stop source, partsWords c = false := by
  have hword : ("get" :: "set" :: "init" :: modifierKeywords).all (fun w =>
      !w.toList.isEmpty && w.toList.all (!partsWords ·)) = true := by
    decide +kernel
  have hmem : n.text source ∈ "get" :: "set" :: "init" :: modifierKeywords := by
    rcases h with h | h
    · simp [h]
    · rcases eq_of_isKeyword h with h | h | h <;> simp [h]
  have htext : (n.text source).toList = between n.start n.stop source := String.toList_ofList
  rw [← htext]
  simpa using List.all_eq_true.1 hword _ hmem

/-- A word that stands apart is one of the words of the accessor's text up to any place behind
it. -/
theorem StandsApart.words_between (h : StandsApart source a n) (ha : a.InPlace source)
    (hmem : n ∈ a.children) (hn : n.InPlace source)
    (hword : n.text source ∈ modifierKeywords ∨ isKeyword (n.text source) = true) {stop : Nat}
    (hstop : isBoundary stop source = true) (hle : n.stop ≤ stop) (hle' : stop ≤ a.stop) :
    (wordsBy partsWords (between a.start stop source)).map String.ofList =
      (wordsBy partsWords (between a.start n.start source)).map String.ofList ++
        (n.text source ::
          (wordsBy partsWords (between n.stop stop source)).map String.ofList) := by
  obtain ⟨hne, hsolid⟩ := solid_keyword hword
  have hbehind : ∀ c ∈ (between n.stop stop source).head?, partsWords c = true := by
    intro c hc
    refine h.behind c ?_
    rw [between_append hn.bounds.2.2 hstop ha.bounds.2.2 hle hle', List.head?_append,
      Option.mem_def.1 hc]
    rfl
  rw [between_around ha hmem hn hstop hle, wordsBy_append (.inl h.before),
    wordsBy_append (.inr hbehind), wordsBy_eq_singleton hne hsolid, List.map_append,
    List.map_append]
  rfl

/-- A keyword with something else in one word is no keyword. -/
theorem eq_nil_of_isKeyword {before word behind : List Char}
    (hword : isKeyword (String.ofList word) = true)
    (h : isKeyword (String.ofList (before ++ word ++ behind)) = true) :
    before = [] ∧ behind = [] := by
  have hlength : ∀ v ∈ ["get", "set", "init"], ∀ w ∈ ["get", "set", "init"],
      v.toList <:+: w.toList → w.toList.length ≤ v.toList.length := by
    decide +kernel
  have hmem {w : String} (hw : isKeyword w = true) : w ∈ ["get", "set", "init"] := by
    rcases eq_of_isKeyword hw with rfl | rfl | rfl <;> simp
  have hle := hlength _ (hmem hword) _ (hmem h)
  rw [String.toList_ofList, String.toList_ofList] at hle
  replace hle := hle ⟨before, behind, rfl⟩
  simp only [List.length_append] at hle
  exact ⟨List.length_eq_zero_iff.1 (by omega), List.length_eq_zero_iff.1 (by omega)⟩

theorem accessibility_congr {m m' : Modifiers}
    (h : ∀ w ∈ Modifiers.accessibilityKeywords, m.has w = m'.has w) (own : Accessibility) :
    m.accessibility own = m'.accessibility own := by
  simp only [Modifiers.accessibilityKeywords, List.forall_mem_cons] at h
  obtain ⟨hpublic, hinternal, hprotected, hprivate, hfile, -⟩ := h
  rw [Modifiers.accessibility, Modifiers.accessibility, hpublic, hinternal, hprotected, hprivate,
    hfile]

theorem has_iff {m : Modifiers} {w : String} : m.has w = true ↔ w ∈ m.tokens.map (·.text) := by
  simp [Modifiers.has]

section

variable (ha : a.Nested source) (hwritten : IsWritten source a)
  (hk : a.childByField? "name" = some k)

include hk

theorem kind?_eq : kind? source a = kindOfWord? (k.text source) := by
  rw [kind?, hk]
  rfl

include hwritten

theorem isKeyword_text : isKeyword (k.text source) = true := by
  rw [← isSome_kindOfWord?, ← kind?_eq hk]
  exact hwritten.isSome_kind?

include ha

theorem words_of_apart (hapart : StandsApart source a k) :
    words source a = wordsBefore source a k ++ (k.text source :: wordsBehind source a k) := by
  obtain ⟨hkmem, -⟩ := Tree.mem_of_childByField? hk
  obtain ⟨hwords, hbefore, hbehind⟩ := @words_eq source a k
  have hkplace := (ha.of_holds (.of_mem hkmem)).inPlace
  rw [hwords, hbefore, hbehind]
  exact hapart.words_between ha.inPlace hkmem hkplace (.inr (isKeyword_text hwritten hk))
    ha.inPlace.bounds.2.2 (ha.inPlace.inside k hkmem).2 (Nat.le_refl _)

/-- A keyword that stands apart counts if no other one comes before it. -/
theorem seen?_of_apart (hapart : StandsApart source a k) :
    seen? source a =
      (((wordsBefore source a k).find? isKeyword).bind kindOfWord?).or (kind? source a) := by
  rw [seen?, words_of_apart ha hwritten hk hapart, List.find?_append,
    List.find?_cons_of_pos (isKeyword_text hwritten hk), kind?_eq hk]
  cases hfind : (wordsBefore source a k).find? isKeyword with
  | none => rfl
  | some w =>
    obtain ⟨kind, hkind⟩ := exists_kind (List.find?_some hfind)
    simp [hkind]

/-- An accessor whose keyword does not stand apart is read off another keyword, if at all. -/
theorem exists_keyword_of_seen? (hapart : ¬StandsApart source a k)
    (hseen : (seen? source a).isSome = true) :
    ∃ w ∈ wordsBefore source a k ++ wordsBehind source a k, isKeyword w = true := by
  obtain ⟨hkmem, -⟩ := Tree.mem_of_childByField? hk
  obtain ⟨hwords, hbefore, hbehind⟩ := @words_eq source a k
  have hkplace := (ha.of_holds (.of_mem hkmem)).inPlace
  have hkeyword := isKeyword_text hwritten hk
  obtain ⟨hne, hsolid⟩ := solid_keyword (.inr hkeyword)
  obtain ⟨kind, hkind⟩ := Option.isSome_iff_exists.1 hseen
  obtain ⟨w, hfind, -⟩ := Option.bind_eq_some_iff.1 hkind
  have hw := List.find?_some hfind
  have hmem := List.mem_of_find?_eq_some hfind
  rw [hwords, between_around ha.inPlace hkmem hkplace ha.inPlace.bounds.2.2
    (ha.inPlace.inside k hkmem).2] at hmem
  obtain ⟨cs, hcs, rfl⟩ := List.mem_map.1 hmem
  rw [hbefore, hbehind]
  rcases mem_wordsBy_around hne hsolid hcs with hcs | hcs | ⟨before, behind, rfl, hfirst, hlast⟩
  · exact ⟨_, List.mem_append_left _ (List.mem_map_of_mem hcs), hw⟩
  · exact ⟨_, List.mem_append_right _ (List.mem_map_of_mem hcs), hw⟩
  · obtain ⟨hnone, hnone'⟩ := eq_nil_of_isKeyword hkeyword hw
    exact absurd ⟨hfirst hnone, hlast hnone'⟩ hapart

/-- An accessor that can be told from its surroundings is read as what it is. -/
theorem Clear.legible (h : Clear source a k) (own : Accessibility) : Legible source own a := by
  have hfirst : (wordsBefore source a k).find? isKeyword = none :=
    List.find?_eq_none.2 fun w hw => by simp [h.first w hw]
  refine ⟨?_, fun hsetter => accessibility_congr (fun w hw => ?_) own⟩
  · rw [seen?_of_apart ha hwritten hk h.apart, hfirst]
    rfl
  · have hseen : (seenModifiers source a).tokens.map (·.text) = wordsBefore source a k := by
      have htake : (words source a).takeWhile (!isKeyword ·) = wordsBefore source a k := by
        rw [words_of_apart ha hwritten hk h.apart,
          List.takeWhile_append_of_pos fun w hw => by simp [h.first w hw],
          List.takeWhile_cons_of_neg (by simp [isKeyword_text hwritten hk]), List.append_nil]
      rw [seenModifiers, htake, List.map_map]
      exact List.map_id _
    rw [Bool.eq_iff_iff, has_iff, hseen]
    refine ⟨fun hbefore => h.modifiers_only hsetter w hbefore hw, fun hmodifier => ?_⟩
    -- a modifier that stands apart is one of the words
    obtain ⟨token, htoken, rfl⟩ := List.mem_map.1 (has_iff.1 hmodifier)
    obtain ⟨m, hm, rfl⟩ := List.mem_map.1 htoken
    obtain ⟨hkmem, -⟩ := Tree.mem_of_childByField? hk
    have hmmem := (Tree.mem_of_mem_childrenOfKind hm).1
    have hkplace := (ha.of_holds (.of_mem hkmem)).inPlace
    have hmplace := (ha.of_holds (.of_mem hmmem)).inPlace
    have hle := Nat.le_trans hkplace.bounds.1 (ha.inPlace.inside k hkmem).2
    rw [(words_eq a k).2.1, (h.modifiers_apart hsetter m hm).words_between ha.inPlace hmmem hmplace
      (.inl (hwritten.keywords m hm)) hkplace.bounds.2.1 (hwritten.ordered k hk m hm) hle]
    simp

/-- What the words of an accessor say is right only if its keyword stands apart, and no keyword
of the other kind before it, or else if another word is a keyword. -/
theorem Legible.outcome (h : Legible source own a) :
    (StandsApart source a k → ∀ w ∈ (wordsBefore source a k).find? isKeyword,
      kindOfWord? w = kind? source a) ∧
    (¬StandsApart source a k →
      ∃ w ∈ wordsBefore source a k ++ wordsBehind source a k, isKeyword w = true) := by
  refine ⟨fun hapart w hw => ?_, fun hapart => ?_⟩
  · have hkind := h.kind
    rw [seen?_of_apart ha hwritten hk hapart, Option.mem_def.1 hw, Option.bind_some] at hkind
    obtain ⟨kind, hw⟩ := exists_kind (List.find?_some (Option.mem_def.1 hw))
    rwa [hw, Option.some_or, ← hw] at hkind
  · refine exists_keyword_of_seen? ha hwritten hk hapart ?_
    rw [h.kind]
    exact hwritten.isSome_kind?

end

end Accessor

namespace Property

open Accessor (isKeyword kindOfWord? kind? narrowed? seen? seenNarrowed? wordsBefore wordsBehind
  IsWritten Legible StandsApart Clear)

/-- The property has the accessors of these nodes.  Of several setters with an accessibility of
their own the last one counts. -/
structure HasAccessors (source : List Char) (accessors : List Tree) (p : Property) : Prop where
  getter : p.hasGetter = true ↔ ∃ a ∈ accessors, kind? source a = some .getter
  setter : p.hasSetter = true ↔ ∃ a ∈ accessors, kind? source a = some .setter
  narrowed : p.setterAccessibility =
    (accessors.filterMap (narrowed? source p.accessibility)).getLast?

/-- The property has the accessors that are seen in the words of these nodes. -/
structure HasSeen (source : List Char) (accessors : List Tree) (p : Property) : Prop where
  getter : p.hasGetter = true ↔ ∃ a ∈ accessors, seen? source a = some .getter
  setter : p.hasSetter = true ↔ ∃ a ∈ accessors, seen? source a = some .setter
  narrowed : p.setterAccessibility =
    (accessors.filterMap (seenNarrowed? source p.accessibility)).getLast?

variable {source : List Char} {file : FileId} {t list a : Tree} {accessors : List Tree}
  {p : Property}

theorem HasSeen.hasAccessors (h : HasSeen source accessors p)
    (hlegible : ∀ a ∈ accessors, Legible source p.accessibility a) :
    HasAccessors source accessors p where
  getter := by
    rw [h.getter]
    exact exists_congr fun a => and_congr_right fun ha => by rw [(hlegible a ha).kind]
  setter := by
    rw [h.setter]
    exact exists_congr fun a => and_congr_right fun ha => by rw [(hlegible a ha).kind]
  narrowed := by
    rw [h.narrowed]
    exact congrArg _ (List.filterMap_congr fun a ha => (hlegible a ha).seenNarrowed?_eq)

/-- Of a lone accessor nothing else can make up for what is misread. -/
theorem HasSeen.legible (h : HasSeen source [a] p) (hhas : HasAccessors source [a] p) :
    Legible source p.accessibility a := by
  have hgetter := h.getter.symm.trans hhas.getter
  have hsetter := h.setter.symm.trans hhas.setter
  have hnarrowed := h.narrowed.symm.trans hhas.narrowed
  simp only [List.mem_singleton, exists_eq_left] at hgetter hsetter
  have hkind := Accessor.kind_ext hgetter hsetter
  have hlone (f : Tree → Option Accessibility) : ([a].filterMap f).getLast? = f a := by
    rw [List.filterMap_cons]
    cases f a <;> rfl
  rw [hlone, hlone, seenNarrowed?, narrowed?, hkind] at hnarrowed
  refine ⟨hkind, fun hset => Accessor.narrowing?_inj ?_⟩
  rw [hset] at hnarrowed
  exact hnarrowed

/-- A property is read off the words of its accessors. -/
theorem exists_ofTree? (source : List Char) (file : FileId)
    (hname : (t.childByField? "name").isSome = true)
    (hlist : t.childByFieldOrKind? "accessors" "accessor_list" = some list) :
    ∃ p, ofTree? file source t = some p ∧
      HasSeen source (list.childrenOfKind "accessor_declaration") p := by
  obtain ⟨name, hname⟩ := Option.isSome_iff_exists.1 hname
  rw [ofTree?, hname]
  simp only [hlist, Option.bind_eq_bind, Option.bind_some, Accessor.foldl_add]
  refine ⟨_, rfl, ?_⟩
  constructor
  · simp
  · simp
  · simp

/-- A property has the accessors of its list if the words of each of them say what it is; of a
single one they must.  So they do if the accessor can be told from its surroundings, whatever
else its attributes and its body hold; and they do so only if the keyword stands apart, and no
keyword of the other kind before it, or else if they hold another keyword. -/
theorem accessors_spec (file : FileId) (ht : t.Nested source)
    (hname : (t.childByField? "name").isSome = true)
    (hlist : t.childByFieldOrKind? "accessors" "accessor_list" = some list)
    (hwritten : ∀ a ∈ list.childrenOfKind "accessor_declaration", IsWritten source a) :
    let accessors := list.childrenOfKind "accessor_declaration"
    ∃ p, ofTree? file source t = some p ∧
      ((∀ a ∈ accessors, Legible source p.accessibility a) → HasAccessors source accessors p) ∧
      (∀ a, accessors = [a] → HasAccessors source accessors p →
        Legible source p.accessibility a) ∧
      ∀ a ∈ accessors, ∀ k ∈ a.childByField? "name",
        (Clear source a k → Legible source p.accessibility a) ∧
        (Legible source p.accessibility a →
          (StandsApart source a k → ∀ w ∈ (wordsBefore source a k).find? isKeyword,
            kindOfWord? w = kind? source a) ∧
          (¬StandsApart source a k →
            ∃ w ∈ wordsBefore source a k ++ wordsBehind source a k, isKeyword w = true)) := by
  intro accessors
  obtain ⟨p, hp, hseen⟩ := exists_ofTree? source file hname hlist
  refine ⟨p, hp, hseen.hasAccessors, fun a hone hhas => ?_, fun a ha k hk => ?_⟩
  · change HasSeen source accessors p at hseen
    rw [hone] at hseen hhas
    exact hseen.legible hhas
  · have hholds : t.Holds a :=
      .inner (Tree.mem_of_childByFieldOrKind? hlist) (.of_mem (Tree.mem_of_mem_childrenOfKind ha).1)
    have hnested := ht.of_holds hholds
    exact ⟨fun hclear => hclear.legible hnested (hwritten a ha) hk _,
      fun hlegible => hlegible.outcome hnested (hwritten a ha) hk⟩

def leaf (kind : String) (field : Option String) (start stop : Nat) : Tree :=
  .node ⟨kind, field, true, false, start, stop⟩ []

/-- The property of `int P { … }` with these accessors. -/
def propertyTree (stop : Nat) (accessors : List Tree) : Tree :=
  .node ⟨"property_declaration", none, true, false, 0, stop⟩
    [leaf "predefined_type" (some "type") 0 3, leaf "identifier" (some "name") 4 5,
     .node ⟨"accessor_list", some "accessors", true, false, 6, stop⟩ accessors]

/-- An accessor from `start` on with an attribute up to `attributeStop`, which a keyword of three
letters follows at `keyword`, perhaps with a modifier between. -/
def accessorTree (start attributeStop : Nat) (modifier : Option (Nat × Nat)) (keyword stop : Nat) :
    Tree :=
  .node ⟨"accessor_declaration", none, true, false, start, stop⟩
    (leaf "attribute_list" none start attributeStop ::
      (modifier.toList.map fun (first, last) => leaf "modifier" none first last) ++
      [leaf "keyword" (some "name") keyword (keyword + 3)])

theorem accessors_spec_attributed :
    let source := "int P \x7b [A] get; [A(\"get\")] private set \x7b x = get; \x7d \x7d".toList
    let t := propertyTree 54
      [accessorTree 8 11 none 12 16, accessorTree 17 27 (some (28, 35)) 36 52]
    t.Nested source ∧ (t.childByField? "name").isSome = true ∧
      ∃ list, t.childByFieldOrKind? "accessors" "accessor_list" = some list ∧
        (∀ a ∈ list.childrenOfKind "accessor_declaration", IsWritten source a) ∧
        ∃ p, ofTree? 0 source t = some p ∧
          HasAccessors source (list.childrenOfKind "accessor_declaration") p := by
  intro source t
  have ht : t.Nested source := by decide +kernel
  have hname : (t.childByField? "name").isSome = true := by decide +kernel
  obtain ⟨list, hlist⟩ : ∃ list, t.childByFieldOrKind? "accessors" "accessor_list" = some list :=
    ⟨_, rfl⟩
  have hwritten : ∀ l ∈ t.childByFieldOrKind? "accessors" "accessor_list",
      ∀ a ∈ l.childrenOfKind "accessor_declaration", IsWritten source a := by decide +kernel
  have hclear : ∀ l ∈ t.childByFieldOrKind? "accessors" "accessor_list",
      ∀ a ∈ l.childrenOfKind "accessor_declaration",
        ∃ k, k ∈ a.childByField? "name" ∧ Clear source a k := by decide +kernel
  obtain ⟨p, hp, hall, -, hlegible⟩ := accessors_spec 0 ht hname hlist (hwritten list hlist)
  refine ⟨ht, hname, list, hlist, hwritten list hlist, p, hp, hall fun a ha => ?_⟩
  obtain ⟨k, hk, hak⟩ := hclear list hlist a ha
  exact (hlegible a ha k hk).1 hak

/-- A keyword that touches an attribute is lost, and words of an attribute are taken for the
keyword or for modifiers. -/
theorem attribute_counts :
    (let source := "int P \x7b [A]get; \x7d".toList
      let a := accessorTree 8 11 none 11 15
      kind? source a = some .getter ∧
        (ofTree? 0 source (propertyTree 17 [a])).map (·.hasGetter) = some false) ∧
    (let source := "int P \x7b [A(\" get \")] set; \x7d".toList
      let a := accessorTree 8 20 none 21 25
      kind? source a = some .setter ∧
        (ofTree? 0 source (propertyTree 27 [a])).map (fun p => (p.hasGetter, p.hasSetter)) =
          some (true, false)) ∧
    (let source := "int P \x7b [A(\" public \")] set; \x7d".toList
      let a := accessorTree 8 23 none 24 28
      narrowed? source .isPrivate a = none ∧
        (ofTree? 0 source (propertyTree 30 [a])).map (fun p =>
          (p.accessibility, p.setterAccessibility)) = some (.isPrivate, some .isPublic)) := by
  decide +kernel

end Property

end TestLint
