import Mathlib.Algebra.Ring.Nat
import TestLint.Declaration.OfTree
import TestLint.Proofs.Syntax.Name

/-!
# Types as they are written

The grammar of types (`WrittenType`): names with type arguments, tuples, arrays, nullable
types, pointers.  A type name is a row of segments with dots between them, each with its own
type arguments (`TypeName`).  Each of them stands for the characters that it is written
with; a text writes it if it has these characters, with blanks anywhere (`Name.Writes`).

In a list of type arguments a comma parts two of them, but it also stands between the
elements of a tuple and in the brackets of an array: those that no angle brackets hold are
the exposed ones (`WrittenType.exposedCommas`).
-/

namespace TestLint

namespace Name

/-- The characters that have a meaning in written names, blanks aside. -/
def marks : List Char :=
  ['.', ':', '<', '?', '>', ',', '\x60']

/-- No character of the text has a meaning in a written name. -/
def IsWord (s : String) : Prop :=
  ∀ c ∈ s.toList, Text.isBlank c = false ∧ c ∉ marks

instance (s : String) : Decidable (IsWord s) :=
  List.decidableBAll (fun c => Text.isBlank c = false ∧ c ∉ marks) s.toList

/-- The text has these characters, and blanks anywhere. -/
def Writes (text : String) (chars : List Char) : Prop :=
  text.toList.filter (!Text.isBlank ·) = chars

instance (text : String) (chars : List Char) : Decidable (Writes text chars) :=
  inferInstanceAs (Decidable (_ = _))

end Name

open Name (IsWord)

structure Identifier where
  name : String
  ne_empty : name ≠ ""
  isWord : IsWord name

namespace Identifier

def named (name : String) (h : name ≠ "" ∧ IsWord name := by decide +kernel) : Identifier :=
  ⟨name, h.1, h.2⟩

def chars (i : Identifier) : List Char :=
  i.name.toList

theorem plainWord (i : Identifier) : Name.PlainWord i.chars where
  ne_nil h := i.ne_empty (String.toList_eq_nil_iff.1 h)
  solid c hc := (i.isWord c hc).1
  unmarked c hc hmem := (i.isWord c hmem).2 (List.mem_append_left ['>', ',', '\x60'] hc)

theorem not_mem_chars (i : Identifier) {c : Char} (hc : c ∈ Name.marks) : c ∉ i.chars :=
  fun hmem => (i.isWord c hmem).2 hc

end Identifier

/-- A type as it is written. -/
inductive WrittenType where
  /-- An identifier or keyword, with its type arguments if it has any. -/
  | simple (identifier : Identifier) (arguments : List WrittenType)
  /-- `scope.identifier<arguments>` -/
  | member (scope : WrittenType) (identifier : Identifier) (arguments : List WrittenType)
  /-- `label::identifier<arguments>` -/
  | aliased (label identifier : Identifier) (arguments : List WrittenType)
  | tuple (elements : List WrittenType)
  /-- An element of a tuple with its name. -/
  | element (type : WrittenType) (name : Identifier)
  /-- `type[]`, with a comma less than dimensions. -/
  | array (type : WrittenType) (commas : Nat)
  | nullable (type : WrittenType)
  | pointer (type : WrittenType)
  /-- `delegate* unmanaged[conventions]<signature>` -/
  | function (conventions : List Identifier) (signature : List WrittenType)
  /-- A parameter of a function with `ref`, `in` or `out`. -/
  | passed (modifier : Identifier) (type : WrittenType)

namespace WrittenType

/-- Type arguments in their brackets, if there are any. -/
def bracketed : List (List Char) → List Char
  | [] => []
  | first :: others => '<' :: ([','].intercalate (first :: others) ++ ['>'])

def conventionChars : List Identifier → List Char
  | [] => []
  | first :: others =>
    "unmanaged[".toList ++ [','].intercalate ((first :: others).map (·.chars)) ++ [']']

mutual

/-- The characters that a type is written with. -/
def chars : WrittenType → List Char
  | .simple identifier arguments => identifier.chars ++ bracketed (allChars arguments)
  | .member scope identifier arguments =>
    scope.chars ++ ['.'] ++ identifier.chars ++ bracketed (allChars arguments)
  | .aliased label identifier arguments =>
    label.chars ++ [':', ':'] ++ identifier.chars ++ bracketed (allChars arguments)
  | .tuple elements => ['('] ++ [','].intercalate (allChars elements) ++ [')']
  | .element type name => type.chars ++ name.chars
  | .array type commas => type.chars ++ ['['] ++ List.replicate commas ',' ++ [']']
  | .nullable type => type.chars ++ ['?']
  | .pointer type => type.chars ++ ['*']
  | .function conventions signature =>
    "delegate*".toList ++ conventionChars conventions ++ bracketed (allChars signature)
  | .passed modifier type => modifier.chars ++ type.chars

def allChars : List WrittenType → List (List Char)
  | [] => []
  | type :: rest => type.chars :: allChars rest

end

mutual

/-- The commas of a type that do not stand in angle brackets. -/
def exposedCommas : WrittenType → Nat
  | .simple _ _ => 0
  | .member scope _ _ => scope.exposedCommas
  | .aliased _ _ _ => 0
  | .tuple elements => (allExposedCommas elements).sum + (elements.length - 1)
  | .element type _ => type.exposedCommas
  | .array type commas => type.exposedCommas + commas
  | .nullable type => type.exposedCommas
  | .pointer type => type.exposedCommas
  | .function conventions _ => conventions.length - 1
  | .passed _ type => type.exposedCommas

def allExposedCommas : List WrittenType → List Nat
  | [] => []
  | type :: rest => type.exposedCommas :: allExposedCommas rest

end

theorem length_allChars (types : List WrittenType) : (allChars types).length = types.length := by
  induction types with
  | nil => rfl
  | cons type rest ih => rw [allChars, List.length_cons, List.length_cons, ih]

end WrittenType

/-- The type arguments of a segment of a name. -/
inductive TypeArguments where
  | none
  | given (first : WrittenType) (others : List WrittenType)
  /-- Left out as in `Pair<,>`, with a comma less than arguments. -/
  | omitted (commas : Nat)

namespace TypeArguments

def chars : TypeArguments → List Char
  | .none => []
  | .given first others => WrittenType.bracketed (WrittenType.allChars (first :: others))
  | .omitted commas => '<' :: (List.replicate commas ',' ++ ['>'])

def count : TypeArguments → Nat
  | .none => 0
  | .given _ others => others.length + 1
  | .omitted commas => commas + 1

/-- The commas in the arguments that do not part two of them, and that no further angle
brackets hold. -/
def exposedCommas : TypeArguments → Nat
  | .given first others => (WrittenType.allExposedCommas (first :: others)).sum
  | _ => 0

end TypeArguments

/-! ## Names with the number of type parameters -/

theorem Text.isBlank_eq_false_of_isDigit {c : Char} (h : c.isDigit = true) : isBlank c = false := by
  rw [← Bool.not_eq_true]
  intro hblank
  simp only [Char.isDigit, Bool.and_eq_true, decide_eq_true_eq, UInt32.le_iff_toNat_le] at h
  simp only [isBlank, Char.toNat, Bool.or_eq_true, Bool.and_eq_true, decide_eq_true_eq,
    beq_iff_eq] at hblank
  have hlower : 48 ≤ c.val.toNat := h.1
  have hupper : c.val.toNat ≤ 57 := h.2
  omega

namespace TypeDeclaration

theorem toList_metadataName (name : String) (arity : Nat) :
    (metadataName name arity).toList =
      name.toList ++ if arity = 0 then [] else '\x60' :: (Nat.repr arity).toList := by
  unfold metadataName
  split
  · rw [List.append_nil]
  · rw [String.toList_append, String.toList_append, List.append_assoc]
    rfl

theorem mem_metadataName {name : String} {arity : Nat} {c : Char}
    (h : c ∈ (metadataName name arity).toList) :
    c ∈ name.toList ∨ c = '\x60' ∨ c.isDigit = true := by
  rw [toList_metadataName, List.mem_append] at h
  refine h.imp_right fun h => ?_
  split at h
  · cases h
  · refine (List.mem_cons.1 h).imp_right fun h => ?_
    rw [Nat.toList_repr] at h
    exact Nat.isDigit_of_mem_toDigits (by decide) (by decide) h

theorem not_mem_metadataName {name : String} {c : Char} (hname : c ∉ name.toList)
    (hquote : c ≠ '\x60') (hdigit : c.isDigit = false) (arity : Nat) :
    c ∉ (metadataName name arity).toList := by
  intro hc
  rcases mem_metadataName hc with h | h | h
  · exact hname h
  · exact hquote h
  · rw [hdigit] at h
    cases h

/-- The name and the number of type parameters can be told from each other. -/
theorem metadataName_inj {name name' : String} {arity arity' : Nat}
    (hname : '\x60' ∉ name.toList) (hname' : '\x60' ∉ name'.toList)
    (h : metadataName name arity = metadataName name' arity') : name = name' ∧ arity = arity' := by
  have hlist := congrArg String.toList h
  rw [toList_metadataName, toList_metadataName] at hlist
  have hcut (name : String) (hname : '\x60' ∉ name.toList) (arity : Nat) :
      (name.toList ++ if arity = 0 then [] else '\x60' :: (Nat.repr arity).toList).takeWhile
        (· != '\x60') = name.toList := by
    rw [List.takeWhile_append_of_pos (Text.bne_of_not_mem hname)]
    split <;> simp
  have hnames : name.toList = name'.toList := by
    rw [← hcut name hname arity, hlist, hcut name' hname' arity']
  rw [hnames, List.append_cancel_left_eq] at hlist
  refine ⟨String.toList_injective hnames, ?_⟩
  split at hlist <;> split at hlist
  · omega
  · cases hlist
  · cases hlist
  · have hdigits := (List.cons.inj hlist).2
    rw [Nat.toList_repr, Nat.toList_repr] at hdigits
    rw [← Nat.ofDigitChars_ten_toDigits (n := arity), hdigits, Nat.ofDigitChars_ten_toDigits]

end TypeDeclaration

/-- An identifier with its type arguments. -/
structure Segment where
  identifier : Identifier
  arguments : TypeArguments

namespace Segment

open TypeDeclaration (metadataName)

def chars (s : Segment) : List Char :=
  s.identifier.chars ++ s.arguments.chars

/-- The name that a type is declared with, of the segment's name and number of type
parameters. -/
def declared (s : Segment) : String :=
  metadataName s.identifier.name s.arguments.count

/-- The number of commas that no further angle brackets hold, and one. -/
def counted (s : Segment) : Nat :=
  s.arguments.count + s.arguments.exposedCommas

/-- The identifier with the number that is counted. -/
def form (s : Segment) : String :=
  metadataName s.identifier.name s.counted

end Segment

/-! ## Joined names -/

namespace Text

theorem intercalate_append (separator : List Char) {words words' : List (List Char)}
    (hwords : words ≠ []) (hwords' : words' ≠ []) :
    separator.intercalate (words ++ words') =
      separator.intercalate words ++ separator ++ separator.intercalate words' := by
  induction words with
  | nil => exact absurd rfl hwords
  | cons word words ih =>
    cases words with
    | nil =>
      obtain ⟨word', others, rfl⟩ := List.exists_cons_of_ne_nil hwords'
      rw [List.singleton_append, List.intercalate_cons_cons, List.intercalate_singleton]
    | cons word₂ words =>
      rw [List.cons_append, List.cons_append, List.intercalate_cons_cons, ← List.cons_append,
        ih (List.cons_ne_nil word₂ words), List.intercalate_cons_cons]
      simp only [List.append_assoc]

theorem mem_intercalate_of_mem (separator : List Char) {words : List (List Char)}
    {word : List Char} {c : Char} (hword : word ∈ words) (hc : c ∈ word) :
    c ∈ separator.intercalate words := by
  obtain ⟨before, after, rfl⟩ := List.append_of_mem hword
  have hbehind : c ∈ separator.intercalate (word :: after) := by
    cases after with
    | nil => rwa [List.intercalate_singleton]
    | cons next after =>
      rw [List.intercalate_cons_cons, List.append_assoc]
      exact List.mem_append_left _ hc
  by_cases hbefore : before = []
  · rwa [hbefore]
  · rw [intercalate_append separator hbefore (List.cons_ne_nil word after)]
    exact List.mem_append_right _ hbehind

theorem filter_intercalate (p : Char → Bool) (separator : List Char) (words : List (List Char)) :
    (separator.intercalate words).filter p =
      (separator.filter p).intercalate (words.map (·.filter p)) := by
  induction words with
  | nil => rfl
  | cons word words ih =>
    cases words with
    | nil => rw [List.intercalate_singleton, List.map_singleton, List.intercalate_singleton]
    | cons word₂ words =>
      rw [List.intercalate_cons_cons, List.filter_append, List.filter_append, ih, List.map_cons,
        List.map_cons, List.map_cons, List.intercalate_cons_cons]

/-- Words without dots can be told from each other when they are joined by dots. -/
theorem join_inj {words words' : List String} (hwords : ∀ w ∈ words, '.' ∉ w.toList)
    (hwords' : ∀ w ∈ words', '.' ∉ w.toList) (hne : words ≠ []) (hne' : words' ≠ [])
    (h : ".".intercalate words = ".".intercalate words') : words = words' := by
  have hlist := congrArg (List.splitOn '.') (congrArg String.toList h)
  have hdot : ".".toList = ['.'] := by decide +kernel
  rw [String.toList_intercalate, String.toList_intercalate, hdot,
    List.splitOn_intercalate '.' (by simpa using hwords) (by simpa using hne),
    List.splitOn_intercalate '.' (by simpa using hwords') (by simpa using hne')] at hlist
  exact List.map_injective_iff.2 (fun _ _ => String.toList_injective) hlist

end Text

/-- The name of a type, perhaps with the namespaces or types that it stands in. -/
structure TypeName where
  scope : List Segment
  last : Segment

namespace TypeName

open TypeDeclaration (metadataName)

def segments (n : TypeName) : List Segment :=
  n.scope ++ [n.last]

def chars (n : TypeName) : List Char :=
  ['.'].intercalate (n.segments.map (·.chars))

/-- The full name of the type of the name. -/
def declared (n : TypeName) : String :=
  ".".intercalate (n.segments.map (·.declared))

/-- The name with, after each segment, the number that is counted in its arguments. -/
def form (n : TypeName) : String :=
  ".".intercalate (n.segments.map (·.form))

/-- Each comma that no further angle brackets hold parts two type arguments. -/
def Plain (n : TypeName) : Prop :=
  ∀ s ∈ n.segments, s.arguments.exposedCommas = 0

theorem segments_ne_nil (n : TypeName) : n.segments ≠ [] :=
  List.append_ne_nil_of_right_ne_nil n.scope (List.cons_ne_nil _ _)

theorem form_eq_declared_iff (n : TypeName) : n.form = n.declared ↔ n.Plain := by
  have hdotless (s : Segment) (arity : Nat) :
      '.' ∉ (metadataName s.identifier.name arity).toList :=
    TypeDeclaration.not_mem_metadataName (s.identifier.not_mem_chars (by decide)) (by decide)
      (by decide) arity
  constructor
  · intro h s hs
    have hmaps := Text.join_inj (List.forall_mem_map.2 fun s _ => hdotless s _)
      (List.forall_mem_map.2 fun s _ => hdotless s _) (by simp [n.segments_ne_nil])
      (by simp [n.segments_ne_nil]) h
    have hquote : '\x60' ∉ s.identifier.name.toList := s.identifier.not_mem_chars (by decide)
    have hcounts :=
      (TypeDeclaration.metadataName_inj hquote hquote (List.map_inj_left.1 hmaps s hs)).2
    rw [Segment.counted] at hcounts
    omega
  · intro h
    refine congrArg _ (List.map_congr_left fun s hs => ?_)
    rw [Segment.form, Segment.counted, h s hs]
    rfl

end TypeName

end TestLint
