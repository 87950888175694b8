/-!
# Cutting character lists

A text is worked on as its list of characters.  This module holds the cuts
that the rest of the library is written with: at the first or the last
occurrence of a pattern, at a given beginning or end, and at line ends.
-/

namespace TestLint.Text

/-- The texts before and after the first occurrence of `needle`. -/
def cut? (needle : List Char) (cs : List Char) : Option (List Char × List Char) :=
  if needle.isPrefixOf cs then
    some ([], cs.drop needle.length)
  else
    match cs with
    | [] => none
    | c :: rest => (cut? needle rest).map fun (before, after) => (c :: before, after)

/-- The texts before and after the last occurrence of `needle`. -/
def cutLast? (needle : List Char) : List Char → Option (List Char × List Char)
  | [] => if needle.isEmpty then some ([], []) else none
  | c :: rest =>
    match cutLast? needle rest with
    | some (before, after) => some (c :: before, after)
    | none =>
      if needle.isPrefixOf (c :: rest) then
        some ([], (c :: rest).drop needle.length)
      else
        none

/-- The text without `start`, if it begins with it. -/
def dropStart? (start cs : List Char) : Option (List Char) :=
  if start.isPrefixOf cs then some (cs.drop start.length) else none

/-- The text without `ending`, if it ends with it. -/
def dropEnd? (ending cs : List Char) : Option (List Char) :=
  if ending.isSuffixOf cs then some (cs.take (cs.length - ending.length)) else none

theorem dropEnd?_eq_some {ending cs kept : List Char} (h : dropEnd? ending cs = some kept) :
    kept ++ ending = cs := by
  unfold dropEnd? at h
  split at h
  · next hsuffix =>
    cases h
    obtain ⟨before, rfl⟩ := List.isSuffixOf_iff_suffix.1 hsuffix
    rw [List.length_append, Nat.add_sub_cancel, List.take_left]
  · cases h

/-- The text without the longest end whose characters all satisfy `p`. -/
def dropEndWhile (p : Char → Bool) : List Char → List Char
  | [] => []
  | c :: cs =>
    match dropEndWhile p cs with
    | [] => if p c then [] else [c]
    | kept => c :: kept

@[simp] theorem dropEndWhile_nil (p : Char → Bool) : dropEndWhile p [] = [] := rfl

theorem dropEndWhile_cons (p : Char → Bool) (c : Char) (cs : List Char) :
    dropEndWhile p (c :: cs) =
      match dropEndWhile p cs with
      | [] => if p c then [] else [c]
      | kept => c :: kept := rfl

/-- The text without the copies of `ending` that it ends with. -/
def dropEnds (ending cs : List Char) : List Char :=
  if _h : ending ≠ [] ∧ ending.isSuffixOf cs then
    dropEnds ending (cs.take (cs.length - ending.length))
  else
    cs
termination_by cs.length
decreasing_by
  have hpos : 0 < ending.length := List.length_pos_iff.2 _h.1
  have hle : ending.length ≤ cs.length := (List.isSuffixOf_iff_suffix.1 _h.2).length_le
  simp only [List.length_take]
  omega

/-- The text without the copies of `start` that it begins with. -/
def dropStarts (start cs : List Char) : List Char :=
  if _h : start ≠ [] ∧ start.isPrefixOf cs then
    dropStarts start (cs.drop start.length)
  else
    cs
termination_by cs.length
decreasing_by
  have hpos : 0 < start.length := List.length_pos_iff.2 _h.1
  have hle : start.length ≤ cs.length := (List.isPrefixOf_iff_prefix.1 _h.2).length_le
  simp only [List.length_drop]
  omega

def occursIn (needle cs : List Char) : Bool :=
  (cut? needle cs).isSome

/-- One line end less: a carriage return that stood before the newline. -/
private def withoutReturn (line : List Char) : List Char :=
  (dropEnd? ['\r'] line).getD line

/-- The lines of a text.  A newline ends a line, and a carriage return just
before it belongs to the line end; nothing after the last newline is no line. -/
def lines (cs : List Char) : List (List Char) :=
  match (cs.splitOn '\n').reverse with
  | [] => []
  | last :: earlier =>
    let full := earlier.reverse.map withoutReturn
    if last.isEmpty then full else full ++ [last]

/-- A function on character lists, on strings. -/
def onString (f : List Char → List Char) (s : String) : String :=
  String.ofList (f s.toList)

/-- Equality of two texts up to the case of ASCII letters. -/
def equalIgnoringCase (a b : String) : Bool :=
  a.toList.map Char.toLower == b.toList.map Char.toLower

def lower (s : String) : String :=
  onString (List.map Char.toLower) s

def contains (s needle : String) : Bool :=
  occursIn needle.toList s.toList

def startsWith (s start : String) : Bool :=
  start.toList.isPrefixOf s.toList

def endsWith (s ending : String) : Bool :=
  ending.toList.isSuffixOf s.toList

end TestLint.Text
