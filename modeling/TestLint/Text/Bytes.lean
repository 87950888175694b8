import TestLint.Text.Chars

/-!
# Byte offsets

Places in a text are counted in the bytes of its UTF-8 form.  An offset is a
boundary when it lies between two characters; `splitAt?` is defined exactly
there, and `slice?` is the text between two boundaries.
-/

namespace TestLint.Text

/-- The number of bytes that a text takes. -/
def byteSize : List Char → Nat
  | [] => 0
  | c :: cs => c.utf8Size + byteSize cs

/-- The texts before and after a byte offset; `none` where the offset lies
inside a character or beyond the end. -/
def splitAt? : Nat → List Char → Option (List Char × List Char)
  | 0, cs => some ([], cs)
  | _ + 1, [] => none
  | n + 1, c :: cs =>
    if c.utf8Size ≤ n + 1 then
      (splitAt? (n + 1 - c.utf8Size) cs).map fun (before, after) => (c :: before, after)
    else
      none

def isBoundary (offset : Nat) (cs : List Char) : Bool :=
  (splitAt? offset cs).isSome

/-- The characters that end at or before an offset. -/
def takeBytes : Nat → List Char → List Char
  | _, [] => []
  | n, c :: cs => if c.utf8Size ≤ n then c :: takeBytes (n - c.utf8Size) cs else []

/-- The characters that begin at or after an offset. -/
def dropBytes : Nat → List Char → List Char
  | 0, cs => cs
  | _, [] => []
  | n, c :: cs => dropBytes (n - c.utf8Size) cs

/-- The text between two boundaries. -/
def slice? (start stop : Nat) (cs : List Char) : Option (List Char) := do
  let (_, rest) ← splitAt? start cs
  if stop < start then
    none
  else
    let (part, _) ← splitAt? (stop - start) rest
    some part

@[simp] theorem byteSize_append (a b : List Char) :
    byteSize (a ++ b) = byteSize a + byteSize b := by
  induction a with
  | nil => simp [byteSize]
  | cons c a ih => simp [byteSize, ih, Nat.add_assoc]

/-- A split loses nothing, and its first part has the asked-for size. -/
theorem splitAt?_eq_some {n : Nat} {cs before after : List Char}
    (h : splitAt? n cs = some (before, after)) :
    before ++ after = cs ∧ byteSize before = n := by
  induction cs generalizing n before with
  | nil =>
    cases n with
    | zero => simp_all [splitAt?, byteSize]
    | succ n => simp [splitAt?] at h
  | cons c cs ih =>
    cases n with
    | zero =>
      obtain ⟨rfl, rfl⟩ : [] = before ∧ c :: cs = after := by simpa [splitAt?] using h
      simp [byteSize]
    | succ n =>
      rw [splitAt?] at h
      split at h
      · next hc =>
        obtain ⟨⟨b, a⟩, hsplit, hpair⟩ := Option.map_eq_some_iff.1 h
        obtain ⟨rfl, rfl⟩ : c :: b = before ∧ a = after := by simpa using hpair
        obtain ⟨happ, hsize⟩ := ih hsplit
        simp only [List.cons_append, happ, byteSize, hsize, true_and]
        omega
      · simp at h

end TestLint.Text
