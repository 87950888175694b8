import TestLint.Json.Reader
import TestLint.Json.Writer

/-!
# Codecs

How a value is written as text, and which value a text has, is the matter of a
library of its own.  What works with texts takes it as a `Codec`;
`Codec.strict` is the one that the command line runs with.
-/

namespace TestLint.Json

/-- A reader of texts and two writers of values. -/
structure Codec where
  /-- The value that a text has; `none` if it is no JSON. -/
  read? : String → Option Json
  /-- The text of a value without any space. -/
  compact : Json → String
  /-- The text of a value on indented lines. -/
  pretty : Json → String

namespace Codec

def strict : Codec := ⟨Json.read?, Json.compact, Json.pretty⟩

/-- The list that a text has, each item read by `read`. -/
def readList? (json : Codec) (read : Json → Option α) (text : String) : Option (List α) :=
  json.read? text >>= listOf read

end Codec

end TestLint.Json
