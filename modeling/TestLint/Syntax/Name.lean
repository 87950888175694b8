import TestLint.Text.Blank

/-!
# Written names

The parts of a name as it is written in code: qualified, aliased, with type
arguments or marked as nullable, as in `global::System.Action<int>?`.
-/

namespace TestLint.Name

/-- The name up to its type arguments. -/
def withoutArguments (name : List Char) : List Char :=
  name.takeWhile (· != '<')

/-- What stands after the last occurrence of `mark`; all of it if there is none. -/
def afterLast (mark name : List Char) : List Char :=
  match Text.cutLast? mark name with
  | some (_, after) => after
  | none => name

/-- The last segment of a name, without alias, type arguments and nullable marks. -/
def simpleChars (name : List Char) : List Char :=
  Text.dropEndWhile (· == '?')
    (Text.trim (afterLast ['.'] (afterLast [':', ':'] (withoutArguments name))))

def simple (name : String) : String :=
  Text.onString simpleChars name

/-- The name without the alias of the global namespace. -/
def withoutGlobal (name : String) : String :=
  match Text.dropStart? "global::".toList name.toList with
  | some rest => String.ofList rest
  | none => name

/-- The simple name of an attribute without the ending that may be left out. -/
def attributeShort (name : String) : String :=
  let last := simple name
  match Text.dropEnd? "Attribute".toList last.toList with
  | some [] | none => last
  | some rest => String.ofList rest

/-- What stands before the last dot of a name, type arguments left out. -/
def qualifier? (name : String) : Option String :=
  (Text.cutLast? ['.'] (withoutArguments (withoutGlobal name).toList)).map fun (before, _) =>
    String.ofList before

end TestLint.Name
