import TestLint.Path
import TestLint.Text.Blank

/-!
# What project files say

A project file tells whether the project uses the test framework, and whether
the framework's namespace is in scope in all its files.  Project files are
searched as text, with letters in either case, where the long s counts as an
`s` and the Kelvin sign as a `k`.
-/

namespace TestLint

/-- What the project files of a project say. -/
structure ProjectFacts where
  /-- The files, in the order in which they were taken in. -/
  files : List Path
  /-- Some file refers to the framework; `none` as long as there is no file. -/
  references : Option Bool
  /-- The framework's namespace is in scope everywhere. -/
  implicitImport : Bool
  deriving DecidableEq, Repr, Inhabited

namespace ProjectFacts

def empty : ProjectFacts := ⟨[], none, false⟩

/-- The letter that a character counts as when case is ignored. -/
def fold (c : Char) : Char :=
  if c == '\u017f' then 's' else if c == '\u212a' then 'k' else c.toLower

/-- The text after a word, letters compared by `fold`. -/
private def afterWord? (word : String) (cs : List Char) : Option (List Char) :=
  let w := word.toList.map fold
  if (cs.take w.length).map fold = w then some (cs.drop w.length) else none

/-- The text up to the end of a version: a slash and anything but a quote, or
nothing, and then the closing quote. -/
private def closesQuote (cs : List Char) : Bool :=
  match cs with
  | '"' :: _ => true
  | '/' :: rest => rest.contains '"'
  | _ => false

/-- The texts after the letters of a name segment, for each possible number of letters. -/
private def afterLetters : List Char → List (List Char)
  | [] => []
  | c :: rest =>
    if 'a' ≤ fold c && fold c ≤ 'z' then rest :: afterLetters rest else []

/-- The text goes on with dotted name segments and then ends the quoted name. -/
private def closesName : Nat → List Char → Bool
  | 0, _ => false
  | fuel + 1, cs =>
    closesQuote cs ||
    match cs with
    | '.' :: rest => (afterLetters rest).any (closesName fuel)
    | _ => false

/-- The texts after the word, and after the word with blanks and one of the two
attribute names behind it. -/
private def afterAttribute (cs : List Char) : List (List Char) :=
  let here := Text.trimStart cs
  here :: (["Include", "Name"].filterMap (afterWord? · here)).map Text.trimStart

/-- A reference to a package of the framework, or to its development kit,
starts here. -/
private def packageAt (cs : List Char) : Bool :=
  (["PackageReference", "Sdk"].filterMap (afterWord? · cs)).any fun rest =>
    (afterAttribute rest).any fun rest =>
      match rest with
      | '=' :: rest =>
        match afterWord? "\"MSTest" (Text.trimStart rest) with
        | some rest => closesName (rest.length + 1) rest
        | none => false
      | _ => false

/-- A project that is built with the framework's development kit starts here. -/
private def kitAt (cs : List Char) : Bool :=
  match afterWord? "<Project" cs with
  | none => false
  | some rest =>
    match rest with
    | [] => false
    | c :: _ =>
      if !Text.isBlank c then
        false
      else
        match afterWord? "Sdk" (Text.trimStart rest) with
        | none => false
        | some rest =>
          match Text.trimStart rest with
          | '=' :: rest =>
            match afterWord? "\"MSTest.Sdk" (Text.trimStart rest) with
            | some rest => closesQuote rest
            | none => false
          | _ => false

/-- The test holds at some place of the text. -/
private def somewhere (test : List Char → Bool) : List Char → Bool
  | [] => test []
  | c :: rest => test (c :: rest) || somewhere test rest

/-- The project is built with the framework's development kit. -/
def usesKit (content : String) : Bool :=
  somewhere kitAt content.toList

/-- The project refers to the framework. -/
def refersToFramework (content : String) : Bool :=
  somewhere packageAt content.toList || usesKit content

def usingElement : String :=
  "<Using Include=\"Microsoft.VisualStudio.TestTools.UnitTesting\""

/-- The facts with one more project file. -/
def add (facts : ProjectFacts) (path : Path) (content : String) : ProjectFacts :=
  { files := facts.files ++ [path]
    references := some (facts.references.getD false || refersToFramework content)
    implicitImport :=
      facts.implicitImport || usesKit content || Text.contains content usingElement }

def ofProjects (projects : List (Path × String)) : ProjectFacts :=
  projects.foldl (fun facts (path, content) => facts.add path content) empty

end ProjectFacts

end TestLint
