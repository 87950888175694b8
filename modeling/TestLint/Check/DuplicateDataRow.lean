import TestLint.Check.Basic

/-!
# Repeated rows of data

A row whose values equal those of an earlier row runs the same case again.
-/

namespace TestLint.Check

/-- A row of data: the attribute, its place among all attributes, its values. -/
structure Row where
  index : Nat
  written : Attribute
  values : List Constant
  deriving Inhabited

namespace Row

def same (a b : Row) : Bool :=
  Constant.sameList a.values b.values

def ofMethod (ctx : CheckedFile) (m : Method) : List Row :=
  (m.attributes.zipIdx.filter fun (a, _) =>
      ctx.framework.attributeIs ctx.compilation ctx.file a .dataRow).map
    fun (a, i) => ⟨i, a, a.expandedValues⟩

/-- Each row that repeats an earlier one, after the first row with its values;
`seen` are the rows that stand before, in order. -/
def repetitions (seen : List Row) : List Row → List (Row × Row)
  | [] => []
  | row :: rest =>
    ((seen.find? (·.same row)).map fun first => (first, row)).toList ++
      repetitions (seen ++ [row]) rest

end Row

/-- No row of data is given twice. -/
def duplicateDataRow : Check := fun ctx =>
  ctx.methods.flatMap fun m =>
    (Row.repetitions [] (Row.ofMethod ctx m)).map fun (first, later) =>
      Finding.new later.written.location
          (s!"Do not duplicate 'DataRow' attributes. This is usually a copy/paste error. " ++
            s!"The attribute indices are '{first.index}' and '{later.index}'")
        |>.withLocation first.written.location
        |>.withSuggestion "Remove the duplicate row or change its arguments"

end TestLint.Check
