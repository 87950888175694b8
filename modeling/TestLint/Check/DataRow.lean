import TestLint.Check.ParameterType

/-!
# Rows of data and the parameters of their method

The values of a row bind to the parameters one by one; a last `params`
parameter takes one whole array or all values that are left.
-/

namespace TestLint.Check

/-- The parameters of a method as rows bind to them. -/
structure RowParameters where
  /-- All but a last `params` parameter. -/
  fixed : List ParameterForm
  /-- A last `params` parameter. -/
  spread : Option ParameterForm
  required : Nat
  deriving DecidableEq, Repr, Inhabited

namespace RowParameters

def ofMethod (ctx : CheckedFile) (m : Method) : RowParameters :=
  let form (p : Parameter) : ParameterForm := .ofText ctx m.typeParameters p.typeName
  let required := m.parameters.countP fun p => !p.hasDefault && !p.isParams
  match m.parameters.getLast? with
  | some last =>
    if last.isParams then
      ⟨m.parameters.dropLast.map form, some (form last), required⟩
    else
      ⟨m.parameters.map form, none, required⟩
  | none => ⟨[], none, required⟩

/-- So many values can bind. -/
def takesCount (p : RowParameters) (count : Nat) : Bool :=
  p.required ≤ count && (p.spread.isSome || count ≤ p.fixed.length)

def takesAt (p : RowParameters) (count index : Nat) (value : Constant) : Bool :=
  match p.fixed[index]?, p.spread with
  | some form, _ => form.takes value
  | none, some whole =>
    (count == p.fixed.length + 1 && whole.takes value) || whole.element.takes value
  | none, none => true

def mismatches (p : RowParameters) (values : List Constant) : List Nat :=
  (values.zipIdx.filter fun (value, i) => !p.takesAt values.length i value).map (·.2)

end RowParameters

/-- What is said of so many values for so many parameters. -/
def countMessage (argumentCount parameterCount : Nat) : String :=
  "DataRow argument count should match method parameter count " ++
    "(constructor arguments: " ++ toString argumentCount ++
    ", method parameters: " ++ toString parameterCount ++ ")"

/-- What is said of values that do not fit at these places. -/
def mismatchMessage (places : List Nat) : String :=
  "DataRow argument types do not match method parameter types. " ++
    "Mismatches occur at indices: " ++ ", ".intercalate (places.map toString)

/-- What is wrong with the values of a row, taken one by one. -/
def generalFinding? (ctx : CheckedFile) (m : Method) (a : Attribute) : Option Finding :=
  let values := a.expandedValues
  let parameters := RowParameters.ofMethod ctx m
  if !parameters.takesCount values.length then
    some <|
      Finding.new a.location (countMessage values.length m.parameters.length)
        |>.withProperty "argumentCount" (toString values.length)
        |>.withProperty "parameterCount" (toString m.parameters.length)
  else
    match parameters.mismatches values with
    | [] => none
    | places =>
      some <|
        (Finding.new a.location (mismatchMessage places)).withProperty "indices"
          (", ".intercalate (places.map toString))

/-- What is wrong with the values of a row. A lone null is judged by the type of
a lone parameter as a whole, also when that is a `params` parameter. -/
def rowFinding? (ctx : CheckedFile) (m : Method) (a : Attribute) : Option Finding :=
  match a.expandedValues, m.parameters with
  | [.null], [only] =>
    if (ParameterForm.ofText ctx m.typeParameters only.typeName).takes .null then
      none
    else
      some (.new a.location (mismatchMessage [0]))
  | _, _ => generalFinding? ctx m a

/-- The values of rows fit the parameters of their method. -/
def dataRowShouldBeValid : Check := fun ctx =>
  ctx.methods.flatMap fun m =>
    (m.attributes.filter fun a =>
        ctx.framework.attributeIs ctx.compilation ctx.file a .dataRow).filterMap
      (rowFinding? ctx m)

end TestLint.Check
