import TestLint.Check.Basic

/-!
# Checks of fixtures

All fixtures are public, concrete methods without type parameters that return
nothing or a task.  Those of tests are called on an object and take nothing;
the others are static, those that initialize take the context of the run and
those that clean up may.  Fixtures of an assembly stand in a test class.
-/

namespace TestLint.Check

/-- The method takes the context of the run and nothing else. -/
def takesContext (m : Method) : Bool :=
  match m.parameters with
  | [p] => Framework.isTestContext p.typeName
  | _ => false

/-- What is wrong with the parameters of a fixture. -/
def parameterProblem? (fixture : Fixture) (m : Method) : Option String :=
  match fixture.parameters with
  | .nothing => if m.parameters.isEmpty then none else some "should not take parameters"
  | .context =>
    if takesContext m then none
    else some "should take a single parameter of type 'TestContext'"
  | .nothingOrContext =>
    if m.parameters.isEmpty || takesContext m then none
    else some "should take no parameters or a single parameter of type 'TestContext'"

def fixtureFindings (fixture : Fixture) (ctx : CheckedFile) (t : TypeDeclaration) (m : Method) :
    List Finding :=
  let report (problem : String) : Finding :=
    .new m.nameLocation
      (fixture.marker.shortName ++ " method '" ++ m.name ++ "' " ++ problem)
  (if m.accessibility ≠ .isPublic then
    [(report "should be 'public'").withFix (publicFix m.modifiers m.returnTypeLocation)]
    else []) ++
  (if m.modifiers.has "abstract" then [report "should not be 'abstract'"] else []) ++
  (if m.isGeneric then [report "should not be generic"] else []) ++
  (if fixture.isStatic && !m.isStatic then [report "should be 'static'"] else []) ++
  (if !fixture.isStatic && m.isStatic then [report "should not be 'static'"] else []) ++
  ((parameterProblem? fixture m).map report).toList ++
  (if m.isAsyncVoid then
    [(report "should not be 'async void'").withFix (taskFix m.returnTypeLocation)]
  else if !isTestReturnType m.returnType then
    [report "should return 'void', 'Task' or 'ValueTask'"]
  else []) ++
  (if !fixture.isAssemblyLevel then []
  else if !ctx.isTestClass t then
    [report "should be declared in a class marked with [TestClass]"]
  else if t.isGeneric then
    [report "should not be declared in a generic class"]
  else [])

/-- The methods that a fixture marks can be called as such. -/
def fixtureShouldBeValid (fixture : Fixture) : Check := fun ctx =>
  ctx.types.flatMap fun t =>
    (t.methods.filter fun m => ctx.has m.attributes fixture.marker).flatMap
      (fixtureFindings fixture ctx t)

end TestLint.Check
