import BlockProgram.Command.Session
import BlockProgram.TestFile.Report

/-! The test command: run the test files of a directory, or a single one. -/
namespace BlockProgram.Command
open TestSuite

variable {m : Type → Type} [Monad m]

def runTests (c : Context m) (paths : List String) : m (List TestResult) :=
  paths.mapM fun path => do
    return .ofContent Python.standard c.settings.indent path (← c.host.readText path)

def runGroups (c : Context m) (root : String) (groups : List TestGroup) :
    m (List (String × List TestResult)) :=
  groups.mapM fun g => do
    return (g.category, ← runTests c (g.files.map (Path.below root)))

/-- The exit code of a run: zero if every test has passed. -/
def testCode (results : List TestResult) : Nat := if results.all (·.passed) then 0 else 1

def testFile (c : Context m) (path : String) : Session m Nat := do
  let results ← (runTests c [path] : m _)
  let colored := c.options.colored
  Session.tellLines (results.map (resultLine colored) ++ summary colored results)
  return testCode results

def testSuite (c : Context m) (root : String) (requests : List String) : Session m Nat := do
  let groups := discover (← c.host.tree root)
  if groups.isEmpty then
    Session.tellLines (listing root groups)
    return 1
  let (chosen, missed) := choose groups requests
  Session.tellLines (missed.map (warning groups))
  if chosen.isEmpty then
    Session.tellLine "no matching categories found"
    return 1
  let results ← (runGroups c root chosen : m _)
  let colored := c.options.colored
  let all := results.flatMap (·.2)
  Session.tellLines
    ((results.flatMap fun r => groupLines colored r.1 r.2) ++ summary colored all)
  return testCode all

def test (c : Context m) (path : String) (requests : List String) : Session m Nat := do
  if ← c.host.isFile path then testFile c path else testSuite c path requests

def listCategories (c : Context m) (path : String) : Session m Nat := do
  if ← c.host.isFile path then
    Session.tellLine "(single file, no categories)"
  else
    Session.tellLines (listing path (discover (← c.host.tree path)))
  return 0

end BlockProgram.Command
