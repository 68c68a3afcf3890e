import BlockProgram.Document.Restore
import BlockProgram.Files.Fault
import BlockProgram.Python.Vocabulary
import BlockProgram.TestFile.Basic

/-! Running a test: its document is restored, a program is generated from it, and both are held
against the expectations. -/
namespace BlockProgram
open Python

inductive TestFailure where
  | unreadable (fault : FileFault)
  | noTest (error : TestFileError)
  /-- The document was restored although it should not be. -/
  | restored
  | notRestored (error : RestoreError)
  /-- A program was generated although an error was expected. -/
  | generated (expected : String)
  | otherError (expected : String) (error : GenerationError)
  | notGenerated (error : GenerationError)
  | otherSource (expected actual : String)
  | lacks (part actual : String)
  deriving DecidableEq, Repr

def TestFailure.message : TestFailure → String
  | .unreadable fault => "cannot read file: " ++ fault.message
  | .noTest error => "frontmatter error: " ++ error.message
  | .restored => "expected a load error, but the document loaded"
  | .notRestored error => "unexpected load error: " ++ error.message
  | .generated expected =>
    "expected error containing \"" ++ expected ++ "\", but generation succeeded"
  | .otherError expected error =>
    "expected error containing \"" ++ expected ++ "\", got: " ++ error.message
  | .notGenerated error => "unexpected generation error: " ++ error.message
  | .otherSource expected actual =>
    "source mismatch\n--- expected\n" ++ expected ++ "\n--- actual\n" ++ actual
  | .lacks part actual =>
    "expected source to contain \"" ++ part ++ "\"\n--- actual\n" ++ actual

namespace Expectations

/-- What is wrong with a program. Blanks around it do not matter. -/
def sourceFailure? (e : Expectations) (source : String) : Option TestFailure :=
  let actual := Text.trimBlank source
  let other := e.source.bind fun expected =>
    let expected := Text.trimBlank expected
    if actual = expected then none else some (.otherSource expected actual)
  let lacking := (e.parts.find? fun part => !Text.contains source part).map (.lacks · actual)
  other.or lacking

def resultFailure? (e : Expectations) (result : Except GenerationError String) :
    Option TestFailure :=
  match result, e.error with
  | .error error, some expected =>
    if Text.contains error.message expected then none else some (.otherError expected error)
  | .ok _, some expected => some (.generated expected)
  | .error error, none => some (.notGenerated error)
  | .ok source, none => e.sourceFailure? source

end Expectations

namespace TestFile

def failure? (v : Vocabulary) (indent : Nat) (t : TestFile) : Option TestFailure :=
  match Workspace.ofJson v.shapes t.document with
  | .ok w =>
    if t.expected.loadError then some .restored
    else t.expected.resultFailure? ((v.generator indent).generate w)
  | .error error => if t.expected.loadError then none else some (.notRestored error)

end TestFile

/-- What a test run says about one file. -/
structure TestResult where
  path : String
  description : Option String := none
  failure : Option TestFailure := none
  deriving DecidableEq, Repr

namespace TestResult

/-- The result of the test in the file `path`, of which `content` is what could be read. -/
def ofContent (v : Vocabulary) (indent : Nat) (path : String) (content : Except FileFault String) :
    TestResult :=
  match content with
  | .error fault => { path, failure := some (.unreadable fault) }
  | .ok text =>
    match TestFile.read text with
    | .error error => { path, failure := some (.noTest error) }
    | .ok t => { path, description := t.expected.description, failure := t.failure? v indent }

def passed (r : TestResult) : Bool := r.failure.isNone

end TestResult

end BlockProgram
