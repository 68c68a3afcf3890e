import BlockProgram.Text.Blank
import BlockProgram.Toml.Member
import BlockProgram.Toml.Reader

/-! Test files: what is expected of a document, as a TOML text between two marks, and then the
document itself. -/
namespace BlockProgram

/-- What a test expects. -/
structure Expectations where
  /-- What the test is called in reports. -/
  description : Option String := none
  /-- The program, apart from blanks around it. -/
  source : Option String := none
  /-- Texts that stand in the program. -/
  parts : List String := []
  /-- A text that stands in the message of the failure to generate a program. -/
  error : Option String := none
  /-- The document cannot be restored. -/
  loadError : Bool := false
  deriving DecidableEq, Repr

structure TestFile where
  expected : Expectations
  document : String
  deriving DecidableEq, Repr

/-- Why a text is no test file. -/
inductive TestFileError where
  | unopened
  | unclosed
  /-- What stands between the marks gives no expectations. -/
  | badExpectations
  deriving DecidableEq, Repr

def TestFileError.message : TestFileError → String
  | .unopened => "missing opening --- frontmatter delimiter"
  | .unclosed => "missing closing --- frontmatter delimiter"
  | .badExpectations => "TOML parse error"

namespace TestFile

open Toml

def readExpectations (text : String) : Option Expectations := do
  let members ← (← Toml.read? text).members?
    ["description", "expect_source", "expect_contains", "expect_error", "expect_load_error"]
  let optional (item : Item) : Option (Option String) := item.string?.map some
  return {
    description := ← members.read "description" optional none
    source := ← members.read "expect_source" optional none
    parts := ← members.read "expect_contains" Item.strings? []
    error := ← members.read "expect_error" optional none
    loadError := ← members.read "expect_load_error" Item.boolean? false }

def mark : List Char := ['-', '-', '-']

def dropLineEnd : List Char → List Char
  | '\r' :: '\n' :: rest => rest
  | '\n' :: rest => rest
  | s => s

/-- The text of the expectations and the document. The second mark starts a line; it may also follow
the first one at once. -/
def split (text : List Char) : Except TestFileError (List Char × List Char) :=
  match Text.dropHead? mark (text.dropWhile (· = '\uFEFF')) with
  | none => .error .unopened
  | some rest =>
    let rest := dropLineEnd rest
    match Text.dropHead? mark rest with
    | some document => .ok ([], dropLineEnd document)
    | none =>
      match Text.splitAtFirst? ('\n' :: mark) rest with
      | none => .error .unclosed
      | some (header, document) =>
        .ok (Text.trimEndWhere (· = '\r') header, dropLineEnd document)

def read (text : String) : Except TestFileError TestFile := do
  let (header, document) ← split text.toList
  match readExpectations (String.ofList header) with
  | none => .error .badExpectations
  | some expected => .ok ⟨expected, String.ofList document⟩

end TestFile

end BlockProgram
