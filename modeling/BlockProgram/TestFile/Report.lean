import BlockProgram.TestFile.Check
import BlockProgram.TestFile.Suite

/-! What a test run tells the user, line by line. -/
namespace BlockProgram.TestSuite

def paint (colored : Bool) (code text : String) : String :=
  if colored then "\x1b[" ++ code ++ "m" ++ text ++ "\x1b[0m" else text

def bold : String := "1"

def red : String := "31"

def green : String := "32"

def categoryTitle (category : String) : String := if category = "" then "(root)" else category

def warning (groups : List TestGroup) (name : String) : String :=
  let titles := groups.map fun g => categoryTitle g.category
  "warning: category '" ++ name ++ "' not found (available: " ++ Text.join ", " titles ++ ")"

/-- The text without `tail` at its end, as often as it stands there. -/
def dropTails (tail : List Char) : Nat → List Char → List Char
  | 0, s => s
  | times + 1, s =>
    match Text.dropHead? tail.reverse s.reverse with
    | some rest => dropTails tail times rest.reverse
    | none => s

/-- How a test is called in reports: by its description, or else by its file. -/
def title (r : TestResult) : String :=
  match r.description, Path.name? r.path with
  | some description, _ => description
  | none, some name => String.ofList (dropTails extension.toList name.length name.toList)
  | none, none => "?"

def resultLine (colored : Bool) (r : TestResult) : String :=
  let verdict := if r.passed then paint colored green "PASS" else paint colored red "FAIL"
  "  " ++ verdict ++ "  " ++ title r

def groupLines (colored : Bool) (category : String) (results : List TestResult) : List String :=
  ["", paint colored bold (categoryTitle category)] ++ results.map (resultLine colored)

def failureLines (r : TestResult) : List String :=
  match r.failure with
  | none => []
  | some failure =>
    ["", "  --- " ++ r.path ++ " ---"] ++
      (Text.lines failure.message.toList).map fun line => "  " ++ String.ofList line

def summary (colored : Bool) (results : List TestResult) : List String :=
  let failed := results.filter (!·.passed)
  let passes := toString (results.filter (·.passed)).length
  if failed.isEmpty then
    ["", "test result: " ++ paint colored green "ok" ++ ". " ++ passes ++ " passed, 0 failed"]
  else
    ["", "failures:"] ++ failed.flatMap failureLines ++
      ["", "test result: " ++ paint colored red "FAILED" ++ ". " ++ passes ++ " passed, " ++
        toString failed.length ++ " failed (of " ++ toString results.length ++ ")"]

def listing (root : String) (groups : List TestGroup) : List String :=
  if groups.isEmpty then ["no " ++ extension ++ " files found in " ++ root]
  else "available categories:" :: groups.map fun g =>
    "  " ++ categoryTitle g.category ++ " (" ++ toString g.files.length ++ " tests)"

end BlockProgram.TestSuite
