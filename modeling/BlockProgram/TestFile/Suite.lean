import BlockProgram.Files.Path
import BlockProgram.Files.Tree
import BlockProgram.Text.Sorted

/-! Test suites: the test files of a directory by category, and the choice of categories. The category
of a file is the directory that holds it, seen from the root of the suite. -/
namespace BlockProgram

/-- The test files of one category, each by the names that lead to it from the root of the suite. -/
structure TestGroup where
  category : String
  files : List (List String)
  deriving DecidableEq, Repr

namespace TestSuite

def extension : String := ".test.blocks"

def isTest (names : List String) : Bool :=
  names.getLast?.any fun name => (extension.toList).isSuffixOf name.toList

/-- The category of a file. A backslash counts as a slash. -/
def category (names : List String) : String :=
  String.ofList ((Text.join "/" names.dropLast).toList.map fun c => if c = '\\' then '/' else c)

def discover (tree : FileTree) : List TestGroup :=
  let tests := (tree.files.map (·.1)).filter isTest
  (Text.sortedOnce (tests.map category)).map fun c =>
    ⟨c, Text.sortedOnce (tests.filter fun names => category names = c)⟩

/-- Whether a requested name selects a category: that of the name, or one below it. -/
def selects (name category : String) : Bool :=
  category = name || ((name ++ "/").toList).isPrefixOf category.toList

/-- What has been selected. -/
structure Selection where
  categories : List String := []
  /-- The names that selected nothing new. -/
  missed : List String := []
  deriving DecidableEq, Repr

def requestedName (request : String) : String :=
  String.ofList (Text.trimWhere (· = '/') request.toList)

def Selection.add (available : List String) (s : Selection) (request : String) : Selection :=
  let name := requestedName request
  match available.filter fun c => selects name c && c ∉ s.categories with
  | [] => { s with missed := s.missed ++ [name] }
  | new => { s with categories := s.categories ++ new }

def select (available requests : List String) : Selection :=
  requests.foldl (Selection.add available) {}

/-- The groups to run, and the names that selected nothing new. Without a request all are run. -/
def choose (groups : List TestGroup) (requests : List String) : List TestGroup × List String :=
  if requests.isEmpty then (groups, [])
  else
    let selection := select (groups.map (·.category)) requests
    (groups.filter fun g => g.category ∈ selection.categories, selection.missed)

end TestSuite

end BlockProgram
