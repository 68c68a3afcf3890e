import BlockProgram.Text.Blank

/-! Paths: texts whose parts are separated by slashes. -/
namespace BlockProgram.Path

def steps (path : String) : List String :=
  ((Text.pieces '/' path.toList).map String.ofList).filter fun part => part ≠ "" ∧ part ≠ "."

/-- The name of the place that a path leads to, unless it leads back. -/
def name? (path : String) : Option String :=
  match (steps path).getLast? with
  | some ".." => none
  | last => last

def entry (directory name : String) : String :=
  if directory = "" ∨ directory.toList.getLast? = some '/' then directory ++ name
  else directory ++ "/" ++ name

def below (directory : String) (names : List String) : String := names.foldl entry directory

end BlockProgram.Path
