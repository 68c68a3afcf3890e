import BlockProgram.Python.Recipe

/-! Statements: assignment, printing, loops, branches, return, and the entry point of a program. -/
namespace BlockProgram.Python.Rules

open Recipe

def assign : Rule := fun b => do
  let name ← variableOf b "VAR"
  let value ← valueOr b "VALUE" .whole "None"
  return .statement (name ++ " = " ++ value ++ "\n")

def print : Rule := fun b => do
  return .statement ("print(" ++ (← valueOr b "TEXT" .whole "''") ++ ")\n")

/-- The number of turns of a loop: digits stand as they are, all else is made an integer first. -/
def turns (times : String) : String :=
  if !times.isEmpty && times.toList.all Char.isDigit then times else "int(" ++ times ++ ")"

def repeatLoop : Rule := fun b => do
  let times := turns (← valueOr b "TIMES" .whole "0")
  let counter ← newName "count"
  let body ← body b "DO"
  return .statement ("for " ++ counter ++ " in range(" ++ times ++ "):\n" ++ body)

def conditionLoop : Rule := fun b => do
  let header ←
    if (← choice b "MODE" ["WHILE", "UNTIL"]) = "WHILE" then valueOr b "BOOL" .whole "False"
    else do pure ("not " ++ (← valueOr b "BOOL" .negation "False"))
  let body ← body b "DO"
  return .statement ("while " ++ header ++ ":\n" ++ body)

def eachLoop : Rule := fun b => do
  let name ← variableOf b "VAR"
  let list ← valueOr b "LIST" .comparison "[]"
  let body ← body b "DO"
  return .statement ("for " ++ name ++ " in " ++ list ++ ":\n" ++ body)

/-- The branches with a condition, `count` of them from the `start`-th on. -/
def conditions (b : Block) : Nat → Nat → Recipe String
  | 0, _ => return ""
  | count + 1, start => do
    let condition ← valueOr b ("IF" ++ toString start) .whole "False"
    let body ← body b ("DO" ++ toString start)
    let keyword := if start = 0 then "if " else "elif "
    return keyword ++ condition ++ ":\n" ++ body ++ (← conditions b count (start + 1))

def branch : Rule := fun b => do
  let (elseIfs, hasElse) ← branchCounts b
  let code ← conditions b (elseIfs + 1) 0
  if hasElse then return .statement (code ++ "else:\n" ++ (← body b "ELSE"))
  else return .statement code

def returnValue : Rule := fun b => do
  match ← value? b "VALUE" .whole with
  | some value => return .statement ("return " ++ value ++ "\n")
  | none => return .statement "return\n"

/-- A function with the statements of the program, called when the program is run by itself. -/
def entryPoint : Rule := fun b => do
  let name ← newName (← Recipe.text b "NAME")
  let body ← body b "DO"
  return .statement ("def " ++ name ++ "():\n" ++ body ++ "\n\nif __name__ == '__main__':\n" ++
    (← indent) ++ name ++ "()\n")

def assignment : List (Shape × Rule) :=
  [({ type := "variables_set", connectors := .statement
      fields := [.variableName "VAR" "item"]
      sockets := [.labelled "to" (.value "VALUE")] }, assign)]

def control : List (Shape × Rule) :=
  [({ type := "text_print", connectors := .statement
      sockets := [.labelled "print" (.value "TEXT")] }, print),
   ({ type := "controls_repeat_ext", connectors := .statement
      sockets := [.labelled "repeat" (.accepting ["Number"] (.value "TIMES")),
        .labelled "do" (.statement "DO")] }, repeatLoop),
   ({ type := "controls_whileUntil", connectors := .statement
      fields := [.dropdown "MODE" ["WHILE", "UNTIL"]]
      sockets := [.accepting ["Boolean"] (.value "BOOL"), .labelled "do" (.statement "DO")] },
    conditionLoop),
   ({ type := "controls_for_each", connectors := .statement
      fields := [.variableName "VAR" "i"]
      sockets := [.labelled "in list" (.accepting ["Array"] (.value "LIST")),
        .labelled "do" (.statement "DO")] }, eachLoop),
   ({ type := "controls_if", connectors := .statement
      sockets := [.labelled "if" (.accepting ["Boolean"] (.value "IF0")),
        .labelled "do" (.statement "DO0")]
      mutator := .branches }, branch),
   ({ type := "controls_return", connectors := .terminal
      sockets := [.labelled "return" (.value "VALUE")] }, returnValue)]

def program : List (Shape × Rule) :=
  [({ type := "program_main", connectors := .alone
      fields := [.text "NAME" "main"]
      sockets := [.labelled "when program starts" (.statement "DO")]
      entryPoint := true }, entryPoint)]

end BlockProgram.Python.Rules
