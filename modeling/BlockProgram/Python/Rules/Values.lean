import BlockProgram.Python.Literal
import BlockProgram.Python.Recipe

/-! Blocks for single values: numbers, texts, truth values, nothing, and variables. -/
namespace BlockProgram.Python.Rules

open Recipe

def number : Rule := fun b => do
  let n ← Recipe.number b "NUM"
  let level := if !n.isFinite then .call else if n.isBelowZero then .sign else .atom
  return .expression (numberLiteral n) level

def text : Rule := fun b => do
  return .expression (textLiteral (← Recipe.text b "TEXT")) .atom

def truthValue : Rule := fun b => do
  let code := if (← choice b "BOOL" ["TRUE", "FALSE"]) = "TRUE" then "True" else "False"
  return .expression code .atom

def nothing : Rule := fun _ => return .expression "None" .atom

def variableGet : Rule := fun b => do
  return .expression (← variableOf b "VAR") .atom

def values : List (Shape × Rule) :=
  [({ type := "math_number", connectors := .expressionOf ["Number"]
      fields := [.number "NUM" .zero] }, number),
   ({ type := "text", connectors := .expressionOf ["String"], fields := [.text "TEXT" ""] }, text),
   ({ type := "logic_boolean", connectors := .expressionOf ["Boolean"]
      fields := [.dropdown "BOOL" ["TRUE", "FALSE"]] }, truthValue),
   ({ type := "logic_null", connectors := .expression }, nothing),
   ({ type := "variables_get", connectors := .expression
      fields := [.variableName "VAR" "item"] }, variableGet)]

end BlockProgram.Python.Rules
