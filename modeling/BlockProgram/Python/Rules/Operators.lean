import BlockProgram.Python.Recipe

/-! Operators: arithmetic, comparison and logic. An operand is put in parentheses when it binds less
tightly than its place asks for. -/
namespace BlockProgram.Python.Rules

open Recipe

def arithmeticNames : List String := ["ADD", "MINUS", "MULTIPLY", "DIVIDE", "POWER"]

def singleNames : List String := ["ROOT", "ABS", "NEG", "LN", "LOG10", "EXP", "POW10"]

def compareNames : List String := ["EQ", "NEQ", "LT", "LTE", "GT", "GTE"]

def logicNames : List String := ["AND", "OR"]

def arithmeticOperator (op : String) : String × Precedence :=
  match op with
  | "ADD" => (" + ", .sum)
  | "MINUS" => (" - ", .sum)
  | "MULTIPLY" => (" * ", .product)
  | "DIVIDE" => (" / ", .product)
  | _ => (" ** ", .power)

/-- The bounds of the two operands. Powers group to the right and bind tighter than a sign on their
left; all other operators group to the left. -/
def operandBounds (level : Precedence) : Precedence × Precedence :=
  if level = .power then (.call, .sign) else (level, level.tighter)

def arithmetic : Rule := fun b => do
  let (operator, level) := arithmeticOperator (← choice b "OP" arithmeticNames)
  let (left, right) := operandBounds level
  let x ← valueOr b "A" left "0"
  let y ← valueOr b "B" right "0"
  return .expression (x ++ operator ++ y) level

/-- The function of a block with one operand that needs the import of `math`. -/
def mathFunction (op : String) : String :=
  match op with
  | "ROOT" => "math.sqrt"
  | "LN" => "math.log"
  | "LOG10" => "math.log10"
  | _ => "math.exp"

def single : Rule := fun b => do
  match ← choice b "OP" singleNames with
  | "NEG" => return .expression ("-" ++ (← valueOr b "NUM" .sign "0")) .sign
  | "POW10" => return .expression ("10 ** " ++ (← valueOr b "NUM" .sign "0")) .power
  | "ABS" => return .expression ("abs(" ++ (← valueOr b "NUM" .whole "0") ++ ")") .call
  | op =>
    requireImport "import math"
    let x ← valueOr b "NUM" .whole "0"
    return .expression (mathFunction op ++ "(" ++ x ++ ")") .call

def compareOperator (op : String) : String :=
  match op with
  | "EQ" => "=="
  | "NEQ" => "!="
  | "LT" => "<"
  | "LTE" => "<="
  | "GT" => ">"
  | _ => ">="

/-- Comparisons would chain, so an operand that is itself one stands in parentheses. -/
def compare : Rule := fun b => do
  let operator := compareOperator (← choice b "OP" compareNames)
  let x ← valueOr b "A" .sum "None"
  let y ← valueOr b "B" .sum "None"
  return .expression (x ++ " " ++ operator ++ " " ++ y) .comparison

/-- An empty side is the identity of the operator; two empty sides are false. -/
def logic : Rule := fun b => do
  let conjunction := (← choice b "OP" logicNames) = "AND"
  let level := if conjunction then .conjunction else .disjunction
  let x ← value? b "A" level
  let y ← value? b "B" level
  let identity := if conjunction && (x.isSome || y.isSome) then "True" else "False"
  let operator := if conjunction then " and " else " or "
  return .expression (x.getD identity ++ operator ++ y.getD identity) level

def negate : Rule := fun b => do
  return .expression ("not " ++ (← valueOr b "BOOL" .negation "True")) .negation

private def numeric (name : String) : SocketSpec := SocketSpec.value name |>.accepting ["Number"]

private def boolean (name : String) : SocketSpec := SocketSpec.value name |>.accepting ["Boolean"]

def operators : List (Shape × Rule) :=
  [({ type := "math_arithmetic", connectors := .expressionOf ["Number"]
      fields := [.dropdown "OP" arithmeticNames]
      sockets := [numeric "A", numeric "B"] }, arithmetic),
   ({ type := "math_single", connectors := .expressionOf ["Number"]
      fields := [.dropdown "OP" singleNames]
      sockets := [numeric "NUM"] }, single),
   ({ type := "logic_compare", connectors := .expressionOf ["Boolean"]
      fields := [.dropdown "OP" compareNames]
      sockets := [.value "A", .value "B"] }, compare),
   ({ type := "logic_operation", connectors := .expressionOf ["Boolean"]
      fields := [.dropdown "OP" logicNames]
      sockets := [boolean "A", boolean "B"] }, logic),
   ({ type := "logic_negate", connectors := .expressionOf ["Boolean"]
      sockets := [boolean "BOOL"] }, negate)]

end BlockProgram.Python.Rules
