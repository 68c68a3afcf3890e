import BlockProgram.Number.Decimal

/-! Literals of the generated language for numbers and texts. -/
namespace BlockProgram.Python

/-- The literal of a number. Integers below 10^15 in size have no sign for zero; infinities and NaN are
made from texts. -/
def numberLiteral (n : Binary64) : String :=
  match n.value with
  | .nan => "float('nan')"
  | .infinite negative => if negative then "float('-inf')" else "float('inf')"
  | .finite negative _ _ =>
    if n.isIntegral && n.truncated < Nat.pow 10 15 then
      (if negative && n.truncated ≠ 0 then "-" else "") ++ toString n.truncated
    else n.plain

def literalChar (c : Char) : List Char :=
  match c with
  | '\\' => ['\\', '\\']
  | '\'' => ['\\', '\'']
  | '\n' => ['\\', 'n']
  | '\r' => ['\\', 'r']
  | '\t' => ['\\', 't']
  | c => [c]

def textLiteral (s : String) : String :=
  String.ofList ('\'' :: (s.toList.flatMap literalChar ++ ['\'']))

end BlockProgram.Python
