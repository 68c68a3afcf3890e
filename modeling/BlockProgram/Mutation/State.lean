import BlockProgram.Text.Blank

/-! The mutation of a block: the data from which its reshapeable sockets follow, and the token that
stands for it in documents. -/
namespace BlockProgram

/-- The structure of one block. -/
inductive Mutation where
  | fixed
  /-- The number of repeated units. -/
  | items (count : Nat)
  /-- The number of else-if branches, and whether there is an else branch. -/
  | branches (elseIfs : Nat) (hasElse : Bool)
  /-- The active variant. -/
  | variant (name : String)
  deriving DecidableEq, Repr

namespace Mutation

/-- The largest number of repeated units, or of else-if branches, in one block. -/
def maxUnits : Nat := 1024

def items? : Mutation → Option Nat
  | .items n => some n
  | _ => none

def variant? : Mutation → Option String
  | .variant name => some name
  | _ => none

def token : Mutation → String
  | .fixed => ""
  | .items n => "items:" ++ toString n
  | .branches n hasElse => "branches:" ++ toString n ++ (if hasElse then ":else" else "")
  | .variant name => "variant:" ++ name

/-- A count of units: decimal digits, with an optional plus sign. -/
def count? (s : List Char) : Option Nat :=
  let digits := match s with
    | '+' :: rest => rest
    | _ => s
  if digits ≠ [] ∧ digits.all Char.isDigit then
    let n := digits.foldl (fun n c => 10 * n + (c.toNat - '0'.toNat)) 0
    if n ≤ maxUnits then some n else none
  else none

/-- Read a token. The empty token is the fixed mutation. -/
def ofToken? (token : String) : Option Mutation :=
  if token = "" then some .fixed
  else do
    let (kind, rest) ← Text.splitAtFirst? [':'] token.toList
    if kind = "items".toList then
      return .items (← count? rest)
    else if kind = "branches".toList then
      match Text.splitAtFirst? [':'] rest with
      | some (n, flag) => if flag = "else".toList then return .branches (← count? n) true else none
      | none => return .branches (← count? rest) false
    else if kind = "variant".toList ∧ rest ≠ [] then
      return .variant (String.ofList rest)
    else none

end Mutation

end BlockProgram
