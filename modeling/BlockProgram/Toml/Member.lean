import BlockProgram.Toml.Item

/-! Reading records from TOML values. A record is a table whose keys are all known, or an array of
its members in order; a member that is absent has its default. -/
namespace BlockProgram.Toml

namespace Item

def string? : Item → Option String
  | .string s => some s
  | _ => none

def natural? : Item → Option Nat
  | .integer n => if 0 ≤ n then some n.toNat else none
  | _ => none

def boolean? : Item → Option Bool
  | .boolean b => some b
  | _ => none

def strings? : Item → Option (List String)
  | .array elements => elements.mapM string?
  | _ => none

end Item

abbrev Members := String → Option Item

def Entries.members? (entries : Entries) (keys : List String) : Option Members :=
  if entries.all fun e => e.1 ∈ keys then some entries.get? else none

def Item.members? (keys : List String) : Item → Option Members
  | .table _ entries => Entries.members? entries keys
  | .array elements => some fun key => elements[keys.idxOf key]?
  | _ => none

def Members.read {α : Type} (members : Members) (key : String) (value : Item → Option α)
    (default : α) : Option α :=
  match members key with
  | none => some default
  | some item => value item

end BlockProgram.Toml
