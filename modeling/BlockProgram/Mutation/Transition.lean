import BlockProgram.Mutation.Error
import BlockProgram.Shape.Basic

/-! Transitions between mutations. A transition says which mutation an event leads to and how the
sockets differ; it is computed from the shape alone, without any workspace. -/
namespace BlockProgram

/-- A requested change of the structure of a block. -/
inductive Mutation.Event where
  /-- Set the number of repeated units, or of else-if branches. -/
  | setCount (n : Nat)
  | setVariant (name : String)
  /-- Take the structure that a list of unit kinds describes. -/
  | compose (kinds : List String)
  deriving DecidableEq, Repr

/-- The difference between the layouts of two mutations of a shape, by socket name. -/
structure LayoutDiff where
  removed : List String
  added : List String
  /-- The sockets of both layouts, in the new order. -/
  kept : List String
  connectorsChanged : Bool
  deriving DecidableEq, Repr

namespace LayoutDiff

def between (shape : Shape) (old new : Mutation) : LayoutDiff :=
  let before := (shape.layout old).map (·.name)
  let after := (shape.layout new).map (·.name)
  { removed := before.filter fun n => n ∉ after
    added := after.filter fun n => n ∉ before
    kept := after.filter fun n => n ∈ before
    connectorsChanged := shape.connectorsOf old ≠ shape.connectorsOf new }

def isEmpty (diff : LayoutDiff) : Bool :=
  diff.removed.isEmpty && diff.added.isEmpty && !diff.connectorsChanged

end LayoutDiff

namespace Shape

/-- The number of else-if units and whether there is an else unit, from the kinds of units. -/
def branchesOfUnits (type : String) : Nat → Bool → List String → Except MutationError Mutation
  | elseIfs, hasElse, [] => .ok (.branches elseIfs hasElse)
  | elseIfs, hasElse, kind :: rest =>
    if kind = elseIfUnit then branchesOfUnits type (elseIfs + 1) hasElse rest
    else if kind = elseUnit then
      if hasElse then .error (.tooManyUnits type kind 1) else branchesOfUnits type elseIfs true rest
    else .error (.unknownPlaceholder type kind)

def ofUnits (shape : Shape) (kinds : List String) : Except MutationError Mutation :=
  match shape.mutator with
  | .repeats spec =>
    match kinds.find? fun k => k ≠ spec.placeholder with
    | some bad => .error (.unknownPlaceholder shape.type bad)
    | none => .ok (.items kinds.length)
  | .branches => branchesOfUnits shape.type 0 false kinds
  | .fixed => .error (.unsupported shape.type .compose)
  | .variants _ _ => .error (.unsupported shape.type .compose)

def requested (shape : Shape) (m : Mutation) : Mutation.Event → Except MutationError Mutation
  | .setCount n =>
    match shape.mutator, m with
    | .repeats _, _ => .ok (.items n)
    | .branches, .branches _ hasElse => .ok (.branches n hasElse)
    | _, _ => .error (.unsupported shape.type .reshape)
  | .setVariant name =>
    match shape.mutator with
    | .variants _ list =>
      if name ∈ variantNames list then .ok (.variant name)
      else .error (.unknownVariant shape.type name)
    | _ => .error (.unsupported shape.type .variantSwitching)
  | .compose kinds => shape.ofUnits kinds

def limitedUnits (shape : Shape) (m : Mutation) : Nat × String :=
  match shape.mutator, m with
  | .repeats spec, .items n => (n, spec.placeholder)
  | .branches, .branches n _ => (n, elseIfUnit)
  | _, _ => (0, "")

/-- Where an event leads from a mutation, and the difference of the layouts. -/
def transition (shape : Shape) (m : Mutation) (event : Mutation.Event) :
    Except MutationError (Mutation × LayoutDiff) := do
  if !shape.accepts m then
    throw (.incompatible shape.type m.token)
  let next ← shape.requested m event
  let (units, kind) := shape.limitedUnits next
  if units > Mutation.maxUnits then
    throw (.tooManyUnits shape.type kind Mutation.maxUnits)
  return (next, .between shape m next)

end Shape

end BlockProgram
