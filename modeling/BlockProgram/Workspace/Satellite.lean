import BlockProgram.Workspace.Reshape

/-! Satellites: throwaway lists of units that stand for the repeated part of a block. Units are added,
removed and moved in the satellite, and `compose` gives the block the structure that results, with
every connected block kept by the unit that had it. -/
namespace BlockProgram

/-- One unit of a satellite. Its number is its identity. -/
structure SatelliteUnit where
  number : Nat
  kind : String
  /-- What the sockets of the unit held when connections were last saved, in socket order. -/
  saved : List (Option BlockId)
  deriving DecidableEq, Repr

structure Satellite where
  owner : BlockId
  type : String
  allowed : List Placeholder
  units : List SatelliteUnit
  /-- The number of the next new unit. A counter of 64 bits gives the same numbers while fewer than `2 ^ 64`
  units have been made. -/
  nextNumber : Nat
  deriving DecidableEq, Repr

namespace Satellite

def kinds (s : Satellite) : List String := s.units.map (·.kind)

def position? (s : Satellite) (number : Nat) : Option Nat :=
  s.units.findIdx? fun u => u.number = number

/-- Put a new, unconnected unit at an index, or at the end if the index is past it. -/
def insert (s : Satellite) (index : Nat) (kind : String) : Except MutationError Satellite :=
  match s.allowed.find? fun p => p.kind = kind with
  | none => .error (.unknownPlaceholder s.type kind)
  | some p =>
    let max := min (p.max.getD Mutation.maxUnits) Mutation.maxUnits
    if max ≤ (s.units.filter fun u => u.kind = kind).length then
      .error (.tooManyUnits s.type kind max)
    else
      .ok { s with
        units := s.units.insertIdx (min index s.units.length) ⟨s.nextNumber, kind, []⟩
        nextNumber := s.nextNumber + 1 }

def push (s : Satellite) (kind : String) : Except MutationError Satellite :=
  s.insert s.units.length kind

def remove (s : Satellite) (index : Nat) : Option SatelliteUnit × Satellite :=
  (s.units[index]?, { s with units := s.units.eraseIdx index })

/-- Move the unit at `start` so that it ends up at `goal`; none if either is not an index. -/
def move? (s : Satellite) (start goal : Nat) : Option Satellite :=
  match s.units[start]? with
  | some u =>
    if goal < s.units.length then
      some { s with units := (s.units.eraseIdx start).insertIdx goal u }
    else none
  | none => none

def numbered (kinds : List String) : List SatelliteUnit :=
  kinds.mapIdx fun i kind => ⟨i, kind, []⟩

end Satellite

namespace Workspace

def shapeOf (id : BlockId) : Edit EditError Shape := do requireShape (← require id)

/-- The satellite that stands for the present structure of a block. -/
def decompose (id : BlockId) : Edit MutationError Satellite := do
  let b ← (require id).refusedAs .edit
  let shape ← (requireShape b).refusedAs .edit
  if shape.placeholders.isEmpty then
    throw (.unsupported b.type .decompose)
  let kinds := shape.unitsOf b.mutation
  return {
    owner := id
    type := b.type
    allowed := shape.placeholders
    units := Satellite.numbered kinds
    nextNumber := kinds.length }

/-- Pair each unit with the sockets at its position and note what they hold. -/
def savedUnits (b : Block) : List SatelliteUnit → List (List String) → List SatelliteUnit
  | u :: units, names :: rest => { u with saved := names.map b.target? } :: savedUnits b units rest
  | units, _ => units

/-- Note what every unit of a satellite holds now. The satellite has to agree with the block. -/
def saveConnections (s : Satellite) : Edit MutationError Satellite := do
  let b ← (require s.owner).refusedAs .edit
  let shape ← (requireShape b).refusedAs .edit
  return { s with units := savedUnits b s.units (shape.unitSocketNames s.kinds) }

/-- A saved block can be plugged in again if it still exists and is free or plugged into the owner. -/
def reattachable (w : Workspace) (child owner : BlockId) : Bool :=
  match w.find? child with
  | none => false
  | some b =>
    match b.parent with
    | none => true
    | some (.input above _) => above = owner
    | some (.next _) => false

/-- The socket that each saved block of the units goes to. Every block is taken once. -/
def plan (w : Workspace) (owner : BlockId) (slots : List (String × Option BlockId)) :
    List (String × BlockId) :=
  slots.foldl (fun plan slot =>
    match slot.2 with
    | none => plan
    | some child =>
      if (plan.any fun p => p.2 = child) || !w.reattachable child owner then plan
      else plan ++ [(slot.1, child)]) []

/-- The new socket names of the units, each with the block that the unit saved for it. -/
def slots (units : List SatelliteUnit) (names : List (List String)) :
    List (String × Option BlockId) :=
  (units.zip names).flatMap fun pair => pair.2.zip pair.1.saved

/-- Take the planned blocks out, sever what else the structural sockets hold, rebuild the block, and
plug the planned blocks in. -/
def replant (owner : BlockId) (shape : Shape) (m : Mutation) (plan : List (String × BlockId)) :
    Edit EditError Unit := do
  let structural := (← require owner).sockets.filter (·.structural)
  (structural.filterMap (·.target)).forM fun child =>
    if plan.any fun p => p.2 = child then detach child else sever child
  plan.forM fun p => detach p.2
  rebuild owner shape m false
  plan.forM fun p => attachInput owner p.1 p.2

/-- Give the owner of a satellite the structure of its units. Saved blocks are plugged in again where
their unit stands now; a block whose unit is gone is severed; a saved block that has been deleted or
plugged in elsewhere since is left alone. -/
def compose (s : Satellite) : Edit MutationError LayoutDiff := do
  let b ← (require s.owner).refusedAs .edit
  let shape ← (requireShape b).refusedAs .edit
  match s.units.find? fun u => !shape.placeholders.any fun p => p.kind = u.kind with
  | some u => throw (.unknownPlaceholder b.type u.kind)
  | none =>
    let (m, diff) ← Edit.ofResult (shape.transition b.mutation (.compose s.kinds))
    let plan := (← get).plan s.owner (slots s.units (shape.unitSocketNames s.kinds))
    (replant s.owner shape m plan).refusedAs .edit
    return diff

end Workspace

end BlockProgram
