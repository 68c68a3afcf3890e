import BlockProgram.Block.Field
import BlockProgram.Mutation.State

/-! Blocks: identity, sockets, outward connectors, and the links to the block above and the block
after. Links are ids; a workspace says which block an id means. -/
namespace BlockProgram

/-- The identity of a block, stable for its lifetime. -/
structure BlockId where
  text : String
  deriving DecidableEq, Repr

inductive SocketKind where
  /-- Accepts one expression block. -/
  | value
  /-- Accepts the head of a chain of statements. -/
  | statement
  /-- A label; nothing is ever plugged in. -/
  | dummy
  deriving DecidableEq, Repr

/-- The outward connectors of a block. -/
structure Connectors where
  /-- The block produces a value. -/
  output : Bool := false
  /-- The types of that value; none leaves it open. -/
  types : Option (List String) := none
  /-- The block can follow another one. -/
  previous : Bool := false
  /-- Another block can follow this one. -/
  next : Bool := false
  deriving DecidableEq, Repr

namespace Connectors

def expression : Connectors := { output := true }

def expressionOf (types : List String) : Connectors := { output := true, types := some types }

def statement : Connectors := { previous := true, next := true }

def terminal : Connectors := { previous := true }

def alone : Connectors := {}

end Connectors

/-- Two type constraints fit when either is open or they share a type. -/
def typesFit : Option (List String) → Option (List String) → Bool
  | some a, some b => a.any fun t => t ∈ b
  | _, _ => true

/-- A named place of a block for other blocks. -/
structure Socket where
  name : String
  kind : SocketKind
  /-- The types that a value socket accepts; none accepts all. -/
  accepts : Option (List String)
  label : Option String
  /-- The socket belongs to the part of the block that a mutation reshapes. -/
  structural : Bool
  target : Option BlockId
  deriving DecidableEq, Repr

/-- The place where a block is plugged in. -/
inductive Attachment where
  | input (block : BlockId) (socket : String)
  /-- After a block in its chain. -/
  | next (block : BlockId)
  deriving DecidableEq, Repr

def Attachment.block : Attachment → BlockId
  | .input block _ => block
  | .next block => block

structure Block where
  id : BlockId
  type : String
  fields : Fields
  sockets : List Socket
  connectors : Connectors
  mutation : Mutation
  /-- A stand-in that is deleted, not left over, when it loses its socket. -/
  shadow : Bool
  parent : Option Attachment
  next : Option BlockId
  deriving DecidableEq, Repr

namespace Block

def field? (b : Block) (name : String) : Option FieldValue := b.fields.get? name

def socket? (b : Block) (name : String) : Option Socket := b.sockets.find? fun s => s.name = name

def target? (b : Block) (name : String) : Option BlockId := (b.socket? name).bind (·.target)

def targets (b : Block) : List BlockId := b.sockets.filterMap (·.target)

def retarget (name : String) (target : Option BlockId) : List Socket → List Socket
  | [] => []
  | s :: rest =>
    if s.name = name then { s with target := target } :: rest else s :: retarget name target rest

def plug (b : Block) (name : String) (target : Option BlockId) : Block :=
  { b with sockets := retarget name target b.sockets }

end Block

end BlockProgram
