import BlockProgram.Workspace.Basic

/-! Documents: the stored form of a workspace. A document lists the blocks in layout order, each with a
mutation token, and then the connections between them. -/
namespace BlockProgram

/-- One block of a document. -/
structure BlockRecord where
  id : BlockId
  type : String
  fields : Fields := .empty
  /-- The mutation token; the empty one stands for the first mutation of the shape. -/
  mutation : String := ""
  shadow : Bool := false
  deriving DecidableEq, Repr

/-- One link of a document. -/
inductive Connection where
  | input (parent : BlockId) (socket : String) (child : BlockId)
  | next (parent child : BlockId)
  deriving DecidableEq, Repr

namespace Connection

def parent : Connection → BlockId
  | .input parent _ _ => parent
  | .next parent _ => parent

def child : Connection → BlockId
  | .input _ _ child => child
  | .next _ child => child

end Connection

structure Document where
  version : Nat
  blocks : List BlockRecord := []
  connections : List Connection := []
  deriving DecidableEq, Repr

/-- The version of the documents that are written, and the only one that is restored. -/
def Document.currentVersion : Nat := 1

def Block.record (b : Block) : BlockRecord :=
  { id := b.id, type := b.type, fields := b.fields, mutation := b.mutation.token, shadow := b.shadow }

/-- The links from a block to what it holds and to what follows it. -/
def Block.connections (b : Block) : List Connection :=
  (b.sockets.filterMap fun s => s.target.map (Connection.input b.id s.name)) ++
    b.next.toList.map (Connection.next b.id)

def Workspace.document (w : Workspace) : Document :=
  { version := Document.currentVersion
    blocks := w.blocks.map Block.record
    connections := w.blocks.flatMap Block.connections }

end BlockProgram
