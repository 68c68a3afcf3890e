import BlockProgram.Mutation.Error
import BlockProgram.Shape.Basic

/-! Workspaces: the blocks of an editable program in the order in which they were added, and the ways
to walk along their links. Every walk ends, also where links form a circle or lead nowhere. -/
namespace BlockProgram

/-- One list of blocks stands both for the map from ids to blocks and for the layout order: the two
change together, where a block is added and where one is removed with everything beneath it. -/
structure Workspace where
  shapes : ShapeRegistry
  /-- In layout order. -/
  blocks : List Block
  deriving DecidableEq, Repr

namespace Workspace

def empty (shapes : ShapeRegistry) : Workspace := ⟨shapes, []⟩

def find? (w : Workspace) (id : BlockId) : Option Block := w.blocks.find? fun b => b.id = id

def has (w : Workspace) (id : BlockId) : Bool := (w.find? id).isSome

def ids (w : Workspace) : List BlockId := w.blocks.map (·.id)

def topBlocks (w : Workspace) : List Block := w.blocks.filter (·.parent.isNone)

def modify (w : Workspace) (id : BlockId) (f : Block → Block) : Workspace :=
  { w with blocks := w.blocks.map fun b => if b.id = id then f b else b }

def parent? (w : Workspace) (id : BlockId) : Option Attachment := (w.find? id).bind (·.parent)

/-- The ids reached from `cursor` by next links, up to the first one in `seen`. -/
def chainFrom (w : Workspace) : Nat → List BlockId → Option BlockId → List BlockId
  | 0, _, _ => []
  | _, _, none => []
  | fuel + 1, seen, some id =>
    if id ∈ seen then []
    else id :: chainFrom w fuel (id :: seen) ((w.find? id).bind (·.next))

/-- The chain that starts at a block; it stops before a block that it has been through. -/
def chain (w : Workspace) (head : BlockId) : List BlockId :=
  if w.has head then w.chainFrom (w.blocks.length + 1) [] (some head) else []

/-- Add a block and everything beneath and after it to the blocks collected so far. -/
def collect (w : Workspace) : Nat → BlockId → List BlockId → List BlockId
  | 0, _, out => out
  | fuel + 1, id, out =>
    match w.find? id with
    | none => out
    | some b =>
      if id ∈ out then out
      else (b.targets ++ b.next.toList).foldl (fun out child => collect w fuel child out) (out ++ [id])

/-- A block, everything plugged into its sockets, and then the chain after it, in pre-order. -/
def descendants (w : Workspace) (id : BlockId) : List BlockId :=
  w.collect (w.blocks.length + 1) id []

/-- Whether `ancestor` is met within `fuel` steps along the parent links from an attachment. -/
def climbs (w : Workspace) (ancestor : BlockId) : Nat → Option Attachment → Bool
  | 0, _ => false
  | _, none => false
  | fuel + 1, some place =>
    place.block = ancestor || climbs w ancestor fuel (w.parent? place.block)

def isAncestor (w : Workspace) (ancestor id : BlockId) : Bool :=
  w.climbs ancestor (w.blocks.length + 1) (w.parent? id)

def lastInChain (w : Workspace) (head : BlockId) : BlockId := (w.chain head).getLastD head

end Workspace

/-- An edit of a workspace. It may be refused; what it wrote before a refusal stays. -/
abbrev Edit (ε α : Type) := ExceptT ε (StateM Workspace) α

def Edit.perform {ε α : Type} (edit : Edit ε α) (w : Workspace) : Except ε α × Workspace :=
  (ExceptT.run edit).run w

/-- An edit that writes nothing and answers with the given result. -/
def Edit.ofResult {ε α : Type} (result : Except ε α) : Edit ε α := ExceptT.mk (pure result)

def Edit.refusedAs {ε ε' α : Type} (f : ε → ε') (edit : Edit ε α) : Edit ε' α :=
  ExceptT.adapt f edit

end BlockProgram
