import BlockProgram.Proofs.Shape.Layout
import BlockProgram.Workspace.Satellite
import Mathlib.Algebra.Group.End
import Mathlib.Tactic.Simps.Basic

/-! Other ids for the same blocks. An id is only ever compared with other ids, so all that is looked up, and
every walk along links, is the same up to the ids. -/
namespace BlockProgram

/-- What mentions blocks by their ids, and the same with other ids. -/
class Renamable (α : Type) where
  rename : Equiv.Perm BlockId → α → α

export Renamable (rename)

def Attachment.rename (r : Equiv.Perm BlockId) : Attachment → Attachment
  | .input p s => .input (r p) s
  | .next p => .next (r p)

@[simps]
def Socket.rename (r : Equiv.Perm BlockId) (s : Socket) : Socket := { s with target := s.target.map r }

@[simps]
def Block.rename (r : Equiv.Perm BlockId) (b : Block) : Block :=
  { b with
    id := r b.id
    sockets := b.sockets.map (·.rename r)
    parent := b.parent.map (·.rename r)
    next := b.next.map r }

@[simps]
def Workspace.rename (r : Equiv.Perm BlockId) (w : Workspace) : Workspace :=
  { w with blocks := w.blocks.map (·.rename r) }

@[simps]
def SatelliteUnit.rename (r : Equiv.Perm BlockId) (u : SatelliteUnit) : SatelliteUnit :=
  { u with saved := u.saved.map (·.map r) }

@[simps]
def Satellite.rename (r : Equiv.Perm BlockId) (s : Satellite) : Satellite :=
  { s with owner := r s.owner, units := s.units.map (·.rename r) }

def EditError.rename (r : Equiv.Perm BlockId) : EditError → EditError
  | .unknownBlock id => .unknownBlock (r id)
  | .unknownType type => .unknownType type
  | .duplicateBlock id => .duplicateBlock (r id)
  | .unknownSocket b s => .unknownSocket (r b) s
  | .wrongSocketKind b s kind => .wrongSocketKind (r b) s kind
  | .noOutput id => .noOutput (r id)
  | .noPrevious id => .noPrevious (r id)
  | .noNext id => .noNext (r id)
  | .typeMismatch b s c => .typeMismatch (r b) s (r c)
  | .cycle p c => .cycle (r p) (r c)
  | .unknownField b name => .unknownField (r b) name
  | .invalidFieldValue b name value => .invalidFieldValue (r b) name value

def MutationError.rename (r : Equiv.Perm BlockId) : MutationError → MutationError
  | .edit e => .edit (e.rename r)
  | other => other

def FieldError.rename (r : Equiv.Perm BlockId) : FieldError → FieldError
  | .edit e => .edit (e.rename r)
  | .mutation e => .mutation (e.rename r)

instance : Renamable BlockId := ⟨fun r id => r id⟩

instance : Renamable Block := ⟨Block.rename⟩

instance : Renamable Socket := ⟨Socket.rename⟩

instance : Renamable Workspace := ⟨Workspace.rename⟩

instance : Renamable SatelliteUnit := ⟨SatelliteUnit.rename⟩

instance : Renamable Satellite := ⟨Satellite.rename⟩

instance : Renamable EditError := ⟨EditError.rename⟩

instance : Renamable MutationError := ⟨MutationError.rename⟩

instance : Renamable FieldError := ⟨FieldError.rename⟩

instance : Renamable Unit := ⟨fun _ u => u⟩

instance : Renamable Shape := ⟨fun _ shape => shape⟩

instance : Renamable Mutation := ⟨fun _ m => m⟩

instance : Renamable LayoutDiff := ⟨fun _ diff => diff⟩

section

variable {α β ε : Type} [Renamable α] [Renamable β] [Renamable ε]

instance : Renamable (Option α) := ⟨fun r => Option.map (rename r)⟩

instance : Renamable (α × β) := ⟨fun r p => (rename r p.1, rename r p.2)⟩

instance : Renamable (Except ε α) where
  rename r
    | .ok a => .ok (rename r a)
    | .error e => .error (rename r e)

end

variable {r : Equiv.Perm BlockId}

@[simp] theorem rename_block (b : Block) : rename r b = b.rename r := rfl

@[simp] theorem rename_socket (s : Socket) : rename r s = s.rename r := rfl

@[simp] theorem rename_workspace (w : Workspace) : rename r w = w.rename r := rfl

@[simp] theorem rename_shape (shape : Shape) : rename r shape = shape := rfl

@[simp] theorem Attachment.block_rename (place : Attachment) :
    (place.rename r).block = r place.block := by
  cases place <;> rfl

namespace Block

variable {b : Block}

theorem socket?_rename (n : String) :
    (b.rename r).socket? n = (b.socket? n).map (Socket.rename r) := by
  simp only [socket?, rename_sockets, List.find?_map]
  rfl

theorem target?_rename (n : String) : (b.rename r).target? n = (b.target? n).map r := by
  rw [target?, socket?_rename, target?]
  cases b.socket? n <;> rfl

private theorem targets_rename : (b.rename r).targets = b.targets.map r := by
  rw [targets, rename_sockets, List.filterMap_map, targets, List.map_filterMap]
  rfl

private theorem retarget_rename (n : String) (target : Option BlockId) (l : List Socket) :
    retarget n (target.map r) (l.map (Socket.rename r)) =
      (retarget n target l).map (Socket.rename r) := by
  induction l with
  | nil => rfl
  | cons s rest ih =>
    simp only [List.map_cons, retarget, Socket.rename_name, ih]
    split <;> rfl

theorem plug_rename (n : String) (target : Option BlockId) :
    (b.rename r).plug n (target.map r) = (b.plug n target).rename r := by
  simp only [plug, rename_sockets, retarget_rename]
  rfl

end Block

/-- A layout has no targets yet. -/
theorem Shape.layout_rename (shape : Shape) (m : Mutation) :
    (shape.layout m).map (Socket.rename r) = shape.layout m := by
  refine (List.map_congr_left (g := id) fun s hs => ?_).trans (List.map_id _)
  have htarget := shape.target_of_mem_layout hs
  cases s
  simp_all [Socket.rename]

namespace Workspace

variable {w : Workspace} {id : BlockId}

theorem find?_rename : (w.rename r).find? (r id) = (w.find? id).map (Block.rename r) := by
  simp only [find?, rename_blocks, List.find?_map]
  congr 2
  funext b
  simp

theorem has_rename : (w.rename r).has (r id) = w.has id := by
  simp [has, find?_rename]

private theorem parent?_rename : (w.rename r).parent? (r id) = (w.parent? id).map (Attachment.rename r) := by
  rw [parent?, find?_rename, parent?]
  cases w.find? id <;> rfl

theorem topBlocks_rename : (w.rename r).topBlocks = w.topBlocks.map (Block.rename r) := by
  simp only [topBlocks, rename_blocks, List.filter_map]
  congr 2
  funext b
  simp

theorem modify_rename {f f' : Block → Block} (hf : ∀ b, f' (b.rename r) = (f b).rename r) :
    (w.rename r).modify (r id) f' = (w.modify id f).rename r := by
  simp only [modify, rename, List.map_map]
  congr 2
  funext b
  by_cases h : b.id = id <;> simp [h, hf]

private theorem chainFrom_rename (fuel : Nat) (seen : List BlockId) (cursor : Option BlockId) :
    (w.rename r).chainFrom fuel (seen.map r) (cursor.map r) = (w.chainFrom fuel seen cursor).map r := by
  induction fuel generalizing seen cursor with
  | zero => simp [chainFrom]
  | succ fuel ih =>
    cases cursor with
    | none => simp [chainFrom]
    | some x =>
      have hnext : ((w.rename r).find? (r x)).bind (·.next) = ((w.find? x).bind (·.next)).map r := by
        rw [find?_rename]
        cases w.find? x <;> rfl
      have hseen := ih (x :: seen) ((w.find? x).bind (·.next))
      rw [List.map_cons] at hseen
      simp only [Option.map_some, chainFrom, List.mem_map_of_injective r.injective, hnext, hseen]
      split <;> rfl

/-- A chain under other ids is the chain with other ids. -/
theorem chain_rename : (w.rename r).chain (r id) = (w.chain id).map r := by
  have h := chainFrom_rename (w := w) (r := r) (w.blocks.length + 1) [] (some id)
  simp only [chain, has_rename, rename_blocks, List.length_map]
  split
  · exact h
  · rfl

theorem lastInChain_rename : (w.rename r).lastInChain (r id) = r (w.lastInChain id) := by
  simp only [lastInChain, chain_rename, List.getLastD_eq_getLast?, List.getLast?_map]
  cases (w.chain id).getLast? <;> rfl

private theorem collect_rename (fuel : Nat) (out : List BlockId) :
    (w.rename r).collect fuel (r id) (out.map r) = (w.collect fuel id out).map r := by
  induction fuel generalizing id out with
  | zero => rfl
  | succ fuel ih =>
    simp only [collect, find?_rename]
    cases w.find? id with
    | none => rfl
    | some b =>
      simp only [Option.map_some, List.mem_map_of_injective r.injective]
      split
      · rfl
      · have hchildren : (b.rename r).targets ++ (b.rename r).next.toList =
            (b.targets ++ b.next.toList).map r := by
          cases hn : b.next <;> simp [Block.targets_rename, hn]
        rw [hchildren, List.foldl_map, ← List.map_singleton (f := r), ← List.map_append]
        exact List.foldl_hom (List.map r) fun out child => ih out

/-- What is beneath a block is beneath it under other ids, in the same order. -/
theorem descendants_rename : (w.rename r).descendants (r id) = (w.descendants id).map r := by
  simp only [descendants, rename_blocks, List.length_map]
  exact collect_rename _ []

private theorem climbs_rename (fuel : Nat) (place : Option Attachment) :
    (w.rename r).climbs (r id) fuel (place.map (Attachment.rename r)) = w.climbs id fuel place := by
  induction fuel generalizing place with
  | zero => simp [climbs]
  | succ fuel ih =>
    cases place with
    | none => simp [climbs]
    | some place => simp [climbs, parent?_rename, ih]

theorem isAncestor_rename {x : BlockId} : (w.rename r).isAncestor (r id) (r x) = w.isAncestor id x := by
  simp only [isAncestor, parent?_rename, rename_blocks, List.length_map, climbs_rename]

theorem withoutSubtree_rename :
    (w.rename r).withoutSubtree (r id) = (w.withoutSubtree id).rename r := by
  simp only [withoutSubtree, descendants_rename, rename_blocks, List.filter_map]
  simp only [rename]
  congr 3
  funext b
  simp only [Function.comp_apply, Block.rename_id, List.mem_map_of_injective r.injective]

end Workspace

end BlockProgram
