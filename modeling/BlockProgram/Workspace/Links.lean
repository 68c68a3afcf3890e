import BlockProgram.Workspace.Basic

/-! The two ends of a link are written together here: taking a block out of its place, deleting blocks,
and plugging a block in. These edits are the steps of the public ones. -/
namespace BlockProgram.Workspace

def require (id : BlockId) : Edit EditError Block := do
  match (← get).find? id with
  | some b => return b
  | none => throw (.unknownBlock id)

def update (id : BlockId) (f : Block → Block) : Edit EditError Unit := do
  let _ ← require id
  modifyThe Workspace (·.modify id f)

def requireShape (b : Block) : Edit EditError Shape := do
  match (← get).shapes.get? b.type with
  | some shape => return shape
  | none => throw (.unknownType b.type)

/-- Take a block out of its place, with everything beneath and after it. -/
def detach (id : BlockId) : Edit EditError Unit := do
  let b ← require id
  match b.parent with
  | none => return
  | some place =>
    update id fun b => { b with parent := none }
    match place with
    | .input above socket => update above fun b => b.plug socket none
    | .next before => update before fun b => { b with next := none }

/-- The workspace without a block and everything beneath and after it. -/
def withoutSubtree (w : Workspace) (id : BlockId) : Workspace :=
  let doomed := w.descendants id
  { w with blocks := w.blocks.filter fun b => b.id ∉ doomed }

/-- Take out a block that loses its socket. A stand-in is deleted; any other block stays, at the top. -/
def sever (id : BlockId) : Edit EditError Unit := do
  detach id
  if (← require id).shadow then
    modifyThe Workspace (·.withoutSubtree id)

/-- Plug a block into a socket. The edge has been checked and both ends are free. -/
def attachInput (parent : BlockId) (socket : String) (child : BlockId) : Edit EditError Unit := do
  let p ← require parent
  if (p.socket? socket).isNone then
    throw (.unknownSocket parent socket)
  update parent fun b => b.plug socket (some child)
  update child fun b => { b with parent := some (.input parent socket) }

def attachNext (previous child : BlockId) : Edit EditError Unit := do
  update previous fun b => { b with next := some child }
  update child fun b => { b with parent := some (.next previous) }

/-- Hang a free chain after the last block of another one. If that block cannot be followed the chain
stays at the top. -/
def spliceAfterChain (head tail : BlockId) : Edit EditError Unit := do
  let last := (← get).lastInChain head
  if (← require last).connectors.next then
    if (← require tail).connectors.previous then
      attachNext last tail

def refuseCycle (parent child : BlockId) : Edit EditError Unit := do
  if parent = child || (← get).isAncestor child parent then
    throw (.cycle parent child)

def requireSocket (id : BlockId) (name : String) (kind : SocketKind) : Edit EditError Socket := do
  match (← require id).socket? name with
  | none => throw (.unknownSocket id name)
  | some s => if s.kind = kind then return s else throw (.wrongSocketKind id name kind)

end BlockProgram.Workspace
