import BlockProgram.Workspace.Links

/-! The edits of a workspace that leave the shapes of its blocks as they are: adding and deleting,
connecting and taking apart. -/
namespace BlockProgram.Workspace

def freshBlock (shape : Shape) (id : BlockId) (type : String) (shadow : Bool) : Block :=
  { id, type, shadow
    fields := shape.defaults
    sockets := shape.layout shape.initial
    connectors := shape.connectorsOf shape.initial
    mutation := shape.initial
    parent := none
    next := none }

def add (id : BlockId) (type : String) (shadow : Bool) : Edit EditError Unit := do
  let w ← get
  if w.has id then
    throw (.duplicateBlock id)
  match w.shapes.get? type with
  | none => throw (.unknownType type)
  | some shape => set { w with blocks := w.blocks ++ [freshBlock shape id type shadow] }

/-- Take a block out of its place. With `heal`, the chain after it moves into that place and the block
leaves alone. -/
def unplug (id : BlockId) (heal : Bool) : Edit EditError Unit := do
  let b ← require id
  detach id
  if heal then
    match b.next with
    | none => return
    | some next =>
      detach next
      match b.parent with
      | some (.input above socket) => attachInput above socket next
      | some (.next before) => attachNext before next
      | none => return

/-- Take a block out of its place; what is beneath and after it goes along. -/
def disconnect (id : BlockId) : Edit EditError Unit := detach id

/-- Delete a block and everything beneath it. With `heal`, the chain after it takes its place;
otherwise that chain is deleted too. -/
def delete (id : BlockId) (heal : Bool) : Edit EditError Unit := do
  if heal then unplug id true else detach id
  modifyThe Workspace (·.withoutSubtree id)

/-- Plug an expression into a value socket. A block that is there already goes to the top, or is
deleted if it is a stand-in. -/
def connectValue (parent : BlockId) (socket : String) (child : BlockId) : Edit EditError Unit := do
  let s ← requireSocket parent socket .value
  let c ← require child
  if !c.connectors.output then
    throw (.noOutput child)
  if !typesFit s.accepts c.connectors.types then
    throw (.typeMismatch parent socket child)
  if s.target ≠ some child then
    refuseCycle parent child
    detach child
    if let some old := s.target then
      sever old
    attachInput parent socket child

/-- Plug a chain of statements into a statement socket. A chain that is there already follows the new
one where it can, and goes to the top otherwise. -/
def connectStatement (parent : BlockId) (socket : String) (child : BlockId) :
    Edit EditError Unit := do
  let s ← requireSocket parent socket .statement
  if !(← require child).connectors.previous then
    throw (.noPrevious child)
  if s.target ≠ some child then
    refuseCycle parent child
    detach child
    if let some old := s.target then
      detach old
    attachInput parent socket child
    if let some old := s.target then
      spliceAfterChain child old

/-- Let a chain follow a block. What followed the block follows the new chain where it can, and goes
to the top otherwise. -/
def connectNext (previous child : BlockId) : Edit EditError Unit := do
  let p ← require previous
  if !p.connectors.next then
    throw (.noNext previous)
  if !(← require child).connectors.previous then
    throw (.noPrevious child)
  if p.next ≠ some child then
    refuseCycle previous child
    detach child
    if let some old := p.next then
      detach old
    attachNext previous child
    if let some old := p.next then
      spliceAfterChain child old

end BlockProgram.Workspace
