import BlockProgram.Mutation.Transition
import BlockProgram.Workspace.Edit

/-! Edits that change the structure of a block: another number of units, another variant, and the
fields that select either. Sockets of both layouts keep what they hold. -/
namespace BlockProgram.Workspace

/-- Give a carried target to the first of the new sockets that can take over from an old one. -/
def carry (old : Socket) (target : BlockId) (keepStructural : Bool) :
    List Socket → Option (List Socket)
  | [] => none
  | s :: rest =>
    if s.name = old.name ∧ s.kind = old.kind ∧ (keepStructural ∨ !s.structural) then
      some ({ s with target := some target } :: rest)
    else (carry old target keepStructural rest).map (s :: ·)

/-- The new sockets with the targets that carry over, and the blocks whose socket is gone. -/
def carryAll (keepStructural : Bool) : List Socket → List Socket → List Socket × List BlockId
  | [], fresh => (fresh, [])
  | s :: rest, fresh =>
    match s.target with
    | none => carryAll keepStructural rest fresh
    | some target =>
      match carry s target keepStructural fresh with
      | some fresh => carryAll keepStructural rest fresh
      | none =>
        let (fresh, left) := carryAll keepStructural rest fresh
        (fresh, target :: left)

/-- The fields of a block after it has taken a mutation: a count field shows the number of units, a
variant field the variant. -/
def showMutation (shape : Shape) (m : Mutation) (fields : Fields) : Fields :=
  match shape.mutator, m with
  | .repeats spec, .items n =>
    match spec.countField with
    | some field => fields.insert field (.number (.ofNat n))
    | none => fields
  | .variants field _, .variant name => fields.insert field (.choice name)
  | _, _ => fields

/-- Give a block the layout of a mutation. Targets carry over to sockets of the same name and kind,
into structural sockets only if `keepStructural`; blocks left without a socket are severed, and a
block that can no longer be followed lets go of the chain after it. -/
def rebuild (id : BlockId) (shape : Shape) (m : Mutation) (keepStructural : Bool) :
    Edit EditError Unit := do
  let (sockets, left) := carryAll keepStructural (← require id).sockets (shape.layout m)
  left.forM sever
  let connectors := shape.connectorsOf m
  update id fun b =>
    { b with sockets, connectors, fields := showMutation shape m b.fields, mutation := m }
  if !connectors.next then
    if let some next := (← require id).next then
      detach next

/-- Give a block a new mutation. Whatever a removed socket holds is severed; a block whose connectors
change first leaves its place to the chain after it. -/
def applyDiff (id : BlockId) (shape : Shape) (m : Mutation) (diff : LayoutDiff) :
    Edit EditError Unit := do
  if diff.connectorsChanged then
    unplug id true
  let lost := (← require id).sockets.filter fun s => s.name ∈ diff.removed
  (lost.filterMap (·.target)).forM sever
  rebuild id shape m true

def applyEvent (id : BlockId) (event : Mutation.Event) : Edit MutationError LayoutDiff := do
  let b ← (require id).refusedAs .edit
  let shape ← (requireShape b).refusedAs .edit
  let (m, diff) ← Edit.ofResult (shape.transition b.mutation event)
  (applyDiff id shape m diff).refusedAs .edit
  return diff

def reshape (id : BlockId) (count : Nat) : Edit MutationError LayoutDiff :=
  applyEvent id (.setCount count)

def setVariant (id : BlockId) (variant : String) : Edit MutationError LayoutDiff :=
  applyEvent id (.setVariant variant)

/-- Check that a value fits a field of a block of the given shape. -/
def checkField (shape : Shape) (id : BlockId) (name : String) (value : FieldValue) :
    Except EditError Unit :=
  match shape.fieldSpec? name with
  | none => .error (.unknownField id name)
  | some spec => if spec.allows value then .ok () else .error (.invalidFieldValue id name value)

/-- A number of units: an integer that is not negative. -/
def unitCount? (n : Binary64) : Option Nat :=
  if n.isBelowZero || !n.isIntegral then none else some n.truncated

/-- Set a field. The variant field and the count field of a shape reshape the block. -/
def setField (id : BlockId) (name : String) (value : FieldValue) : Edit FieldError Unit := do
  let b ← (require id).refusedAs .edit
  let shape ← (requireShape b).refusedAs .edit
  (Edit.ofResult (checkField shape id name value)).refusedAs .edit
  let store : Edit FieldError Unit :=
    (update id fun b => { b with fields := b.fields.insert name value }).refusedAs .edit
  match shape.mutator with
  | .variants field _ =>
    if field = name then
      discard ((setVariant id (value.string?.getD "")).refusedAs .mutation)
    else store
  | .repeats spec =>
    if spec.countField = some name then
      match unitCount? (value.number?.getD .zero) with
      | some count => discard ((reshape id count).refusedAs .mutation)
      | none => throw (.edit (.invalidFieldValue id name value))
    else store
  | _ => store

end BlockProgram.Workspace
