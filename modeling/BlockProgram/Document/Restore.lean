import BlockProgram.Diagnostic
import BlockProgram.Document.Json
import BlockProgram.Workspace.Satellite

/-! Restoring a workspace from a document. Every block is created and takes the shape of its token
before the first connection is made. A document that cannot be restored changes nothing. -/
namespace BlockProgram

/-- Why a document cannot be restored. -/
inductive RestoreError where
  | malformed (refusal : Json.Refusal)
  | unsupportedVersion (found : Nat)
  | block (id : BlockId) (error : EditError)
  | mutation (id : BlockId) (error : MutationError)
  | duplicateConnection (id : BlockId)
  | socketOccupied (parent : BlockId) (socket : String)
  | connection (parent child : BlockId) (error : EditError)
  deriving DecidableEq, Repr

namespace RestoreError

def message : RestoreError → String
  | .malformed refusal => "malformed workspace document: " ++ refusal.message
  | .unsupportedVersion found =>
    "unsupported document version " ++ toString found ++ " (expected " ++
      toString Document.currentVersion ++ ")"
  | .block id error => "cannot restore block " ++ id.text ++ ": " ++ error.message
  | .mutation id error =>
    "cannot restore the shape of block " ++ id.text ++ ": " ++ error.message
  | .duplicateConnection id => "block " ++ id.text ++ " is connected more than once"
  | .socketOccupied parent socket =>
    "socket " ++ socket ++ " on block " ++ parent.text ++ " is connected more than once"
  | .connection parent child error =>
    "cannot connect " ++ child.text ++ " to " ++ parent.text ++ ": " ++ error.message

/-- The byte that the reader passed last on its way to a position, within the text. The sum is that of a
release build, which wraps at `2 ^ 64` before it is cut at the end of the text, so that a column beyond
leads back to the start; a build with overflow checks stops there and gives no offset at all. -/
def byteOffset (source : List Char) (line column : Nat) : Nat :=
  let before := ((Text.rows source).take (line - 1)).flatten
  min ((Text.byteSize before + (column - 1)) % Nat.pow 2 64) (Text.byteSize source)

def labelAt (source : List Char) (line column : Nat) : Label :=
  let start := byteOffset source line column
  ⟨start, min (start + 1) (Text.byteSize source), "here"⟩

/-- The diagnostic of a failure to restore the document `source`. Lines are counted from one; line zero
stands for a position that is not known, which has no mark. -/
def diagnostic (error : RestoreError) (source : String) : Diagnostic :=
  match error with
  | .malformed ⟨_, ⟨line, column⟩⟩ =>
    { message := error.message
      labels := if 0 < line then [labelAt source.toList line column] else [] }
  | .unsupportedVersion _ =>
    { message := error.message, notes := ["re-save the workspace with a matching version"] }
  | _ => { message := error.message }

end RestoreError

namespace Workspace

def restoreFields (shape : Shape) (id : BlockId) :
    List (String × FieldValue) → Edit EditError Unit
  | [] => return
  | (name, value) :: rest => do
    Edit.ofResult (checkField shape id name value)
    update id fun b => { b with fields := b.fields.insert name value }
    restoreFields shape id rest

/-- The mutation that a record asks for, if it is one of the shape. -/
def recordedMutation (shape : Shape) (r : BlockRecord) : Except MutationError Mutation :=
  match if r.mutation = "" then some shape.initial else Mutation.ofToken? r.mutation with
  | none => .error (.malformedToken r.mutation)
  | some m => if shape.accepts m then .ok m else .error (.incompatible r.type r.mutation)

def restoreBlock (r : BlockRecord) : Edit RestoreError Unit := do
  (add r.id r.type r.shadow).refusedAs (.block r.id)
  let shape ← (do requireShape (← require r.id) : Edit EditError Shape).refusedAs (.block r.id)
  (restoreFields shape r.id r.fields.entries).refusedAs (.block r.id)
  let m ← (Edit.ofResult (recordedMutation shape r)).refusedAs (.mutation r.id)
  (rebuild r.id shape m true).refusedAs (.block r.id)

def restoreConnection (c : Connection) : Edit RestoreError Unit := do
  let refused : EditError → RestoreError := .connection c.parent c.child
  if (← (require c.child).refusedAs refused).parent.isSome then
    throw (.duplicateConnection c.child)
  let p ← (require c.parent).refusedAs refused
  match c with
  | .input parent socket child =>
    match p.socket? socket with
    | none => throw (refused (.unknownSocket parent socket))
    | some s =>
      if s.target.isSome then
        throw (.socketOccupied parent socket)
      if s.kind = .statement then
        (connectStatement parent socket child).refusedAs refused
      else
        (connectValue parent socket child).refusedAs refused
  | .next parent child =>
    if p.next.isSome then
      throw (.socketOccupied parent "next")
    (connectNext parent child).refusedAs refused

def restoreAll (d : Document) : Edit RestoreError Unit := do
  d.blocks.forM restoreBlock
  d.connections.forM restoreConnection

end Workspace

def Document.restore (shapes : ShapeRegistry) (d : Document) : Except RestoreError Workspace :=
  if d.version ≠ Document.currentVersion then .error (.unsupportedVersion d.version)
  else
    match (Workspace.restoreAll d).perform (.empty shapes) with
    | (.ok _, w) => .ok w
    | (.error e, _) => .error e

namespace Workspace

def ofJson (shapes : ShapeRegistry) (text : String) : Except RestoreError Workspace :=
  match Document.ofJson text with
  | .ok d => d.restore shapes
  | .error refusal => .error (.malformed refusal)

def toJson (w : Workspace) : String := w.document.toJson

def load (text : String) : Edit RestoreError Unit := do
  let w ← get
  match ofJson w.shapes text with
  | .ok loaded => set loaded
  | .error e => throw e

end Workspace

end BlockProgram
