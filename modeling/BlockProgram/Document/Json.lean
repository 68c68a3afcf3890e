import BlockProgram.Document.Basic
import BlockProgram.Json.Printer
import BlockProgram.Json.Skip

/-! Documents as JSON texts. Empty fields, the empty mutation and a false shadow flag are not written,
and stand for themselves when they are missing. A record may also be read from a list of its members in
their order. -/
namespace BlockProgram

open Json (Value Reader Found Cause)
open Json.Reader

def FieldValue.json : FieldValue → Value
  | .text s => .object [("text", .string s)]
  | .number n => .object [("number", .float n)]
  | .choice s => .object [("choice", .string s)]

def Fields.json (fields : Fields) : Value :=
  .object (fields.entries.map fun entry => (entry.1, entry.2.json))

def BlockRecord.json (r : BlockRecord) : Value :=
  .object <|
    [("id", .string r.id.text), ("type", .string r.type)] ++
    (if r.fields.entries.isEmpty then [] else [("fields", r.fields.json)]) ++
    (if r.mutation = "" then [] else [("mutation", .string r.mutation)]) ++
    (if r.shadow then [("shadow", .bool true)] else [])

def Connection.json : Connection → Value
  | .input parent socket child =>
    .object [("kind", .string "input"), ("parent", .string parent.text),
      ("socket", .string socket), ("child", .string child.text)]
  | .next parent child =>
    .object [("kind", .string "next"), ("parent", .string parent.text),
      ("child", .string child.text)]

def Document.json (d : Document) : Value :=
  .object [("version", .natural d.version),
    ("blocks", .list (d.blocks.map BlockRecord.json)),
    ("connections", .list (d.connections.map Connection.json))]

def Document.toJson (d : Document) : String := String.ofList (d.json.render 0)

def fill {α σ : Type} (name : String) (old : Option α) (read : Reader α) (put : α → σ) : Reader σ := do
  if old.isSome then failFloating (.duplicateField name)
  else
    colon
    return put (← read)

def wanted {α : Type} (name : String) : Option α → Reader α
  | some a => return a
  | none => failFloating (.missingField name)

def unknownMember {σ : Type} (acc : σ) : Reader σ := do
  colon
  ignored
  return acc

/-- The next element of a record that is written as a list; `default` where it may be missing. -/
def positional {α : Type} (index : Nat) (expected : String) (default : Option α) (read : Reader α) :
    Reader α := do
  if ← hasElement (index = 0) then read
  else
    match default with
    | some a => return a
    | none => failFloating (.invalidLength index expected)

def recordOr {α : Type} (expected : String) (fromList fromObject : Reader α) : Reader α := do
  match ← peek with
  | none => failNext .endInValue
  | some '[' => inList fromList
  | some '\x7b' => inObject fromObject
  | some _ => wrongType expected

inductive FieldKind where
  | text
  | number
  | choice

def FieldKind.named : List (String × FieldKind) :=
  [("text", .text), ("number", .number), ("choice", .choice)]

def FieldKind.reader : FieldKind → Reader FieldValue
  | .text => return .text (← Reader.string "a string")
  | .number => return .number (← Reader.float)
  | .choice => return .choice (← Reader.string "a string")

def openKind : Reader Unit := do
  match ← peek with
  | some '"' => return
  | some '\x7d' => failNext .expectedValue
  | some _ => failNext .keyNotString
  | none => failNext .endInObject

/-- The value of a field: an object with one member, named by the kind. -/
def FieldValue.reader : Reader FieldValue := do
  match ← peek with
  | none => failNext .endInValue
  | some '"' =>
    let _ ← Reader.choice FieldKind.named
    failFloating (.invalidType .unitVariant "newtype variant")
  | some '\x7b' =>
    skip
    openKind
    let kind ← Reader.choice FieldKind.named
    colon
    let value ← kind.reader
    match ← peek with
    | some '\x7d' => do skip; return value
    | some _ => failHere .expectedValue
    | none => failHere .endInObject
  | some _ => failNext .expectedValue

def Fields.reader : Reader Fields := do
  match ← peek with
  | none => failNext .endInValue
  | some '\x7b' =>
    inObject <| allMembers (fun fields name => do
      colon
      return Fields.insert fields name (← FieldValue.reader)) Fields.empty
  | some _ => wrongType "a map"

namespace BlockRecord

/-- The members of a block that have been read. -/
structure Partial where
  id : Option String := none
  type : Option String := none
  fields : Option Fields := none
  mutation : Option String := none
  shadow : Option Bool := none

def member (acc : Partial) (key : String) : Reader Partial :=
  match key with
  | "id" => fill key acc.id (Reader.string "a string") fun v => { acc with id := some v }
  | "type" => fill key acc.type (Reader.string "a string") fun v => { acc with type := some v }
  | "fields" => fill key acc.fields Fields.reader fun v => { acc with fields := some v }
  | "mutation" =>
    fill key acc.mutation (Reader.string "a string") fun v => { acc with mutation := some v }
  | "shadow" => fill key acc.shadow Reader.bool fun v => { acc with shadow := some v }
  | _ => unknownMember acc

def fromObject : Reader BlockRecord := do
  let acc ← allMembers member {}
  let id ← wanted "id" acc.id
  let type ← wanted "type" acc.type
  return {
    id := ⟨id⟩, type
    fields := acc.fields.getD .empty
    mutation := acc.mutation.getD ""
    shadow := acc.shadow.getD false }

def fromList : Reader BlockRecord := do
  let expected := "struct BlockRecord with 5 elements"
  let id ← positional 0 expected none (Reader.string "a string")
  let type ← positional 1 expected none (Reader.string "a string")
  let fields ← positional 2 expected (some .empty) Fields.reader
  let mutation ← positional 3 expected (some "") (Reader.string "a string")
  let shadow ← positional 4 expected (some false) Reader.bool
  return { id := ⟨id⟩, type, fields, mutation, shadow }

def reader : Reader BlockRecord := recordOr "struct BlockRecord" fromList fromObject

end BlockRecord

namespace Connection

inductive Kind where
  | input
  | next

def Kind.named : List (String × Kind) := [("input", .input), ("next", .next)]

def Kind.title : Kind → String
  | .input => "struct variant ConnectionRecord::Input with 3 elements"
  | .next => "struct variant ConnectionRecord::Next with 2 elements"

def Kind.members : Kind → List String
  | .input => ["parent", "socket", "child"]
  | .next => ["parent", "child"]

def Kind.build (kind : Kind) (value : String → String) : Connection :=
  match kind with
  | .input => .input ⟨value "parent"⟩ (value "socket") ⟨value "child"⟩
  | .next => .next ⟨value "parent"⟩ ⟨value "child"⟩

def stringOf : Found → Except Cause String
  | .string s => .ok s
  | found => .error (.invalidType found "a string")

/-- Look through the members of a connection for the ones of its kind. -/
def pick (names : List String) : List (String × Found) → List (String × String) →
    Except Cause (List (String × String))
  | [], acc => .ok acc
  | (name, found) :: rest, acc =>
    if name ∉ names then pick names rest acc
    else if acc.any fun entry => entry.1 = name then .error (.duplicateField name)
    else do
      let s ← stringOf found
      pick names rest (acc ++ [(name, s)])

/-- A connection from the members of an object other than its kind. -/
def ofMembers (kind : Kind) (members : List (String × Found)) : Except Cause Connection := do
  let entries ← pick kind.members members []
  match kind.members.find? fun name => !entries.any fun entry => entry.1 = name with
  | some name => .error (.missingField name)
  | none => return kind.build fun name => ((entries.find? fun e => e.1 = name).map (·.2)).getD ""

def ofPlaces (kind : Kind) : Nat → List String → List Found →
    Except Cause (List (String × String) × List Found)
  | _, [], found => .ok ([], found)
  | index, _ :: _, [] => .error (.invalidLength index kind.title)
  | index, name :: names, found :: rest => do
    let s ← stringOf found
    let (entries, left) ← ofPlaces kind (index + 1) names rest
    return ((name, s) :: entries, left)

def ofElements (kind : Kind) (found : List Found) : Except Cause Connection := do
  let (entries, left) ← ofPlaces kind 0 kind.members found
  if left.isEmpty then
    return kind.build fun name => ((entries.find? fun e => e.1 = name).map (·.2)).getD ""
  else
    .error (.invalidLength found.length (toString kind.members.length ++ " elements in sequence"))

def depth : Nat := 124

/-- The kind of a connection and its members, which are not looked at before all are read. -/
def member (acc : Option Kind × List (String × Found)) (key : String) :
    Reader (Option Kind × List (String × Found)) := do
  if key = "kind" then
    fill key acc.1 (Reader.choice Kind.named) fun kind => (some kind, acc.2)
  else
    colon
    return (acc.1, acc.2 ++ [(key, ← anything depth)])

def fromObject : Reader (Except Cause Connection) := do
  let (kind, members) ← allMembers member (none, [])
  return ofMembers (← wanted "kind" kind) members

def fromList : Reader (Except Cause Connection) := do
  if ← hasElement true then
    let kind ← Reader.choice Kind.named
    return ofElements kind (← elements (anything depth) ((← get).length + 1) false)
  else failFloating (.missingField "kind")

def reader : Reader Connection := do
  let result ← (do
    match ← peek with
    | some '[' => inList fromList
    | some '\x7b' => inObject fromObject
    | some _ => wrongType "internally tagged enum ConnectionRecord"
    | none => failNext .endInValue : Reader (Except Cause Connection))
  match result with
  | .ok c => return c
  | .error cause => failFloating cause

end Connection

namespace Document

structure Partial where
  version : Option Nat := none
  blocks : Option (List BlockRecord) := none
  connections : Option (List Connection) := none

def member (acc : Partial) (key : String) : Reader Partial :=
  match key with
  | "version" => fill key acc.version Reader.word32 fun v => { acc with version := some v }
  | "blocks" =>
    fill key acc.blocks (Reader.list BlockRecord.reader) fun v => { acc with blocks := some v }
  | "connections" =>
    fill key acc.connections (Reader.list Connection.reader) fun v =>
      { acc with connections := some v }
  | _ => unknownMember acc

def fromObject : Reader Document := do
  let acc ← allMembers member {}
  let version ← wanted "version" acc.version
  return { version, blocks := acc.blocks.getD [], connections := acc.connections.getD [] }

def fromList : Reader Document := do
  let expected := "struct WorkspaceDocument with 3 elements"
  let version ← positional 0 expected none Reader.word32
  let blocks ← positional 1 expected (some []) (Reader.list BlockRecord.reader)
  let connections ← positional 2 expected (some []) (Reader.list Connection.reader)
  return { version, blocks, connections }

def reader : Reader Document := do
  let d ← recordOr "struct WorkspaceDocument" fromList fromObject
  match ← peek with
  | none => return d
  | some _ => failNext .trailingCharacters

def ofJson (text : String) : Except Json.Refusal Document :=
  match reader.run text.toList with
  | .ok (d, _) => .ok d
  | .error fault => .error (fault.refusal text.toList)

end Document

end BlockProgram
