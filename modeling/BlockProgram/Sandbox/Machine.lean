import BlockProgram.Command.Host
import BlockProgram.Text.Blank

/-! A host in memory, on which command lines are functions from one state to the next. -/
namespace BlockProgram.Sandbox
open Command (Ending Host Launch)

/-- A machine with its files. -/
structure Machine where
  files : FileTree
  /-- The names that lead to the current directory. -/
  here : List String := []
  /-- The number of source files that have been named. -/
  named : Nat := 0

abbrev Programs := Launch → Machine → Except FileFault Ending × Machine

namespace Machine

def freshFiles : FileTree :=
  let names := [["bin"], ["dev"], ["etc"], ["home"], ["root"], ["tmp"], ["usr", "bin"],
    ["usr", "local", "bin"], ["var", "tmp"]]
  let add (tree : FileTree) (names : List String) : FileTree := tree.graft .empty names
  (names.foldl add .empty).insert ⟨#[]⟩ ["dev", "null"]

/-- Follow the parts of a path; all but the last must lead to directories. -/
def walk (files : FileTree) : List String → List String → Except FileFault (List String)
  | names, [] => .ok names
  | names, part :: rest =>
    match files.find? names with
    | none => .error .notFound
    | some (.file _) => .error .notDirectory
    | some (.directory _) =>
      let next :=
        if part = "" ∨ part = "." then names
        else if part = ".." then names.dropLast
        else names ++ [part]
      walk files next rest

/-- The names that a path leads to, from the current directory or from the root. -/
def locate (m : Machine) (path : String) : Except FileFault (List String) :=
  match (Text.pieces '/' path.toList).map String.ofList with
  | [""] => .error .notFound
  | "" :: parts => walk m.files [] parts
  | parts => walk m.files m.here parts

def find? (m : Machine) (path : String) : Option FileTree :=
  match m.locate path with
  | .ok names => m.files.find? names
  | .error _ => none

def readBytes (m : Machine) (path : String) : Except FileFault ByteArray := do
  match m.files.find? (← m.locate path) with
  | none => throw .notFound
  | some (.directory _) => throw .isDirectory
  | some (.file bytes) => return bytes

def readText (m : Machine) (path : String) : Except FileFault String := do
  match String.fromUTF8? (← m.readBytes path) with
  | some text => return text
  | none => throw .notText

/-- Write a file into a directory that is there. A path that ends in a slash leads to no file. -/
def writeBytes (m : Machine) (path : String) (bytes : ByteArray) : Except FileFault Machine := do
  let trimmed := Text.trimEndWhere (· = '/') path.toList
  if trimmed ≠ path.toList ∧ trimmed ≠ [] then
    let _ ← m.locate (String.ofList trimmed)
    throw .isDirectory
  let names ← m.locate path
  match m.files.find? names with
  | some (.directory _) => throw .isDirectory
  | _ => return { m with files := m.files.insert bytes names }

def remove (m : Machine) (path : String) : Except FileFault Machine := do
  let names ← m.locate path
  match m.files.find? names with
  | none => throw .notFound
  | some (.directory _) => throw .isDirectory
  | some (.file _) => return { m with files := m.files.erase names }

def isFile (m : Machine) (path : String) : Bool :=
  match m.find? path with
  | some (.file _) => true
  | _ => false

def tree (m : Machine) (path : String) : FileTree :=
  match m.find? path with
  | some (.directory entries) => .directory entries
  | _ => .empty

def enter (m : Machine) (path : String) : Except FileFault Machine := do
  let names ← m.locate path
  match m.files.find? names with
  | none => throw .notFound
  | some (.file _) => throw .notDirectory
  | some (.directory _) => return { m with here := names }

def start (programs : Programs) (launch : Launch) (m : Machine) :
    Except FileFault Ending × Machine :=
  match m.enter launch.directory with
  | .error fault => (.error fault, m)
  | .ok inside =>
    let (ending, after) := programs launch inside
    (ending, { after with here := m.here })

def change (next : Machine → Except FileFault Machine) : StateM Machine (Except FileFault Unit) :=
  fun m =>
    match next m with
    | .ok changed => (.ok (), changed)
    | .error fault => (.error fault, m)

def host (programs : Programs) : Host (StateM Machine) where
  readText path := return (← get).readText path
  writeText path text := change fun m => m.writeBytes path text.toUTF8
  remove path := change fun m => m.remove path
  isFile path := return (← get).isFile path
  tree path := return (← get).tree path
  sourceName := modifyGet fun m =>
    ("blocks_" ++ toString m.named ++ ".py", { m with named := m.named + 1 })
  start launch := fun m => start programs launch m

end Machine

end BlockProgram.Sandbox
