import BlockProgram.Command.Perform

/-! The program: command lines performed on the files of the machine that it runs on. -/
namespace BlockProgram

/-- The fault behind a failed access. -/
def faultOf : IO.Error → FileFault
  | .noFileOrDirectory .. => .notFound
  | .permissionDenied .. => .notPermitted
  | .inappropriateType _ 20 _ => .notDirectory
  | .inappropriateType _ 21 _ => .isDirectory
  | e => .other (toString e)

def attempt {α : Type} (access : IO α) : IO (Except FileFault α) := do
  try
    return .ok (← access)
  catch e =>
    return .error (faultOf e)

def readFileText (path : String) : IO (Except FileFault String) := do
  match ← attempt (IO.FS.readBinFile path) with
  | .error fault => return .error fault
  | .ok bytes =>
    match String.fromUTF8? bytes with
    | some text => return .ok text
    | none => return .error .notText

def isPlainFile (path : String) : IO Bool := do
  let here ← IO.currentDir
  match ← attempt (here / path).metadata with
  | .ok data => return data.type == .file
  | .error _ => return false

partial def filesBelow (path : String) : IO FileTree := do
  let here ← IO.currentDir
  match ← attempt (here / path).readDir with
  | .error _ => return .empty
  | .ok found =>
    let entries ← found.toList.mapM fun entry => do
      let inner := Path.entry path entry.fileName
      if ← (here / inner).isDir then
        return (entry.fileName, ← filesBelow inner)
      else
        return (entry.fileName, FileTree.file ⟨#[]⟩)
    return .directory entries

def newSourceName : IO String := do
  return "blocks_" ++ toString (← IO.monoMsNow) ++ "_" ++ toString (← IO.rand 0 999999) ++ ".py"

/-- The machine itself. It starts no other program. -/
def machine : Command.Host IO where
  readText := readFileText
  writeText path text := attempt (IO.FS.writeFile path text)
  remove path := attempt (IO.FS.removeFile path)
  isFile := isPlainFile
  tree := filesBelow
  sourceName := newSourceName
  start _ := return .error (.other "programs cannot be started here")

end BlockProgram

def main (args : List String) : IO UInt32 := do
  let (code, console) ← BlockProgram.Command.perform BlockProgram.machine args
  IO.print console.out
  IO.eprint console.err
  return UInt32.ofNat code
