import BlockProgram.Command.Session
import BlockProgram.Files.Path
import BlockProgram.Python.Vocabulary
import BlockProgram.Document.Restore

/-! Commands about one document: generate its program, check it, and run it. -/
namespace BlockProgram.Command

variable {m : Type → Type} [Monad m]

/-- Where the log entries of a command and of a program run come from. -/
def commandPlace : String := "blocks"

def runPlace : String := "blocks_cli::runner"

def load (c : Context m) (file : String) : Session m Workspace := do
  match ← c.host.readText file with
  | .error fault =>
    Session.refuse c.options ("cannot read '" ++ file ++ "': " ++ fault.message)
  | .ok text =>
    match Workspace.ofJson Python.standard.shapes text with
    | .error error =>
      let d := error.diagnostic text
      Session.present c.options ⟨file, text⟩
        { d with notes := d.notes ++ ["while loading " ++ file] }
      Session.quit 1
    | .ok w =>
      Session.info c.options commandPlace
        ("loaded " ++ toString w.blocks.length ++ " block(s) from " ++ file)
      return w

/-- The result of generation; a failure ends the session. -/
def orQuit {α : Type} (c : Context m) (result : Except Python.GenerationError α) : Session m α :=
  match result with
  | .ok a => return a
  | .error error => do
    Session.present c.options ⟨"", ""⟩ error.diagnostic
    Session.quit 1

def Context.generator (c : Context m) : Python.Generator :=
  Python.standard.generator c.settings.indent

def program (c : Context m) (file : String) : Session m String := do
  orQuit c (c.generator.generate (← load c file))

/-- Write the program of a document to the output or into a file. -/
def generate (c : Context m) (file : String) (output : Option String) : Session m Nat := do
  let source ← program c file
  match output with
  | none => Session.write source
  | some path =>
    match ← c.host.writeText path source with
    | .ok _ => Session.info c.options commandPlace ("wrote " ++ path)
    | .error fault =>
      Session.refuse c.options ("cannot write '" ++ path ++ "': " ++ fault.message)
  return 0

def check (c : Context m) (file : String) : Session m Nat := do
  let w ← load c file
  orQuit c (c.generator.preflight w)
  Session.tellLine ("ok: " ++ file ++ " (" ++ toString w.blocks.length ++ " blocks)")
  return 0

/-- Whether a path leads to a file that is named like a source file. -/
def isSourceFile (path : String) : Bool :=
  (Path.name? path).any fun name =>
    ("blocks_".toList).isPrefixOf name.toList && (".py".toList).isSuffixOf name.toList

/-- The lines of a program's output: each ends at a line feed, with a carriage return just before
it, or at the end. -/
def byteLines : List UInt8 → List (List UInt8)
  | [] => []
  | b :: rest =>
    if b = 10 then [] :: byteLines rest
    else if b = 13 ∧ rest.head? = some 10 then [] :: byteLines rest.tail
    else match byteLines rest with
      | [] => [[b]]
      | line :: more => (b :: line) :: more
termination_by s => s.length

/-- The lines that are passed on: those before the first one that is no text in UTF-8. -/
def relayed (output : List UInt8) : List String :=
  let decoded := (byteLines output).map fun line => String.fromUTF8? ⟨line.toArray⟩
  (decoded.takeWhile Option.isSome).filterMap id

def conclude (c : Context m) (interpreter : String) (ending : Ending) : Session m Nat :=
  match ending.status with
  | some 0 => return 0
  | some code => do
    Session.tellLine (interpreter ++ " exited with status " ++ toString code)
    return code
  | none => Session.refuse c.options "interpreter was terminated by a signal"

/-- Generate the program of a document and run it from a source file of its own, which is removed
afterwards unless it is to be kept. -/
def run (c : Context m) (file : String) (interpreter : Option String) (args : List String) :
    Session m Nat := do
  let source ← program c file
  let settings := c.settings.run
  let interpreter := interpreter.getD settings.interpreter
  let name ← c.host.sourceName
  let path := Path.entry settings.workingDir name
  if let .error fault ← c.host.writeText path source then
    Session.refuse c.options ("cannot write source file '" ++ path ++ "': " ++ fault.message)
  Session.info c.options runPlace ("running " ++ interpreter ++ " " ++ name)
  let result ← c.host.start
    { program := interpreter, args := name :: (settings.args ++ args)
      directory := settings.workingDir }
  if let .ok ending := result then
    Session.write (Text.unlines (relayed ending.out))
    Session.tellLines (relayed ending.err)
  if !settings.keepSource then
    if let .error fault ← c.host.remove path then
      Session.warn runPlace ("cannot remove " ++ path ++ ": " ++ fault.message)
  match result with
  | .error fault =>
    Session.refuse c.options ("cannot start '" ++ interpreter ++ "': " ++ fault.message)
  | .ok ending =>
    if settings.keepSource then
      Session.tellLine ("source kept at " ++ path)
    conclude c interpreter ending

end BlockProgram.Command
