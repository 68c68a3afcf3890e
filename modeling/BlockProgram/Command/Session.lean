import BlockProgram.Command.Host
import BlockProgram.Command.Options
import BlockProgram.Diagnostic.Render
import BlockProgram.Settings

/-! Sessions: the run of one command, which writes to two streams and may end early. -/
namespace BlockProgram.Command

/-- What has been written so far. -/
structure Console where
  out : String := ""
  err : String := ""
  deriving DecidableEq, Repr

/-- A part of a session; it either goes on or ends the session with an exit code. -/
abbrev Session (m : Type → Type) (α : Type) := ExceptT Nat (StateT Console m) α

/-- What a command works with. -/
structure Context (m : Type → Type) where
  host : Host m
  options : Options
  settings : Settings := {}

namespace Session

variable {m : Type → Type} [Monad m]

def write (text : String) : Session m Unit := modify fun c => { c with out := c.out ++ text }

def tell (text : String) : Session m Unit := modify fun c => { c with err := c.err ++ text }

def tellLine (line : String) : Session m Unit := tell (line ++ "\n")

def tellLines (lines : List String) : Session m Unit := tell (Text.unlines lines)

def info (o : Options) (place text : String) : Session m Unit := do
  if 0 < o.verbosity then
    tellLine ("[INFO  " ++ place ++ "] " ++ text)

def warn (place text : String) : Session m Unit := tellLine ("[WARN  " ++ place ++ "] " ++ text)

def present (o : Options) (source : SourceText) (d : Diagnostic) : Session m Unit :=
  tell (d.render o.colored source)

def complain (o : Options) (message : String) : Session m Unit := present o ⟨"", ""⟩ { message }

def quit {α : Type} (code : Nat) : Session m α := throw code

def refuse {α : Type} (o : Options) (message : String) : Session m α := do
  complain o message
  quit 1

/-- Carry out a session: its exit code and what it has written. -/
def perform (s : Session m Nat) : m (Nat × Console) := do
  let (result, console) ← (ExceptT.run s).run {}
  match result with
  | .ok code => return (code, console)
  | .error code => return (code, console)

end Session

end BlockProgram.Command
