import BlockProgram.Command.Program
import BlockProgram.Command.Test

/-! Performing command lines on a host. -/
namespace BlockProgram.Command

def typeLine (shape : Shape) : String :=
  let mutator := match shape.mutator with
    | .fixed => ""
    | .branches => "branches"
    | .repeats r =>
      "repeat " ++ r.placeholder ++ " (initial " ++ toString r.initial ++ ")"
    | .variants field variants =>
      "variants " ++ field ++ " [" ++ Text.join ", " (variants.map (·.name)) ++ "]"
  let entry := if shape.entryPoint then " (entry point)" else ""
  if mutator = "" then shape.type ++ entry
  else shape.type ++ Diagnostic.blanks (24 - shape.type.length) ++ " " ++ mutator ++ entry

variable {m : Type → Type} [Monad m]

def listTypes : Session m Nat := do
  Session.write (Text.unlines (Python.standard.shapes.shapes.map typeLine))
  return 0

/-- The settings for a session. The usual file need not be there; another one must be. -/
def readSettings (host : Host m) (o : Options) : Session m Settings := do
  let path := o.settings.getD Settings.fileName
  if o.settings.isNone && !(← host.isFile path) then
    return {}
  match ← host.readText path with
  | .error fault =>
    Session.refuse o ("cannot read config '" ++ path ++ "': " ++ fault.message)
  | .ok text =>
    match Settings.read? text with
    | some settings => return settings
    | none => Session.refuse o ("invalid config '" ++ path ++ "': TOML parse error")

def answer (c : Context m) : Request → Session m Nat
  | .generate file output => generate c file output
  | .check file => check c file
  | .run file interpreter args => run c file interpreter args
  | .list => listTypes
  | .test path _ true => listCategories c path
  | .test path categories false => test c path categories

/-- Perform a command line: its exit code and what it writes. -/
def perform (host : Host m) (line : List String) : m (Nat × Console) :=
  match parse? line with
  | none => return (2, { err := "error: invalid arguments\n" })
  | some (options, request) =>
    Session.perform do
      let settings ← readSettings host options
      answer { host, options, settings } request

end BlockProgram.Command
