import BlockProgram.Toml.Member
import BlockProgram.Toml.Reader

/-! Settings: how programs are generated and run, as a TOML text gives them. -/
namespace BlockProgram

/-- How a generated program is run. -/
structure RunSettings where
  interpreter : String := "python3"
  /-- Arguments after the name of the source file. -/
  args : List String := []
  /-- The directory of the source file, in which the interpreter runs. -/
  workingDir : String := "."
  keepSource : Bool := false
  deriving DecidableEq, Repr

structure Settings where
  run : RunSettings := {}
  /-- Blanks for each level of indentation. -/
  indent : Nat := 4
  deriving DecidableEq, Repr

namespace Settings

def fileName : String := "blocks.toml"

open Toml

def readRun (item : Item) : Option RunSettings := do
  let default : RunSettings := {}
  let members ← item.members? ["interpreter", "args", "working_dir", "keep_source"]
  return {
    interpreter := ← members.read "interpreter" Item.string? default.interpreter
    args := ← members.read "args" Item.strings? default.args
    workingDir := ← members.read "working_dir" Item.string? default.workingDir
    keepSource := ← members.read "keep_source" Item.boolean? default.keepSource }

def readIndent (item : Item) : Option Nat := do
  let members ← item.members? ["indent"]
  members.read "indent" Item.natural? ({} : Settings).indent

def read? (text : String) : Option Settings := do
  let default : Settings := {}
  let members ← (← Toml.read? text).members? ["run", "generate"]
  return {
    run := ← members.read "run" readRun default.run
    indent := ← members.read "generate" readIndent default.indent }

end Settings

end BlockProgram
