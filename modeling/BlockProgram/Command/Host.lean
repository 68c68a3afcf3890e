import BlockProgram.Files.Fault
import BlockProgram.Files.Tree

/-! Hosts: what a command needs from the machine it runs on. -/
namespace BlockProgram.Command

/-- A program to be started. -/
structure Launch where
  program : String
  args : List String
  directory : String
  deriving DecidableEq, Repr

/-- How a program has ended. -/
structure Ending where
  /-- The exit status; none after a signal. -/
  status : Option Nat
  out : List UInt8 := []
  err : List UInt8 := []
  deriving DecidableEq, Repr

structure Host (m : Type → Type) where
  readText : String → m (Except FileFault String)
  writeText : String → String → m (Except FileFault Unit)
  remove : String → m (Except FileFault Unit)
  isFile : String → m Bool
  /-- The files below a directory, perhaps without what they hold; none if there is no such
  directory. -/
  tree : String → m FileTree
  /-- A name for a source file that no other file has. -/
  sourceName : m String
  /-- Run a program without input to its end. -/
  start : Launch → m (Except FileFault Ending)

end BlockProgram.Command
