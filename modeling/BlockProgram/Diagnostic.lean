/-! Diagnostics: what is told to the user about a failure. -/
namespace BlockProgram

/-- A marked range of a source text, in bytes. -/
structure Label where
  start : Nat
  stop : Nat
  text : String
  deriving DecidableEq, Repr

structure Diagnostic where
  message : String
  labels : List Label := []
  notes : List String := []
  deriving DecidableEq, Repr

end BlockProgram
