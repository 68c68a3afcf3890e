/-! Why a file cannot be used. -/
namespace BlockProgram

inductive FileFault where
  | notFound
  | notPermitted
  | notDirectory
  | isDirectory
  /-- The bytes of the file are no text in UTF-8. -/
  | notText
  | other (message : String)
  deriving DecidableEq, Repr

def FileFault.message : FileFault → String
  | .notFound => "No such file or directory (os error 2)"
  | .notPermitted => "Permission denied (os error 13)"
  | .notDirectory => "Not a directory (os error 20)"
  | .isDirectory => "Is a directory (os error 21)"
  | .notText => "stream did not contain valid UTF-8"
  | .other message => message

end BlockProgram
