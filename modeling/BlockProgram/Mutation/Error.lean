import BlockProgram.Block.Basic
import BlockProgram.Text.Quoted

/-! Why an edit of a workspace or a reshaping of a block is refused, and the texts that say so. -/
namespace BlockProgram

/-- A refused edit. -/
inductive EditError where
  | unknownBlock (id : BlockId)
  | unknownType (type : String)
  | duplicateBlock (id : BlockId)
  | unknownSocket (block : BlockId) (socket : String)
  | wrongSocketKind (block : BlockId) (socket : String) (expected : SocketKind)
  | noOutput (id : BlockId)
  | noPrevious (id : BlockId)
  | noNext (id : BlockId)
  | typeMismatch (block : BlockId) (socket : String) (child : BlockId)
  | cycle (parent child : BlockId)
  | unknownField (block : BlockId) (field : String)
  | invalidFieldValue (block : BlockId) (field : String) (value : FieldValue)
  deriving DecidableEq, Repr

def SocketKind.title : SocketKind → String
  | .value => "Value"
  | .statement => "Statement"
  | .dummy => "Dummy"

def EditError.message : EditError → String
  | .unknownBlock id => "no block with id " ++ id.text
  | .unknownType type => "no shape registered for block type " ++ type
  | .duplicateBlock id => "a block with id " ++ id.text ++ " already exists"
  | .unknownSocket block socket => "block " ++ block.text ++ " has no socket " ++ socket
  | .wrongSocketKind block socket expected =>
    "socket " ++ socket ++ " on block " ++ block.text ++ " is not a " ++ expected.title ++ " socket"
  | .noOutput id => "block " ++ id.text ++ " has no output connector"
  | .noPrevious id => "block " ++ id.text ++ " has no previous connector"
  | .noNext id => "block " ++ id.text ++ " has no next connector"
  | .typeMismatch block socket child =>
    "block " ++ child.text ++ " does not fit socket " ++ socket ++ " on block " ++ block.text ++
      ": type mismatch"
  | .cycle parent child =>
    "connecting " ++ child.text ++ " beneath " ++ parent.text ++ " would create a cycle"
  | .unknownField block field => "block " ++ block.text ++ " has no field " ++ field
  | .invalidFieldValue block field value =>
    "field " ++ field ++ " on block " ++ block.text ++ " cannot hold " ++ value.shown

/-- A change of structure that a shape does not have. -/
inductive Operation where
  | reshape
  | variantSwitching
  | compose
  | decompose
  deriving DecidableEq, Repr

def Operation.title : Operation → String
  | .reshape => "reshape"
  | .variantSwitching => "variant switching"
  | .compose => "compose"
  | .decompose => "decompose"

/-- A refused reshaping. -/
inductive MutationError where
  | malformedToken (token : String)
  | incompatible (type token : String)
  | unknownPlaceholder (type kind : String)
  | tooManyUnits (type kind : String) (max : Nat)
  | unknownVariant (type variant : String)
  | unsupported (type : String) (operation : Operation)
  | edit (error : EditError)
  deriving DecidableEq, Repr

def MutationError.message : MutationError → String
  | .malformedToken token => "malformed mutation token " ++ Text.quoted token
  | .incompatible type token =>
    "block type " ++ type ++ " does not accept mutation " ++ Text.quoted token
  | .unknownPlaceholder type kind =>
    "block type " ++ type ++ " has no satellite placeholder " ++ kind
  | .tooManyUnits type kind max =>
    "block type " ++ type ++ " allows at most " ++ toString max ++ " " ++ kind ++ " unit(s)"
  | .unknownVariant type variant => "block type " ++ type ++ " has no variant " ++ variant
  | .unsupported type operation =>
    "block type " ++ type ++ " does not support " ++ operation.title
  | .edit error => error.message

/-- A refused change of a field. Fields that select the structure of a block reshape it. -/
inductive FieldError where
  | edit (error : EditError)
  | mutation (error : MutationError)
  deriving DecidableEq, Repr

def FieldError.message : FieldError → String
  | .edit error => error.message
  | .mutation error => error.message

end BlockProgram
