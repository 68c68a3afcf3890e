import BlockProgram.Diagnostic
import BlockProgram.Mutation.Error

/-! Why no program is generated from a workspace. -/
namespace BlockProgram.Python

/-- What is wrong with one block by itself: a field or its structure. -/
inductive BlockFault where
  | missingField (block : BlockId) (type field : String)
  | invalidField (block : BlockId) (type field value : String)
  | unexpectedMutation (block : BlockId) (type token : String)
  deriving DecidableEq, Repr

def BlockFault.message : BlockFault → String
  | .missingField block type field =>
    "block " ++ block.text ++ " (" ++ type ++ ") has no field " ++ field
  | .invalidField block type field value =>
    "block " ++ block.text ++ " (" ++ type ++ "): unrecognised value " ++ Text.quoted value ++
      " for field " ++ field
  | .unexpectedMutation block type token =>
    "block " ++ block.text ++ " (" ++ type ++ ") has unexpected shape " ++ Text.quoted token

inductive GenerationError where
  | missingRules (types : List String)
  | unknownBlock (id : BlockId)
  | fault (fault : BlockFault)
  | expectedExpression (block : BlockId) (type : String)
  | expectedStatement (block : BlockId) (type : String)
  /-- Several blocks are wrong by themselves. -/
  | invalidBlocks (faults : List BlockFault)
  | revisited (id : BlockId)
  | tooDeep (id : BlockId)
  deriving DecidableEq, Repr

namespace GenerationError

def message : GenerationError → String
  | .missingRules types => "no generator rule for block type(s): " ++ Text.join ", " types
  | .unknownBlock id => "no block with id " ++ id.text
  | .fault f => f.message
  | .expectedExpression block type =>
    "block " ++ block.text ++ " (" ++ type ++ ") does not produce a value"
  | .expectedStatement block type =>
    "block " ++ block.text ++ " (" ++ type ++ ") is not a statement"
  | .invalidBlocks faults => toString faults.length ++ " blocks cannot be generated"
  | .revisited id => "block " ++ id.text ++ " reached twice during generation"
  | .tooDeep id => "block " ++ id.text ++ " is nested too deeply"

/-- The diagnostic of a failure. No source text is at hand, so blocks and types stand in notes. -/
def diagnostic (error : GenerationError) : Diagnostic :=
  match error with
  | .missingRules types =>
    { message := "cannot generate code: " ++ toString types.length ++
        " block type(s) have no generator rule"
      notes := types.map ("missing rule: " ++ ·) }
  | .invalidBlocks faults =>
    { message := "cannot generate code: " ++ toString faults.length ++ " blocks are invalid"
      notes := faults.map BlockFault.message }
  | other => { message := "cannot generate code", notes := [other.message] }

end GenerationError

end BlockProgram.Python
