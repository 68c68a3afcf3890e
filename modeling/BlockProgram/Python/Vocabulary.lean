import BlockProgram.Python.Generator
import BlockProgram.Python.Rules.Collections
import BlockProgram.Python.Rules.Operators
import BlockProgram.Python.Rules.Statements
import BlockProgram.Python.Rules.Values

/-! Vocabularies: the block types that are known, with their shapes and rules. The standard one has
values, operators, collections, variables, control flow and an entry point. -/
namespace BlockProgram.Python

structure Vocabulary where
  shapes : ShapeRegistry := {}
  rules : RuleRegistry := {}

namespace Vocabulary

def addShape (v : Vocabulary) (shape : Shape) : Vocabulary :=
  { v with shapes := v.shapes.register shape }

def addRule (v : Vocabulary) (type : String) (rule : Rule) : Vocabulary :=
  { v with rules := v.rules.register type rule }

/-- Add block types; a later one replaces an earlier one of the same name. -/
def install (v : Vocabulary) (types : List (Shape × Rule)) : Vocabulary :=
  types.foldl (fun v entry => (v.addShape entry.1).addRule entry.1.type entry.2) v

/-- The generator of a vocabulary, with the given number of blanks for each level. -/
def generator (v : Vocabulary) (indent : Nat) : Generator := { rules := v.rules, indent }

end Vocabulary

/-- The block types of the standard vocabulary, in the order in which they are listed. -/
def standardTypes : List (Shape × Rule) :=
  Rules.values ++ Rules.operators ++ Rules.collections ++ Rules.assignment ++ Rules.control ++
    Rules.program

def standard : Vocabulary := ({} : Vocabulary).install standardTypes

end BlockProgram.Python
