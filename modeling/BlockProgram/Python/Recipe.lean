import BlockProgram.Python.Error
import BlockProgram.Python.Names
import BlockProgram.Python.Precedence
import BlockProgram.Workspace.Basic

/-! Rules turn one block into program text. A rule gives a recipe: it may ask for the text of other
blocks, for names, and for lines at the top of the program, and it can do nothing else. -/
namespace BlockProgram.Python

/-- The text of one block. -/
inductive Fragment where
  /-- An expression and the level of its outermost operator. -/
  | expression (code : String) (level : Precedence)
  /-- Whole lines, not indented. -/
  | statement (code : String)
  deriving DecidableEq, Repr

/-- What a rule may look at. -/
structure Setting where
  workspace : Workspace
  /-- One level of indentation. -/
  indent : String

/-- What a rule does on its way to a result. -/
inductive Recipe (α : Type) where
  | done (a : α)
  | fail (error : GenerationError)
  | look (next : Setting → Recipe α)
  /-- Run the rule of another block. -/
  | visit (id : BlockId) (next : Except GenerationError Fragment → Recipe α)
  /-- The identifier of a variable of the user. -/
  | variableName (user : String) (next : String → Recipe α)
  /-- A new identifier. -/
  | distinctName (base : String) (next : String → Recipe α)
  /-- Put a definition at the top of the program, once for each key. -/
  | define (key code : String) (next : Recipe α)

namespace Recipe

def bind {α β : Type} : Recipe α → (α → Recipe β) → Recipe β
  | done a, f => f a
  | fail e, _ => fail e
  | look k, f => look fun s => (k s).bind f
  | visit id k, f => visit id fun r => (k r).bind f
  | variableName user k, f => variableName user fun n => (k n).bind f
  | distinctName base k, f => distinctName base fun n => (k n).bind f
  | define key code k, f => define key code (k.bind f)

instance : Monad Recipe where
  pure := done
  bind := bind

def block (id : BlockId) : Recipe Fragment :=
  visit id fun
    | .ok fragment => done fragment
    | .error e => fail e

def workspace : Recipe Workspace := look fun s => done s.workspace

def indent : Recipe String := look fun s => done s.indent

def newName (base : String) : Recipe String := distinctName base done

def requireImport (line : String) : Recipe Unit := define line line (done ())

def faulty {α : Type} (fault : BlockFault) : Recipe α := fail (.fault fault)

def typeOf (w : Workspace) (id : BlockId) : String := ((w.find? id).map (·.type)).getD ""

/-- The expression in a value socket, in parentheses where `bound` asks for them. -/
def value? (b : Block) (socket : String) (bound : Precedence) : Recipe (Option String) := do
  match b.target? socket with
  | none => return none
  | some child =>
    match ← block child with
    | .expression code level => return some (parenthesize code level bound)
    | .statement _ => fail (.expectedExpression child (typeOf (← workspace) child))

/-- The expression in a value socket, or `default` if it is empty. -/
def valueOr (b : Block) (socket : String) (bound : Precedence) (default : String) : Recipe String := do
  return (← value? b socket bound).getD default

def statements : List BlockId → Recipe String
  | [] => return ""
  | id :: rest => do
    match ← block id with
    | .statement code => return code ++ (← statements rest)
    | .expression _ _ => fail (.expectedStatement id (typeOf (← workspace) id))

def chain (head : BlockId) : Recipe String := do statements ((← workspace).chain head)

/-- Every line with an indentation before it, except that blank lines become empty. -/
def indentWith (indent code : String) : String :=
  String.join <| (Text.lines code.toList).map fun line =>
    if line.all Text.isBlank then "\n" else indent ++ String.ofList line ++ "\n"

/-- The statements in a statement socket, one level deeper; nothing if it is empty. -/
def nested (b : Block) (socket : String) : Recipe String := do
  match b.target? socket with
  | none => return ""
  | some head => return indentWith (← indent) (← chain head)

def body (b : Block) (socket : String) : Recipe String := do
  let code ← nested b socket
  if code.isEmpty then return (← indent) ++ "pass\n" else return code

def field (b : Block) (name : String) : Recipe FieldValue :=
  match b.field? name with
  | some value => done value
  | none => faulty (.missingField b.id b.type name)

def invalid {α : Type} (b : Block) (name : String) (value : FieldValue) : Recipe α :=
  faulty (.invalidField b.id b.type name value.shown)

def text (b : Block) (name : String) : Recipe String := do
  match ← field b name with
  | .text s => return s
  | other => invalid b name other

def number (b : Block) (name : String) : Recipe Binary64 := do
  match ← field b name with
  | .number n => return n
  | other => invalid b name other

def choice (b : Block) (name : String) (known : List String) : Recipe String := do
  let value ← field b name
  match value.string? with
  | some s => if s ∈ known then return s else invalid b name value
  | none => invalid b name value

/-- The identifier of the variable of the user that a field names. -/
def variableOf (b : Block) (name : String) : Recipe String := do
  variableName (← text b name) done

def unexpected {α : Type} (b : Block) : Recipe α :=
  faulty (.unexpectedMutation b.id b.type b.mutation.token)

def itemCount (b : Block) : Recipe Nat :=
  match b.mutation with
  | .items n => done n
  | _ => unexpected b

/-- The number of else-if branches, and whether there is an else branch. -/
def branchCounts (b : Block) : Recipe (Nat × Bool) :=
  match b.mutation with
  | .branches n hasElse => done (n, hasElse)
  | _ => unexpected b

def variant (b : Block) : Recipe String :=
  match b.mutation with
  | .variant name => done name
  | _ => unexpected b

end Recipe

abbrev Rule := Block → Recipe Fragment

/-- The rules of a vocabulary by block type. -/
structure RuleRegistry where
  rules : List (String × Rule) := []

namespace RuleRegistry

def get? (registry : RuleRegistry) (type : String) : Option Rule :=
  (registry.rules.find? fun entry => entry.1 = type).map (·.2)

def has (registry : RuleRegistry) (type : String) : Bool := (registry.get? type).isSome

def register (registry : RuleRegistry) (type : String) (rule : Rule) : RuleRegistry :=
  if registry.has type then
    ⟨registry.rules.map fun entry => if entry.1 = type then (type, rule) else entry⟩
  else ⟨registry.rules ++ [(type, rule)]⟩

end RuleRegistry

end BlockProgram.Python
