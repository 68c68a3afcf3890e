import BlockProgram.Python.Recipe
import BlockProgram.Text.Sorted

/-! Generation runs. A run goes through the chains of a workspace, lets each block be turned into text
by the rule of its type, at most once and at most 256 levels deep, and collects names, definitions and
faulty blocks on the way. -/
namespace BlockProgram.Python

/-- What a run has collected. -/
structure Progress where
  /-- The definitions for the top of the program, with their keys. -/
  definitions : List (String × String) := []
  names : Names := {}
  visited : List BlockId := []
  faults : List BlockFault := []
  deriving DecidableEq, Repr

abbrev Run (α : Type) := ExceptT GenerationError (StateM Progress) α

def Progress.define (p : Progress) (key code : String) : Progress :=
  if p.definitions.any fun entry => entry.1 = key then p
  else { p with definitions := p.definitions ++ [(key, code)] }

/-- Carry out a recipe. `visit` runs the rules of other blocks. -/
def Recipe.run {α : Type} (visit : BlockId → Run Fragment) (setting : Setting) : Recipe α → Run α
  | .done a => pure a
  | .fail e => throw e
  | .look k => (k setting).run visit setting
  | .visit id k => fun p =>
    let (result, p) := visit id p
    (k result).run visit setting p
  | .variableName user k => fun p =>
    let (name, names) := p.names.variableName user
    (k name).run visit setting { p with names }
  | .distinctName base k => fun p =>
    let (name, names) := p.names.distinct base
    (k name).run visit setting { p with names }
  | .define key code k => fun p => k.run visit setting (p.define key code)

/-- What stands in for a faulty block, so that the run can go on. -/
def placeholder (b : Block) : Fragment :=
  if b.connectors.output then .expression "None" .atom else .statement "pass\n"

/-- Note the fault of a block by itself and go on; every other failure ends the run. -/
def recordFault (b : Block) (result : Except GenerationError Fragment) : Run Fragment := fun p =>
  match result with
  | .error (.fault fault) => (.ok (placeholder b), { p with faults := p.faults ++ [fault] })
  | other => (other, p)

/-- Turn a block into text, with `levels` left for the blocks beneath it. -/
def blockCode (rules : RuleRegistry) (setting : Setting) : Nat → BlockId → Run Fragment
  | levels, id => fun p =>
    match setting.workspace.find? id with
    | none => (.error (.unknownBlock id), p)
    | some b =>
      if id ∈ p.visited then (.error (.revisited id), p)
      else
        let p := { p with visited := id :: p.visited }
        match levels with
        | 0 => (.error (.tooDeep id), p)
        | levels + 1 =>
          match rules.get? b.type with
          | none => (.error (.missingRules [b.type]), p)
          | some rule =>
            let (result, p) := (rule b).run (blockCode rules setting levels) setting p
            recordFault b result p

def maxDepth : Nat := 256

/-- The names of a workspace before anything is generated: every variable of the user has its own. -/
def userNames (w : Workspace) : Names :=
  let users := w.blocks.flatMap fun b =>
    match w.shapes.get? b.type with
    | none => []
    | some shape => (shape.fields.filter (·.isVariable)).filterMap fun spec =>
        (b.field? spec.name).bind (·.string?)
  users.foldl (fun names user => (names.variableName user).2) {}

/-- The definitions, an empty line, and the body; the body alone if there are no definitions. -/
def assemble (definitions : List String) (body : String) : String :=
  if definitions.isEmpty then body else Text.join "\n" definitions ++ "\n\n" ++ body

/-- The end of a run: the program, unless blocks were faulty. -/
def finish (p : Progress) (body : String) : Except GenerationError String :=
  match p.faults with
  | [] => .ok (assemble (p.definitions.map (·.2)) body)
  | [fault] => .error (.fault fault)
  | faults => .error (.invalidBlocks faults)

/-- Turns workspaces into programs with the rules of a vocabulary. -/
structure Generator where
  rules : RuleRegistry
  /-- Blanks for each level of nesting. -/
  indent : Nat := 4

namespace Generator

def preflight (g : Generator) (w : Workspace) : Except GenerationError Unit :=
  match Text.sortedOnce ((w.blocks.map (·.type)).filter fun t => !g.rules.has t) with
  | [] => .ok ()
  | missing => .error (.missingRules missing)

/-- The heads of the chains to generate, in layout order: the entry points, or every chain of
statements at the top if there is no entry point. -/
def roots (w : Workspace) : List BlockId :=
  let heads := w.topBlocks.filter fun b => !b.connectors.output
  let entries := heads.filter fun b =>
    match w.shapes.get? b.type with
    | some shape => shape.entryPoint
    | none => false
  (if entries.isEmpty then heads else entries).map (·.id)

def chains : List BlockId → Recipe (List String)
  | [] => return []
  | head :: rest => return (← Recipe.chain head) :: (← chains rest)

def generate (g : Generator) (w : Workspace) : Except GenerationError String := do
  g.preflight w
  let setting : Setting := ⟨w, String.ofList (List.replicate g.indent ' ')⟩
  let run := (chains (roots w)).run (blockCode g.rules setting maxDepth) setting
  match run { names := userNames w } with
  | (.ok codes, p) => finish p (Text.join "\n" codes)
  | (.error e, _) => .error e

end Generator

end BlockProgram.Python
