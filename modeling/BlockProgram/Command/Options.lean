import BlockProgram.Text.Blank

/-! Command lines. Options may stand before or after the command and its arguments; those after it
win. Short options may be joined, and a value may follow its option at once. -/
namespace BlockProgram.Command

structure Options where
  colored : Bool := true
  /-- How much is logged. -/
  verbosity : Nat := 0
  /-- A file of settings instead of the usual one. -/
  settings : Option String := none
  deriving DecidableEq, Repr

/-- What is to be done. -/
inductive Request where
  | generate (file : String) (output : Option String)
  | check (file : String)
  | run (file : String) (interpreter : Option String) (args : List String)
  | list
  | test (path : String) (categories : List String) (listOnly : Bool)
  deriving DecidableEq, Repr

/-- An option that a command knows. -/
structure OptionSpec where
  name : String
  letter : Option Char := none
  /-- The option has a value. -/
  valued : Bool := false
  /-- The option may be given more than once. -/
  repeats : Bool := false

/-- The words of a command line: options with their values, and the others. -/
structure Words where
  options : List (String × String) := []
  plain : List String := []
  /-- What follows the mark after which nothing is an option. -/
  rest : List String := []
  deriving DecidableEq, Repr

namespace Words

def give (w : Words) (name value : String) : Words := { w with options := (name, value) :: w.options }

def values (w : Words) (name : String) : List String :=
  (w.options.filter fun o => o.1 = name).map (·.2)

def count (w : Words) (name : String) : Nat := (w.values name).length

def has (w : Words) (name : String) : Bool := w.count name ≠ 0

def value? (w : Words) (name : String) : Option String := (w.values name).head?

end Words

def isOption (word : String) : Bool := word.toList.head? = some '-' && word ≠ "-"

/-- Joined short options: those that are complete, and the name of one whose value is the next word. -/
def letters (specs : List OptionSpec) :
    List Char → Option (List (String × String) × Option String)
  | [] => some ([], none)
  | c :: more => do
    let spec ← specs.find? fun s => s.letter = some c
    if spec.valued then
      match more with
      | [] => return ([], some spec.name)
      | '=' :: value => return ([(spec.name, String.ofList value)], none)
      | value => return ([(spec.name, String.ofList value)], none)
    else
      let (given, open?) ← letters specs more
      return ((spec.name, "") :: given, open?)

/-- A long option: what it gives, or its name if its value is the next word. -/
def long (specs : List OptionSpec) (word : List Char) :
    Option (List (String × String) × Option String) := do
  let (name, value) := match Text.splitAtFirst? ['='] word with
    | some (name, value) => (String.ofList name, some (String.ofList value))
    | none => (String.ofList word, none)
  let spec ← specs.find? fun s => s.name = name
  match spec.valued, value with
  | true, some value => return ([(name, value)], none)
  | true, none => return ([], some name)
  | false, some _ => none
  | false, none => return ([(name, "")], none)

/-- The words of a line. `waiting` is an option whose value comes next. If `single`, the line ends
at its first plain word. -/
def scan (specs : List OptionSpec) (single : Bool) : Option String → List String → Option Words
  | none, [] => some {}
  | some _, [] => none
  | some name, word :: more =>
    if isOption word then none
    else (scan specs single none more).map (·.give name word)
  | none, word :: more =>
    match word.toList with
    | ['-', '-'] => some { rest := more }
    | '-' :: '-' :: name => do
      let (given, waiting) ← long specs name
      let w ← scan specs single waiting more
      return { w with options := given ++ w.options }
    | '-' :: c :: name => do
      let (given, waiting) ← letters specs (c :: name)
      let w ← scan specs single waiting more
      return { w with options := given ++ w.options }
    | _ =>
      if single then some { plain := [word], rest := more }
      else (scan specs single none more).map fun w => { w with plain := word :: w.plain }

/-- The words of a line in which no option is given more often than it may be. -/
def words? (specs : List OptionSpec) (single : Bool) (line : List String) : Option Words := do
  let w ← scan specs single none line
  if specs.all fun s => s.repeats || w.count s.name ≤ 1 then some w else none

def commonOptions : List OptionSpec :=
  [{ name := "no-color" }, { name := "verbose", letter := some 'v', repeats := true },
    { name := "config", valued := true }]

def Options.update (o : Options) (w : Words) : Options :=
  { colored := o.colored && !w.has "no-color"
    verbosity := if w.has "verbose" then w.count "verbose" else o.verbosity
    settings := (w.value? "config").or o.settings }

def ownOptions : String → List OptionSpec
  | "generate" => [{ name := "output", letter := some 'o', valued := true }]
  | "run" => [{ name := "interpreter", valued := true }]
  | "test" =>
    [{ name := "category", letter := some 'c', valued := true, repeats := true },
      { name := "list-categories" }]
  | _ => []

def onlyWord : List String → Option String
  | [word] => if word = "" then none else some word
  | _ => none

/-- The request of a command with its words. Only the arguments of a program to be run may follow
the mark. -/
def request? (command : String) (w : Words) : Option Request := do
  match command with
  | "generate" => return .generate (← onlyWord (w.plain ++ w.rest)) (w.value? "output")
  | "check" => return .check (← onlyWord (w.plain ++ w.rest))
  | "run" => return .run (← onlyWord w.plain) (w.value? "interpreter") w.rest
  | "list" => if (w.plain ++ w.rest).isEmpty then some .list else none
  | "test" =>
    return .test (← onlyWord (w.plain ++ w.rest)) (w.values "category") (w.has "list-categories")
  | _ => none

def parse? (line : List String) : Option (Options × Request) := do
  let before ← words? commonOptions true line
  let command ← before.plain.head?
  let after ← words? (ownOptions command ++ commonOptions) false before.rest
  if "" ∈ before.values "config" ++ after.values "config" ++ after.values "output" then none
  else
    let request ← request? command after
    return ((({} : Options).update before).update after, request)

end BlockProgram.Command
