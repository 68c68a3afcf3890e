import BlockProgram.Python.Recipe

/-! Lists, dictionaries, joined texts, elements of lists, and arrays of zeros. -/
namespace BlockProgram.Python.Rules

open Recipe

def indexModes : List String := ["GET", "GET_REMOVE", "REMOVE"]

def indexPlaces : List String := ["FROM_START", "FROM_END", "FIRST", "LAST"]

/-- The values in the sockets `name` and a number, for `count` numbers from `start` on. -/
def numberedValues (b : Block) (name default : String) : Nat → Nat → Recipe (List String)
  | 0, _ => return []
  | count + 1, start => do
    let v ← valueOr b (name ++ toString start) .whole default
    return v :: (← numberedValues b name default count (start + 1))

/-- The value of every unit of a block, with `default` for the empty ones. -/
def items (b : Block) (name default : String) : Recipe (List String) := do
  numberedValues b name default (← itemCount b) 0

def list : Rule := fun b => do
  return .expression ("[" ++ Text.join ", " (← items b "ITEM" "None") ++ "]") .collection

def entries (b : Block) : Nat → Nat → Recipe (List String)
  | 0, _ => return []
  | count + 1, start => do
    let key ← valueOr b ("KEY" ++ toString start) .whole "None"
    let value ← valueOr b ("VALUE" ++ toString start) .whole "None"
    return (key ++ ": " ++ value) :: (← entries b count (start + 1))

def dictionary : Rule := fun b => do
  return .expression ("\x7b" ++ Text.join ", " (← entries b (← itemCount b) 0) ++ "\x7d") .collection

/-- Texts in a row: a sum of two, a joined list of more. -/
def joinedText : Rule := fun b => do
  let parts := (← items b "ITEM" "''").map fun p => "str(" ++ p ++ ")"
  match parts with
  | [] => return .expression "''" .atom
  | [only] => return .expression only .call
  | [x, y] => return .expression (x ++ " + " ++ y) .sum
  | _ => return .expression ("''.join([" ++ Text.join ", " parts ++ "])") .call

/-- The index of an element: from the start counted from zero, from the end counted from one. The last
element has no index of its own. -/
def elementIndex (b : Block) (place : String) : Recipe (Option String) := do
  match place with
  | "FIRST" => return some "0"
  | "LAST" => return none
  | "FROM_START" => return some (← valueOr b "AT" .whole "0")
  | _ => return some ("-" ++ (← valueOr b "AT" .sign "1"))

def element : Rule := fun b => do
  let mode ← variant b
  let place ← choice b "WHERE" indexPlaces
  let list ← valueOr b "VALUE" .call "[]"
  let index ← elementIndex b place
  match mode with
  | "GET" => return .expression (list ++ "[" ++ index.getD "-1" ++ "]") .member
  | "GET_REMOVE" => return .expression (list ++ ".pop(" ++ index.getD "" ++ ")") .call
  | "REMOVE" => return .statement (list ++ ".pop(" ++ index.getD "" ++ ")\n")
  | other => faulty (.invalidField b.id b.type "MODE" other)

def zeros : Rule := fun b => do
  requireImport "import numpy as np"
  let shape ← match ← items b "DIM" "1" with
    | [] => pure "()"
    | [only] => pure only
    | dims => pure ("(" ++ Text.join ", " dims ++ ")")
  return .expression ("np.zeros(" ++ shape ++ ")") .call

def collections : List (Shape × Rule) :=
  [({ type := "lists_create_with", connectors := .expressionOf ["Array"]
      mutator := .repeats {
        placeholder := "lists_create_with_item", templates := [.value "ITEM"]
        firstLabel := some "create list with", emptyLabel := some "create empty list"
        initial := 3 } }, list),
   ({ type := "dicts_create_with", connectors := .expressionOf ["Dictionary"]
      mutator := .repeats {
        placeholder := "dicts_create_with_item"
        templates := [.value "KEY", .labelled ":" (.value "VALUE")]
        firstLabel := some "create dict with", emptyLabel := some "create empty dict"
        initial := 1 } }, dictionary),
   ({ type := "text_join", connectors := .expressionOf ["String"]
      mutator := .repeats {
        placeholder := "text_create_join_item", templates := [.value "ITEM"]
        firstLabel := some "create text with", emptyLabel := some "create empty text"
        initial := 2 } }, joinedText),
   ({ type := "lists_get_index", connectors := .expression
      fields := [.dropdown "MODE" indexModes, .dropdown "WHERE" indexPlaces]
      sockets := [.labelled "in list" (.accepting ["Array"] (.value "VALUE")),
        .accepting ["Number"] (.value "AT")]
      mutator := .variants "MODE"
        [⟨"GET", .expression⟩, ⟨"GET_REMOVE", .expression⟩, ⟨"REMOVE", .statement⟩] }, element),
   ({ type := "ndarray_zeros", connectors := .expressionOf ["Array"]
      fields := [.number "DIMS" (.ofNat 1)]
      mutator := .repeats {
        placeholder := "ndarray_zeros_dim", templates := [.accepting ["Number"] (.value "DIM")]
        firstLabel := some "zeros of shape", emptyLabel := some "zero scalar"
        countField := some "DIMS", initial := 1 } }, zeros)]

end BlockProgram.Python.Rules
