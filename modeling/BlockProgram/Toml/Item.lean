/-! TOML tables while a text is read, and when a key or a table header may add to them: a table is
defined once, and a key has one value. -/
namespace BlockProgram.Toml

/-- How a table came to be. -/
inductive Origin where
  /-- By a header of its own. -/
  | header
  /-- By the header of a table inside it. -/
  | implied
  /-- By a dotted key. -/
  | dotted
  /-- As an inline value, which is complete. -/
  | inline
  deriving DecidableEq, Repr

inductive Item where
  | string (s : String)
  | integer (n : Int)
  | boolean (b : Bool)
  /-- A number with a fraction or an exponent; no setting is one. -/
  | float
  /-- A date or a time. -/
  | moment
  | array (elements : List Item)
  | table (origin : Origin) (entries : List (String × Item))
  /-- An array of tables that is built by headers, the last table first. -/
  | tables (reversed : List (List (String × Item)))

abbrev Entries := List (String × Item)

namespace Entries

def get? (entries : Entries) (key : String) : Option Item :=
  (entries.find? fun e => e.1 = key).map (·.2)

def set (entries : Entries) (key : String) (item : Item) : Entries :=
  if (get? entries key).isSome then entries.map fun e => if e.1 = key then (key, item) else e
  else entries ++ [(key, item)]

/-- Change the table at the end of a path. Missing tables on the way are made with the origin `made`; a
dotted key passes only through tables that no header has defined. -/
def descend (made : Origin) (change : Origin → Entries → Option Entries) :
    List String → Origin → Entries → Option Entries
  | [], origin, entries => change origin entries
  | key :: path, _, entries =>
    match get? entries key with
    | none => do
      let inner ← descend made change path made []
      return set entries key (.table made inner)
    | some (.table origin inner) =>
      if origin = .inline ∨ (made = .dotted ∧ origin = .header) then none
      else do
        let inner ← descend made change path origin inner
        return set entries key (.table origin inner)
    | some (.tables (last :: before)) => do
      let last ← descend made change path .header last
      return set entries key (.tables (last :: before))
    | some _ => none

def addValue (entries : Entries) (path : List String) (key : String) (item : Item) :
    Option Entries :=
  descend .dotted (fun origin inner =>
    if (origin = .dotted ↔ path.isEmpty) ∨ (get? inner key).isSome then none
    else some (inner ++ [(key, item)])) path .header entries

def addTable (entries : Entries) (path : List String) (key : String) : Option Entries :=
  descend .implied (fun _ inner =>
    match get? inner key with
    | none => some (inner ++ [(key, .table .header [])])
    | some (.table .implied old) => some (set inner key (.table .header old))
    | some _ => none) path .header entries

def addElement (entries : Entries) (path : List String) (key : String) : Option Entries :=
  descend .implied (fun _ inner =>
    match get? inner key with
    | none => some (inner ++ [(key, .tables [[]])])
    | some (.tables old) => some (set inner key (.tables ([] :: old)))
    | some _ => none) path .header entries

def inCurrent (change : Entries → Option Entries) (path : List String) (entries : Entries) :
    Option Entries :=
  descend .implied (fun _ inner => change inner) path .header entries

end Entries

end BlockProgram.Toml
