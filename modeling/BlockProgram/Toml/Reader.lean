import BlockProgram.Toml.Item
import BlockProgram.Toml.Moment

/-! Reading TOML. A text is either read in full or refused; a refusal has no more to say here. -/
namespace BlockProgram.Toml

abbrev Reader (α : Type) := StateT (List Char) Option α

namespace Reader

def refuse {α : Type} : Reader α := fun _ => none

def head? : Reader (Option Char) := return (← get).head?

def skip : Reader Unit := modify List.tail

def expect (s : String) : Reader Unit := do
  if s.toList.isPrefixOf (← get) then modify (List.drop s.toList.length) else refuse

def startsWith (s : String) : Reader Bool := return s.toList.isPrefixOf (← get)

def takeWhile (p : Char → Bool) : Reader (List Char) := fun s => some (s.takeWhile p, s.dropWhile p)

def isBlank (c : Char) : Bool := c = ' ' || c = '\t'

def blanks : Reader Unit := discard (takeWhile isBlank)

def lineEnd? : Reader Bool := fun s =>
  match s with
  | '\n' :: rest => some (true, rest)
  | '\r' :: '\n' :: rest => some (true, rest)
  | s => some (false, s)

def isPlain (c : Char) : Bool := c = '\t' || (0x20 ≤ c.toNat && c.toNat ≠ 0x7F)

def comment : Reader Unit := do
  if (← head?) = some '#' then discard (takeWhile isPlain)

def lineRest : Reader Unit := do
  blanks
  comment
  if (← get).isEmpty then return
  if ← lineEnd? then return
  refuse

def space : Nat → Reader Unit
  | 0 => return
  | fuel + 1 => do
    blanks
    comment
    if ← lineEnd? then space fuel

def anySpace : Reader Unit := do space ((← get).length + 1)

def hexValue (c : Char) : Option Nat :=
  if c.isDigit then some (c.toNat - '0'.toNat)
  else if 'a' ≤ c ∧ c ≤ 'f' then some (c.toNat - 'a'.toNat + 10)
  else if 'A' ≤ c ∧ c ≤ 'F' then some (c.toNat - 'A'.toNat + 10)
  else none

def codePoint : Nat → Nat → Reader Char
  | 0, n => if h : n.isValidChar then return Char.ofNatAux n h else refuse
  | count + 1, n => do
    match (← head?).bind hexValue with
    | some d => do skip; codePoint count (16 * n + d)
    | none => refuse

def escape : Reader Char := do
  let c ← head?
  skip
  match c with
  | some 'b' => return '\x08'
  | some 't' => return '\t'
  | some 'n' => return '\n'
  | some 'f' => return '\x0c'
  | some 'r' => return '\r'
  | some '"' => return '"'
  | some '\\' => return '\\'
  | some 'u' => codePoint 4 0
  | some 'U' => codePoint 8 0
  | _ => refuse

def basicRest : Nat → Reader (List Char)
  | 0 => refuse
  | fuel + 1 => do
    match ← head? with
    | none => refuse
    | some c =>
      skip
      if c = '"' then return []
      else if c = '\\' then return (← escape) :: (← basicRest fuel)
      else if isPlain c then return c :: (← basicRest fuel)
      else refuse

def literalRest : Reader (List Char) := do
  let s ← takeWhile fun c => isPlain c && c ≠ '\''
  expect "'"
  return s

/-- The end of a string of many lines: three quotes, of which up to two more may belong to the text. -/
def closing (quote : Char) : Reader (Option (List Char)) := do
  let quotes := ((← get).takeWhile (· = quote)).length
  if quotes < 3 then return none
  else
    let kept := min (quotes - 3) 2
    modify (List.drop (kept + 3))
    return some (List.replicate kept quote)

def withoutLineEnds : List Char → List Char
  | '\r' :: '\n' :: rest => withoutLineEnds rest
  | c :: rest => if isBlank c || c = '\n' then withoutLineEnds rest else c :: rest
  | [] => []

/-- The rest of a string of many lines. A backslash at the end of a line joins the lines. -/
def basicLines : Nat → Reader (List Char)
  | 0 => refuse
  | fuel + 1 => do
    match ← closing '"' with
    | some kept => return kept
    | none =>
      if ← lineEnd? then return '\n' :: (← basicLines fuel)
      match ← head? with
      | none => refuse
      | some '\\' =>
        skip
        let rest ← get
        blanks
        if ← lineEnd? then
          modify withoutLineEnds
          basicLines fuel
        else
          set rest
          return (← escape) :: (← basicLines fuel)
      | some c =>
        skip
        if isPlain c then return c :: (← basicLines fuel) else refuse

def literalLines : Nat → Reader (List Char)
  | 0 => refuse
  | fuel + 1 => do
    match ← closing '\'' with
    | some kept => return kept
    | none =>
      if ← lineEnd? then return '\n' :: (← literalLines fuel)
      match ← head? with
      | none => refuse
      | some c =>
        skip
        if isPlain c then return c :: (← literalLines fuel) else refuse

/-- A string, in any of its four forms, or in the two that stand on one line. -/
def string (manyLines : Bool) : Reader String := do
  let fuel := (← get).length + 1
  let chars ← (do
    if manyLines ∧ (← startsWith "\"\"\"") then
      expect "\"\"\""
      let _ ← lineEnd?
      basicLines fuel
    else if manyLines ∧ (← startsWith "'''") then
      expect "'''"
      let _ ← lineEnd?
      literalLines fuel
    else if (← head?) = some '"' then do skip; basicRest fuel
    else do expect "'"; literalRest : Reader (List Char))
  return String.ofList chars

def isBare (c : Char) : Bool := c.isAlphanum || c = '-' || c = '_'

def simpleKey : Reader String := do
  match ← head? with
  | some '"' => string false
  | some '\'' => string false
  | _ =>
    let s ← takeWhile isBare
    if s.isEmpty then refuse else return String.ofList s

/-- A dotted key, as its parts before the last one, and the last one. -/
def key : Nat → Reader (List String × String)
  | 0 => refuse
  | fuel + 1 => do
    blanks
    let part ← simpleKey
    blanks
    if (← head?) = some '.' then
      skip
      let (path, last) ← key fuel
      return (part :: path, last)
    else return ([], part)

def wholeKey : Reader (List String × String) := do key ((← get).length + 1)

def digits (isDigit : Char → Bool) : Reader (List Char) := do
  let s ← takeWhile fun c => isDigit c || c = '_'
  let rec separated : List Char → Bool
    | [] => false
    | [c] => isDigit c
    | c :: d :: rest => (isDigit c || isDigit d) && separated (d :: rest)
  if (s.head?.any isDigit) ∧ separated s then return s.filter isDigit else refuse

def natural (base : Nat) (s : List Char) : Nat :=
  s.foldl (fun n c => base * n + (hexValue c).getD 0) 0

def maxInteger : Nat := Nat.pow 2 63 - 1

def radixInteger (base : Nat) (isDigit : Char → Bool) : Reader Item := do
  modify (List.drop 2)
  let n := natural base (← digits isDigit)
  if n ≤ maxInteger then return .integer n else refuse

def exponent : Reader Unit := do
  match ← head? with
  | some '+' => skip
  | some '-' => skip
  | _ => pure ()
  let _ ← digits Char.isDigit

def decimal : Reader Item := do
  let sign ← head?
  if sign = some '+' ∨ sign = some '-' then skip
  if (← startsWith "inf") ∨ (← startsWith "nan") then
    modify (List.drop 3)
    return .float
  let ds ← digits Char.isDigit
  if ds.head? = some '0' ∧ 1 < ds.length then refuse
  else
    match ← head? with
    | some '.' =>
      skip
      let _ ← digits Char.isDigit
      if (← head?) = some 'e' ∨ (← head?) = some 'E' then
        skip
        exponent
      return .float
    | some 'e' => do skip; exponent; return .float
    | some 'E' => do skip; exponent; return .float
    | _ =>
      let n := natural 10 ds
      if sign = some '-' then if n ≤ maxInteger + 1 then return .integer (-n) else refuse
      else if n ≤ maxInteger then return .integer n else refuse

def number : Reader Item := do
  if let some rest := Moment.after? (← get) then
    set rest
    return .moment
  if ← startsWith "0x" then radixInteger 16 fun c => (hexValue c).isSome
  else if ← startsWith "0o" then radixInteger 8 fun c => '0' ≤ c && c ≤ '7'
  else if ← startsWith "0b" then radixInteger 2 fun c => c = '0' || c = '1'
  else decimal

def arrayRest (value : Reader Item) : Nat → Reader (List Item)
  | 0 => refuse
  | fuel + 1 => do
    anySpace
    if (← head?) = some ']' then do skip; return []
    else
      let item ← value
      anySpace
      match ← head? with
      | some ',' => do skip; return item :: (← arrayRest value fuel)
      | some ']' => do skip; return [item]
      | _ => refuse

/-- The members of an inline table, after its brace, up to the closing one. -/
def inlineRest (value : Reader Item) : Nat → Entries → Reader Entries
  | 0, _ => refuse
  | fuel + 1, entries => do
    let (path, last) ← wholeKey
    expect "="
    blanks
    let item ← value
    blanks
    match entries.addValue path last item with
    | none => refuse
    | some entries =>
      match ← head? with
      | some ',' => do skip; inlineRest value fuel entries
      | some '\x7d' => do skip; return entries
      | _ => refuse

/-- A value; arrays and inline tables may be nested to the given depth. -/
def value : Nat → Reader Item
  | 0 => refuse
  | depth + 1 => do
    match ← head? with
    | none => refuse
    | some c =>
      if c = '"' ∨ c = '\'' then return .string (← string true)
      else if c = '[' then
        skip
        return .array (← arrayRest (value depth) ((← get).length + 1))
      else if c = '\x7b' then
        skip
        blanks
        if (← head?) = some '\x7d' then
          skip
          return .table .inline []
        return .table .inline (← inlineRest (value depth) ((← get).length + 1) [])
      else if c = 't' then
        expect "true"
        return .boolean true
      else if c = 'f' then
        expect "false"
        return .boolean false
      else number

def maxDepth : Nat := 80

/-- The lines of a document. `current` is the path of the table that the last header opened. -/
def document : Nat → List String → Entries → Reader Entries
  | 0, _, _ => refuse
  | fuel + 1, current, entries => do
    blanks
    match ← head? with
    | none => return entries
    | some '#' => do lineRest; document fuel current entries
    | some '\n' => do skip; document fuel current entries
    | some '\r' => if ← lineEnd? then document fuel current entries else refuse
    | some '[' =>
      let double ← startsWith "[["
      modify (List.drop (if double then 2 else 1))
      let (path, last) ← wholeKey
      expect (if double then "]]" else "]")
      lineRest
      match if double then entries.addElement path last else entries.addTable path last with
      | some entries => document fuel (path ++ [last]) entries
      | none => refuse
    | some _ =>
      let (path, last) ← wholeKey
      expect "="
      blanks
      let item ← value maxDepth
      lineRest
      match entries.inCurrent (·.addValue path last item) current with
      | some entries => document fuel current entries
      | none => refuse

end Reader

/-- The entries of a text. A byte order mark at its start is passed over. -/
def read? (text : String) : Option Entries :=
  let s := match text.toList with
    | '\uFEFF' :: rest => rest
    | s => s
  ((Reader.document (s.length + 2) [] []).run s).map (·.1)

end BlockProgram.Toml
