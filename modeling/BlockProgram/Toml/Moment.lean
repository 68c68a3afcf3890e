import BlockProgram.Text.Blank

/-! Dates and times in TOML texts: a day, a time of day, or a day with a time and perhaps the offset of
its time zone. Only their extent matters, for no setting is one. -/
namespace BlockProgram.Toml.Moment

/-- A number of `count` digits within bounds, and what follows it. -/
def figures? (count low high : Nat) (s : List Char) : Option (Nat × List Char) :=
  let ds := s.take count
  let n := ds.foldl (fun n c => 10 * n + (c.toNat - '0'.toNat)) 0
  if ds.length = count ∧ ds.all Char.isDigit ∧ low ≤ n ∧ n ≤ high then some (n, s.drop count) else none

def isLeap (year : Nat) : Bool := year % 4 = 0 && (year % 100 ≠ 0 || year % 400 = 0)

def daysOf (year month : Nat) : Nat :=
  if month = 2 then if isLeap year then 29 else 28
  else if month ∈ [4, 6, 9, 11] then 30
  else 31

def afterDay? (s : List Char) : Option (List Char) := do
  let (year, s) ← figures? 4 0 9999 s
  let (month, s) ← figures? 2 1 12 (← Text.dropHead? ['-'] s)
  let (_, s) ← figures? 2 1 (daysOf year month) (← Text.dropHead? ['-'] s)
  return s

/-- What follows a time of day. The last minute may have a leap second. -/
def afterTime? (s : List Char) : Option (List Char) := do
  let (_, s) ← figures? 2 0 23 s
  let (_, s) ← figures? 2 0 59 (← Text.dropHead? [':'] s)
  let (_, s) ← figures? 2 0 60 (← Text.dropHead? [':'] s)
  match s with
  | '.' :: c :: rest => if c.isDigit then return rest.dropWhile Char.isDigit else return s
  | s => return s

def afterOffset? : List Char → Option (List Char)
  | [] => none
  | c :: s =>
    if c = 'Z' ∨ c = 'z' then some s
    else if c = '+' ∨ c = '-' then do
      let (_, s) ← figures? 2 0 23 s
      let (_, s) ← figures? 2 0 59 (← Text.dropHead? [':'] s)
      return s
    else none

def afterDayTime? : List Char → Option (List Char)
  | [] => none
  | c :: s =>
    if c = 'T' ∨ c = 't' ∨ c = ' ' then
      (afterTime? s).map fun rest => (afterOffset? rest).getD rest
    else none

def after? (s : List Char) : Option (List Char) :=
  match afterDay? s with
  | some rest => some ((afterDayTime? rest).getD rest)
  | none => afterTime? s

end BlockProgram.Toml.Moment
