/-! Blank characters, trimming, and the lines of a text. -/
namespace BlockProgram.Text

def isBlank (c : Char) : Bool :=
  let n := c.toNat
  (9 ≤ n && n ≤ 13) || n = 0x20 || n = 0x85 || n = 0xA0 || n = 0x1680 ||
    (0x2000 ≤ n && n ≤ 0x200A) || n = 0x2028 || n = 0x2029 || n = 0x202F || n = 0x205F || n = 0x3000

def trimEndWhere (p : Char → Bool) (s : List Char) : List Char :=
  (s.reverse.dropWhile p).reverse

def trimWhere (p : Char → Bool) (s : List Char) : List Char :=
  trimEndWhere p (s.dropWhile p)

def trimBlank (s : String) : String := String.ofList (trimWhere isBlank s.toList)

/-- The lines of a text. A line ends at a line feed, with a carriage return just before it, or at the
end of the text; the ends are not part of it, and no empty line follows the last line feed. -/
def lines : List Char → List (List Char)
  | [] => []
  | '\n' :: rest => [] :: lines rest
  | '\r' :: '\n' :: rest => [] :: lines rest
  | c :: rest =>
    match lines rest with
    | [] => [[c]]
    | line :: more => (c :: line) :: more

/-- The lines of a text, each with its line feed. What follows the last line feed is a line, too. -/
def rows : List Char → List (List Char)
  | [] => [[]]
  | c :: rest =>
    if c = '\n' then [c] :: rows rest
    else match rows rest with
      | [] => [[c]]
      | row :: more => (c :: row) :: more

def pieces (mark : Char) : List Char → List (List Char)
  | [] => [[]]
  | c :: rest =>
    if c = mark then [] :: pieces mark rest
    else match pieces mark rest with
      | [] => [[c]]
      | piece :: more => (c :: piece) :: more

def dropHead? : List Char → List Char → Option (List Char)
  | [], s => some s
  | _ :: _, [] => none
  | c :: head, d :: s => if c = d then dropHead? head s else none

/-- The text before and after the first place where `mark` stands. -/
def splitAtFirst? (mark : List Char) : List Char → Option (List Char × List Char)
  | [] => (dropHead? mark []).map fun rest => ([], rest)
  | c :: s =>
    match dropHead? mark (c :: s) with
    | some rest => some ([], rest)
    | none => (splitAtFirst? mark s).map fun parts => (c :: parts.1, parts.2)

def contains (text part : String) : Bool := (splitAtFirst? part.toList text.toList).isSome

def join (mark : String) : List String → String
  | [] => ""
  | [s] => s
  | s :: more => s ++ mark ++ join mark more

def unlines (lines : List String) : String := String.join (lines.map (· ++ "\n"))

def byteSize : List Char → Nat
  | [] => 0
  | c :: s => c.utf8Size + byteSize s

end BlockProgram.Text
