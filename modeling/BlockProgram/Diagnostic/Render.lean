import BlockProgram.Diagnostic
import BlockProgram.Text.Blank
import BlockProgram.Text.Width

/-! Showing diagnostics on a terminal: a heading, the marked line of the source under its place, and
notes. Colours are control sequences around the pieces that have a style. -/
namespace BlockProgram

/-- The styles of the pieces of a diagnostic. -/
inductive Style where
  | severity
  | message
  /-- Lines around the source, line numbers and bullets. -/
  | frame
  /-- What is marked in the source, and the mark. -/
  | mark
  deriving DecidableEq, Repr

namespace Style

def codes : Style → String
  | .severity => "\x1b[1m\x1b[38;5;9m"
  | .message => "\x1b[1m"
  | .frame => "\x1b[36m"
  | .mark => "\x1b[31m"

def reset (colored : Bool) : String := if colored then "\x1b[0m" else ""

def start (style : Style) (colored : Bool) : String :=
  if colored then reset colored ++ style.codes else ""

def paint (style : Style) (colored : Bool) (text : String) : String :=
  style.start colored ++ text ++ reset colored

end Style

/-- A named text that diagnostics are about. -/
structure SourceText where
  name : String
  text : String

/-- A place in a text: a line, counted from zero, and a number of bytes from its start. -/
structure Place where
  row : Nat
  offset : Nat
  line : List Char

namespace Place

/-- The place of the byte at `offset`, in lines that are counted from `row`. -/
def locate (row offset : Nat) : List (List Char) → Place
  | [] => ⟨row, offset, []⟩
  | [line] => ⟨row, offset, line⟩
  | line :: more =>
    if offset < Text.byteSize line then ⟨row, offset, line⟩
    else locate (row + 1) (offset - Text.byteSize line) more

def ofOffset (text : String) (offset : Nat) : Place := locate 0 offset (Text.rows text.toList)

/-- The number of characters of a line that end within its first `bytes` bytes. -/
def wholeChars : Nat → List Char → Nat
  | _, [] => 0
  | bytes, c :: rest => if c.utf8Size ≤ bytes then wholeChars (bytes - c.utf8Size) rest + 1 else 0

def shown (p : Place) : String :=
  toString (p.row + 1) ++ ":" ++ toString (wholeChars p.offset p.line + 1)

def visibleLine (p : Place) : List Char :=
  Text.trimEndWhere (fun c => c = '\n' || c = '\r' || c = '\x00') p.line

end Place

namespace Diagnostic

/-- Pieces of text in a row; those with the flag are in the style of marks. -/
def highlight (colored : Bool) : Bool → List (String × Bool) → String
  | inMark, [] => if inMark then Style.reset colored else ""
  | inMark, (text, marked) :: rest =>
    (if marked && !inMark then Style.mark.start colored
      else if inMark && !marked then Style.reset colored
      else "") ++ text ++ highlight colored marked rest

/-- A character of a line with the byte at which it starts and the columns that it fills. -/
structure Cell where
  char : Char
  start : Nat
  columns : Nat

def tabWidth : Nat := 4

def cells (line : List Char) : List Cell :=
  let rec place (start : Nat) : List (Char × Nat) → List Cell
    | [] => []
    | (c, columns) :: rest => ⟨c, start, columns⟩ :: place (start + c.utf8Size) rest
  place 0 (Text.columnsFrom tabWidth 0 line)

def Cell.within (first last : Nat) (cell : Cell) : Bool :=
  max first cell.start < min last (cell.start + cell.char.utf8Size)

def blanks (n : Nat) : String := String.ofList (List.replicate n ' ')

/-- The marks under a line. A mark may stand just behind the last character. -/
def carets (first last : Nat) (line : List Char) : List (String × Bool) :=
  let behind : Cell := ⟨'\x00', Text.byteSize line, 1⟩
  (cells line ++ [behind]).map fun cell =>
    if cell.within first last then (String.ofList (List.replicate cell.columns '^'), true)
    else if cell.start < last then (blanks cell.columns, false)
    else ("", false)

def sourceLine (first last : Nat) (line : List Char) : List (String × Bool) :=
  (cells line).map fun cell =>
    let text := if cell.char = '\t' then blanks cell.columns else String.singleton cell.char
    (text, cell.within first last)

/-- The frame to the left of the source: a line number, or room for one, and a bar. -/
def bar (colored : Bool) (width : Nat) (row : Option Nat) : String :=
  let number := match row with
    | some n =>
      let digits := toString (n + 1)
      Style.frame.paint colored (blanks (width - digits.length) ++ digits)
    | none => blanks width
  number ++ " " ++ Style.frame.paint colored "│"

def markedLine (colored : Bool) (width : Nat) (place : Place) (size : Nat) (text : String) :
    List String :=
  let line := place.visibleLine
  let last := place.offset + max size 1
  [bar colored width (some place.row) ++ " " ++
      highlight colored false (sourceLine place.offset last line),
    bar colored width none ++ " " ++ highlight colored false (carets place.offset last line) ++
      " " ++ Style.mark.paint colored text]

/-- A mark on the line feed of an empty line. It begins before that line and ends where the next one
starts. -/
def markedFeed (colored : Bool) (width : Nat) (place next : Place) (text : String) : List String :=
  let shown (p : Place) := highlight colored false (sourceLine 0 0 p.visibleLine)
  [bar colored width (some place.row) ++ " " ++ Style.mark.paint colored "╭" ++ " " ++ shown place,
    bar colored width (some next.row) ++ " " ++ Style.mark.paint colored "│" ++ " " ++ shown next,
    bar colored width none ++ " " ++ Style.mark.paint colored "╰" ++
      Style.mark.paint colored ("^ " ++ text)]

def crossesLines (source : SourceText) (label : Label) : Bool :=
  (Place.ofOffset source.text label.start).row ≠ (Place.ofOffset source.text label.stop).row

/-- A bar with nothing beside it but the room for the marks of labels that cross lines. -/
def emptyLine (colored : Bool) (width : Nat) (source : SourceText) (labels : List Label) : String :=
  bar colored width none ++ blanks (2 * labels.countP (crossesLines source))

def snippet (colored : Bool) (width : Nat) (source : SourceText) (label : Label) : List String :=
  let first := Place.ofOffset source.text label.start
  let last := Place.ofOffset source.text label.stop
  [blanks (width + 1) ++ Style.frame.paint colored "┌─" ++ " " ++ source.name ++ ":" ++ first.shown,
    emptyLine colored width source [label]] ++
    if crossesLines source label then markedFeed colored width first last label.text
    else markedLine colored width first (label.stop - label.start) label.text

/-- A note; its lines stand under each other. -/
def note (colored : Bool) (width : Nat) (text : String) : List String :=
  let lines := (Text.lines text.toList).map String.ofList
  match lines with
  | [] => []
  | first :: rest =>
    (blanks (width + 1) ++ Style.frame.paint colored "=" ++ " " ++ first) ::
      rest.map fun line => blanks (width + 3) ++ line

/-- The room for line numbers: as many columns as the last marked line needs. -/
def gutter (source : SourceText) (labels : List Label) : Nat :=
  (labels.map fun label =>
    (toString ((Place.ofOffset source.text label.stop).row + 1)).length).foldl max 0

/-- The diagnostic as it is shown. The labels belong to `source`. -/
def render (colored : Bool) (source : SourceText) (d : Diagnostic) : String :=
  let width := gutter source d.labels
  let heading := Style.severity.start colored ++ "error" ++
    Style.message.paint colored (": " ++ d.message)
  let snippets := d.labels.flatMap (snippet colored width source)
  let space :=
    if d.labels.isEmpty || d.notes.isEmpty then [] else [emptyLine colored width source d.labels]
  Text.unlines ([heading] ++ snippets ++ space ++ d.notes.flatMap (note colored width) ++ [""])

end Diagnostic

end BlockProgram
