import BlockProgram.Number.Decimal
import BlockProgram.Text.Blank
import BlockProgram.Text.Quoted

/-! Why a JSON text is refused and where. A fault of syntax has its place at once. A fault of the data
has none of its own where it concerns a whole list or object: it floats until that one is left. -/
namespace BlockProgram.Json

/-- What stands in a text where something else was expected. -/
inductive Found where
  | null
  | boolean (b : Bool)
  | natural (n : Nat)
  /-- The integer `-n`. -/
  | negative (n : Nat)
  | float (x : Binary64)
  | string (s : String)
  | sequence
  | map
  | unitVariant
  deriving DecidableEq, Repr

def Found.title : Found → String
  | .null => "null"
  | .boolean b => "boolean `" ++ (if b then "true" else "false") ++ "`"
  | .natural n => "integer `" ++ toString n ++ "`"
  | .negative n => "integer `-" ++ toString n ++ "`"
  | .float x => "floating point `" ++ (x.documentText?.getD "null") ++ "`"
  | .string s => "string " ++ Text.quoted s
  | .sequence => "sequence"
  | .map => "map"
  | .unitVariant => "unit variant"

inductive Cause where
  | endInValue
  | endInList
  | endInObject
  | endInString
  | expectedColon
  | expectedListEnd
  | expectedObjectEnd
  | expectedValue
  | expectedIdent
  | keyNotString
  | trailingComma
  | trailingCharacters
  | invalidNumber
  | numberOutOfRange
  | invalidEscape
  | loneSurrogate
  | endOfHexEscape
  | tooDeep
  | controlCharacter
  | missingField (name : String)
  | duplicateField (name : String)
  | unknownVariant (name : String) (known : List String)
  | invalidType (found : Found) (expected : String)
  | invalidValue (found : Found) (expected : String)
  | invalidLength (length : Nat) (expected : String)
  deriving DecidableEq, Repr

/-- Names in a message: `a`, "`a` or `b`", or "one of `a`, `b`, `c`". -/
def oneOf (names : List String) : String :=
  let quoted := names.map fun n => "`" ++ n ++ "`"
  match quoted with
  | [a, b] => a ++ " or " ++ b
  | [a] => a
  | _ => "one of " ++ Text.join ", " quoted

def Cause.message : Cause → String
  | .endInValue => "EOF while parsing a value"
  | .endInList => "EOF while parsing a list"
  | .endInObject => "EOF while parsing an object"
  | .endInString => "EOF while parsing a string"
  | .expectedColon => "expected `:`"
  | .expectedListEnd => "expected `,` or `]`"
  | .expectedObjectEnd => "expected `,` or `\x7d`"
  | .expectedValue => "expected value"
  | .expectedIdent => "expected ident"
  | .keyNotString => "key must be a string"
  | .trailingComma => "trailing comma"
  | .trailingCharacters => "trailing characters"
  | .invalidNumber => "invalid number"
  | .numberOutOfRange => "number out of range"
  | .invalidEscape => "invalid escape"
  | .loneSurrogate => "lone leading surrogate in hex escape"
  | .endOfHexEscape => "unexpected end of hex escape"
  | .tooDeep => "recursion limit exceeded"
  | .controlCharacter => "control character (\\u0000-\\u001F) found while parsing a string"
  | .missingField name => "missing field `" ++ name ++ "`"
  | .duplicateField name => "duplicate field `" ++ name ++ "`"
  | .unknownVariant name known => "unknown variant `" ++ name ++ "`, expected " ++ oneOf known
  | .invalidType found expected => "invalid type: " ++ found.title ++ ", expected " ++ expected
  | .invalidValue found expected => "invalid value: " ++ found.title ++ ", expected " ++ expected
  | .invalidLength n expected => "invalid length " ++ toString n ++ ", expected " ++ expected

/-- A fault while reading. -/
inductive Fault where
  /-- The place is given by the number of bytes of the text after it. -/
  | placed (cause : Cause) (left : Nat)
  /-- Still without a place; the reader stood before `rest`. -/
  | floating (cause : Cause) (rest : List Char)
  deriving DecidableEq, Repr

/-- A position in a text: the number of the line, from one, and the bytes before it on that line. -/
structure Position where
  line : Nat
  column : Nat
  deriving DecidableEq, Repr

/-- The position of the byte `offset`, in a text that starts at `p`. -/
def Position.advance (p : Position) : List Char → Nat → Position
  | [], _ => p
  | _, 0 => p
  | c :: rest, offset =>
    if c = '\n' then Position.advance ⟨p.line + 1, 0⟩ rest (offset - 1)
    else if offset < c.utf8Size then ⟨p.line, p.column + offset⟩
    else Position.advance ⟨p.line, p.column + c.utf8Size⟩ rest (offset - c.utf8Size)

def Position.of (text : List Char) (offset : Nat) : Position :=
  Position.advance ⟨1, 0⟩ text offset

/-- Why and where a text is refused. -/
structure Refusal where
  cause : Cause
  position : Position
  deriving DecidableEq, Repr

def Refusal.message (r : Refusal) : String :=
  r.cause.message ++ " at line " ++ toString r.position.line ++ " column " ++
    toString r.position.column

def Fault.refusal (text : List Char) : Fault → Refusal
  | .placed cause left => ⟨cause, .of text (Text.byteSize text - left)⟩
  | .floating cause rest => ⟨cause, .of text (Text.byteSize text - Text.byteSize rest)⟩

end BlockProgram.Json
