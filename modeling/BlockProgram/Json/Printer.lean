import BlockProgram.Json.Fault

/-! JSON values as they are written: in the order given, two blanks deeper for each level, one element
or member to a line. -/
namespace BlockProgram.Json

inductive Value where
  | null
  | bool (b : Bool)
  | natural (n : Nat)
  | float (x : Binary64)
  | string (s : String)
  | list (elements : List Value)
  | object (members : List (String × Value))

namespace Value

def hexDigit (n : Nat) : Char := Nat.digitChar n

/-- A character inside a string. Only quotes, backslashes and control characters are escaped. -/
def escapedChar (c : Char) : List Char :=
  match c with
  | '"' => ['\\', '"']
  | '\\' => ['\\', '\\']
  | '\x08' => ['\\', 'b']
  | '\x0c' => ['\\', 'f']
  | '\n' => ['\\', 'n']
  | '\r' => ['\\', 'r']
  | '\t' => ['\\', 't']
  | c =>
    if c.toNat < 0x20 then
      ['\\', 'u', '0', '0', hexDigit (c.toNat / 16), hexDigit (c.toNat % 16)]
    else [c]

def stringText (s : String) : List Char := '"' :: (s.toList.flatMap escapedChar ++ ['"'])

def lineBreak (level : Nat) : List Char := '\n' :: List.replicate (2 * level) ' '

/-- Items between brackets, each on a line of its own; nothing between them if there are none. -/
def bracketed (level : Nat) (opening closing : Char) : List (List Char) → List Char
  | [] => [opening, closing]
  | item :: more =>
    opening :: (lineBreak (level + 1) ++ item ++
      more.flatMap (fun item => ',' :: (lineBreak (level + 1) ++ item)) ++
      lineBreak level ++ [closing])

mutual

/-- The text of a value that stands at a level. Infinities and NaN are written `null`. -/
def render (level : Nat) : Value → List Char
  | .null => "null".toList
  | .bool b => (if b then "true" else "false").toList
  | .natural n => Nat.toDigits 10 n
  | .float x => (x.documentText?.getD "null").toList
  | .string s => stringText s
  | .list elements => bracketed level '[' ']' (renderAll (level + 1) elements)
  | .object members => bracketed level '\x7b' '\x7d' (renderMembers (level + 1) members)

def renderAll (level : Nat) : List Value → List (List Char)
  | [] => []
  | v :: rest => render level v :: renderAll level rest

def renderMembers (level : Nat) : List (String × Value) → List (List Char)
  | [] => []
  | (name, v) :: rest =>
    (stringText name ++ ':' :: ' ' :: render level v) :: renderMembers level rest

end

end Value

end BlockProgram.Json
