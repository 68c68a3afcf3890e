import BlockProgram.Text.CharTable

/-! The quoted form of a text in messages: double quotes around it, and escapes for quotes,
backslashes and every character that has no visible form of its own. -/
namespace BlockProgram.Text

/-- The escape of a character by its code point, in lower case hexadecimal. -/
def codePointEscape (c : Char) : List Char :=
  '\\' :: 'u' :: '\x7b' :: (Nat.toDigits 16 c.toNat ++ ['\x7d'])

def quotedChar (c : Char) : List Char :=
  match c with
  | '"' => ['\\', '"']
  | '\\' => ['\\', '\\']
  | '\n' => ['\\', 'n']
  | '\r' => ['\\', 'r']
  | '\t' => ['\\', 't']
  | '\x00' => ['\\', '0']
  | c =>
    if CharTable.has CharTable.extending c || CharTable.has CharTable.unprintable c then
      codePointEscape c
    else [c]

def quoted (s : String) : String :=
  String.ofList ('"' :: (s.toList.flatMap quotedChar ++ ['"']))

end BlockProgram.Text
