import BlockProgram.Text.CharTable

/-! The number of terminal columns that characters fill. -/
namespace BlockProgram.Text

/-- Columns filled by one character: none for control characters and marks, two for wide ones. The
joiner of consonants U+2D7F fills one column, for it is shown where nothing follows it, and U+17D8,
which stands for a whole word, fills three. -/
def columns (c : Char) : Nat :=
  let n := c.toNat
  if n < 0x20 || (0x7F ≤ n && n < 0xA0) then 0
  else if n < 0x7F || n = 0x2D7F then 1
  else if n = 0x17D8 then 3
  else if CharTable.has CharTable.extending c || CharTable.has CharTable.invisible c then 0
  else if CharTable.has CharTable.wide c then 2
  else 1

/-- Each character of a line with the columns it fills; a tab reaches to the next multiple of `tab`. -/
def columnsFrom (tab : Nat) : Nat → List Char → List (Char × Nat)
  | _, [] => []
  | start, c :: rest =>
    let width := if c = '\t' then tab - start % tab else columns c
    (c, width) :: columnsFrom tab (start + width) rest

end BlockProgram.Text
