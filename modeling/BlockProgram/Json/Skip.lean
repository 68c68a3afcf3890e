import BlockProgram.Json.Reader

/-! Passing over a value that nobody wants. Its syntax is checked, but numbers have no range here,
escapes need not pair up, and lists and objects may be nested to any depth. -/
namespace BlockProgram.Json.Reader

def skipString : Nat → Reader Unit
  | 0 => failHere .endInString
  | fuel + 1 => do
    match (← get).head? with
    | none => failHere .endInString
    | some c =>
      if c = '"' then skip
      else if c = '\\' then
        skip
        match (← get).head? with
        | none => failHere .endInString
        | some d =>
          if d = 'u' then
            skip
            let _ ← hexEscape
          else if (letterEscape? d).isSome then skip
          else failNext .invalidEscape
        skipString fuel
      else if c.toNat < 0x20 then failHere .controlCharacter
      else
        skip
        skipString fuel

def skipOpenString : Reader Unit := do skipString ((← get).length + 1)

def skipDigits : Reader Unit := do
  if (← digits).isEmpty then failNext .invalidNumber

def skipExponent : Reader Unit := do
  match (← get).head? with
  | some c =>
    if c = 'e' ∨ c = 'E' then
      skip
      match (← get).head? with
      | some '+' => skip
      | some '-' => skip
      | _ => pure ()
      skipDigits
  | none => pure ()

def skipNumber : Reader Unit := do
  match (← get).head? with
  | some '0' =>
    skip
    match (← get).head? with
    | some c => if c.isDigit then failNext .invalidNumber
    | none => pure ()
  | _ => skipDigits
  match (← get).head? with
  | some '.' => do skip; skipDigits
  | _ => pure ()
  skipExponent

/-- What a value may stand in. -/
inductive Frame where
  | list
  | object
  deriving DecidableEq, Repr

/-- The next value starts here. It is a scalar, of which nothing is left, or opens a frame. -/
def skipStart : Reader (Option Frame) := do
  match ← peek with
  | none => failNext .endInValue
  | some 'n' => do skip; word "ull".toList; return none
  | some 't' => do skip; word "rue".toList; return none
  | some 'f' => do skip; word "alse".toList; return none
  | some '-' => do skip; skipNumber; return none
  | some '"' => do skip; skipOpenString; return none
  | some '[' => do skip; return some .list
  | some '\x7b' => do skip; return some .object
  | some c => if c.isDigit then do skipNumber; return none else failNext .expectedValue

def skipKey : Reader Unit := do
  match ← peek with
  | some '"' => skip
  | some _ => failNext .keyNotString
  | none => failNext .endInObject
  skipOpenString
  colon

def skipToValue (frame : Frame) : Reader Unit :=
  match frame with
  | .list => return
  | .object => skipKey

mutual

/-- Pass over a value and then over what is left of the frames around it. -/
def skipValue : Nat → List Frame → Reader Unit
  | 0, _ => failHere .endInValue
  | fuel + 1, frames => do
    match ← skipStart with
    | none => skipFrames fuel true frames
    | some frame => skipFrames fuel false (frame :: frames)

/-- Pass over the rest of the frames. `comma` says whether a value has just ended. -/
def skipFrames : Nat → Bool → List Frame → Reader Unit
  | 0, _, _ => failHere .endInValue
  | _, _, [] => return
  | fuel + 1, comma, frame :: frames => do
    match ← peek with
    | none => failNext (match frame with | .list => .endInList | .object => .endInObject)
    | some c =>
      if comma ∧ c = ',' then
        skip
        skipToValue frame
        skipValue fuel (frame :: frames)
      else if (frame = .list ∧ c = ']') ∨ (frame = .object ∧ c = '\x7d') then
        skip
        skipFrames fuel true frames
      else if comma then
        failNext (match frame with | .list => .expectedListEnd | .object => .expectedObjectEnd)
      else
        skipToValue frame
        skipValue fuel (frame :: frames)

end

def ignored : Reader Unit := do skipValue (2 * (← get).length + 2) []

end BlockProgram.Json.Reader
