import BlockProgram.Json.Fault

/-! Readers of JSON texts. A reader takes what it reads off the front of the text; what is not JSON, or
not the data wanted, ends the reading at the first such place. -/
namespace BlockProgram.Json

abbrev Reader (α : Type) := StateT (List Char) (Except Fault) α

namespace Reader

/-- The place is where the reader stands. -/
def failHere {α : Type} (cause : Cause) : Reader α :=
  fun s => .error (.placed cause (Text.byteSize s))

/-- The place is one byte on, or the end of the text. -/
def failNext {α : Type} (cause : Cause) : Reader α :=
  fun s => .error (.placed cause (Text.byteSize s - 1))

/-- The place is found when the list or object around is left. -/
def failFloating {α : Type} (cause : Cause) : Reader α :=
  fun s => .error (.floating cause s)

def isSpace (c : Char) : Bool := c = ' ' || c = '\n' || c = '\t' || c = '\r'

/-- The next character after any blanks; it is not taken. -/
def peek : Reader (Option Char) := fun s =>
  let s := s.dropWhile isSpace
  .ok (s.head?, s)

def skip : Reader Unit := modify List.tail

def word : List Char → Reader Unit
  | [] => return
  | c :: more => do
    match (← get).head? with
    | none => failHere .endInValue
    | some d => if c = d then do skip; word more else failNext .expectedIdent

def hexDigit? (c : Char) : Option Nat :=
  if c.isDigit then some (c.toNat - '0'.toNat)
  else if 'a' ≤ c ∧ c ≤ 'f' then some (c.toNat - 'a'.toNat + 10)
  else if 'A' ≤ c ∧ c ≤ 'F' then some (c.toNat - 'A'.toNat + 10)
  else none

/-- The value of the first four characters, if they are hexadecimal digits. -/
def hexValue? : List Char → Option (Nat × List Char)
  | a :: b :: c :: d :: rest => do
    let a ← hexDigit? a
    let b ← hexDigit? b
    let c ← hexDigit? c
    let d ← hexDigit? d
    return (4096 * a + 256 * b + 16 * c + d, rest)
  | _ => none

def hexEscape : Reader Nat := fun s =>
  if Text.byteSize (s.take 4) < 4 then .error (.placed .endInString 0)
  else
    match hexValue? s with
    | some (n, rest) => .ok (n, rest)
    | none => .error (.placed .invalidEscape (Text.byteSize s - 4))

def surrogateMark (c : Char) : Reader Unit := do
  match (← get).head? with
  | none => failHere .endInString
  | some d => if c = d then skip else failNext .endOfHexEscape

/-- The character of an escape by code. A pair of surrogates is one character. -/
def codeEscape : Reader Char := do
  let n ← hexEscape
  if 0xDC00 ≤ n ∧ n ≤ 0xDFFF then failHere .loneSurrogate
  else if 0xD800 ≤ n ∧ n ≤ 0xDBFF then
    surrogateMark '\\'
    surrogateMark 'u'
    let low ← hexEscape
    if 0xDC00 ≤ low ∧ low ≤ 0xDFFF then
      return Char.ofNat ((n - 0xD800) * 0x400 + (low - 0xDC00) + 0x10000)
    else failHere .loneSurrogate
  else return Char.ofNat n

def letterEscape? : Char → Option Char
  | '"' => some '"'
  | '\\' => some '\\'
  | '/' => some '/'
  | 'b' => some '\x08'
  | 'f' => some '\x0c'
  | 'n' => some '\n'
  | 'r' => some '\r'
  | 't' => some '\t'
  | _ => none

def escape : Reader Char := do
  match (← get).head? with
  | none => failHere .endInString
  | some c =>
    if c = 'u' then do skip; codeEscape
    else match letterEscape? c with
      | some d => do skip; return d
      | none => failNext .invalidEscape

def stringRest : Nat → Reader (List Char)
  | 0 => failHere .endInString
  | fuel + 1 => do
    match (← get).head? with
    | none => failHere .endInString
    | some c =>
      skip
      if c = '"' then return []
      else if c = '\\' then return (← escape) :: (← stringRest fuel)
      else if c.toNat < 0x20 then failHere .controlCharacter
      else return c :: (← stringRest fuel)

def openString : Reader String := do
  return String.ofList (← stringRest ((← get).length + 1))

/-- A number as it is read: integers that fit 64 bits are kept apart. -/
inductive Numeral where
  | natural (n : Nat)
  | negative (n : Nat)
  | float (x : Binary64)
  deriving DecidableEq, Repr

def Numeral.found : Numeral → Found
  | .natural n => .natural n
  | .negative n => .negative n
  | .float x => .float x

def Numeral.toBinary64 : Numeral → Binary64
  | .natural n => .ofNat n
  | .negative n => .ofRatio true n 1
  | .float x => x

def digits : Reader (List Char) := fun s => .ok (s.takeWhile Char.isDigit, s.dropWhile Char.isDigit)

def digitValue (c : Char) : Nat := c.toNat - '0'.toNat

/-- Append digits to a significand while it fits 64 bits; the digits after that are left over. -/
def accumulate : Nat → List Char → Nat × List Char
  | m, [] => (m, [])
  | m, c :: rest =>
    let m' := 10 * m + digitValue c
    if m' < Nat.pow 2 64 then accumulate m' rest else (m, c :: rest)

/-- `x` times the power of ten, in steps that stay in range; none if the result is too large. -/
def scaled : Nat → Binary64 → Int → Option Binary64
  | 0, x, _ => some x
  | fuel + 1, x, e =>
    if e < -308 then
      if x.isZero then some x else scaled fuel (x.dividedBy (.ofDecimal false 1 308)) (e + 308)
    else if 308 < e then if x.isZero then some x else none
    else if e < 0 then some (x.dividedBy (.ofDecimal false 1 (-e)))
    else
      let y := x.times (.ofDecimal false 1 e)
      if y.isInfinite then none else some y

/-- The number `m * 10 ^ e`. It is computed from `m` rounded, so its last digit may differ from the
nearest number. -/
def floatOf (negative : Bool) (m : Nat) (e : Int) : Reader Numeral :=
  match scaled 4 (.ofNat m) e with
  | some x => return .float (if negative then x.negate else x)
  | none => failHere .numberOutOfRange

def maxExponent : Nat := Nat.pow 2 31 - 1

/-- The digits of an exponent after the first ones. None if it does not fit 32 bits; the reader then
stands after the digit that made it too large. -/
def exponentFrom : Nat → List Char → Option Nat × List Char
  | n, c :: rest =>
    if c.isDigit then
      let n' := 10 * n + digitValue c
      if n' ≤ maxExponent then exponentFrom n' rest else (none, rest)
    else (some n, c :: rest)
  | n, [] => (some n, [])

def clampExponent (e : Int) : Int := max (-2147483648) (min e maxExponent)

/-- A number with significand `m` and exponent `e` whose exponent mark has been taken. -/
def exponentPart (negative : Bool) (m : Nat) (e : Int) : Reader Numeral := do
  let down ← (do
    match (← get).head? with
    | some '+' => do skip; return false
    | some '-' => do skip; return true
    | _ => return false : Reader Bool)
  match (← get).head? with
  | none => failHere .endInValue
  | some c =>
    if !c.isDigit then failNext .invalidNumber
    else
      let (n?, rest) := exponentFrom 0 (← get)
      set rest
      match n? with
      | some n => floatOf negative m (clampExponent (if down then e - n else e + n))
      | none =>
        if m ≠ 0 ∧ !down then failHere .numberOutOfRange
        else
          let _ ← digits
          return .float (.ofMagnitude negative 0)

def afterSignificand (negative : Bool) (m : Nat) (e : Int) : Reader Numeral := do
  match (← get).head? with
  | some 'e' => do skip; exponentPart negative m e
  | some 'E' => do skip; exponentPart negative m e
  | _ => floatOf negative m e

def fractionPart (negative : Bool) (m : Nat) (e : Int) : Reader Numeral := do
  let ds ← digits
  if ds.isEmpty then
    if (← get).isEmpty then failNext .endInValue else failNext .invalidNumber
  else
    let (m, left) := accumulate m ds
    afterSignificand negative m (e - (ds.length - left.length : Nat))

def unsignedNumber (negative : Bool) : Reader Numeral := do
  match (← get).head? with
  | none => failHere .endInValue
  | some c =>
    if !c.isDigit then failNext .invalidNumber
    else
      let ds ← if c = '0' then (do skip; return [c]) else digits
      match (← get).head? with
      | some d =>
        if c = '0' ∧ d.isDigit then failNext .invalidNumber
        else finish ds d
      | none => finish ds ' '
where
  /-- The rest of a number with the given integer digits, by the character after them. -/
  finish (ds : List Char) (after : Char) : Reader Numeral := do
    let (m, left) := accumulate 0 ds
    let e : Int := left.length
    if after = '.' then do skip; fractionPart negative m e
    else if after = 'e' ∨ after = 'E' then do skip; exponentPart negative m e
    else if !left.isEmpty then floatOf negative m e
    else if !negative then return .natural m
    else if m = 0 ∨ Nat.pow 2 63 < m then return .float (Binary64.ofNat m).negate
    else return .negative m

def number : Reader Numeral := do
  match (← get).head? with
  | some '-' => do skip; unsignedNumber true
  | _ => unsignedNumber false

def afterList (s : List Char) : List Char :=
  match s.dropWhile isSpace with
  | ']' :: rest => rest
  | ',' :: rest => rest.dropWhile isSpace
  | rest => rest

def afterObject (s : List Char) : List Char :=
  match s.dropWhile isSpace with
  | '\x7d' :: rest => rest
  | rest => rest

def settle {α : Type} (leave : List Char → List Char) (r : Reader α) : Reader α := fun s =>
  match r s with
  | .error (.floating cause rest) => .error (.placed cause (Text.byteSize (leave rest)))
  | result => result

/-- The closing bracket of a list of which all wanted elements have been read. -/
def endList : Reader Unit := do
  match ← peek with
  | some ']' => skip
  | some ',' =>
    skip
    match ← peek with
    | some ']' => failNext .trailingComma
    | _ => failNext .trailingCharacters
  | some _ => failNext .trailingCharacters
  | none => failNext .endInList

/-- The closing brace of an object of which all members have been read. -/
def endObject : Reader Unit := do
  match ← peek with
  | some '\x7d' => skip
  | some ',' => failNext .trailingComma
  | some _ => failNext .trailingCharacters
  | none => failNext .endInObject

/-- A list, from its opening bracket to its closing one, with the given content. -/
def inList {α : Type} (content : Reader α) : Reader α := do
  skip
  let a ← settle afterList content
  endList
  return a

/-- An object, from its opening brace to its closing one, with the given content. -/
def inObject {α : Type} (content : Reader α) : Reader α := do
  skip
  let a ← settle afterObject content
  endObject
  return a

/-- Whether the list goes on; a comma before the next element is taken. -/
def hasElement (first : Bool) : Reader Bool := do
  match ← peek with
  | none => failNext .endInList
  | some ']' => return false
  | some c =>
    if first then return true
    else if c = ',' then
      skip
      match ← peek with
      | some ']' => failNext .trailingComma
      | some _ => return true
      | none => failNext .endInValue
    else failNext .expectedListEnd

def elements {α : Type} (element : Reader α) : Nat → Bool → Reader (List α)
  | 0, _ => failHere .endInList
  | fuel + 1, first => do
    if ← hasElement first then
      let a ← element
      return a :: (← elements element fuel false)
    else return []

def allElements {α : Type} (element : Reader α) : Reader (List α) := do
  elements element ((← get).length + 1) true

/-- Whether the object goes on; a comma before the next key, and its opening quote, are taken. -/
def hasKey (first : Bool) : Reader Bool := do
  match ← peek with
  | none => failNext .endInObject
  | some '\x7d' => return false
  | some c =>
    if first then
      if c = '"' then do skip; return true else failNext .keyNotString
    else if c = ',' then
      skip
      match ← peek with
      | some '"' => do skip; return true
      | some '\x7d' => failNext .trailingComma
      | some _ => failNext .keyNotString
      | none => failNext .endInValue
    else failNext .expectedObjectEnd

/-- The members of an object up to its closing brace. `member` reads on after a key. -/
def members {σ : Type} (member : σ → String → Reader σ) : Nat → Bool → σ → Reader σ
  | 0, _, _ => failHere .endInObject
  | fuel + 1, first, acc => do
    if ← hasKey first then
      let key ← openString
      members member fuel false (← member acc key)
    else return acc

def allMembers {σ : Type} (member : σ → String → Reader σ) (start : σ) : Reader σ := do
  members member ((← get).length + 1) true start

def colon : Reader Unit := do
  match ← peek with
  | some ':' => skip
  | some _ => failNext .expectedColon
  | none => failNext .endInObject

/-- Refuse the next value because it is of another type. A scalar is read first. -/
def wrongType {α : Type} (expected : String) : Reader α := do
  match ← peek with
  | some 'n' => do skip; word "ull".toList; failHere (.invalidType .null expected)
  | some 't' => do skip; word "rue".toList; failHere (.invalidType (.boolean true) expected)
  | some 'f' => do skip; word "alse".toList; failHere (.invalidType (.boolean false) expected)
  | some '"' => do
    skip
    let s ← openString
    failHere (.invalidType (.string s) expected)
  | some '[' => failHere (.invalidType .sequence expected)
  | some '\x7b' => failHere (.invalidType .map expected)
  | some c =>
    if c = '-' ∨ c.isDigit then
      let n ← number
      failHere (.invalidType n.found expected)
    else failNext .expectedValue
  | none => failNext .endInValue

def string (expected : String) : Reader String := do
  match ← peek with
  | some '"' => do skip; openString
  | _ => wrongType expected

def bool : Reader Bool := do
  match ← peek with
  | some 't' => do skip; word "rue".toList; return true
  | some 'f' => do skip; word "alse".toList; return false
  | _ => wrongType "a boolean"

def numeral (expected : String) : Reader Numeral := do
  match ← peek with
  | some c => if c = '-' ∨ c.isDigit then number else wrongType expected
  | none => failNext .endInValue

def float : Reader Binary64 := return (← numeral "f64").toBinary64

def word32 : Reader Nat := do
  match ← numeral "u32" with
  | .natural n => if n < Nat.pow 2 32 then return n else failHere (.invalidValue (.natural n) "u32")
  | .negative n => failHere (.invalidValue (.negative n) "u32")
  | .float x => failHere (.invalidType (.float x) "u32")

def choice {α : Type} (known : List (String × α)) : Reader α := do
  let name ← string "variant identifier"
  match known.find? fun k => k.1 = name with
  | some k => return k.2
  | none => failHere (.unknownVariant name (known.map (·.1)))

def list {α : Type} (element : Reader α) : Reader (List α) := do
  match ← peek with
  | none => failNext .endInValue
  | some '[' => inList (allElements element)
  | some _ => wrongType "a sequence"

/-- A value of any type, with the given readers for lists and objects. -/
def valueWith (list object : Reader Found) : Reader Found := do
  match ← peek with
  | none => failNext .endInValue
  | some 'n' => do skip; word "ull".toList; return .null
  | some 't' => do skip; word "rue".toList; return .boolean true
  | some 'f' => do skip; word "alse".toList; return .boolean false
  | some '"' => do skip; return .string (← openString)
  | some '[' => list
  | some '\x7b' => object
  | some c => if c = '-' ∨ c.isDigit then return (← number).found else failNext .expectedValue

/-- A value of any type, read in full. Lists and objects may be nested `depth` deep. -/
def anything : Nat → Reader Found
  | 0 => valueWith (failNext .tooDeep) (failNext .tooDeep)
  | depth + 1 =>
    valueWith
      (do let _ ← inList (allElements (anything depth)); return .sequence)
      (do
        inObject (allMembers (fun _ _ => do colon; discard (anything depth)) ())
        return .map)

end Reader

end BlockProgram.Json
