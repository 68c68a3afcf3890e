/-! Binary64 numbers as their 64 bits, with their exact values and the rounding of a quotient
to the nearest of them. All of it is arithmetic on natural numbers, so that the digits of a
number field and the reading of a decimal can be reasoned about. -/
namespace BlockProgram

/-- A binary64 number, held as its bits: two numbers are equal when their bits are. -/
structure Binary64 where
  bits : UInt64
  deriving DecidableEq, Repr

/-- What the bits of a number stand for. -/
inductive Binary64.Value where
  | nan
  | infinite (negative : Bool)
  /-- The number `mantissa * 2 ^ exponent`, with its sign; zero has a sign too. -/
  | finite (negative : Bool) (mantissa : Nat) (exponent : Int)
  deriving DecidableEq, Repr

namespace Binary64

def negative (x : Binary64) : Bool := x.bits.toNat / Nat.pow 2 63 = 1

def biased (x : Binary64) : Nat := x.bits.toNat / Nat.pow 2 52 % Nat.pow 2 11

def fraction (x : Binary64) : Nat := x.bits.toNat % Nat.pow 2 52

def value (x : Binary64) : Value :=
  if x.biased = 2047 then
    if x.fraction = 0 then .infinite x.negative else .nan
  else if x.biased = 0 then .finite x.negative x.fraction (-1074)
  else .finite x.negative (Nat.pow 2 52 + x.fraction) (x.biased - 1075)

def ofMagnitude (negative : Bool) (magnitude : Nat) : Binary64 :=
  ⟨UInt64.ofNat (if negative then Nat.pow 2 63 + magnitude else magnitude)⟩

/-- The bits of infinity. No finite magnitude reaches them. -/
def infinityBits : Nat := 2047 * Nat.pow 2 52

/-- `num / den` rounded to an integer, a half going to the even neighbour. -/
def roundHalfEven (num den : Nat) : Nat :=
  let q := num / den
  let r := num % den
  if 2 * r < den then q
  else if den < 2 * r then q + 1
  else if q % 2 = 0 then q else q + 1

/-- The power of two by which a positive `num / den` is divided so that its integer part has 53
bits, or the least such power of a binary64 number. -/
def unitExponent (num den : Nat) : Int :=
  let guess : Int := (Nat.log2 num : Int) - (Nat.log2 den : Int) - 52
  let short := if guess < 0 then num * Nat.pow 2 (-guess).toNat < den * Nat.pow 2 52
    else num < den * Nat.pow 2 (guess.toNat + 52)
  max (if short then guess - 1 else guess) (-1074)

/-- The number nearest to `num / den`, ties to the even neighbour; too large a quotient becomes
infinite. -/
def ofRatio (negative : Bool) (num den : Nat) : Binary64 :=
  if num = 0 then ofMagnitude negative 0
  else
    let q := unitExponent num den
    let m := if q < 0 then roundHalfEven (num * Nat.pow 2 (-q).toNat) den
      else roundHalfEven num (den * Nat.pow 2 q.toNat)
    ofMagnitude negative (min ((q + 1074).toNat * Nat.pow 2 52 + m) infinityBits)

def ofNat (n : Nat) : Binary64 := ofRatio false n 1

def ofDecimal (negative : Bool) (digits : Nat) (exponent : Int) : Binary64 :=
  if exponent < 0 then ofRatio negative digits (Nat.pow 10 (-exponent).toNat)
  else ofRatio negative (digits * Nat.pow 10 exponent.toNat) 1

def zero : Binary64 := ofMagnitude false 0

/-- The size of a finite number as a quotient; infinities and NaN have none. -/
def ratio? (x : Binary64) : Option (Nat × Nat) :=
  match x.value with
  | .finite _ m e => some (if e < 0 then (m, Nat.pow 2 (-e).toNat) else (m * Nat.pow 2 e.toNat, 1))
  | _ => none

def isNaN (x : Binary64) : Bool := x.value = .nan

def isInfinite (x : Binary64) : Bool := x.biased = 2047 && x.fraction = 0

def isFinite (x : Binary64) : Bool := x.biased ≠ 2047

def isZero (x : Binary64) : Bool := x.biased = 0 && x.fraction = 0

/-- Below zero. Neither zero is, and NaN is not. -/
def isBelowZero (x : Binary64) : Bool := x.negative && !x.isZero && !x.isNaN

def isIntegral (x : Binary64) : Bool :=
  match x.ratio? with
  | some (num, den) => num % den = 0
  | none => false

def truncated (x : Binary64) : Nat :=
  match x.ratio? with
  | some (num, den) => num / den
  | none => 0

def negate (x : Binary64) : Binary64 := ofMagnitude (!x.negative) (x.bits.toNat % Nat.pow 2 63)

def times (x y : Binary64) : Binary64 :=
  match x.ratio?, y.ratio? with
  | some (a, b), some (c, d) => ofRatio (x.negative != y.negative) (a * c) (b * d)
  | _, _ => ofMagnitude (x.negative != y.negative) infinityBits

/-- The rounded quotient of a finite size by a finite nonzero one. -/
def dividedBy (x y : Binary64) : Binary64 :=
  match x.ratio?, y.ratio? with
  | some (a, b), some (c, d) => ofRatio (x.negative != y.negative) (a * d) (b * c)
  | _, _ => ofMagnitude (x.negative != y.negative) infinityBits

end Binary64

end BlockProgram
