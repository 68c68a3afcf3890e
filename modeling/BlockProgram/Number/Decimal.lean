import BlockProgram.Number.Binary64

/-! The shortest decimal that reads back as a given binary64 number, and the two ways in which
one is written: all digits in place, or with an exponent where the number is very large or very
small. -/
namespace BlockProgram

/-- The decimal `digits * 10 ^ exponent`. -/
structure Decimal where
  digits : Nat
  exponent : Int
  deriving DecidableEq, Repr

/-- Which of two equally near shortest decimals is taken. -/
inductive Decimal.Tie where
  | up
  | even
  deriving DecidableEq, Repr

namespace Decimal

/-- The sizes that read back as `mantissa * 2 ^ exponent`, in units of `2 ^ (exponent - 2)`. Below
a power of two the numbers lie twice as dense. -/
structure Interval where
  low : Nat
  mid : Nat
  high : Nat
  /-- The ends themselves read back. -/
  closed : Bool

def Interval.around (mantissa : Nat) (exponent : Int) : Interval :=
  { low := 4 * mantissa - (if mantissa = Nat.pow 2 52 ∧ exponent ≠ -1074 then 1 else 2)
    mid := 4 * mantissa
    high := 4 * mantissa + 2
    closed := mantissa % 2 = 0 }

def Interval.holds (i : Interval) (point den : Nat) : Bool :=
  if i.closed then i.low * den ≤ point && point ≤ i.high * den
  else i.low * den < point && point < i.high * den

def powerQuotient (twos tens : Int) : Nat × Nat :=
  ((if twos < 0 then 1 else Nat.pow 2 twos.toNat) * (if tens < 0 then Nat.pow 10 (-tens).toNat else 1),
   (if twos < 0 then Nat.pow 2 (-twos).toNat else 1) * (if tens < 0 then 1 else Nat.pow 10 tens.toNat))

/-- The neighbours of the middle of an interval on the grid of multiples of `10 ^ step`: the nearer
one of those that read back. One unit of the interval is `2 ^ unit`. -/
def onGrid (tie : Tie) (i : Interval) (unit step : Int) : Option Decimal :=
  let (num, den) := powerQuotient unit step
  let below := i.mid * num / den
  let above := below + 1
  let fits (d : Nat) := i.holds (d * den) num
  let d? :=
    match below ≠ 0 && fits below, fits above with
    | true, true =>
      let gapBelow := i.mid * num - below * den
      let gapAbove := above * den - i.mid * num
      if gapBelow < gapAbove then some below
      else if gapAbove < gapBelow then some above
      else match tie with
        | .up => some above
        | .even => some (if below % 2 = 0 then below else above)
    | true, false => some below
    | false, true => some above
    | false, false => none
  d?.map fun d => ⟨d, step⟩

/-- The exponent of the leading decimal digit of a positive `num / den`. -/
def leading (num den : Nat) : Int :=
  let digits := (Nat.toDigits 10 (if den ≤ num then num / den else (den - 1) / num)).length
  if den ≤ num then (digits : Int) - 1 else -(digits : Int)

/-- The first grid, from the coarsest, with a point that reads back. -/
def search (tie : Tie) (i : Interval) (unit : Int) (lead : Int) : Nat → Nat → Option Decimal
  | 0, _ => none
  | left + 1, count =>
    match onGrid tie i unit (lead - count) with
    | some d => some d
    | none => search tie i unit lead left (count + 1)

def trim (d : Decimal) : Nat → Decimal
  | 0 => d
  | n + 1 => if d.digits ≠ 0 ∧ d.digits % 10 = 0 then trim ⟨d.digits / 10, d.exponent + 1⟩ n else d

/-- The decimal of fewest digits that reads back as `mantissa * 2 ^ exponent`, and of those the
nearest to it. -/
def shortest (tie : Tie) (mantissa : Nat) (exponent : Int) : Decimal :=
  if mantissa = 0 then ⟨0, 0⟩
  else
    let i := Interval.around mantissa exponent
    let (num, den) := powerQuotient (exponent - 2) 0
    let lead := leading (i.mid * num) den
    trim ((search tie i (exponent - 2) lead 18 0).getD ⟨0, 0⟩) 20

def figures (d : Decimal) : List Char := Nat.toDigits 10 d.digits

def scientific (d : Decimal) : Int := (d.figures.length : Int) - 1 + d.exponent

/-- All digits in place: `1250`, `12.5`, `0.00125`. -/
def positional (d : Decimal) : List Char :=
  let s := d.figures
  if 0 ≤ d.exponent then s ++ List.replicate d.exponent.toNat '0'
  else
    let places := (-d.exponent).toNat
    if places < s.length then s.take (s.length - places) ++ '.' :: s.drop (s.length - places)
    else '0' :: '.' :: (List.replicate (places - s.length) '0' ++ s)

/-- One digit before the point and a signed exponent: `1e+16`, `1.5e-7`. -/
def exponential (d : Decimal) : List Char :=
  let point : List Char :=
    match d.figures with
    | [] => []
    | [c] => [c]
    | c :: rest => c :: '.' :: rest
  let x := d.scientific
  point ++ 'e' :: (if x < 0 then '-' else '+') :: Nat.toDigits 10 x.natAbs

end Decimal

namespace Binary64

def withSign (negative : Bool) (text : List Char) : String :=
  String.ofList (if negative then '-' :: text else text)

/-- The plain form of a number: the shortest digits that read back, never an exponent, and no
point in an integer. -/
def plain (x : Binary64) : String :=
  match x.value with
  | .nan => "NaN"
  | .infinite negative => withSign negative "inf".toList
  | .finite negative m e => withSign negative (Decimal.shortest .up m e).positional

/-- The form of a finite number in a document: an integer keeps a `.0`, and an exponent stands
where the first digit is below `10 ^ -5` or at least `10 ^ 16`. Infinities and NaN have no form. -/
def documentText? (x : Binary64) : Option String :=
  match x.value with
  | .finite negative m e =>
    let d := Decimal.shortest .even m e
    let body :=
      if m = 0 then "0.0".toList
      else if -5 ≤ d.scientific ∧ d.scientific < 16 then
        d.positional ++ (if 0 ≤ d.exponent then ".0".toList else [])
      else d.exponential
    some (withSign negative body)
  | _ => none

end Binary64

end BlockProgram
