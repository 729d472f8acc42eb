import Readiness.Decimal.Binary64

/-!
# The fewest decimal digits that read back

`shortest` yields a coefficient without trailing zeros and a power of ten.
-/

namespace Readiness.Decimal

structure Digits where
  coefficient : Nat
  exponent : Int
  deriving Repr, DecidableEq

/-- Drops up to `room` trailing zeros. -/
def Digits.trim : Nat → Digits → Digits
  | 0, d => d
  | room + 1, d =>
    if d.coefficient ≠ 0 ∧ d.coefficient % 10 = 0 then
      Digits.trim room ⟨d.coefficient / 10, d.exponent + 1⟩
    else d

def digitsOf (n : Nat) : List Char := Nat.toDigits 10 n

/-- The most digits that an integer may have where it is written or read in base ten. -/
def maxDigits : Nat := 4300

def isWritable (i : Int) : Bool := (digitsOf i.natAbs).length ≤ maxDigits

/-- What is said of an integer with more digits. -/
def limitMessage (detail : String) : String :=
  "Exceeds the limit (4300 digits) for integer string conversion" ++ detail
    ++ "; use sys.set_int_max_str_digits() to increase the limit"

/-- The largest `e` with `10 ^ e ≤ num / den`, for a positive quotient. -/
def floorLog10 (num den : Nat) : Int :=
  if den ≤ num then
    ((digitsOf (num / den)).length : Int) - 1
  else
    let places := (digitsOf (den / num)).length - 1
    if den ≤ num * tenPow places then -(places : Int) else -(places : Int) - 1

def shiftTen (num den : Nat) (e : Int) : Nat × Nat :=
  if 0 ≤ e then (num, den * tenPow e.toNat) else (num * tenPow (-e).toNat, den)

structure Interval where
  value : Nat
  low : Nat
  high : Nat
  den : Nat
  closed : Bool

def Interval.around (mantissa : Nat) (exponent : Int) : Interval :=
  let low :=
    if mantissa = twoPow 52 ∧ -1074 < exponent then 4 * mantissa - 1 else 4 * mantissa - 2
  let scale := exponent - 2
  let up := twoPow scale.toNat
  { value := 4 * mantissa * up
    low := low * up
    high := (4 * mantissa + 2) * up
    den := twoPow (-scale).toNat
    closed := mantissa % 2 = 0 }

def Interval.holds (i : Interval) (num den : Nat) : Bool :=
  if i.closed then
    decide (i.low * den ≤ num * i.den ∧ num * i.den ≤ i.high * den)
  else
    decide (i.low * den < num * i.den ∧ num * i.den < i.high * den)

/-- The better of the value's two neighbours on the grid of multiples of `10 ^ e`, if one of them
lies in the interval. -/
def Interval.onGrid (i : Interval) (e : Int) : Option Digits :=
  let (num, den) := shiftTen i.value i.den e
  let below := num / den
  let up := tenPow e.toNat
  let down := tenPow (-e).toNat
  let lower := i.holds (below * up) down
  let upper := i.holds ((below + 1) * up) down
  let twice := 2 * (num % den)
  if lower && upper then
    let coefficient :=
      if twice < den then below
      else if den < twice then below + 1
      else if below % 2 = 0 then below else below + 1
    some ⟨coefficient, e⟩
  else if lower then some ⟨below, e⟩
  else if upper then some ⟨below + 1, e⟩
  else none

def Interval.search (i : Interval) (top : Int) : Nat → Nat → Digits
  | 0, digits =>
    let (num, den) := shiftTen i.value i.den (top - (digits : Int) + 1)
    ⟨roundDiv num den, top - (digits : Int) + 1⟩
  | room + 1, digits =>
    match i.onGrid (top - (digits : Int) + 1) with
    | some d => if d.coefficient = 0 then i.search top room (digits + 1) else d
    | none => i.search top room (digits + 1)

def shortest (mantissa : Nat) (exponent : Int) : Digits :=
  let i := Interval.around mantissa exponent
  (i.search (floorLog10 i.value i.den) 17 1).trim 20

/-- `places` decimal places of `num / den`, a half going to the even neighbour: the integer
nearest to `num / den · 10 ^ places`. -/
def fixedPlaces (num den : Nat) (places : Nat) : Nat :=
  roundDiv (num * tenPow places) den

end Readiness.Decimal
