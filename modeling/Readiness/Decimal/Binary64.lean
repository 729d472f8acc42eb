/-!
# Finite doubles as integers times powers of two

`decode` and `nearest` are exact: they use natural numbers only.
-/

namespace Readiness.Decimal

def twoPow (n : Nat) : Nat := Nat.pow 2 n

def tenPow (n : Nat) : Nat := Nat.pow 10 n

structure Scaled where
  negative : Bool
  mantissa : Nat
  exponent : Int
  deriving Repr, DecidableEq

inductive Decoded
  | nan
  | infinite (negative : Bool)
  | finite (value : Scaled)
  deriving Repr, DecidableEq

def decode (x : Float) : Decoded :=
  let bits := x.toBits.toNat
  let negative := decide (twoPow 63 ≤ bits)
  let field : Nat := (bits / twoPow 52) % 2048
  let fraction : Nat := bits % twoPow 52
  if field = 2047 then
    if fraction = 0 then .infinite negative else .nan
  else if field = 0 then
    .finite ⟨negative, fraction, -1074⟩
  else
    .finite ⟨negative, fraction + twoPow 52, (field : Int) - 1075⟩

def signBit (x : Float) : Bool :=
  decide (twoPow 63 ≤ x.toBits.toNat)

/-- The integer nearest to `num / den`; a half goes to the even neighbour. -/
def roundDiv (num den : Nat) : Nat :=
  let quotient := num / den
  let twice := 2 * (num % den)
  if twice < den then quotient
  else if den < twice then quotient + 1
  else if quotient % 2 = 0 then quotient else quotient + 1

def shiftDown (num den : Nat) (shift : Int) : Nat × Nat :=
  if 0 ≤ shift then (num, den * twoPow shift.toNat) else (num * twoPow (-shift).toNat, den)

/-- The bits of `mantissa · 2 ^ exponent`, where the mantissa has 53 bits or the exponent is the
least one; too large a value becomes infinite. -/
def packMagnitude (mantissa : Nat) (exponent : Int) : Nat :=
  let (mantissa, exponent) :=
    if mantissa = twoPow 53 then (twoPow 52, exponent + 1) else (mantissa, exponent)
  if mantissa < twoPow 52 then mantissa
  else if 971 < exponent then 2047 * twoPow 52
  else (exponent + 1075).toNat * twoPow 52 + (mantissa - twoPow 52)

def nearestBits (num den : Nat) : Nat :=
  if num = 0 then 0
  else
    let guess : Int := (num.log2 : Int) - (den.log2 : Int) - 53
    let (n, d) := shiftDown num den guess
    let fitted : Int := if twoPow 53 ≤ n / d then guess + 1 else guess
    let exponent : Int := max fitted (-1074)
    let (n, d) := shiftDown num den exponent
    packMagnitude (roundDiv n d) exponent

def nearest (negative : Bool) (num den : Nat) : Float :=
  let bits := nearestBits num den
  Float.ofBits (UInt64.ofNat (if negative then bits + twoPow 63 else bits))

def ofInt (i : Int) : Float :=
  nearest (decide (i < 0)) i.natAbs 1

/-- The exact value of a finite magnitude as a quotient of natural numbers. -/
def Scaled.quotient (s : Scaled) : Nat × Nat :=
  if 0 ≤ s.exponent then (s.mantissa * twoPow s.exponent.toNat, 1)
  else (s.mantissa, twoPow (-s.exponent).toNat)

def infinity : Float := Float.ofBits 0x7FF0000000000000

def notANumber : Float := Float.ofBits 0x7FF8000000000000

end Readiness.Decimal
