import Readiness.Decimal.Shortest

/-!
# The text of a double

`text` is the text that reads back exactly, and `significant` has a bounded number of
significant digits.
-/

namespace Readiness.Decimal

/-- Where positional notation ends and how short results look. -/
structure Layout where
  /-- The least position of the decimal point that is still written positionally. -/
  leastPoint : Int
  /-- The greatest position of the decimal point that is still written positionally. -/
  greatestPoint : Int
  /-- Whether an integral positional text ends in `.0`. -/
  keepsPoint : Bool

/-- Doubles are positional from `1e-4` up to below `1e16`, and an integral one ends in `.0`. -/
def Layout.exact : Layout := ⟨-3, 16, true⟩

/-- Six significant digits, positional from `1e-4` up to below `1e6`, without trailing zeros. -/
def Layout.general : Layout := ⟨-3, 6, false⟩

def repeated (n : Nat) (c : Char) : List Char := List.replicate n c

def exponentText (e : Int) : List Char :=
  let digits := digitsOf e.natAbs
  let sign := if e < 0 then '-' else '+'
  'e' :: sign :: (if digits.length < 2 then '0' :: digits else digits)

def Layout.write (layout : Layout) (digits : List Char) (point : Int) : List Char :=
  if layout.leastPoint ≤ point ∧ point ≤ layout.greatestPoint then
    if point ≤ 0 then
      '0' :: '.' :: repeated (-point).toNat '0' ++ digits
    else if (digits.length : Int) ≤ point then
      digits ++ repeated (point.toNat - digits.length) '0'
        ++ (if layout.keepsPoint then ['.', '0'] else [])
    else
      digits.take point.toNat ++ '.' :: digits.drop point.toNat
  else
    match digits with
    | [] => []
    | d :: [] => d :: exponentText (point - 1)
    | d :: rest => d :: '.' :: rest ++ exponentText (point - 1)

def Layout.writeDigits (layout : Layout) (d : Digits) : List Char :=
  let digits := digitsOf d.coefficient
  layout.write digits ((digits.length : Int) + d.exponent)

def signed (negative : Bool) (magnitude : List Char) : String :=
  String.ofList (if negative then '-' :: magnitude else magnitude)

def text (x : Float) : String :=
  match decode x with
  | .nan => "nan"
  | .infinite negative => if negative then "-inf" else "inf"
  | .finite s =>
    if s.mantissa = 0 then signed s.negative ['0', '.', '0']
    else signed s.negative (Layout.exact.writeDigits (shortest s.mantissa s.exponent))

def pointed (digits : List Char) (places : Nat) : List Char :=
  let padded := repeated (places + 1 - digits.length) '0' ++ digits
  if places = 0 then padded
  else padded.take (padded.length - places) ++ '.' :: padded.drop (padded.length - places)

def significantDigits (count : Nat) (num den : Nat) : Digits :=
  let e := floorLog10 num den - (count : Int) + 1
  let (n, d) := shiftTen num den e
  (Digits.mk (roundDiv n d) e).trim (count + 1)

def significant (x : Float) : String :=
  match decode x with
  | .nan => "nan"
  | .infinite negative => if negative then "-inf" else "inf"
  | .finite s =>
    if s.mantissa = 0 then signed s.negative ['0']
    else
      let (num, den) := s.quotient
      signed s.negative (Layout.general.writeDigits (significantDigits 6 num den))

/-- Applies a function to the sign and the exact quotient of a double; none if it is not finite. -/
def onQuotient? (x : Float) (f : Bool → Nat → Nat → α) : Option α :=
  match decode x with
  | .finite s => some (f s.negative s.quotient.1 s.quotient.2)
  | _ => none

def roundPlaces (places : Nat) (x : Float) : Float :=
  (onQuotient? x fun negative num den =>
    nearest negative (fixedPlaces num den places) (tenPow places)).getD x

def roundTens (places : Nat) (x : Float) : Float :=
  (onQuotient? x fun negative num den =>
    nearest negative (roundDiv num (den * tenPow places) * tenPow places) 1).getD x

def withSign (negative : Bool) (n : Nat) : Int := if negative then -n else n

/-- The integer nearest to a finite double, ties to even; none for other doubles. -/
def roundToInt? (x : Float) : Option Int :=
  onQuotient? x fun negative num den => withSign negative (roundDiv num den)

/-- The integer part of a finite double, toward zero. -/
def truncToInt? (x : Float) : Option Int :=
  onQuotient? x fun negative num den => withSign negative (num / den)

def floorToInt? (x : Float) : Option Int :=
  onQuotient? x fun negative num den => (withSign negative num).fdiv den

def ceilToInt? (x : Float) : Option Int :=
  onQuotient? x fun negative num den => -(-withSign negative num).fdiv den

end Readiness.Decimal
