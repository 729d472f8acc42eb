import Readiness.Decimal.Layout

/-!
# Arithmetic of numbers

Every operation yields a number or the class of the error it raises.
-/

namespace Readiness

inductive Raised
  | typeError
  | valueError
  | zeroDivision
  | overflow
  | index
  /-- The result would not fit into memory. -/
  | memory
  deriving Repr, DecidableEq

def Raised.name : Raised → String
  | typeError => "TypeError"
  | valueError => "ValueError"
  | zeroDivision => "ZeroDivisionError"
  | overflow => "OverflowError"
  | index => "IndexError"
  | memory => "MemoryError"

inductive Numeric
  | int (value : Int)
  | float (value : Float)
  | complex (re im : Float)

namespace Numeric

def kind : Numeric → String
  | int _ => "int"
  | float _ => "float"
  | complex _ _ => "complex"

/-- Whether a number differs from itself, because it or a part of it is not a number. -/
def isIndefinite : Numeric → Bool
  | int _ => false
  | float x => x.isNaN
  | complex re im => re.isNaN || im.isNaN

def bitLength (i : Int) : Nat :=
  if i = 0 then 0 else i.natAbs.log2 + 1

def isFinite (x : Float) : Bool :=
  match Decimal.decode x with
  | .finite _ => true
  | _ => false

def isInfinite (x : Float) : Bool :=
  match Decimal.decode x with
  | .infinite _ => true
  | _ => false

def toFloat (i : Int) : Except Raised Float :=
  let x := Decimal.ofInt i
  if isInfinite x then .error .overflow else .ok x

/-- The quotient of two integers, rounded once; a zero has the sign of the divisor. -/
def divideInts (a b : Int) : Except Raised Float :=
  if b = 0 then .error .zeroDivision
  else
    let x := Decimal.nearest (decide (a < 0) != decide (b < 0)) a.natAbs b.natAbs
    if isInfinite x then .error .overflow else .ok x

def copySign (magnitude sign : Float) : Float :=
  let m := magnitude.abs
  if Decimal.signBit sign then -m else m

/-- The remainder with the sign of the dividend, exact; for a divisor that is not zero. -/
def remainder (a b : Float) : Float :=
  match Decimal.decode a, Decimal.decode b with
  | .finite s, .finite t =>
    let e := min s.exponent t.exponent
    let m := s.mantissa * Decimal.twoPow (s.exponent - e).toNat
    let n := t.mantissa * Decimal.twoPow (t.exponent - e).toNat
    let r := m % n
    if 0 ≤ e then Decimal.nearest s.negative (r * Decimal.twoPow e.toNat) 1
    else Decimal.nearest s.negative r (Decimal.twoPow (-e).toNat)
  | .finite _, .infinite _ => a
  | _, _ => Decimal.notANumber

def floorDivMod (a b : Float) : Float × Float :=
  let r := remainder a b
  let q := (a - r) / b
  let (q, r) :=
    if r != 0.0 then
      if (b < 0.0) != (r < 0.0) then (q - 1.0, r + b) else (q, r)
    else (q, copySign 0.0 b)
  let q :=
    if q != 0.0 then
      let f := q.floor
      if q - f > 0.5 then f + 1.0 else f
    else copySign 0.0 (a / b)
  (q, r)

def mulComplex (a b c d : Float) : Float × Float :=
  (a * c - b * d, a * d + b * c)

/-- Quotient of complex numbers, scaled by the larger part of the divisor. -/
def divComplex (a b c d : Float) : Except Raised (Float × Float) :=
  let absRe := c.abs
  let absIm := d.abs
  if absRe >= absIm then
    if absRe == 0.0 then .error .zeroDivision
    else
      let ratio := d / c
      let denom := c + d * ratio
      .ok ((a + b * ratio) / denom, (b - a * ratio) / denom)
  else if absIm >= absRe then
    let ratio := c / d
    let denom := c * ratio + d
    .ok ((a * ratio + b) / denom, (b * ratio - a) / denom)
  else .ok (Decimal.notANumber, Decimal.notANumber)

/-- The length of a vector with coordinates `x ≥ y` of moderate size: the rounded square root of
the sum of squares, corrected once by the error of that sum. -/
def lengthOf (x y : Float) : Float :=
  let h := Float.sqrt (x * x + y * y)
  let error :=
    if h <= 2.0 * y then
      let delta := h - y
      x * (2.0 * delta - x) + (delta - 2.0 * (x - y)) * delta
    else
      let delta := h - x
      2.0 * delta * (x - 2.0 * y) + ((4.0 * delta - y) * y + delta * delta)
  h - error / (2.0 * h)

def twoTo (e : Int) : Float := Float.scaleB 1.0 e

/-- The length of the vector with two given coordinates.  Coordinates that are very large or small
are scaled first, and a coordinate that is too small to matter is added. -/
def hypotenuse (a b : Float) : Float :=
  if isInfinite a || isInfinite b then Decimal.infinity
  else if a.isNaN || b.isNaN then Decimal.notANumber
  else
    let x := if a.abs < b.abs then b.abs else a.abs
    let y := if a.abs < b.abs then a.abs else b.abs
    let scale := twoTo (-600)
    if x > twoTo 511 then
      if y <= x * twoTo (-54) then x + y else lengthOf (x * scale) (y * scale) / scale
    else if y < twoTo (-459) then
      if x >= y / twoTo (-54) then x + y else lengthOf (x / scale) (y / scale) * scale
    else if y <= x * twoTo (-54) then x + y
    else lengthOf x y

/-- A natural power of a complex number by repeated squaring; `bit` runs over the powers of two
up to the exponent. -/
def powComplexNat (n : Nat) : Nat → Nat → Float × Float → Float × Float → Float × Float
  | 0, _, done, _ => done
  | room + 1, bit, done, square =>
    if n < bit then done
    else
      let done :=
        if (n / bit) % 2 = 1 then mulComplex done.1 done.2 square.1 square.2 else done
      powComplexNat n room (2 * bit) done (mulComplex square.1 square.2 square.1 square.2)

/-- A complex power in polar form; there is none for an unbounded angle. -/
def powPolar (a b c d : Float) : Except Raised (Float × Float) :=
  if c == 0.0 && d == 0.0 then .ok (1.0, 0.0)
  else if a == 0.0 && b == 0.0 then
    if d != 0.0 || c < 0.0 then .error .zeroDivision else .ok (0.0, 0.0)
  else
    let size := hypotenuse a b
    let length := Float.pow size c
    let angle := Float.atan2 b a
    let (length, phase) :=
      if d != 0.0 then (length / Float.exp (angle * d), angle * c + d * Float.log size)
      else (length, angle * c)
    if isInfinite phase then .error .zeroDivision
    else .ok (length * Float.cos phase, length * Float.sin phase)

def powComplex (a b c d : Float) : Except Raised Numeric := do
  let (re, im) ←
    if d == 0.0 && c == c.floor && c.abs <= 100.0 then
      let n := ((Decimal.truncToInt? c).getD 0).natAbs
      let p := powComplexNat n 8 1 (1.0, 0.0) (a, b)
      if c < 0.0 then divComplex 1.0 0.0 p.1 p.2 else .ok p
    else powPolar a b c d
  if isInfinite re || isInfinite im then .error .overflow else .ok (.complex re im)

def isOddIntegral (x : Float) : Bool := (x.abs - 2.0 * (x.abs / 2.0).floor) == 1.0

def powFloat (a b : Float) : Except Raised Numeric :=
  if b == 0.0 then .ok (.float 1.0)
  else if a.isNaN then .ok (.float a)
  else if b.isNaN then .ok (.float (if a == 1.0 then 1.0 else b))
  else if isInfinite b then
    let a := a.abs
    if a == 1.0 then .ok (.float 1.0)
    else if (b > 0.0) == (a > 1.0) then .ok (.float b.abs)
    else .ok (.float 0.0)
  else if isInfinite a then
    let odd := isOddIntegral b
    if b > 0.0 then .ok (.float (if odd then a else a.abs))
    else .ok (.float (if odd then copySign 0.0 a else 0.0))
  else if a == 0.0 then
    if b < 0.0 then .error .zeroDivision
    else .ok (.float (if isOddIntegral b then a else 0.0))
  else if a < 0.0 && b != b.floor then powComplex a 0.0 b 0.0
  else
    let negate := a < 0.0 && isOddIntegral b
    let base := a.abs
    if base == 1.0 then .ok (.float (if negate then -1.0 else 1.0))
    else
      let r := Float.pow base b
      let r := if negate then -r else r
      if isInfinite r then .error .overflow else .ok (.float r)

/-- A natural power of an integer; those of zero and of units depend on the exponent's parity
only, so that a large exponent costs nothing. -/
def powNat (a : Int) (n : Nat) : Int :=
  if a.natAbs ≤ 1 ∧ 2 < n then a.pow (2 - n % 2) else a.pow n

def powInt (a b : Int) : Except Raised Numeric := do
  if 0 ≤ b then .ok (.int (powNat a b.toNat)) else powFloat (← toFloat a) (← toFloat b)

inductive Pair
  | ints (a b : Int)
  | floats (a b : Float)
  | complexes (a b c d : Float)

def parts : Numeric → Except Raised (Float × Float)
  | int i => return (← toFloat i, 0.0)
  | float x => .ok (x, 0.0)
  | complex a b => .ok (a, b)

/-- Brings two operands to the wider kind. -/
def pair : Numeric → Numeric → Except Raised Pair
  | int a, int b => .ok (.ints a b)
  | int a, float b => return .floats (← toFloat a) b
  | float a, int b => return .floats a (← toFloat b)
  | float a, float b => .ok (.floats a b)
  | a, b => do
    let (p, q) ← a.parts
    let (r, s) ← b.parts
    return .complexes p q r s

def neg : Numeric → Numeric
  | int i => int (-i)
  | float x => float (-x)
  | complex re im => complex (-re) (-im)

def add (a b : Numeric) : Except Raised Numeric := do
  match ← pair a b with
  | .ints a b => return .int (a + b)
  | .floats a b => return .float (a + b)
  | .complexes a b c d => return .complex (a + c) (b + d)

def sub (a b : Numeric) : Except Raised Numeric := do
  match ← pair a b with
  | .ints a b => return .int (a - b)
  | .floats a b => return .float (a - b)
  | .complexes a b c d => return .complex (a - c) (b - d)

def mul (a b : Numeric) : Except Raised Numeric := do
  match ← pair a b with
  | .ints a b => return .int (a * b)
  | .floats a b => return .float (a * b)
  | .complexes a b c d =>
    let (re, im) := mulComplex a b c d
    return .complex re im

def div (a b : Numeric) : Except Raised Numeric := do
  match ← pair a b with
  | .ints a b => return .float (← divideInts a b)
  | .floats a b => if b == 0.0 then .error .zeroDivision else return .float (a / b)
  | .complexes a b c d =>
    let (re, im) ← divComplex a b c d
    return .complex re im

/-- A part of the division of numbers other than complex ones. -/
def divided (ints : Int → Int → Int) (floats : Float × Float → Float) (a b : Numeric) :
    Except Raised Numeric := do
  match a, b with
  | complex _ _, _ | _, complex _ _ => .error .typeError
  | a, b =>
    match ← pair a b with
    | .ints a b => if b = 0 then .error .zeroDivision else return .int (ints a b)
    | .floats a b =>
      if b == 0.0 then .error .zeroDivision else return .float (floats (floorDivMod a b))
    | .complexes _ _ _ _ => .error .typeError

def floorDiv : Numeric → Numeric → Except Raised Numeric := divided Int.fdiv Prod.fst

def mod : Numeric → Numeric → Except Raised Numeric := divided Int.fmod Prod.snd

def pow (a b : Numeric) : Except Raised Numeric := do
  match ← pair a b with
  | .ints a b => powInt a b
  | .floats a b => powFloat a b
  | .complexes a b c d => powComplex a b c d

/-- The order of two doubles or integers, none when one is not a number. -/
def compareReals : Numeric → Numeric → Option Ordering
  | int a, int b => some (compare a b)
  | float a, float b =>
    if a < b then some .lt else if a == b then some .eq else if a > b then some .gt else none
  | int a, float b => (compareMixed b a).map Ordering.swap
  | float a, int b => compareMixed a b
  | _, _ => none
where
  /-- The exact order of a double and an integer. -/
  compareMixed (x : Float) (i : Int) : Option Ordering :=
    match Decimal.decode x with
    | .nan => none
    | .infinite negative => some (if negative then .lt else .gt)
    | .finite s =>
      let (num, den) := s.quotient
      let n : Int := if s.negative then -(num : Int) else num
      some (compare n (i * den))

/-- Whether two numbers are equal; the comparison of integers and doubles is exact. -/
def equals : Numeric → Numeric → Bool
  | complex a b, complex c d => a == c && b == d
  | complex a b, other => b == 0.0 && compareReals (float a) other == some .eq
  | other, complex a b => b == 0.0 && compareReals other (float a) == some .eq
  | a, b => compareReals a b == some .eq

end Numeric
end Readiness
