import Readiness.Decimal.Shortest
import Readiness.Text.Basic

/-!
# Reading doubles

`read?` refuses every text outside this grammar.
-/

namespace Readiness.Decimal

/-- The value of a run of ASCII digits, most significant first. -/
def natOfDigits (cs : List Char) : Nat :=
  cs.foldl (fun n c => 10 * n + (c.toNat - 48)) 0

/-- The double nearest to `± coefficient · 10 ^ exponent`.  Magnitudes far outside the range of
doubles are decided by their number of digits. -/
def ofScientific (negative : Bool) (coefficient : Nat) (exponent : Int) : Float :=
  let magnitude := ((digitsOf coefficient).length : Int) + exponent
  if coefficient = 0 ∨ magnitude < -330 then nearest negative 0 1
  else if 310 < magnitude then (if negative then -infinity else infinity)
  else if 0 ≤ exponent then nearest negative (coefficient * tenPow exponent.toNat) 1
  else nearest negative coefficient (tenPow (-exponent).toNat)

def spanDigits (cs : List Char) : List Char × List Char :=
  (cs.takeWhile Char.isDigit, cs.dropWhile Char.isDigit)

def spanSign : List Char → Bool × List Char
  | '-' :: cs => (true, cs)
  | '+' :: cs | cs => (false, cs)

def readExponent? : List Char → Option Int
  | [] => some 0
  | c :: cs =>
    if c = 'e' ∨ c = 'E' then
      let (negative, rest) := spanSign cs
      let (digits, rest) := spanDigits rest
      if digits.isEmpty || !rest.isEmpty then none
      else some (if negative then -(natOfDigits digits : Int) else natOfDigits digits)
    else none

def readMagnitude? (negative : Bool) (cs : List Char) : Option Float :=
  let (whole, rest) := spanDigits cs
  let (fraction, rest) :=
    match rest with
    | '.' :: more => spanDigits more
    | other => ([], other)
  if whole.isEmpty && fraction.isEmpty then none
  else
    (readExponent? rest).map fun e =>
      ofScientific negative (natOfDigits (whole ++ fraction)) (e - fraction.length)

def readPlain? (cs : List Char) : Option Float :=
  let (negative, rest) := spanSign cs
  let word := String.ofList (rest.map Char.toLower)
  if word = "inf" ∨ word = "infinity" then some (if negative then -infinity else infinity)
  else if word = "nan" then some notANumber
  else readMagnitude? negative rest

/-- Removes underscores that stand between two digits; any other underscore is refused.  The flag
says whether the last character was a digit. -/
def dropUnderscores? : Bool → List Char → Option (List Char)
  | _, [] => some []
  | afterDigit, '_' :: c :: cs =>
    if afterDigit && c.isDigit then (dropUnderscores? true cs).map (c :: ·) else none
  | _, c :: cs =>
    if c = '_' then none else (dropUnderscores? c.isDigit cs).map (c :: ·)

/-- The ASCII form of points that may spell a number: ASCII characters stay, other blanks become
plain ones, and digits of any script become ASCII digits.  The first point of another kind ends it
with a mark that no number has. -/
def asciiForm : List Point → List Char
  | [] => []
  | .surrogate _ :: _ => ['?']
  | .char c :: ps =>
    if c.toNat < 127 then c :: asciiForm ps
    else if Text.isBlank c then ' ' :: asciiForm ps
    else
      match Text.digit? c with
      | some n => Char.ofNat (48 + n) :: asciiForm ps
      | none => ['?']

def asciiBytes (bytes : List UInt8) : List Char :=
  bytes.map fun b => if b.toNat < 128 then Char.ofNat b.toNat else '?'

def isAsciiBlank (c : Char) : Bool := c == ' ' || decide (9 ≤ c.toNat ∧ c.toNat ≤ 13)

def trimmed (cs : List Char) : List Char :=
  ((cs.dropWhile isAsciiBlank).reverse.dropWhile isAsciiBlank).reverse

/-- A double in ASCII form: blanks around it and underscores between digits are allowed. -/
def readAscii? (cs : List Char) : Option Float := do
  readPlain? (← dropUnderscores? false (trimmed cs))

def read? (t : Text) : Option Float := readAscii? (asciiForm t.points)

def readInt? (t : Text) : Option Int := do
  let cs ← dropUnderscores? false (trimmed (asciiForm t.points))
  let (negative, digits) := spanSign cs
  if digits.isEmpty || !digits.all Char.isDigit then none
  else some (if negative then -(natOfDigits digits : Int) else natOfDigits digits)

end Readiness.Decimal
