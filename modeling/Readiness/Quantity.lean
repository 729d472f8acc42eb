import Readiness.Decimal.Layout
import Readiness.Json.Basic

/-!
# Quantities

A quantity keeps the kind it came with; `compare?` is none where a side is not a
number.
-/

namespace Readiness

inductive Quantity
  | flag (value : Bool)
  | whole (value : Int)
  | real (value : Float)
  deriving Inhabited

namespace Quantity

def ofJson? : Json → Option Quantity
  | .bool b => some (.flag b)
  | .int i => some (.whole i)
  | .float x => some (.real x)
  | _ => none

def toJson : Quantity → Json
  | flag b => .bool b
  | whole i => .int i
  | real x => .float x

def text : Quantity → String
  | flag b => if b then "True" else "False"
  | whole i => toString i
  | real x => Decimal.text x

def integer? : Quantity → Option Int
  | flag b => some (if b then 1 else 0)
  | whole i => some i
  | real _ => none

def compareReal (i : Int) (x : Float) : Option Ordering :=
  match Decimal.decode x with
  | .nan => none
  | .infinite negative => some (if negative then .gt else .lt)
  | .finite s =>
    let (num, den) := s.quotient
    some (compare (i * den) (if s.negative then -(num : Int) else num))

def compare? (a b : Quantity) : Option Ordering :=
  match a, b with
  | real x, real y =>
    if x < y then some .lt else if y < x then some .gt else if x == y then some .eq else none
  | real x, b => (compareReal (b.integer?.getD 0) x).map Ordering.swap
  | a, real y => compareReal (a.integer?.getD 0) y
  | a, b => some (compare (a.integer?.getD 0) (b.integer?.getD 0))

def below (a b : Quantity) : Bool := a.compare? b == some .lt

def atMost (a b : Quantity) : Bool :=
  match a.compare? b with
  | some o => o.isLE
  | none => false

def toFloat : Quantity → Float
  | real x => x
  | q => Decimal.ofInt (q.integer?.getD 0)

/-- The sum of two quantities: exact unless one is a double. -/
def add (a b : Quantity) : Quantity :=
  match a.integer?, b.integer? with
  | some i, some j => .whole (i + j)
  | _, _ => .real (a.toFloat + b.toFloat)

/-- The difference of two quantities: exact unless one is a double. -/
def sub (a b : Quantity) : Quantity :=
  match a.integer?, b.integer? with
  | some i, some j => .whole (i - j)
  | _, _ => .real (a.toFloat - b.toFloat)

/-- The greatest natural number that is at most the quantity; none without such a bound. -/
def floor? : Quantity → Option Nat
  | real x => (Decimal.floorToInt? x).map Int.toNat
  | q => q.integer?.map Int.toNat

/-- The least natural number that is at least the quantity; none without such a bound. -/
def ceiling? : Quantity → Option Nat
  | real x => (Decimal.ceilToInt? x).map Int.toNat
  | q => q.integer?.map Int.toNat

end Quantity
end Readiness
