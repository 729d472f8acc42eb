import Readiness.Const.Numeric
import Readiness.Text.Basic

/-!
# Constants

`Const` holds the values that a program writes down or that folding produces; `kind`
names the class of a constant and `truth` says whether a condition on it holds.

A number that differs from itself, such as zero divided by zero, is the same as another one only if
both are one and the same value.  Such numbers therefore carry where they come from, their birth.
-/

namespace Readiness

structure Moment where
  round : Nat
  position : Nat
  deriving Repr, DecidableEq

/-- Where a number that differs from itself comes from. -/
inductive Birth
  /-- The one value that the library holds. -/
  | library
  /-- A part of an operand of a statement. -/
  | written (statement operand part : Nat)
  /-- A part of what was evaluated at a moment. -/
  | evaluated (moment : Moment) (part : Nat)
  deriving Repr, DecidableEq

inductive Const
  | none
  | ellipsis
  | bool (value : Bool)
  | int (value : Int)
  | float (value : Float)
  | complex (re im : Float)
  /-- A number that differs from itself. -/
  | indefinite (value : Numeric) (birth : Birth)
  | str (value : Text)
  | bytes (value : List UInt8)
  | tuple (items : List Const)
  | list (items : List Const)
  | range (start stop step : Int)
  deriving Inhabited

namespace Const

def ofNumeric (birth : Birth) (n : Numeric) : Const :=
  if n.isIndefinite then indefinite n birth
  else
    match n with
    | .int i => int i
    | .float x => float x
    | .complex re im => complex re im

def kind : Const → String
  | none => "NoneType"
  | ellipsis => "ellipsis"
  | bool _ => "bool"
  | int _ => "int"
  | float _ => "float"
  | complex _ _ => "complex"
  | indefinite n _ => n.kind
  | str _ => "str"
  | bytes _ => "bytes"
  | tuple _ => "tuple"
  | list _ => "list"
  | range _ _ _ => "range"

def rangeLength (start stop step : Int) : Nat :=
  if 0 < step then ((stop - start + step - 1).fdiv step).toNat
  else if step < 0 then ((start - stop - step - 1).fdiv (-step)).toNat
  else 0

def rangeItem (start step : Int) (i : Nat) : Int := start + step * i

def maxIndex : Int := (Decimal.twoPow 63 : Int) - 1

/-- What is said of a length that is greater than any index. -/
def longMessage : String := "Python int too large to convert to C ssize_t"

def truth : Const → Bool
  | none => false
  | ellipsis => true
  | bool b => b
  | int i => i != 0
  | float x => x != 0.0
  | complex re im => re != 0.0 || im != 0.0
  | indefinite _ _ => true
  | str t => !t.isEmpty
  | bytes bs => !bs.isEmpty
  | tuple xs | list xs => !xs.isEmpty
  | range a b s => rangeLength a b s != 0

mutual

/-- Whether two constants are one and the same: same class, same value bit for bit, same birth. -/
def same : Const → Const → Bool
  | none, none | ellipsis, ellipsis => true
  | bool a, bool b | int a, int b => a == b
  | float a, float b => a.toBits == b.toBits
  | complex a b, complex c d => a.toBits == c.toBits && b.toBits == d.toBits
  | indefinite _ a, indefinite _ b | str a, str b | bytes a, bytes b => a == b
  | tuple a, tuple b | list a, list b => sameItems a b
  | range a b c, range d e f => a == d && b == e && c == f
  | _, _ => false

def sameItems : List Const → List Const → Bool
  | [], [] => true
  | a :: as, b :: bs => same a b && sameItems as bs
  | _, _ => false

end

mutual

def born (birth : Nat → Birth) (part : Nat) : Const → Const × Nat
  | indefinite n _ => (indefinite n (birth part), part + 1)
  | tuple xs =>
    let (ys, next) := bornItems birth part xs
    (tuple ys, next)
  | list xs =>
    let (ys, next) := bornItems birth part xs
    (list ys, next)
  | c => (c, part)

def bornItems (birth : Nat → Birth) (part : Nat) : List Const → List Const × Nat
  | [] => ([], part)
  | x :: xs =>
    let (y, next) := born birth part x
    let (ys, last) := bornItems birth next xs
    (y :: ys, last)

end

def placed (statement position : Nat) (c : Const) : Const :=
  (born (.written statement position) 0 c).1

end Const
end Readiness
