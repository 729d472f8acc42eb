import Readiness.Const.Basic

/-!
# Equality and order of constants

`equals` never fails; `less` and its three companions fail for operands without an
order.
-/

namespace Readiness.Const

/-- The number that a constant is, if it is one; truth values count as zero and one. -/
def numeric? : Const → Option Numeric
  | bool b => some (.int (if b then 1 else 0))
  | int i => some (.int i)
  | float x => some (.float x)
  | complex a b => some (.complex a b)
  | indefinite n _ => some n
  | _ => Option.none

def integer? : Const → Option Int
  | bool b => some (if b then 1 else 0)
  | int i => some i
  | _ => Option.none

def equalRanges (a b c d e f : Int) : Bool :=
  let n := rangeLength a b c
  n == rangeLength d e f && (n == 0 || (a == d && (n == 1 || c == f)))

mutual

def equals : Const → Const → Bool
  | none, none | ellipsis, ellipsis => true
  | str a, str b | bytes a, bytes b => a == b
  | tuple a, tuple b | list a, list b => equalItems a b
  | range a b c, range d e f => equalRanges a b c d e f
  | a, b =>
    match numeric? a, numeric? b with
    | some x, some y => x.equals y
    | _, _ => false

/-- Whether two item lists agree member by member: the same or equal by value. -/
def equalItems : List Const → List Const → Bool
  | [], [] => true
  | a :: as, b :: bs => (same a b || equals a b) && equalItems as bs
  | _, _ => false

end

def plainFloat (x : Float) : Const :=
  match Decimal.decode x with
  | .finite s =>
    let (num, den) := s.quotient
    if num % den = 0 then int (if s.negative then -((num / den : Nat) : Int) else (num / den : Nat))
    else float x
  | _ => float x

def isZero (x : Float) : Bool :=
  match Decimal.decode x with
  | .finite s => s.mantissa == 0
  | _ => false

mutual

/-- One constant for all that are equal by value: numbers are as narrow as they can be, and ranges
are told by their members. -/
def plain : Const → Const
  | bool b => int (if b then 1 else 0)
  | float x => plainFloat x
  | complex re im =>
    if isZero im then plainFloat re else complex (if isZero re then 0.0 else re) im
  | tuple items => tuple (plainItems items)
  | list items => list (plainItems items)
  | range start stop step =>
    match rangeLength start stop step with
    | 0 => range 0 0 1
    | 1 => range start (start + 1) 1
    | n => range start (start + step * n) step
  | c => c

def plainItems : List Const → List Const
  | [] => []
  | c :: cs => plain c :: plainItems cs

end

/-- Whether two constants count as one key: the same or equal by value. -/
def alike (a b : Const) : Bool := same (plain a) (plain b)

inductive Relation
  | lt
  | le
  | gt
  | ge
  deriving Repr, DecidableEq

def Relation.holds : Relation → Ordering → Bool
  | lt, o => o == .lt
  | le, o => o != .gt
  | gt, o => o == .gt
  | ge, o => o != .lt

def lexical (order : α → α → Ordering) : List α → List α → Ordering
  | [], [] => .eq
  | [], _ :: _ => .lt
  | _ :: _, [] => .gt
  | a :: as, b :: bs =>
    match order a b with
    | .eq => lexical order as bs
    | o => o

mutual

def related (r : Relation) : Const → Const → Except Raised Bool
  | str a, str b => .ok (r.holds (Text.comparePoints a.points b.points))
  | bytes a, bytes b => .ok (r.holds (lexical compare (a.map UInt8.toNat) (b.map UInt8.toNat)))
  | tuple a, tuple b | list a, list b => relatedItems r a b
  | a, b =>
    match numeric? a, numeric? b with
    | some (.complex _ _), _ | _, some (.complex _ _) => .error .typeError
    | some x, some y =>
      match x.compareReals y with
      | some o => .ok (r.holds o)
      | Option.none => .ok false
    | _, _ => .error .typeError

/-- The relation of two item lists, decided by their first difference or their lengths. -/
def relatedItems (r : Relation) : List Const → List Const → Except Raised Bool
  | [], [] => .ok (r.holds .eq)
  | [], _ :: _ => .ok (r.holds .lt)
  | _ :: _, [] => .ok (r.holds .gt)
  | a :: as, b :: bs =>
    if same a b || equals a b then relatedItems r as bs else related r a b

end

/-- Whether two known constants count as one fact: the same, or equal and of one class. -/
def agrees (a b : Const) : Bool :=
  same a b || (a.kind == b.kind && equals a b)

end Readiness.Const
