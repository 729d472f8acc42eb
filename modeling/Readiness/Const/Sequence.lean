import Readiness.Const.Order

/-!
# Sequences of constants

Length, items, indexing, membership, joining and repetition of strings, byte strings,
tuples, lists and ranges.
-/

namespace Readiness.Const

def ofByte (b : UInt8) : Const := int (b.toNat : Int)

/-- The length of a sequence; other constants have none, and a range may be too long. -/
def length : Const → Except Raised Nat
  | str t => .ok t.length
  | bytes bs => .ok bs.length
  | tuple xs | list xs => .ok xs.length
  | range a b c =>
    let n := rangeLength a b c
    if maxIndex < n then .error .overflow else .ok n
  | _ => .error .typeError

def isSequence : Const → Bool
  | str _ | bytes _ | tuple _ | list _ | range _ _ _ => true
  | _ => false

def rangeItems (start step : Int) (count : Nat) : List Const :=
  (List.range count).map fun i => int (rangeItem start step i)

def items : Const → Except Raised (List Const)
  | str t => .ok (t.points.map fun p => str (.singleton p))
  | bytes bs => .ok (bs.map ofByte)
  | tuple xs | list xs => .ok xs
  | range a b c => .ok (rangeItems a c (rangeLength a b c))
  | _ => .error .typeError

/-- The position that a possibly negative index means in a sequence of a given length. -/
def position? (i : Int) (n : Nat) : Option Nat :=
  if 0 ≤ i then (if i < n then some i.toNat else Option.none)
  else if 0 ≤ i + n then some (i + n).toNat
  else Option.none

def itemAt (i : Int) (xs : List α) : Except Raised α :=
  match position? i xs.length with
  | some p =>
    match xs[p]? with
    | some x => .ok x
    | Option.none => .error .index
  | Option.none => .error .index

def memberAt (i : Int) : Const → Except Raised Const
  | str t => return str (.singleton (← itemAt i t.points))
  | bytes bs => return ofByte (← itemAt i bs)
  | tuple xs | list xs => itemAt i xs
  | range a b c =>
    match position? i (rangeLength a b c) with
    | some p => .ok (int (rangeItem a c p))
    | Option.none => .error .index
  | _ => .error .typeError

def subscript (s index : Const) : Except Raised Const :=
  match index.integer? with
  | some i => s.memberAt i
  | Option.none => .error .typeError

def holds (x : Const) (xs : List Const) : Bool :=
  xs.any fun y => same y x || equals y x

def inRange (i start stop step : Int) : Bool :=
  let n := rangeLength start stop step
  if n = 0 then false
  else
    let offset := i - start
    offset.fmod step == 0 && decide (0 ≤ offset.fdiv step) && decide (offset.fdiv step < n)

def integralFloat? (x : Float) : Option Int :=
  (Decimal.truncToInt? x).filter fun i => Numeric.equals (.float x) (.int i)

def integral? : Numeric → Option Int
  | .int i => some i
  | .float x => integralFloat? x
  | .complex a b => if b == 0.0 then integralFloat? a else Option.none

def memberOf (x s : Const) : Except Raised Bool :=
  match s, x with
  | str t, str p => .ok (Text.occurs p.points t.points)
  | str _, _ => .error .typeError
  | bytes bs, bytes p => .ok (Text.occurs p bs)
  | bytes bs, x =>
    match x.integer? with
    | some i =>
      if 0 ≤ i ∧ i < 256 then .ok (bs.any fun b => b.toNat == i.toNat) else .error .valueError
    | Option.none => .error .typeError
  | tuple xs, x | list xs, x => .ok (holds x xs)
  | range a b c, x =>
    match x.numeric? with
    | some n =>
      match integral? n with
      | some i => .ok (inRange i a b c)
      | Option.none => .ok false
    | Option.none => .ok false
  | _, _ => .error .typeError

def joined? : Const → Const → Option Const
  | str a, str b => some (str (a ++ b))
  | bytes a, bytes b => some (bytes (a ++ b))
  | tuple a, tuple b => some (tuple (a ++ b))
  | list a, list b => some (list (a ++ b))
  | _, _ => Option.none

def copies (count : Int) (xs : List α) : List α :=
  if xs.isEmpty then [] else (List.replicate count.toNat xs).flatten

def repeated? (s : Const) (count : Int) : Option Const :=
  match s with
  | str t => some (str ⟨copies count t.points⟩)
  | bytes bs => some (bytes (copies count bs))
  | tuple xs => some (tuple (copies count xs))
  | list xs => some (list (copies count xs))
  | _ => Option.none

end Readiness.Const
