import Readiness.Const.Builtin
import Readiness.Const.Format

/-!
# Operators on constants

`evaluate` yields a constant, the class of the error raised, or the reason why the
operator is not evaluated.
-/

namespace Readiness

/-- Why values are not evaluated. -/
inductive Unfolded
  /-- Evaluation raises an error of this class. -/
  | raised (error : Raised)
  /-- The magnitude of an exponent is too large. -/
  | exponent (value : Const)
  | power
  | shift (value : Const)
  | repetition
  | starredTuple
  | operator (sign : String)
  | largeArgument
  | largeResult
  | infinite

def Unfolded.message : Unfolded → String
  | raised e => "evaluation raises " ++ e.name
  | exponent v => "exponent " ++ v.text ++ " too large"
  | power => "power result too large"
  | shift v => "shift by " ++ v.text ++ " too large"
  | repetition => "repeated sequence too large"
  | starredTuple => "starred tuple"
  | operator sign => "operator " ++ Text.quoted sign ++ " is not folded"
  | largeArgument => "argument too large"
  | largeResult => "result too large"
  | infinite => "non-finite result"

/-- What is kept: how large values may be, and which are one object. -/
structure Bounds where
  exponent : Nat
  shift : Nat
  length : Nat
  bits : Nat
  /-- Whether equal constants of different variables are one object, where they may be two. -/
  identical : Moment → Bool

def Bounds.standard : Bounds := ⟨256, 4096, 4096, 4096, fun _ => false⟩

namespace Const

def raising (result : Except Raised α) : Except Unfolded α := result.mapError .raised

def hasSmallPowers (v : Const) : Bool :=
  equals v (int 0) || equals v (int 1) || equals v (int (-1))

def exceeds (v : Const) (bound : Nat) : Bool :=
  match v.numeric? with
  | some (.int i) => bound < i.natAbs
  | some (.float x) => x.abs > Decimal.ofInt bound
  | _ => false

def isReal (v : Const) : Bool :=
  match v.numeric? with
  | some (.int _) | some (.float _) => true
  | _ => false

/-- The refusal of a value, which is written then. -/
def refusing (reason : Const → Unfolded) (v : Const) : Unfolded :=
  if v.isWritable then reason v else .raised .valueError

/-- Refuses powers with large exponents or large integer results. -/
def checkPower (b : Bounds) (left right : Const) : Except Unfolded Unit :=
  if isReal right && !hasSmallPowers left then
    if exceeds right b.exponent then .error (refusing .exponent right)
    else
      match left.integer?, right.integer? with
      | some l, some r =>
        if (Numeric.bitLength l : Int) * r > b.bits then .error .power else .ok ()
      | _, _ => .ok ()
  else .ok ()

def checkShift (b : Bounds) (right : Const) : Except Unfolded Unit :=
  match right.integer? with
  | some r => if (b.shift : Int) < r then .error (refusing .shift right) else .ok ()
  | Option.none => .ok ()

def checkRepetition (b : Bounds) (s count : Const) : Except Unfolded Unit :=
  if s.isSequence then
    match count.integer? with
    | some n => do
      let l ← raising s.length
      if (l : Int) * n > b.length then .error .repetition else .ok ()
    | Option.none => .ok ()
  else .ok ()

/-- Refuses operands whose result would be too large. -/
def checkOperands (b : Bounds) (sign : String) (left right : Const) : Except Unfolded Unit :=
  match sign with
  | "**" => checkPower b left right
  | "<<" | ">>" => checkShift b right
  | "*" => do
    checkRepetition b left right
    checkRepetition b right left
  | _ => .ok ()

def arithmetic (birth : Birth) (op : Numeric → Numeric → Except Raised Numeric) (a b : Const) :
    Except Raised Const :=
  match a.numeric?, b.numeric? with
  | some x, some y => return ofNumeric birth (← op x y)
  | _, _ => .error .typeError

def plus (birth : Birth) (a b : Const) : Except Raised Const :=
  match joined? a b with
  | some c => .ok c
  | Option.none => arithmetic birth Numeric.add a b

def repetition (s : Const) (count : Int) : Except Raised Const :=
  if count < -(Decimal.twoPow 63 : Int) ∨ maxIndex < count then
    match s with
    | range _ _ _ => .error .typeError
    | _ => .error .overflow
  else
    match repeated? s count with
    | some c => .ok c
    | Option.none => .error .typeError

def times (birth : Birth) (a b : Const) : Except Raised Const :=
  match a.numeric?, b.numeric? with
  | some _, some _ => arithmetic birth Numeric.mul a b
  | _, _ =>
    if a.isSequence then
      match b.integer? with
      | some n => repetition a n
      | Option.none => .error .typeError
    else if b.isSequence then
      match a.integer? with
      | some n => repetition b n
      | Option.none => .error .typeError
    else .error .typeError

/-- Remainder of numbers, or the filling of a format text. -/
def modulo (limit : Nat) (birth : Birth) (a b : Const) : Except Raised Const :=
  match a with
  | str t => return str ⟨← Format.fill limit .text t.points b⟩
  | bytes bs => do
    let filled ← Format.fill limit .bytes (Format.pointsOfBytes bs) b
    return bytes (filled.map fun p => UInt8.ofNat p.code)
  | a => arithmetic birth Numeric.mod a b

def shifted (left : Bool) (a b : Const) : Except Raised Const :=
  match a.integer?, b.integer? with
  | some x, some n =>
    if n < 0 then .error .valueError
    else if left then .ok (int (x * Decimal.twoPow n.toNat))
    else .ok (int (x >>> n.toNat))
  | _, _ => .error .typeError

/-- A bitwise operation on integers in two's complement, given by its action on bits: digits are
taken from both operands and, past the sign, from their signs. -/
def bitwise (op : Bool → Bool → Bool) (a b : Int) : Int :=
  let width := max (Numeric.bitLength a) (Numeric.bitLength b) + 1
  let modulus : Int := Decimal.twoPow width
  let x := (a.fmod modulus).toNat
  let y := (b.fmod modulus).toNat
  let r : Int := Nat.bitwise op x y
  if op (decide (a < 0)) (decide (b < 0)) then r - modulus else r

/-- A bitwise operation; of two truth values it is a truth value again. -/
def bits (op : Bool → Bool → Bool) (a b : Const) : Except Raised Const :=
  match a, b with
  | bool x, bool y => .ok (bool (op x y))
  | a, b =>
    match a.integer?, b.integer? with
    | some x, some y => .ok (int (bitwise op x y))
    | _, _ => .error .typeError

def ordered (r : Relation) (a b : Const) : Except Raised Const :=
  return bool (← related r a b)

def binary? (limit : Nat) (birth : Birth) :
    String → Option (Const → Const → Except Raised Const)
  | "+" => some (plus birth)
  | "-" => some (arithmetic birth Numeric.sub)
  | "*" => some (times birth)
  | "/" => some (arithmetic birth Numeric.div)
  | "//" => some (arithmetic birth Numeric.floorDiv)
  | "%" => some (modulo limit birth)
  | "**" => some (arithmetic birth Numeric.pow)
  | "<<" => some (shifted true)
  | ">>" => some (shifted false)
  | "&" => some (bits (· && ·))
  | "|" => some (bits (· || ·))
  | "^" => some (bits (· != ·))
  | "==" => some fun a b => .ok (bool (equals a b))
  | "!=" => some fun a b => .ok (bool (!equals a b))
  | "<" => some (ordered .lt)
  | "<=" => some (ordered .le)
  | ">" => some (ordered .gt)
  | ">=" => some (ordered .ge)
  | _ => Option.none

def negated (birth : Birth) (v : Const) : Except Raised Const :=
  match v.numeric? with
  | some n => .ok (ofNumeric birth n.neg)
  | Option.none => .error .typeError

/-- The number itself; a truth value becomes an integer. -/
def positive (v : Const) : Except Raised Const :=
  match v.integer?, v.numeric? with
  | some i, _ => .ok (int i)
  | Option.none, some _ => .ok v
  | Option.none, Option.none => .error .typeError

def unary? (birth : Birth) : String → Option (Const → Except Raised Const)
  | "neg" => some (negated birth)
  | "pos" => some positive
  | "~" => some fun v =>
    match v.integer? with
    | some i => .ok (int (-i - 1))
    | Option.none => .error .typeError
  | "not" => some fun v => .ok (bool (!v.truth))
  | _ => Option.none

/-- The first value that decides a conjunction or disjunction, or else the last one. -/
def deciding (stop : Bool) : List Const → Const
  | [] => none
  | [v] => v
  | v :: vs => if v.truth == stop then v else deciding stop vs

/-- Applies an operation to the first two values; fewer are an error. -/
def onPair (values : List Const) (f : Const → Const → Except Raised Const) :
    Except Unfolded Const :=
  match values with
  | a :: b :: _ => raising (f a b)
  | _ => .error (.raised .index)

def decided (stop : Bool) (values : List Const) : Except Unfolded Const :=
  if values.isEmpty then .error (.raised .index) else .ok (deciding stop values)

/-- Whether there is only one object of this value; the birth of an indefinite number tells it from
others. -/
def isUnique : Const → Bool
  | none | ellipsis | bool _ | indefinite .. => true
  | int i => -5 ≤ i && i ≤ 256
  | str ⟨[]⟩ | tuple [] => true
  | str ⟨[.char c]⟩ => c.val < 256
  | bytes bs => bs.length ≤ 1
  | _ => false

/-- Comparison by identity.  Where equal constants may be two objects, `identical` decides. -/
def isOne (identical : Bool) (a b : Const) : Bool :=
  same a b && (a.isUnique || identical)

/-- Evaluates an operator that is neither binary arithmetic nor unary. -/
def special (identical : Bool) (sign : String) (starred : Bool) (values : List Const) :
    Except Unfolded Const :=
  match sign with
  | "is" => onPair values fun a b => .ok (bool (isOne identical a b))
  | "is not" => onPair values fun a b => .ok (bool (!isOne identical a b))
  | "in" => onPair values fun a b => return bool (← memberOf a b)
  | "not in" => onPair values fun a b => return bool (!(← memberOf a b))
  | "tuple" => if starred then .error .starredTuple else .ok (tuple values)
  | "[]" => onPair values subscript
  | "and" => decided false values
  | "or" => decided true values
  | sign => .error (.operator sign)

def onFirst (values : List Const) (f : Const → Except Raised Const) : Except Unfolded Const :=
  match values with
  | v :: _ => raising (f v)
  | [] => .error (.raised .index)

/-- An operator on constants at a moment; a format text is filled not much further than a limit. -/
def operate (limit : Nat) (identical : Bool) (moment : Moment) (sign : String) (starred : Bool)
    (values : List Const) : Except Unfolded Const :=
  let birth := Birth.evaluated moment 0
  match binary? limit birth sign, unary? birth sign with
  | some f, _ => onPair values f
  | .none, some f => onFirst values f
  | .none, .none => special identical sign starred values

/-- Refuses the first two operands when the result would be too large. -/
def checkValues (b : Bounds) (sign : String) : List Const → Except Unfolded Unit
  | left :: right :: _ => checkOperands b sign left right
  | _ => .ok ()

def evaluate (b : Bounds) (identical : Bool) (moment : Moment) (sign : String) (starred : Bool)
    (values : List Const) : Except Unfolded Const := do
  checkValues b sign values
  operate b.length identical moment sign starred values

/-- Whether a constant is too large to be kept; a range may be too long to have a length. -/
def tooLarge (b : Bounds) (v : Const) : Except Raised Bool :=
  match v with
  | int i => .ok (b.bits < Numeric.bitLength i)
  | v => if v.isSequence then return b.length < (← v.length) else .ok false

def isUnbounded : Const → Bool
  | float x => !Numeric.isFinite x
  | indefinite (.float _) _ => true
  | _ => false

end Const
end Readiness
