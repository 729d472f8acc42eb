import Readiness.Const.Sequence
import Readiness.Decimal.Reader

/-!
# Pure functions on constants

`Pure.apply` yields a constant or the class of the error raised.
-/

namespace Readiness

/-- The functions without effects whose calls can be evaluated ahead of time. -/
inductive Pure
  | abs
  | min
  | max
  | len
  | round
  | divmod
  | pow
  | int
  | float
  | bool
  | ord
  | chr
  | range
  | sqrt
  | exp
  | log
  | sin
  | cos
  | tan
  | floor
  | ceil
  | fabs
  deriving Repr, DecidableEq

namespace Pure

def ofName? : String → Option Pure
  | "abs" => some .abs
  | "min" => some .min
  | "max" => some .max
  | "len" => some .len
  | "round" => some .round
  | "divmod" => some .divmod
  | "pow" => some .pow
  | "int" => some .int
  | "float" => some .float
  | "bool" => some .bool
  | "ord" => some .ord
  | "chr" => some .chr
  | "range" => some .range
  | "math.sqrt" => some .sqrt
  | "math.exp" => some .exp
  | "math.log" => some .log
  | "math.sin" => some .sin
  | "math.cos" => some .cos
  | "math.tan" => some .tan
  | "math.floor" => some .floor
  | "math.ceil" => some .ceil
  | "math.fabs" => some .fabs
  | _ => none

def magnitude (v : Const) : Except Raised Numeric :=
  match v.numeric? with
  | some (.int i) => .ok (.int (i.natAbs : Int))
  | some (.float x) => .ok (.float x.abs)
  | some (.complex a b) =>
    let r := Numeric.hypotenuse a b
    if Numeric.isInfinite r && Numeric.isFinite a && Numeric.isFinite b then .error .overflow
    else .ok (.float r)
  | none => .error .typeError

/-- The item that no later item beats under a relation; the first of equals stays. -/
def extreme (r : Const.Relation) (best : Const) : List Const → Except Raised Const
  | [] => .ok best
  | x :: xs => do
    if ← Const.related r x best then extreme r x xs else extreme r best xs

def extremeOf (r : Const.Relation) : List Const → Except Raised Const
  | [] => .error .typeError
  | [s] => do
    match ← s.items with
    | [] => .error .valueError
    | x :: xs => extreme r x xs
  | x :: xs => extreme r x xs

/-- An integer rounded to a multiple of a power of ten, ties to even; a power with more digits
than the integer has bits rounds to zero. -/
def roundTens (i : Int) (places : Nat) : Int :=
  if Numeric.bitLength i < places then 0
  else
    let unit := Decimal.tenPow places
    let n := Decimal.roundDiv i.natAbs unit * unit
    if i < 0 then -(n : Int) else n

def roundFloat (x : Float) (places : Int) : Except Raised Numeric :=
  if !Numeric.isFinite x || 323 < places then .ok (.float x)
  else if places < -308 then .ok (.float (0.0 * x))
  else
    let r :=
      if 0 ≤ places then Decimal.roundPlaces places.toNat x
      else Decimal.roundTens (-places).toNat x
    if Numeric.isFinite r then .ok (.float r) else .error .overflow

/-- The integer nearest to a number, ties to even. -/
def roundWhole (v : Const) : Except Raised Numeric :=
  match v.numeric? with
  | some (.int i) => .ok (.int i)
  | some (.float x) =>
    match Decimal.roundToInt? x with
    | some i => .ok (.int i)
    | none => if x.isNaN then .error .valueError else .error .overflow
  | _ => .error .typeError

def roundTo (v places : Const) : Except Raised Numeric :=
  match v.numeric?, places.integer? with
  | some (.int i), some n => .ok (.int (if 0 ≤ n then i else roundTens i (-n).toNat))
  | some (.float x), some n => roundFloat x n
  | _, _ => .error .typeError

def rounded (v places : Const) : Except Raised Numeric :=
  match places with
  | .none => roundWhole v
  | places => roundTo v places

def quotientAndRemainder (moment : Moment) (a b : Const) : Except Raised Const :=
  match a.numeric?, b.numeric? with
  | some x, some y => do
    let q ← x.floorDiv y
    let r ← x.mod y
    .ok (.tuple [.ofNumeric (.evaluated moment 0) q, .ofNumeric (.evaluated moment 1) r])
  | _, _ => .error .typeError

def power (a b : Const) : Except Raised Numeric :=
  match a.numeric?, b.numeric? with
  | some x, some y => x.pow y
  | _, _ => .error .typeError

/-- Coefficient of the first argument in Bézout's identity, by the extended Euclidean algorithm. -/
def bezout : Nat → Int → Int → Int → Int → Int × Int
  | 0, r, _, s, _ => (r, s)
  | room + 1, r, r', s, s' =>
    if r' = 0 then (r, s)
    else bezout room r' (r - r.fdiv r' * r') s' (s - r.fdiv r' * s')

def powMod (m : Nat) : Nat → Nat → Nat → Nat → Nat
  | 0, _, _, done => done
  | room + 1, base, e, done =>
    if e = 0 then done
    else
      powMod m room (base * base % m) (e / 2) (if e % 2 = 1 then done * base % m else done)

def powerModulo (a e m : Int) : Except Raised Numeric :=
  if m = 0 then .error .valueError
  else
    let n := m.natAbs
    let finish (r : Nat) : Numeric :=
      .int (if m < 0 ∧ r ≠ 0 then (r : Int) + m else r)
    if 0 ≤ e then
      .ok (finish (powMod n (e.toNat.log2 + 1) (a.fmod n).toNat e.toNat (1 % n)))
    else
      let (g, s) := bezout (2 * n.log2 + 4) (a.fmod n) n 1 0
      if g.natAbs ≠ 1 then .error .valueError
      else
        let inverse := (s * g).fmod n
        .ok (finish (powMod n (e.natAbs.log2 + 1) inverse.toNat e.natAbs (1 % n)))

/-- A power reduced modulo a third argument, as the kinds of the arguments define it.  The kinds are
asked in turn: integers know it of integers only, doubles refuse it, and complex numbers refuse it
once both operands are converted. -/
def powerOfKinds (a b c : Option Numeric) : List (Option Numeric) → Except Raised Numeric
  | [] | some (.float _) :: _ => .error .typeError
  | some (.int _) :: rest =>
    match a, b, c with
    | some (.int x), some (.int y), some (.int m) => powerModulo x y m
    | _, _, _ => powerOfKinds a b c rest
  | some (.complex _ _) :: rest =>
    match a, b with
    | some x, some y => do
      let _ ← x.parts
      let _ ← y.parts
      .error .valueError
    | _, _ => powerOfKinds a b c rest
  | none :: rest => powerOfKinds a b c rest

def powerThree (a b c : Const) : Except Raised Numeric :=
  match c with
  | .none => power a b
  | c =>
    powerOfKinds a.numeric? b.numeric? c.numeric? [a.numeric?, b.numeric?, c.numeric?]

def digitValue? (c : Char) : Option Nat :=
  if c.isDigit then some (c.toNat - 48)
  else if c.isLower then some (c.toNat - 87)
  else if c.isUpper then some (c.toNat - 55)
  else none

def digitsIn (base : Nat) : Bool → Nat → List Char → Option Nat
  | afterDigit, n, [] => if afterDigit then some n else none
  | afterDigit, n, c :: cs =>
    if c = '_' then (if afterDigit then digitsIn base false n cs else none)
    else
      match digitValue? c with
      | some d => if d < base then digitsIn base true (n * base + d) cs else none
      | none => none

def announcedBase? : List Char → Option (Nat × List Char)
  | '0' :: c :: cs =>
    if c = 'x' ∨ c = 'X' then some (16, cs)
    else if c = 'o' ∨ c = 'O' then some (8, cs)
    else if c = 'b' ∨ c = 'B' then some (2, cs)
    else none
  | _ => none

/-- Digits after an announced base: an underscore may come first. -/
def announcedDigits (base : Nat) (cs : List Char) : Option Nat :=
  match cs with
  | '_' :: rest => digitsIn base false 0 rest
  | cs => digitsIn base false 0 cs

/-- An unsigned integer in a base; base zero is announced by the text and is ten otherwise. -/
def readNatural? (base : Nat) (cs : List Char) : Option Nat :=
  match announcedBase? cs with
  | some (b, rest) =>
    if base = 0 ∨ base = b then announcedDigits b rest else digitsIn base false 0 cs
  | none =>
    if base = 0 then
      match digitsIn 10 false 0 cs with
      | some n => if cs.head? = some '0' ∧ n ≠ 0 then none else some n
      | none => none
    else digitsIn base false 0 cs

def readInteger (base : Nat) (cs : List Char) : Except Raised Numeric :=
  let (negative, rest) := Decimal.spanSign (Decimal.trimmed cs)
  let free := base = 2 || base = 4 || base = 8 || base = 16 || base = 32
    || (base = 0 && (announcedBase? rest).isSome)
  let digits := (rest.filter (· != '_')).length
  if !free && Decimal.maxDigits < digits then .error .valueError
  else
    match readNatural? base rest with
    | some n => .ok (.int (if negative then -(n : Int) else n))
    | none => .error .valueError

/-- The ASCII form of a text or bytes that may spell a number. -/
def readable? : Const → Option (List Char)
  | .str t => some (Decimal.asciiForm t.points)
  | .bytes bs => some (Decimal.asciiBytes bs)
  | _ => none

def toInteger (v : Const) : Except Raised Numeric :=
  match v.numeric?, readable? v with
  | some (.int i), _ => .ok (.int i)
  | some (.float x), _ =>
    match Decimal.truncToInt? x with
    | some i => .ok (.int i)
    | none => if x.isNaN then .error .valueError else .error .overflow
  | none, some cs => readInteger 10 cs
  | _, _ => .error .typeError

def toIntegerIn (v base : Const) : Except Raised Numeric :=
  match base.integer? with
  | none => .error .typeError
  | some b =>
    if (b ≠ 0 ∧ b < 2) ∨ 36 < b then .error .valueError
    else
      match readable? v with
      | some cs => readInteger b.toNat cs
      | none => .error .typeError

def toDouble (v : Const) : Except Raised Numeric :=
  match v.numeric?, readable? v with
  | some (.int i), _ => return .float (← Numeric.toFloat i)
  | some (.float x), _ => .ok (.float x)
  | none, some cs =>
    match Decimal.readAscii? cs with
    | some x => .ok (.float x)
    | none => .error .valueError
  | _, _ => .error .typeError

def codeOf : Const → Except Raised Numeric
  | .str t =>
    match t.points with
    | [p] => .ok (.int p.code)
    | _ => .error .typeError
  | .bytes [b] => .ok (.int b.toNat)
  | _ => .error .typeError

def charOf (v : Const) : Except Raised Const :=
  match v.integer? with
  | none => .error .typeError
  | some i =>
    if i < -(Decimal.twoPow 31 : Int) ∨ Decimal.twoPow 31 ≤ i then .error .overflow
    else if i < 0 ∨ Point.count ≤ i then .error .valueError
    else .ok (.str (.singleton (.ofCode i.toNat)))

def real (v : Const) : Except Raised Float :=
  match v.numeric? with
  | some (.int i) => Numeric.toFloat i
  | some (.float x) => .ok x
  | _ => .error .typeError

/-- A function of one real argument: an undefined value is an error, and so is an infinite one of
a finite argument. -/
def elementary (f : Float → Float) (infinite : Raised) (v : Const) : Except Raised Numeric := do
  let x ← real v
  let r := f x
  if r.isNaN && !x.isNaN then .error .valueError
  else if Numeric.isInfinite r && Numeric.isFinite x then .error infinite
  else .ok (.float r)

def logNat (n : Nat) : Float :=
  let x := Decimal.ofInt n
  if Numeric.isFinite x then Float.log x
  else
    let bits := n.log2 + 1
    let mantissa := Decimal.nearest false n (Decimal.twoPow bits)
    let (mantissa, bits) := if mantissa == 1.0 then (0.5, bits + 1) else (mantissa, bits)
    Float.log mantissa + Float.log 2.0 * Decimal.ofInt bits

def logarithm (v : Const) : Except Raised Float :=
  match v.numeric? with
  | some (.int i) => if i ≤ 0 then .error .valueError else .ok (logNat i.toNat)
  | some (.float x) =>
    if x.isNaN then .ok x
    else if x > 0.0 then .ok (Float.log x)
    else .error .valueError
  | _ => .error .typeError

def logarithmTo (v base : Const) : Except Raised Numeric := do
  let num ← logarithm v
  let den ← logarithm base
  if den == 0.0 then .error .zeroDivision else .ok (.float (num / den))

/-- The integer next to a real number, in a direction given for doubles. -/
def integerPart (part : Float → Option Int) (v : Const) : Except Raised Numeric :=
  match v.numeric? with
  | some (.int i) => .ok (.int i)
  | some (.float x) =>
    match part x with
    | some i => .ok (.int i)
    | none => if x.isNaN then .error .valueError else .error .overflow
  | _ => .error .typeError

def rangeOf (start stop step : Const) : Except Raised Const :=
  match start.integer?, stop.integer?, step.integer? with
  | some a, some b, some c => if c = 0 then .error .valueError else .ok (.range a b c)
  | _, _, _ => .error .typeError

def number : Pure → List Const → Except Raised Numeric
  | .abs, [v] => magnitude v
  | .len, [v] => return .int (← v.length)
  | .round, [v] => roundWhole v
  | .round, [v, n] => rounded v n
  | .pow, [a, b] => power a b
  | .pow, [a, b, c] => powerThree a b c
  | .int, [] => .ok (.int 0)
  | .int, [v] => toInteger v
  | .int, [v, base] => toIntegerIn v base
  | .float, [] => .ok (.float 0.0)
  | .float, [v] => toDouble v
  | .ord, [v] => codeOf v
  | .sqrt, [v] => elementary Float.sqrt .valueError v
  | .exp, [v] => elementary Float.exp .overflow v
  | .log, [v] => return .float (← logarithm v)
  | .log, [v, base] => logarithmTo v base
  | .sin, [v] => elementary Float.sin .valueError v
  | .cos, [v] => elementary Float.cos .valueError v
  | .tan, [v] => elementary Float.tan .valueError v
  | .floor, [v] => integerPart Decimal.floorToInt? v
  | .ceil, [v] => integerPart Decimal.ceilToInt? v
  | .fabs, [v] => elementary Float.abs .valueError v
  | _, _ => .error .typeError

def apply (moment : Moment) : Pure → List Const → Except Raised Const
  | .min, vs => extremeOf .lt vs
  | .max, vs => extremeOf .gt vs
  | .divmod, [a, b] => quotientAndRemainder moment a b
  | .bool, [] => .ok (.bool false)
  | .bool, [v] => .ok (.bool v.truth)
  | .chr, [v] => charOf v
  | .range, [b] => rangeOf (.int 0) b (.int 1)
  | .range, [a, b] => rangeOf a b (.int 1)
  | .range, [a, b, c] => rangeOf a b c
  | f, vs => return .ofNumeric (.evaluated moment 0) (← number f vs)

end Pure
end Readiness
