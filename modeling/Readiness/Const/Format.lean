import Readiness.Const.Sequence
import Readiness.Const.Text
import Readiness.Decimal.Reader

/-!
# Format texts

`fill` gives the filled points or the class of the error raised.
-/

namespace Readiness.Const
namespace Format

inductive Medium
  | text
  | bytes
  deriving Repr, DecidableEq

structure Options where
  left : Bool := false
  plus : Bool := false
  blank : Bool := false
  alternate : Bool := false
  zero : Bool := false
  width : Nat := 0
  precision : Option Nat := Option.none
  /-- Whether the last option is a number written in digits. -/
  endsInNumber : Bool := false

structure Rest where
  chars : List Char
  values : List Const

def flags (o : Options) : List Char → Options × List Char
  | '-' :: cs => flags { o with left := true } cs
  | '+' :: cs => flags { o with plus := true } cs
  | ' ' :: cs => flags { o with blank := true } cs
  | '#' :: cs => flags { o with alternate := true } cs
  | '0' :: cs => flags { o with zero := true } cs
  | cs => (o, cs)

/-- A size given by digits or, after a star, by the next value.  Digits may give at most `most`,
a value must lie between `-most - 1` and `most`. -/
def size (most : Nat) (r : Rest) : Except Raised (Option Int × Rest) :=
  match r.chars with
  | '*' :: cs =>
    match r.values with
    | [] => .error .typeError
    | v :: vs =>
      match v.integer? with
      | some i =>
        if i < -(most : Int) - 1 ∨ (most : Int) < i then .error .overflow
        else .ok (some i, ⟨cs, vs⟩)
      | Option.none => .error .typeError
  | cs =>
    let digits := cs.takeWhile Char.isDigit
    if digits.isEmpty then .ok (Option.none, r)
    else
      let n := Decimal.natOfDigits digits
      if most < n then .error .valueError
      else .ok (some (n : Int), ⟨cs.dropWhile Char.isDigit, r.values⟩)

def maxWidth : Nat := maxIndex.toNat

def maxPrecision : Nat := Decimal.twoPow 31 - 1

/-- A width as an option: a negative one means padding on the right, and the least one, which has
no counterpart, no padding at all. -/
def Options.withWidth (o : Options) (width : Int) : Options :=
  if width < -(maxWidth : Int) then { o with left := true, width := 0 }
  else if width < 0 then { o with left := true, width := width.natAbs }
  else { o with width := width.toNat }

def startsWithDigit (cs : List Char) : Bool := (cs.head?.map Char.isDigit).getD false

/-- The precision after a point, if there is one; `start` is where the width began. -/
def precision (start : List Char) (o : Options) (r : Rest) : Except Raised (Options × Rest) :=
  match r.chars with
  | '.' :: cs => do
    let (places, r) ← size maxPrecision ⟨cs, r.values⟩
    return ({ o with
      precision := some (places.getD 0).toNat, endsInNumber := startsWithDigit cs }, r)
  | _ => return ({ o with endsInNumber := startsWithDigit start }, r)

variable (limit : Nat) (o : Options)

def skipMark (r : Rest) : Options × Rest :=
  match r.chars with
  | c :: cs =>
    if ['h', 'l', 'L'].contains c then ({ o with endsInNumber := false }, ⟨cs, r.values⟩)
    else (o, r)
  | [] => (o, r)

def options (r : Rest) : Except Raised (Options × Rest) := do
  let (o, cs) := flags {} r.chars
  let (width, r) ← size maxWidth ⟨cs, r.values⟩
  let (o, r) ← precision cs ((width.map o.withWidth).getD o) r
  return skipMark o r

def memoryLimit : Nat := Decimal.twoPow 35

/-- Pads a signed body to the width of the field; not much further than the limit. -/
def pad (fillsZeros : Bool) (sign body : List Point) :
    Except Raised (List Point) :=
  let missing := min (o.width - (sign.length + body.length)) (limit + 1)
  let filler (c : Char) : List Point := List.replicate missing (.char c)
  if memoryLimit < o.width then .error .memory
  else if o.left then .ok (sign ++ body ++ filler ' ')
  else if o.zero && fillsZeros then .ok (sign ++ filler '0' ++ body)
  else .ok (filler ' ' ++ sign ++ body)

def padNumber (sign body : List Char) : Except Raised (List Point) :=
  pad limit o true (sign.map .char) (body.map .char)

def signOf (negative : Bool) : List Char :=
  if negative then ['-'] else if o.plus then ['+'] else if o.blank then [' '] else []

def upper (cs : List Char) : List Char := cs.map Char.toUpper

def integer (code : Char) (i : Int) : Except Raised (List Point) :=
  let precision := o.precision.getD 0
  let base := if code = 'o' then 8 else if code = 'x' ∨ code = 'X' then 16 else 10
  if maxPrecision - 3 < precision then .error .overflow
  else if base = 10 && !Decimal.isWritable i then .error .valueError
  else
    let digits := Nat.toDigits base i.natAbs
    let zeros := min (precision - digits.length) (limit + 1)
    let digits := List.replicate zeros '0' ++ digits
    let mark :=
      if !o.alternate then []
      else if code = 'o' then ['0', 'o']
      else if code = 'x' ∨ code = 'X' then ['0', 'x']
      else []
    let sign := signOf o (decide (i < 0))
    let shape (cs : List Char) := if code = 'X' then upper cs else cs
    padNumber limit o (sign ++ shape mark) (shape digits)

/-- A positive magnitude with `places` digits after the first, as an exponent text. -/
def exponential (places : Nat) (alternate : Bool) (num den : Nat) : List Char :=
  let e : Int := if num = 0 then 0 else Decimal.floorLog10 num den
  let (n, d) := Decimal.shiftTen num den (e - places)
  let c := Decimal.roundDiv n d
  let (c, e) := if Decimal.tenPow (places + 1) ≤ c then (c / 10, e + 1) else (c, e)
  let digits := Decimal.digitsOf c
  let digits := List.replicate (places + 1 - digits.length) '0' ++ digits
  let point := if places = 0 && !alternate then [] else ['.']
  digits.take 1 ++ point ++ digits.drop 1 ++ Decimal.exponentText e

def positional (places : Nat) (alternate : Bool) (num den : Nat) : List Char :=
  let body := Decimal.pointed (Decimal.digitsOf (Decimal.fixedPlaces num den places)) places
  if places = 0 && alternate then body ++ ['.'] else body

/-- Drops trailing zeros after the point, and the point itself when nothing follows it. -/
def dropZeros (cs : List Char) : List Char :=
  if cs.contains '.' then
    let kept := (cs.reverse.dropWhile (· == '0'))
    (match kept with
     | '.' :: rest => rest
     | other => other).reverse
  else cs

/-- A magnitude with a number of significant digits, in the shorter of both notations. -/
def shorter (precision : Nat) (alternate : Bool) (num den : Nat) : List Char :=
  let p := max precision 1
  let e : Int :=
    if num = 0 then 0
    else
      let e := Decimal.floorLog10 num den
      let (n, d) := Decimal.shiftTen num den (e - p + 1)
      if Decimal.tenPow p ≤ Decimal.roundDiv n d then e + 1 else e
  if -4 ≤ e ∧ e < p then
    let body := positional ((p : Int) - 1 - e).toNat alternate num den
    if alternate then body else dropZeros body
  else
    let body := exponential (p - 1) alternate num den
    if alternate then body
    else dropZeros (body.takeWhile (· != 'e')) ++ body.dropWhile (· != 'e')

/-- The digits that a double can have before only zeros follow. -/
def doubleDigits : Nat := 1100

/-- The precision of a floating-point field: more digits than the limit and a double have are all
zeros, and an exponent text with the greatest precision has none. -/
def floatPrecision (code : Char) : Nat :=
  let precision := o.precision.getD 6
  if precision = maxPrecision ∧ code.toLower = 'e' then 0
  else min precision (limit + doubleDigits)

def float (code : Char) (x : Float) : Except Raised (List Point) :=
  let shape (cs : List Char) := if code.isUpper then upper cs else cs
  let precision := floatPrecision limit o code
  match Decimal.decode x with
  | .nan => padNumber limit o (signOf o false) (shape ['n', 'a', 'n'])
  | .infinite negative => padNumber limit o (signOf o negative) (shape ['i', 'n', 'f'])
  | .finite s =>
    let (num, den) := s.quotient
    let lower := code.toLower
    let body :=
      if lower = 'e' then exponential precision o.alternate num den
      else if lower = 'f' then positional precision o.alternate num den
      else shorter precision o.alternate num den
    padNumber limit o (signOf o s.negative) (shape body)

def plain (points : List Point) : Except Raised (List Point) :=
  pad limit o false [] (match o.precision with
    | some p => points.take p
    | Option.none => points)

def wholeOf (v : Const) : Except Raised Int :=
  match v.numeric? with
  | some (.int i) => .ok i
  | some (.float x) =>
    match Decimal.decode x with
    | .nan => .error .valueError
    | .infinite _ => .error .overflow
    | .finite _ => .ok ((Decimal.truncToInt? x).getD 0)
  | _ => .error .typeError

variable (medium : Medium)

/-- The double of a value for a floating-point code; byte strings take an integer that no double
can hold for a value of another class. -/
def realOf (v : Const) : Except Raised Float :=
  match v.numeric? with
  | some (.int i) =>
    match Numeric.toFloat i, medium with
    | .ok x, _ => .ok x
    | .error e, .text => .error e
    | .error _, .bytes => .error .typeError
  | some (.float x) => .ok x
  | _ => .error .typeError

def pointOf (v : Const) : Except Raised Point :=
  match medium, v with
  | .text, .str t =>
    match t.points with
    | [p] => .ok p
    | _ => .error .typeError
  | .bytes, .bytes [b] => .ok (.ofCode b.toNat)
  | medium, v =>
    match v.integer? with
    | some i =>
      let count : Int := if medium = .text then Point.count else 256
      if 0 ≤ i ∧ i < count then .ok (.ofCode i.toNat) else .error .overflow
    | Option.none => .error .typeError

def pointsOfBytes (bytes : List UInt8) : List Point := bytes.map fun b => .ofCode b.toNat

/-- The points of a text of a value, unless the value cannot be written. -/
def written (v : Const) (t : Text) : Except Raised (List Point) :=
  if v.isWritable then .ok t.points else .error .valueError

def shownPoints (v : Const) : Except Raised (List Point) :=
  match medium, v with
  | .text, v => written v v.shown
  | .bytes, .bytes bs => .ok (pointsOfBytes bs)
  | .bytes, _ => .error .typeError

/-- What a code without meaning raises: a byte that is no ASCII character cannot even be shown,
unless it follows a number. -/
def unknownCode (o : Options) (code : Char) : Raised :=
  if medium = .bytes ∧ 128 ≤ code.toNat ∧ !o.endsInNumber then .overflow else .valueError

def field (o : Options) (code : Char) (v : Const) :
    Except Raised (List Point) :=
  if code = 's' ∨ (code = 'b' ∧ medium = .bytes) then do
    plain limit o (← shownPoints medium v)
  else if code = 'r' ∧ medium = .text then do plain limit o (← written v v.text)
  else if code = 'a' ∨ code = 'r' then do plain limit o (← written v (Text.asciiOnly v.text))
  else if code = 'd' ∨ code = 'i' ∨ code = 'u' then do integer limit o code (← wholeOf v)
  else if code = 'o' ∨ code = 'x' ∨ code = 'X' then
    match v.integer? with
    | some i => integer limit o code i
    | Option.none => .error .typeError
  else if ['e', 'E', 'f', 'F', 'g', 'G'].contains code then do
    float limit o code (← realOf medium v)
  else if code = 'c' then do
    plain limit { o with precision := Option.none } [← pointOf medium v]
  else .error (unknownCode medium o code)

/-- Whether the brackets around a key, of which some are open, are closed again. -/
def isClosed : Nat → List Point → Bool
  | 0, _ => true
  | _, [] => false
  | n + 1, .char '(' :: ps => isClosed (n + 2) ps
  | n + 1, .char ')' :: ps => isClosed n ps
  | n + 1, _ :: ps => isClosed (n + 1) ps

/-- What a key in front of a field raises: no constant can be looked up by a text. -/
def keyed (byKey : Bool) (ps : List Point) : Raised :=
  if byKey && !isClosed 1 ps then .valueError else .typeError

/-- Fills a format text; `room` bounds the number of steps. -/
def fillFrom (byKey : Bool) :
    Nat → List Point → List Const → Except Raised (List Point × List Const)
  | 0, _, values | _, [], values => .ok ([], values)
  | _, .char '%' :: .char '(' :: ps, _ => .error (keyed byKey ps)
  | room + 1, .char '%' :: .char '%' :: ps, values => do
    let (filled, unused) ← fillFrom byKey room ps values
    return (.char '%' :: filled, unused)
  | room + 1, .char '%' :: ps, values => do
    let (o, r) ← options ⟨ps.map Point.shown, values⟩
    match r.chars with
    | [] => .error .valueError
    | code :: cs =>
      match r.values with
      | [] => .error .typeError
      | v :: vs =>
        let piece ← field limit medium o code v
        let after := ps.drop (ps.length - cs.length)
        let (filled, unused) ← fillFrom byKey room after vs
        return (piece ++ filled, unused)
  | room + 1, p :: ps, values => do
    let (filled, unused) ← fillFrom byKey room ps values
    return (p :: filled, unused)

/-- Whether a value could be looked up by key, as sequences can that are neither tuples nor texts;
such a value need not be used up. -/
def passes : Const → Bool
  | .list _ | .range _ _ _ => true
  | .bytes _ => medium = .text
  | _ => false

def valuesOf : Const → List Const
  | .tuple xs => xs
  | v => [v]

def fill (format : List Point) (argument : Const) :
    Except Raised (List Point) := do
  let byKey := passes medium argument
  let (filled, unused) ←
    fillFrom limit medium byKey (format.length + 1) format (valuesOf argument)
  if unused.isEmpty || byKey then .ok filled else .error .typeError

end Format
end Readiness.Const
