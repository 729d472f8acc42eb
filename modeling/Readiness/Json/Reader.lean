import Readiness.Json.Basic
import Readiness.Decimal.Reader

/-!
# Reading JSON

`Json.read` gives the value or the first fault.  The words `NaN`, `Infinity` and
`-Infinity` are accepted as numbers; of equal keys in one object the last value wins.
-/

namespace Readiness.Json

inductive Fault
  | value
  | key
  | colon
  | comma
  | extra
  | escapeLetter
  | unicodeEscape
  | unterminated
  | control
  | byteOrderMark
  /-- An integer with more digits than can be converted. -/
  | longInteger (digits : Nat)
  deriving Repr, DecidableEq

def Fault.message : Fault → String
  | value => "Expecting value"
  | key => "Expecting property name enclosed in double quotes"
  | colon => "Expecting ':' delimiter"
  | comma => "Expecting ',' delimiter"
  | extra => "Extra data"
  | escapeLetter => "Invalid \\escape"
  | unicodeEscape => "Invalid \\uXXXX escape"
  | unterminated => "Unterminated string starting at"
  | control => "Invalid control character at"
  | byteOrderMark => "Unexpected UTF-8 BOM (decode using utf-8-sig)"
  | longInteger digits => Decimal.limitMessage s!": value has {digits} digits"

structure ReadError where
  fault : Fault
  line : Nat
  column : Nat
  offset : Nat
  deriving Repr, DecidableEq

def ReadError.message (e : ReadError) : String :=
  match e.fault with
  | .longInteger _ => e.fault.message
  | _ => s!"{e.fault.message}: line {e.line} column {e.column} (char {e.offset})"

/-- A fault with the number of points left where it was found. -/
abbrev Left := Fault × Nat

def ReadError.at (text : List Point) (fault : Fault) (offset : Nat) : ReadError :=
  let before := text.take offset
  let column := (before.reverse.takeWhile (· != .char '\n')).length + 1
  ⟨fault, before.count (.char '\n') + 1, column, offset⟩

def skipBlanks (ps : List Point) : List Point :=
  ps.dropWhile fun p => p.isChar ' ' || p.isChar '\t' || p.isChar '\n' || p.isChar '\r'

def hexDigit? (c : Char) : Option Nat :=
  let n := c.toNat
  if 48 ≤ n ∧ n ≤ 57 then some (n - 48)
  else if 97 ≤ n ∧ n ≤ 102 then some (n - 87)
  else if 65 ≤ n ∧ n ≤ 70 then some (n - 55)
  else none

/-- Four hexadecimal digits that are not the end of the text. -/
def unicodeUnit? : List Point → Option (Nat × List Point)
  | .char a :: .char b :: .char c :: .char d :: e :: rest => do
    let n := ((← hexDigit? a) * 16 + (← hexDigit? b)) * 16 + (← hexDigit? c)
    return (n * 16 + (← hexDigit? d), e :: rest)
  | _ => none

def escaped? : Point → Option Char
  | .char '"' => some '"'
  | .char '\\' => some '\\'
  | .char '/' => some '/'
  | .char 'b' => some '\x08'
  | .char 'f' => some '\x0c'
  | .char 'n' => some '\n'
  | .char 'r' => some '\r'
  | .char 't' => some '\t'
  | _ => none

def lowSurrogate? : List Point → Option (Nat × List Point)
  | .char '\\' :: .char 'u' :: rest =>
    match unicodeUnit? rest with
    | some (n, after) => if 0xDC00 ≤ n ∧ n ≤ 0xDFFF then some (n, after) else none
    | none => none
  | _ => none

/-- The point that a unit begins, and what follows: a high surrogate takes its partner along, and a
surrogate without partner stands for itself. -/
def joinSurrogates (unit : Nat) (rest : List Point) : Point × List Point :=
  if 0xD800 ≤ unit ∧ unit ≤ 0xDBFF then
    match lowSurrogate? rest with
    | some (low, after) =>
      (.ofCode (0x10000 + (unit - 0xD800) * 0x400 + (low - 0xDC00)), after)
    | none => (.ofCode unit, rest)
  else (.ofCode unit, rest)

def isControl (p : Point) : Bool := decide (p.code < 0x20)

/-- The rest of a string after its opening quote.  `start` is the text from that quote on, and
`done` holds the points so far in reverse. -/
def readString (start : List Point) : Nat → List Point → List Point → Except Left (Text × List Point)
  | 0, _, _ | _, _, [] => .error (.unterminated, start.length)
  | room + 1, done, p :: ps =>
    if p.isChar '"' then .ok (⟨done.reverse⟩, ps)
    else if p.isChar '\\' then
      match ps with
      | [] => .error (.unterminated, start.length)
      | q :: rest =>
        if q.isChar 'u' then
          match unicodeUnit? rest with
          | none => .error (.unicodeEscape, rest.length + 1)
          | some (unit, rest) =>
            let (q, rest) := joinSurrogates unit rest
            readString start room (q :: done) rest
        else
          match escaped? q with
          | some e => readString start room (.char e :: done) rest
          | none => .error (.escapeLetter, rest.length + 2)
    else if isControl p then .error (.control, ps.length + 1)
    else readString start room (p :: done) ps

def spanFraction : List Char → List Char × List Char
  | '.' :: c :: cs => if c.isDigit then Decimal.spanDigits (c :: cs) else ([], '.' :: c :: cs)
  | cs => ([], cs)

def spanExponent (cs : List Char) : Option Int × List Char :=
  match cs with
  | c :: rest =>
    if c = 'e' ∨ c = 'E' then
      let (negative, after) := Decimal.spanSign rest
      let (digits, after) := Decimal.spanDigits after
      if digits.isEmpty then (none, cs)
      else
        let n : Int := Decimal.natOfDigits digits
        (some (if negative then -n else n), after)
    else (none, cs)
  | [] => (none, cs)

/-- The digits before the point: a single zero or a run without leading zero. -/
def spanWhole : List Char → List Char × List Char
  | '0' :: cs => (['0'], cs)
  | cs => Decimal.spanDigits cs

def numberChars : List Point → List Char
  | .char c :: ps =>
    if c.isDigit || ['.', 'e', 'E', '+', '-'].contains c then c :: numberChars ps else []
  | _ => []

def readNumber (start : List Point) (negative : Bool) (ps : List Point) :
    Except Left (Json × List Point) :=
  let run := numberChars ps
  let (whole, rest) := spanWhole run
  if whole.isEmpty then .error (.value, start.length)
  else
    let (fraction, rest) := spanFraction rest
    let (exponent, rest) := spanExponent rest
    let after := ps.drop (run.length - rest.length)
    if fraction.isEmpty && exponent.isNone then
      if Decimal.maxDigits < whole.length then .error (.longInteger whole.length, start.length)
      else
        let n : Int := Decimal.natOfDigits whole
        .ok (.int (if negative then -n else n), after)
    else
      let x := Decimal.ofScientific negative (Decimal.natOfDigits (whole ++ fraction))
        (exponent.getD 0 - fraction.length)
      .ok (.float x, after)

def afterWord? : List Char → List Point → Option (List Point)
  | [], ps => some ps
  | _ :: _, [] => none
  | c :: cs, p :: ps => if p.isChar c then afterWord? cs ps else none

def words : List (String × Json) :=
  [("null", .null), ("true", .bool true), ("false", .bool false),
    ("NaN", .float Decimal.notANumber), ("Infinity", .float Decimal.infinity),
    ("-Infinity", .float (-Decimal.infinity))]

/-- The first word at the head of a text, with its value and what follows it. -/
def firstWord? (ps : List Point) : Option (Json × List Point) :=
  words.findSome? fun (word, value) => (afterWord? word.toList ps).map (value, ·)

def readScalar (p : Point) (ps : List Point) : Except Left (Json × List Point) :=
  match firstWord? (p :: ps) with
  | some found => .ok found
  | none =>
    if p.isChar '-' then readNumber (p :: ps) true ps else readNumber (p :: ps) false (p :: ps)

section Entries

variable {α : Type} (entry : List Point → Except Left (α × List Point)) (closing : Char)

/-- Entries with commas between them, up to a closing bracket; `done` holds those so far in
reverse. -/
def readEntries : Nat → List α → List Point → Except Left (List α × List Point)
  | 0, _, ps => .error (.value, ps.length)
  | room + 1, done, ps => do
    let (v, rest) ← entry ps
    match skipBlanks rest with
    | [] => .error (.comma, 0)
    | p :: after =>
      if p.isChar closing then return ((v :: done).reverse, after)
      else if p.isChar ',' then readEntries room (v :: done) (skipBlanks after)
      else .error (.comma, after.length + 1)

/-- What follows an opening bracket. -/
def readEnclosed (room : Nat) (ps : List Point) : Except Left (List α × List Point) :=
  let start := skipBlanks ps
  if start.head? = some (.char closing) then .ok ([], start.tail)
  else readEntries entry closing room [] start

end Entries

def readMember (value : List Point → Except Left (Json × List Point)) (room : Nat)
    (ps : List Point) : Except Left ((Text × Json) × List Point) :=
  match ps with
  | .char '"' :: rest => do
    let (k, rest) ← readString ps room [] rest
    match skipBlanks rest with
    | .char ':' :: after => do
      let (v, rest) ← value (skipBlanks after)
      return ((k, v), rest)
    | other => .error (.colon, other.length)
  | other => .error (.key, other.length)

def readValue : Nat → List Point → Except Left (Json × List Point)
  | 0, ps => .error (.value, ps.length)
  | _, [] => .error (.value, 0)
  | room + 1, p :: ps =>
    if p.isChar '"' then do
      let (t, rest) ← readString (p :: ps) room [] ps
      return (.str t, rest)
    else if p.isChar '[' then do
      let (items, rest) ← readEnclosed (readValue room) ']' room ps
      return (.arr items, rest)
    else if p.isChar '{' then do
      let (members, rest) ← readEnclosed (readMember (readValue room) room) '}' room ps
      return (.obj (members.foldl (fun done m => setMember m.1 m.2 done) []), rest)
    else readScalar p ps

def read (text : Text) : Except ReadError Json :=
  let ps := text.points
  let place (left : Left) : ReadError := .at ps left.1 (ps.length - left.2)
  if ps.head? = some (.char (Char.ofNat 0xFEFF)) then .error (.at ps .byteOrderMark 0)
  else
    match readValue (2 * ps.length + 2) (skipBlanks ps) with
    | .error left => .error (place left)
    | .ok (value, rest) =>
      match skipBlanks rest with
      | [] => .ok value
      | other => .error (place (.extra, other.length))

end Readiness.Json
