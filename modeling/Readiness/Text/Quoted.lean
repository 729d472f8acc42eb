import Readiness.Text.Basic
import Readiness.Text.Printable

/-!
# Quoted text

`quoted` shows printable characters, `quotedBytes` shows a byte string in ASCII.
-/

namespace Readiness.Text

def hex (width n : Nat) : List Char :=
  let digits := Nat.toDigits 16 n
  List.replicate (width - digits.length) '0' ++ digits

def numberEscape (n : Nat) : List Char :=
  if n ≤ 0xFF then '\\' :: 'x' :: hex 2 n
  else if n ≤ 0xFFFF then '\\' :: 'u' :: hex 4 n
  else '\\' :: 'U' :: hex 8 n

def quotedChar (shown : Char → Bool) (quote c : Char) : List Char :=
  if c = quote ∨ c = '\\' then ['\\', c]
  else if c = '\t' then ['\\', 't']
  else if c = '\n' then ['\\', 'n']
  else if c = '\r' then ['\\', 'r']
  else if shown c then [c]
  else numberEscape c.toNat

def quotedPoint (shown : Char → Bool) (quote : Char) : Point → List Char
  | .char c => quotedChar shown quote c
  | .surrogate half => numberEscape (Point.surrogate half).code

def quoteFor (points : List Point) : Char :=
  if points.contains (.char '\'') && !points.contains (.char '"') then '"' else '\''

def quotedWith (shown : Char → Bool) (points : List Point) : List Char :=
  let quote := quoteFor points
  quote :: points.flatMap (quotedPoint shown quote) ++ [quote]

def quoted (t : Text) : String := String.ofList (quotedWith isPrintable t.points)

def isPlain (c : Char) : Bool := decide (0x20 ≤ c.toNat ∧ c.toNat < 0x7F)

def quotedBytes (bytes : List UInt8) : String :=
  String.ofList ('b' :: quotedWith isPlain (bytes.map fun b => .char (Char.ofNat b.toNat)))

def asciiOnly (s : String) : String :=
  String.ofList (s.toList.flatMap fun c => if c.toNat < 0x80 then [c] else numberEscape c.toNat)

end Readiness.Text
