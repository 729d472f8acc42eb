/-!
# Texts

A text is a list of points.  A point is a character or a surrogate, one of the code points that
only stand for halves of characters elsewhere: the programs under study and the documents about
them may hold such a half by itself, which no `String` can.

Every string is a text.  `Text.string` shows a text as a string, in which a
replacement character stands for every surrogate; strings are shown as themselves.

`occurs` decides whether one list stands inside another as a run, `isBlank` whether a character is
blank, and `digit?` gives the value of a decimal digit of any script.
-/

namespace Readiness

inductive Point
  | char (c : Char)
  | surrogate (half : Fin 0x800)
  deriving Repr, DecidableEq

namespace Point

def code : Point → Nat
  | char c => c.toNat
  | surrogate half => 0xD800 + half

def count : Nat := 0x110000

def ofCode (n : Nat) : Point :=
  if h : 0xD800 ≤ n ∧ n < 0xE000 then .surrogate ⟨n - 0xD800, by omega⟩ else .char (Char.ofNat n)

def shown : Point → Char
  | char c => c
  | surrogate _ => Char.ofNat 0xFFFD

def isChar (p : Point) (c : Char) : Bool := p == char c

end Point

structure Text where
  points : List Point
  deriving Repr, DecidableEq

namespace Text

def ofChars (cs : List Char) : Text := ⟨cs.map .char⟩

def ofString (s : String) : Text := ofChars s.toList

instance : Coe String Text := ⟨ofString⟩

instance : Append Text := ⟨fun a b => ⟨a.points ++ b.points⟩⟩

def empty : Text := ⟨[]⟩

def singleton (p : Point) : Text := ⟨[p]⟩

def isEmpty (t : Text) : Bool := t.points.isEmpty

def length (t : Text) : Nat := t.points.length

def chars (t : Text) : List Char := t.points.map Point.shown

def string (t : Text) : String := String.ofList t.chars

def join (separator : Text) (texts : List Text) : Text :=
  ⟨List.intercalate separator.points (texts.map points)⟩

def comparePoints : List Point → List Point → Ordering
  | [], [] => .eq
  | [], _ :: _ => .lt
  | _ :: _, [] => .gt
  | a :: as, b :: bs =>
    if a.code < b.code then .lt else if b.code < a.code then .gt else comparePoints as bs

def notAfter (a b : Text) : Bool := comparePoints a.points b.points != .gt

theorem points_append (a b : Text) : (a ++ b).points = a.points ++ b.points := rfl

theorem length_append (a b : Text) : (a ++ b).length = a.length + b.length := by
  simp [length, points_append]

def occurs {α : Type} [BEq α] (part : List α) : List α → Bool
  | [] => part.isEmpty
  | x :: xs => part.isPrefixOf (x :: xs) || occurs part xs

def blankRanges : List (Nat × Nat) :=
  [ (0x9, 0xD), (0x1C, 0x20), (0x85, 0x85), (0xA0, 0xA0), (0x1680, 0x1680), (0x2000, 0x200A),
    (0x2028, 0x2029), (0x202F, 0x202F), (0x205F, 0x205F), (0x3000, 0x3000) ]

def isBlank (c : Char) : Bool :=
  blankRanges.any fun r => decide (r.1 ≤ c.toNat ∧ c.toNat ≤ r.2)

def zeroDigits : List Nat :=
  [ 0x30, 0x660, 0x6F0, 0x7C0, 0x966, 0x9E6, 0xA66, 0xAE6, 0xB66, 0xBE6, 0xC66, 0xCE6, 0xD66,
    0xDE6, 0xE50, 0xED0, 0xF20, 0x1040, 0x1090, 0x17E0, 0x1810, 0x1946, 0x19D0, 0x1A80, 0x1A90,
    0x1B50, 0x1BB0, 0x1C40, 0x1C50, 0xA620, 0xA8D0, 0xA900, 0xA9D0, 0xA9F0, 0xAA50, 0xABF0,
    0xFF10, 0x104A0, 0x10D30, 0x11066, 0x110F0, 0x11136, 0x111D0, 0x112F0, 0x11450, 0x114D0,
    0x11650, 0x116C0, 0x11730, 0x118E0, 0x11950, 0x11C50, 0x11D50, 0x11DA0, 0x16A60, 0x16AC0,
    0x16B50, 0x1D7CE, 0x1D7D8, 0x1D7E2, 0x1D7EC, 0x1D7F6, 0x1E140, 0x1E2F0, 0x1E950, 0x1FBF0 ]

def digit? (c : Char) : Option Nat :=
  (zeroDigits.find? fun z => decide (z ≤ c.toNat ∧ c.toNat ≤ z + 9)).map fun z => c.toNat - z

end Text
end Readiness
