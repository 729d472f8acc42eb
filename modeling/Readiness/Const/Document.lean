import Readiness.Const.Basic
import Readiness.Json.Access
import Readiness.Json.Reader

/-!
# Constants in documents

Null, truth values, integers and texts stand for themselves.  An object with one member gives the
rest: `f` a double by its text, `c` a complex number by two texts, `b` bytes by hexadecimal digits,
`t` a tuple, `l` a list, `r` a range by its numbers, `e` the ellipsis.

`Const.ofJson` reads a constant.
-/

namespace Readiness.Const

open Json (exactText item items text whole)

def doubleOf (j : Json) : Float := (Decimal.read? (exactText j)).getD 0.0

def hexValue (c : Char) : UInt8 := ((Json.hexDigit? c).getD 0).toUInt8

def bytesOfHex : List Char → List UInt8
  | a :: b :: rest => (hexValue a * 16 + hexValue b) :: bytesOfHex rest
  | _ => []

def rangeOf : List Int → Const
  | [stop] => .range 0 stop 1
  | [start, stop] => .range start stop 1
  | start :: stop :: step :: _ => .range start stop step
  | [] => .range 0 0 1

def written (n : Numeric) : Const := ofNumeric (.written 0 0 0) n

def ofMember (key : String) (j : Json) (items : List Const) : Const :=
  match key with
  | "f" => written (.float (doubleOf j))
  | "c" => written (.complex (doubleOf (item j 0)) (doubleOf (item j 1)))
  | "b" => .bytes (bytesOfHex (text j).toList)
  | "t" => .tuple items
  | "l" => .list items
  | "r" => rangeOf ((Json.items j).map whole)
  | "e" => .ellipsis
  | _ => .none

mutual

def ofJson : Json → Const
  | .bool b => .bool b
  | .int i => .int i
  | .float x => written (.float x)
  | .str t => .str t
  | .obj [(key, .arr xs)] => ofMember key.string (.arr xs) (ofItems xs)
  | .obj [(key, j)] => ofMember key.string j []
  | _ => .none

def ofItems : List Json → List Const
  | [] => []
  | x :: xs => ofJson x :: ofItems xs

end

end Readiness.Const
