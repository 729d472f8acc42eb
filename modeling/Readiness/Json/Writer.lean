import Readiness.Json.Basic
import Readiness.Decimal.Layout
import Readiness.Text.Quoted

/-!
# Writing JSON

`Json.write` with one of three styles: spaced on one line, compact, or indented.
-/

namespace Readiness.Json

inductive Style
  /-- One line, a blank after separators. -/
  | spaced
  /-- One line without blanks. -/
  | compact
  /-- One item a line, indented by this many blanks for each level. -/
  | indented (width : Nat)
  deriving Repr, DecidableEq

def unitEscape (n : Nat) : List Char := '\\' :: 'u' :: Text.hex 4 n

def writeChar (c : Char) : List Char :=
  if c = '"' then ['\\', '"']
  else if c = '\\' then ['\\', '\\']
  else if c = '\n' then ['\\', 'n']
  else if c = '\r' then ['\\', 'r']
  else if c = '\t' then ['\\', 't']
  else if c = '\x08' then ['\\', 'b']
  else if c = '\x0c' then ['\\', 'f']
  else if Text.isPlain c then [c]
  else if c.toNat < 0x10000 then unitEscape c.toNat
  else
    let n := c.toNat - 0x10000
    unitEscape (0xD800 + n / 0x400) ++ unitEscape (0xDC00 + n % 0x400)

def writePoint : Point → List Char
  | .char c => writeChar c
  | .surrogate half => unitEscape (Point.surrogate half).code

def writeText (t : Text) : List Char := '"' :: t.points.flatMap writePoint ++ ['"']

def writeFloat (x : Float) : String :=
  match Decimal.decode x with
  | .nan => "NaN"
  | .infinite true => "-Infinity"
  | .infinite false => "Infinity"
  | .finite _ => Decimal.text x

def Style.lineBreak (style : Style) (level : Nat) : List Char :=
  match style with
  | .indented width => '\n' :: List.replicate (width * level) ' '
  | _ => []

def Style.separator : Style → List Char
  | .spaced => [',', ' ']
  | _ => [',']

def Style.colon : Style → List Char
  | .compact => [':']
  | _ => [':', ' ']

def Style.enclose (style : Style) (level : Nat) (opening closing : Char)
    (written : List (List Char)) : List Char :=
  let inner :=
    if written.isEmpty then []
    else
      style.lineBreak (level + 1)
        ++ (style.separator ++ style.lineBreak (level + 1)).intercalate written
        ++ style.lineBreak level
  opening :: inner ++ [closing]

mutual

def writeAt (style : Style) (level : Nat) : Json → List Char
  | null => "null".toList
  | bool b => (if b then "true" else "false").toList
  | int i => (toString i).toList
  | float x => (writeFloat x).toList
  | str t => writeText t
  | arr items => style.enclose level '[' ']' (writeItems style (level + 1) items)
  | obj members => style.enclose level '{' '}' (writeMembers style (level + 1) members)

def writeItems (style : Style) (level : Nat) : List Json → List (List Char)
  | [] => []
  | v :: rest => writeAt style level v :: writeItems style level rest

def writeMembers (style : Style) (level : Nat) : List (Text × Json) → List (List Char)
  | [] => []
  | (k, v) :: rest =>
    (writeText k ++ style.colon ++ writeAt style level v) :: writeMembers style level rest

end

def write (style : Style) (value : Json) : String := String.ofList (writeAt style 0 value)

end Readiness.Json
