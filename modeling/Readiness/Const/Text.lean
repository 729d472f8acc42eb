import Readiness.Const.Basic
import Readiness.Text.Quoted

/-!
# The text of constants
-/

namespace Readiness.Const

def partText (x : Float) : String :=
  let s := Decimal.text x
  if s.endsWith ".0" then String.ofList (s.toList.take (s.length - 2)) else s

/-- A complex number; a positive zero real part is left out. -/
def complexText (re im : Float) : String :=
  let imText := partText im
  if re == 0.0 && !Decimal.signBit re then imText ++ "j"
  else
    let sign := if imText.startsWith "-" then "" else "+"
    "(" ++ partText re ++ sign ++ imText ++ "j)"

def numericText : Numeric → String
  | .int i => toString i
  | .float x => Decimal.text x
  | .complex re im => complexText re im

def rangeText (start stop step : Int) : String :=
  if step = 1 then s!"range({start}, {stop})" else s!"range({start}, {stop}, {step})"

/-- Texts between round brackets; a single one is followed by a comma. -/
def tupleText : List String → String
  | [one] => "(" ++ one ++ ",)"
  | many => "(" ++ String.intercalate ", " many ++ ")"

mutual

def text : Const → String
  | none => "None"
  | ellipsis => "Ellipsis"
  | bool b => if b then "True" else "False"
  | int i => toString i
  | float x => Decimal.text x
  | complex re im => complexText re im
  | indefinite n _ => numericText n
  | str t => t.quoted
  | bytes bs => Text.quotedBytes bs
  | tuple xs => tupleText (texts xs)
  | list xs => "[" ++ String.intercalate ", " (texts xs) ++ "]"
  | range a b c => rangeText a b c

def texts : List Const → List String
  | [] => []
  | x :: xs => text x :: texts xs

end

def shown : Const → Text
  | str t => t
  | c => text c

mutual

/-- Whether no integer in a constant has too many digits to be written. -/
def isWritable : Const → Bool
  | int i => Decimal.isWritable i
  | tuple xs | list xs => areWritable xs
  | range a b c => [a, b, c].all Decimal.isWritable
  | _ => true

def areWritable : List Const → Bool
  | [] => true
  | x :: xs => isWritable x && areWritable xs

end

def briefWidth : Nat := 40

def briefItems : Nat := 6

/-- How many characters stay before the cut. -/
def briefHead : Nat := (briefWidth - 3) / 2

/-- How many characters stay after the cut. -/
def briefTail : Nat := briefWidth - 3 - briefHead

/-- The members from `briefTail` before the end on.  A list shorter than that counts the missing
members from its end once more. -/
def lastPart {α : Type} (xs : List α) : List α :=
  if briefTail ≤ xs.length then xs.drop (xs.length - briefTail)
  else xs.drop (2 * xs.length - briefTail)

def cut (cs : List Char) : List Char :=
  cs.take briefHead ++ ['.', '.', '.'] ++ lastPart cs

def cutMiddle (cs : List Char) : List Char :=
  if cs.length ≤ briefWidth then cs else cut cs

/-- The brief text of a string: when quoting makes it too long, its middle is cut before quoting
and once more after it. -/
def briefString (t : Text) : String :=
  let whole := Text.quotedWith Text.isPrintable (t.points.take briefWidth)
  if whole.length ≤ briefWidth then String.ofList whole
  else
    String.ofList
      (cut (Text.quotedWith Text.isPrintable (t.points.take briefHead ++ lastPart t.points)))

def briefSequence (opening closing : String) (single : Bool) (level count : Nat)
    (written : List String) : String :=
  if level = 0 ∧ count ≠ 0 then opening ++ "..." ++ closing
  else
    let pieces := if briefItems < count then written ++ ["..."] else written
    let trail := if count = 1 ∧ single then "," else ""
    opening ++ String.intercalate ", " pieces ++ trail ++ closing

mutual

def briefAt : Nat → Const → Except Raised String
  | _, str t => .ok (briefString t)
  | level, tuple xs =>
    return briefSequence "(" ")" true level xs.length (← briefTexts level briefItems xs)
  | level, list xs =>
    return briefSequence "[" "]" false level xs.length (← briefTexts level briefItems xs)
  | _, int i =>
    if Decimal.isWritable i then .ok (String.ofList (cutMiddle (toString i).toList))
    else .error .valueError
  | _, other => .ok (String.ofList (cutMiddle (text other).toList))

/-- The brief texts of members; nothing is written below the last level. -/
def briefTexts : Nat → Nat → List Const → Except Raised (List String)
  | 0, _, _ | _, 0, _ | _, _, [] => .ok []
  | level + 1, room + 1, x :: xs =>
    return (← briefAt level x) :: (← briefTexts (level + 1) room xs)

end

def brief (c : Const) : Except Raised String := briefAt 6 c

end Readiness.Const
