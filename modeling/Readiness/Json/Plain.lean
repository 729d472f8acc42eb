import Readiness.Decimal.Layout
import Readiness.Json.Basic
import Readiness.Text.Quoted

/-!
# JSON values in messages

`kind` names the class of a JSON value, `shown` writes it in one line the way messages
show values, `truth` is its truth as a condition, and `same` compares two values.
-/

namespace Readiness.Json

def kind : Json → String
  | null => "NoneType"
  | bool _ => "bool"
  | int _ => "int"
  | float _ => "float"
  | str _ => "str"
  | arr _ => "list"
  | obj _ => "dict"

/-- Whether a value counts as true: nothing, zero and what is empty do not. -/
def truth : Json → Bool
  | null => false
  | bool b => b
  | int i => i != 0
  | float x => x != 0.0
  | str s => !s.isEmpty
  | arr xs => !xs.isEmpty
  | obj ms => !ms.isEmpty

mutual

def plain : Json → String
  | null => "None"
  | bool b => if b then "True" else "False"
  | int i => toString i
  | float x => Decimal.text x
  | str s => Text.quoted s
  | arr xs => "[" ++ String.intercalate ", " (plainItems xs) ++ "]"
  | obj ms => "\x7b" ++ String.intercalate ", " (plainMembers ms) ++ "\x7d"

def plainItems : List Json → List String
  | [] => []
  | x :: xs => plain x :: plainItems xs

def plainMembers : List (Text × Json) → List String
  | [] => []
  | (k, v) :: ms => (Text.quoted k ++ ": " ++ plain v) :: plainMembers ms

end

mutual

/-- Whether no integer in a value has too many digits to be written. -/
def isWritable : Json → Bool
  | int i => Decimal.isWritable i
  | arr xs => areWritable xs
  | obj ms => membersWritable ms
  | _ => true

def areWritable : List Json → Bool
  | [] => true
  | x :: xs => isWritable x && areWritable xs

def membersWritable : List (Text × Json) → Bool
  | [] => true
  | (_, v) :: ms => isWritable v && membersWritable ms

end

/-- A value by itself: a text stands without quotes. -/
def shown : Json → Text
  | str t => t
  | j => plain j

mutual

/-- Whether two values are the same, members in order; doubles are the same bit for bit or equal. -/
def same : Json → Json → Bool
  | null, null => true
  | bool a, bool b | int a, int b => a == b
  | float a, float b => a.toBits == b.toBits || a == b
  | str a, str b => a == b
  | arr as, arr bs => sameItems as bs
  | obj as, obj bs => sameMembers as bs
  | _, _ => false

def sameItems : List Json → List Json → Bool
  | [], [] => true
  | a :: as, b :: bs => same a b && sameItems as bs
  | _, _ => false

def sameMembers : List (Text × Json) → List (Text × Json) → Bool
  | [], [] => true
  | (k, a) :: as, (l, b) :: bs => k == l && same a b && sameMembers as bs
  | _, _ => false

end

end Readiness.Json
