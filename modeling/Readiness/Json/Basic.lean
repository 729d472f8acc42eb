import Readiness.Text.Basic

/-!
# JSON values

`Json` keeps integers and doubles apart and keeps the order of object members.
-/

namespace Readiness

/-- A JSON value.  Objects list their members in order, each key once. -/
inductive Json
  | null
  | bool (value : Bool)
  | int (value : Int)
  | float (value : Float)
  | str (value : Text)
  | arr (items : List Json)
  | obj (members : List (Text × Json))

namespace Json

/-- Sets a key in a member list: a new key goes to the end, a known one keeps its place. -/
def setMember (key : Text) (value : Json) : List (Text × Json) → List (Text × Json)
  | [] => [(key, value)]
  | (k, v) :: rest =>
    if k = key then (key, value) :: rest else (k, v) :: setMember key value rest

def findMember? (key : Text) (members : List (Text × Json)) : Option Json :=
  (members.find? fun m => m.1 == key).map Prod.snd

def get? : Json → Text → Option Json
  | obj members, key => findMember? key members
  | _, _ => none

def items? : Json → Option (List Json)
  | arr items => some items
  | _ => none

def text? : Json → Option Text
  | str t => some t
  | _ => none

def str? (j : Json) : Option String := j.text?.map Text.string

def int? : Json → Option Int
  | int i => some i
  | _ => none

def bool? : Json → Option Bool
  | bool b => some b
  | _ => none

def float? : Json → Option Float
  | float x => some x
  | _ => none

def members? : Json → Option (List (Text × Json))
  | obj members => some members
  | _ => none

def ofOption (encode : α → Json) : Option α → Json
  | some a => encode a
  | none => null

def ofString (s : String) : Json := str s

def ofStrings (xs : List String) : Json := arr (xs.map ofString)

def ofTexts (xs : List Text) : Json := arr (xs.map str)

def ofNat (n : Nat) : Json := int n

end Json
end Readiness
