import Readiness.Json.Basic

/-!
# Lenient access to JSON documents

Documents leave out what has its usual value.  The functions here read a part of a document and
give null, the empty text, zero, false or no items where the part is absent or of another kind.

`depth` bounds how far any reading of a document can descend.
-/

namespace Readiness.Json

variable (j : Json)

def field (key : String) : Json := (j.get? key).getD null

def items : List Json := j.items?.getD []

def item (i : Nat) : Json := (j.items[i]?).getD null

def members : List (String × Json) :=
  (j.members?.getD []).map fun m => (m.1.string, m.2)

def text : String := j.str?.getD ""

def texts : List String := j.items.map text

def exactText : Text := j.text?.getD .empty

def exactTexts : List Text := j.items.map exactText

def whole : Int := j.int?.getD 0

def natural : Nat := j.whole.toNat

def flag : Bool := j.bool?.getD false

def present (read : Json → α) : Json → Option α
  | null => none
  | j => some (read j)

mutual

def depth : Json → Nat
  | arr xs => depthOfItems xs + 1
  | obj ms => depthOfMembers ms + 1
  | _ => 0

def depthOfItems : List Json → Nat
  | [] => 0
  | x :: xs => max (depth x) (depthOfItems xs)

def depthOfMembers : List (Text × Json) → Nat
  | [] => 0
  | (_, x) :: ms => max (depth x) (depthOfMembers ms)

end

end Readiness.Json
