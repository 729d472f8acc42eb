import Readiness.Graph.Statement
import Readiness.Text.Case

/-!
# What is known of names

A name is not yet assigned (and then absent), has one known constant, or varies.
Facts of two paths are merged name by name.  `lookUp?` gives the constant that an operand has.
-/

namespace Readiness.Folding

open Graph (Operand)

inductive Known
  | const (c : Const)
  | varies

def Known.const? : Known → Option Const
  | const c => some c
  | varies => none

def Known.agrees : Known → Known → Bool
  | const a, const b => Const.agrees a b
  | varies, varies => true
  | _, _ => false

abbrev Facts := Table String Known

/-- Merges what is known of one name: different constants make it vary. -/
def mergeKnown (old : Option Known) (new : Known) : Known :=
  match old with
  | none => new
  | some .varies => .varies
  | some old => if old.agrees new then old else .varies

def merge (a b : Facts) : Facts :=
  b.entries.foldl (fun t e => t.set e.1 (mergeKnown (t.get? e.1) e.2)) a

def sameFacts (a b : Facts) : Bool :=
  a.size == b.size
    && a.entries.all fun e => ((b.get? e.1).map fun k => k.agrees e.2).getD false

def isPlain : Const → Bool
  | .bool _ | .int _ | .float _ | .complex _ _ | .indefinite _ _ | .str _ | .bytes _ | .none => true
  | _ => false

/-- The constant of a name from outside: members of modules and classes and names in upper case
do not change. -/
def outer? (name : String) (value : Entity) : Option Const :=
  match value with
  | .const c =>
    if isPlain c && (name.contains '.' || Text.isUpperText (ClassRef.lastPart name)) then some c
    else none
  | _ => none

def lookUp? (facts : Facts) : Operand → Option Const
  | .const c => some c
  | .var n => (facts.get? n).bind Known.const?
  | .global n e => outer? n e

end Readiness.Folding
