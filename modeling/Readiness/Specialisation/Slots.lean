import Readiness.Graph.Order
import Readiness.Report.Findings
import Readiness.Types.Rules

/-!
# Slots

The slots of a function are its parameters, in order, and then the named local values
that some reachable statement reads, by name.  A slot is concrete when it has exactly one type and
that type is concrete.
-/

namespace Readiness.Specialisation

open Report (Slot)

def readNames (g : Graph) : List String :=
  (g.statements.flatMap fun s => s.operands.filterMap Graph.Operand.var?).eraseDups

/-- The types of a parameter: those found, or those declared when none were found. -/
def parameterTypes (g : Graph) (name : String) : TypeSet :=
  match g.types.get? name with
  | some (t :: ts) => t :: ts
  | _ => (g.declared.get? name).getD TypeSet.unknown

def slot (position : Option Nat) (name : String) (ts : TypeSet) : Slot :=
  ⟨position, name, ts.name, ts.isConcrete⟩

def isClauseName (name : String) : Bool := Text.occurs ['%', 'c'] name.toList

def displayName (name : String) : String := String.ofList (name.toList.takeWhile (· != '%'))

def localSlots (g : Graph) : List String :=
  let read := readNames g
  let names := (g.locals ++ read.filter isClauseName).eraseDups
  (TypeSet.sortedNames names).filter fun n =>
    !n.startsWith "%" && !g.isParam n && read.contains n

def slots (g : Graph) : List Slot :=
  (g.params.mapIdx fun i n => slot (some i) n (parameterTypes g n))
    ++ (localSlots g).map fun n =>
        slot none (displayName n) ((g.types.get? n).getD TypeSet.unknown)

def isConcrete (g : Graph) : Bool := (slots g).all Slot.isConcrete

end Readiness.Specialisation
