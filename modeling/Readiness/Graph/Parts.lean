import Readiness.Graph.Statement

/-!
# Parts of statements

`operand`, `callInfo` and `allocationInfo` give a part or say that it is missing.
-/

namespace Readiness.Graph

inductive MissingPart
  | operand
  /-- The description of a call, of an allocation or of a receiver, asked for a property. -/
  | description (property : String)
  deriving Repr, DecidableEq

def MissingPart.kind : MissingPart → String
  | operand => "IndexError"
  | description _ => "AttributeError"

def MissingPart.message : MissingPart → String
  | operand => "tuple index out of range"
  | description property => "'NoneType' object has no attribute '" ++ property ++ "'"

namespace Statement

def operand (s : Statement) (position : Nat) : Except MissingPart Operand :=
  match s.operands[position]? with
  | some o => .ok o
  | none => .error .operand

def lacksOperand? (s : Statement) : Option MissingPart :=
  if s.operands.isEmpty then some .operand else none

def lacksCall? (s : Statement) (property : String) : Option MissingPart :=
  if s.kind = .call ∧ s.call.isNone then some (.description property) else none

def lacksAllocation? (s : Statement) (property : String) : Option MissingPart :=
  if s.kind = .allocation ∧ s.allocation.isNone then some (.description property) else none

def lacksReceiver? (s : Statement) (property : String) : Option MissingPart :=
  match s.call with
  | some call =>
    if call.dispatch = .method ∧ s.receiver?.isNone then some (.description property) else none
  | none => none

end Statement
end Readiness.Graph
