import Readiness.Inference.Rules

/-!
# Functions that a statement calls

`callees` gives the program functions that a statement calls, with the types of their
arguments, or the cause why these are not determined by concrete types.
-/

namespace Readiness.Specialisation

open Graph (Statement CallInfo)
open Inference (ownerType)

inductive Undetermined
  /-- Arguments are unpacked. -/
  | starred
  /-- An argument without a concrete type. -/
  | argument (name : String)
  /-- Arguments that do not fit the parameters. -/
  | unbound
  /-- A receiver without a concrete type. -/
  | receiver
  /-- A call through a local value. -/
  | indirect
  deriving Repr, DecidableEq

def concreteType (g : Graph) (o : Graph.Operand) : Except Undetermined TypeExpr :=
  let ts := g.typeOf o
  match ts.single? with
  | some t => if ts.isConcrete then .ok t else .error (.argument o.name)
  | none => .error (.argument o.name)

def instantiate (image : Image) (g : Graph) (s : Statement) (function : Entity)
    (first : List TypeExpr) : Except Undetermined (List Target) := do
  if (s.call.map CallInfo.starred).getD false then throw .starred
  let given := if s.call.isSome then s.positionalArgs else s.operands
  let positional ← given.mapM (concreteType g)
  let keywords ← s.keywordArgs.values.mapM (concreteType g)
  match image.callTypes? function (first ++ positional)
      (Table.ofList (s.keywordArgs.keys.zip keywords)) with
  | some bound => return [⟨function, bound⟩]
  | none => throw .unbound

def method? (image : Image) (t : TypeExpr) (origin : ClassRef) (name : String) :
    Option (Entity × List TypeExpr) :=
  match image.resolve? origin name with
  | some (.staticMethod f) => some (f, [])
  | some (.classMethod f) => some (f, [.cls origin])
  | some f => if f.isFunction then some (f, [t]) else none
  | none => none

def methodCallees (image : Image) (g : Graph) (s : Statement) (name : String) :
    Except Undetermined (List Target) :=
  match s.receiver? with
  | none => .ok []
  | some o =>
    let receiver := g.typeOf o
    match receiver.single?, receiver.single?.bind TypeExpr.origin? with
    | some t, some origin =>
      if origin.moduleName = "builtins" ∧ origin ≠ .object then .ok []
      else if !receiver.isConcrete then .error .receiver
      else
        match method? image t origin name with
        | some (f, first) => instantiate image g s f first
        | none => .ok []
    | _, _ => if receiver.isConcrete then .ok [] else .error .receiver

def staticCallees (image : Image) (g : Graph) (s : Statement) (callee : Entity) :
    Except Undetermined (List Target) :=
  match callee with
  | .method f owner => if f.isFunction then instantiate image g s f [ownerType owner] else .ok []
  | f => if f.isFunction then instantiate image g s f [] else .ok []

def callees (image : Image) (g : Graph) (s : Statement) : Except Undetermined (List Target) :=
  match s.kind, s.allocation, s.call with
  | .allocation, some info, _ =>
    if s.op = "new" then
      match info.hint.class? with
      | some c =>
        match image.resolve? c "__init__" with
        | some f =>
          if f.isFunction then instantiate image g s f [.cls c] else .ok []
        | none => .ok []
      | none => .ok []
    else .ok []
  | .call, _, some call =>
    if call.deallocates then .ok []
    else
      match call.dispatch with
      | .static => staticCallees image g s call.callee
      | .method => methodCallees image g s call.calleeName
      | .indirect => .error .indirect
      | .operator => .ok []
  | _, _, _ => .ok []

end Readiness.Specialisation
