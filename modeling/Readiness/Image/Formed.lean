import Readiness.Const.Operator
import Readiness.Image.Entity
import Readiness.Types.Formation

/-!
# Forming entities

Every function gives `unresolved` where the operation is refused or where an operand
does not resolve.
-/

namespace Readiness.Entity

def ofResult : Except Raised Const → Entity
  | .ok c => const c
  | .error _ => unresolved

def unary (sign : String) (e : Entity) : Entity :=
  match e with
  | unresolved => unresolved
  | const c =>
    match Const.unary? (.written 0 0 0) sign with
    | some f => ofResult (f c)
    | Option.none => unresolved
  | e => if sign = "not" then const (.bool (!e.truth)) else unresolved

def equals (a b : Entity) : Bool :=
  match a, b with
  | const a, const b => Const.equals a b
  | a, b => same a b

def binary (sign : String) (a b : Entity) : Entity :=
  match a, b with
  | unresolved, _ | _, unresolved => unresolved
  | const c, const d =>
    match sign with
    | "is" => const (.bool (Const.same c d))
    | "is not" => const (.bool (!Const.same c d))
    | sign =>
      match Const.binary? Bounds.standard.length (.written 0 0 0) sign with
      | some f => ofResult (f c d)
      | Option.none => unresolved
  | a, b =>
    match sign with
    | "is" => const (.bool (same a b))
    | "is not" => const (.bool (!same a b))
    | "==" => const (.bool (equals a b))
    | "!=" => const (.bool (!equals a b))
    | "|" =>
      match a.toTypeExpr, b.toTypeExpr with
      | some s, some t => ((s.barred? t).map ofTypeExpr).getD unresolved
      | _, _ => unresolved
    | _ => unresolved

def deciding (stop : Bool) : List Entity → Entity
  | [] => unresolved
  | [e] => e
  | e :: es => if e.isUnresolved || e.truth == stop then e else deciding stop es

def typeArguments? : Entity → Option (List TypeExpr)
  | const (.tuple cs) => toTypeExprs (cs.map const)
  | tuple items => toTypeExprs items
  | e => e.toTypeExpr.map ([·])

def itemAt (items : List Entity) (i : Int) : Entity :=
  let place := if i < 0 then i + items.length else i
  if place < 0 then unresolved else items.getD place.toNat unresolved

def subscripted (base index : Entity) : Entity :=
  match base, index with
  | _, unresolved => unresolved
  | type t, index =>
    match typeArguments? index with
    | some args => ((t.subscripted? args).map ofTypeExpr).getD unresolved
    | Option.none => unresolved
  | const c, const i => ofResult (Const.subscript c i)
  | tuple items, const (.int i) | list items, const (.int i) => itemAt items i
  | dict entries, key => ((entries.reverse.find? fun e => equals e.1 key).map (·.2)).getD unresolved
  | _, _ => unresolved

def resolvedTuple (items : List Entity) : Entity :=
  if items.any isUnresolved then unresolved else ofTuple items

def resolvedList (items : List Entity) : Entity :=
  if items.any isUnresolved then unresolved else ofList items

end Readiness.Entity
