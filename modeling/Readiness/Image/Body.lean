import Readiness.Lowering.Refusal

/-!
# Bodies of functions

`body` gives the content of the function together with what has to be added to its
lines, or the cause why there is none.
-/

namespace Readiness.Image

open Source (Expr Stmt)

inductive Content
  | statements (body : List Stmt)
  | value (e : Expr)

/-- A body with its lines: `shift` is added to every line, and `base` is the line of what has no
place of its own. -/
structure Body where
  content : Content
  shift : Int
  base : Int

def lambdaOn? (body : List Stmt) (line : Int) : Option Expr :=
  (Source.breadthFirst (Source.bodyOutlines body)).findSome? fun l =>
    match l with
    | .expr (.lambda place _ inner) => if (place.line : Int) = line then some inner else none
    | _ => none

def definition? (body : List Stmt) (name : String) : Option (Bool × List Stmt) :=
  (Source.breadthFirst (Source.bodyOutlines body)).findSome? fun l =>
    match l with
    | .stmt (.function _ isAsync n _ inner _ _) => if n = name then some (isAsync, inner) else none
    | _ => none

def shownBody (f : Function) (start : Nat) (body : List Stmt) : Except Unavailable Body :=
  let offset : Int := (start - 1 : Nat)
  match f.definition with
  | .lambda line _ =>
    match lambdaOn? body (line - offset) with
    | some e => .ok ⟨.value e, offset, offset⟩
    | none => .error .noLambda
  | _ =>
    match definition? body f.name with
    | some (false, inner) => .ok ⟨.statements inner, offset, offset⟩
    | some (true, _) => .error .coroutine
    | none => .error (.noDefinition f.name)

def ownBody (image : Image) (f : Function) : Except Unavailable Body :=
  match f.definition with
  | .function first body => .ok ⟨.statements body, 0, (first : Int) - 1⟩
  | .lambda line _ =>
    match lambdaOn? image.body line with
    | some e => .ok ⟨.value e, 0, (line : Int) - 1⟩
    | none => .error .noLambda
  | .generated => .error .generated

def body? (image : Image) (id : Nat) (f : Function) : Except Unavailable Body :=
  match f.definition, image.listing with
  | .generated, _ => .error .generated
  | _, .missing => .error .unreadable
  | _, .shown shown start body => if shown = id then shownBody f start body else image.ownBody f
  | _, .garbled shown message =>
    if shown = id then .error (.unparseable message) else image.ownBody f
  | _, .faithful => image.ownBody f

end Readiness.Image
