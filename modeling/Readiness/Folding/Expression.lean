import Readiness.Const.Operator
import Readiness.Folding.Facts
import Readiness.Graph.Parts

/-!
# Evaluating expressions beforehand

`fold` gives the constant, or the reason why there is none.  Some of these reasons
break off the whole analysis: memory runs out, a chosen value has no length or cannot be written, a
part is missing.
-/

namespace Readiness.Folding

open Graph (Statement Operand MissingPart)

/-- What breaks the analysis off. -/
inductive Breakdown
  | raised (e : Raised)
  | missing (part : MissingPart)
  deriving Repr, DecidableEq

def Breakdown.kind : Breakdown → String
  | raised e => e.name
  | missing part => part.kind

def Breakdown.message : Breakdown → String
  | raised .overflow => Const.longMessage
  | raised .valueError => Decimal.limitMessage ""
  | raised _ => ""
  | missing part => part.message

/-- Why an expression is not folded. -/
inductive Obstacle
  | notExpression
  | condition
  | selected
  | impure (callee : String)
  | arguments
  | dynamic
  | operand (o : Operand)
  | evaluation (reason : Unfolded)
  | broken (cause : Breakdown)

def Obstacle.message : Obstacle → String
  | notExpression => "not an expression"
  | condition => "condition is not constant"
  | selected => "selected value is not constant"
  | impure callee => callee ++ " is not a pure builtin"
  | arguments => "keyword or starred arguments"
  | dynamic => "dynamic call"
  | operand o => "operand " ++ o.name ++ " is not constant"
  | evaluation reason => reason.message
  | broken cause => cause.message

def Obstacle.breakdown? : Obstacle → Option Breakdown
  | evaluation (.raised .memory) => some (.raised .memory)
  | broken cause => some cause
  | _ => none

def need (facts : Facts) (obstacle : Obstacle) (o : Operand) : Except Obstacle Const :=
  match lookUp? facts o with
  | some c => .ok c
  | none => .error obstacle

def operandAt (s : Statement) (position : Nat) : Except Obstacle Operand :=
  match s.operand position with
  | .ok o => .ok o
  | .error part => .error (.broken (.missing part))

def pure? : Entity → Option Pure
  | .builtin name | .type (.cls (.builtin name)) => Pure.ofName? name
  | _ => none

def known (facts : Facts) : List Operand → Except Obstacle (List Const)
  | [] => .ok []
  | o :: os =>
    match lookUp? facts o with
    | none => .error (.operand o)
    | some c => return c :: (← known facts os)

/-- Lets a constant through that is small, bounded and can be written. -/
def kept (b : Bounds) (c : Const) : Except Unfolded Const := do
  if ← Const.raising (Const.tooLarge b c) then throw .largeResult
  if c.isUnbounded then throw .infinite
  let _ ← Const.raising c.brief
  return c

def anyLarge (b : Bounds) : List Const → Except Unfolded Bool
  | [] => .ok false
  | c :: cs => do
    if ← Const.raising (Const.tooLarge b c) then return true
    anyLarge b cs

/-- Whether a power of integers has more bits than are kept: each factor but the first adds all of
its bits but one. -/
def isLargePower (b : Bounds) (left right : Const) : Bool :=
  match left.integer?, right.integer? with
  | some l, some r => decide ((b.bits : Int) ≤ ((Numeric.bitLength l - 1 : Nat) : Int) * r)
  | _, _ => false

/-- Refuses large arguments, and powers whose result would be too large. -/
def checkArguments (b : Bounds) (f : Pure) (values : List Const) : Except Unfolded Unit := do
  if ← anyLarge b values then throw .largeArgument
  match f, values with
  | .pow, [left, right] => Const.checkOperands b "**" left right
  | .pow, [left, right, .none] => if isLargePower b left right then throw .largeResult
  | _, _ => pure ()

def applied (b : Bounds) (moment : Moment) (f : Pure) (values : List Const) :
    Except Unfolded Const := do
  checkArguments b f values
  kept b (← Const.raising (f.apply moment values))

def breaking (r : Except Raised α) : Except Obstacle α := r.mapError fun e => .broken (.raised e)

/-- The value of a conditional expression. -/
def select (b : Bounds) (facts : Facts) (s : Statement) : Except Obstacle Const := do
  let test ← need facts .condition (← operandAt s 0)
  let chosen ← need facts .selected (← operandAt s (if test.truth then 1 else 2))
  if ← breaking (Const.tooLarge b chosen) then throw (.evaluation .largeResult)
  let _ ← breaking chosen.brief
  return chosen

def evaluated (r : Except Unfolded Const) : Except Obstacle Const := r.mapError .evaluation

/-- Whether the first two arguments are one name, which stands for one object. -/
def comparesItself (s : Statement) : Bool :=
  match s.args with
  | .var x :: .var y :: _ | .global x _ :: .global y _ :: _ => x == y
  | _ => false

/-- The constant that an expression gives, from what is known of the names. -/
def fold (b : Bounds) (moment : Moment) (facts : Facts) (s : Statement) :
    Except Obstacle Const :=
  match s.call with
  | none => .error .notExpression
  | some call =>
    match call.dispatch with
    | .operator =>
      if s.op = "select" then select b facts s
      else do
        let values ← known facts s.args
        let identical := comparesItself s || b.identical moment
        evaluated (do kept b (← Const.evaluate b identical moment s.op call.starred values))
    | .static =>
      match pure? call.callee with
      | none => .error (.impure call.calleeName)
      | some f =>
        if !call.keywords.isEmpty || call.starred then .error .arguments
        else do
          let values ← known facts s.args
          evaluated (applied b moment f values)
    | _ => .error .dynamic

end Readiness.Folding
