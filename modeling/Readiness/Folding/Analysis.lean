import Readiness.Flow.Worklist
import Readiness.Folding.Expression
import Readiness.Report.Findings

/-!
# Constant propagation

`analyse` lists the expressions and branches with a known operand, says which of them
are constant, and how much of the code they and the blocks that are never run make up.  It may
break off.
-/

namespace Readiness.Folding

open Graph (Statement Edge)
open Report (Candidate Constants)

def define (facts : Facts) (s : Statement) (value : Option Const) : Facts :=
  match s.target with
  | none => facts
  | some t => facts.set t ((value.map Known.const).getD .varies)

/-- Tells obstacles that break the analysis off from those it reports. -/
def surviving (outcome : Except Obstacle Const) : Except Breakdown (Except Obstacle Const) :=
  match outcome with
  | .ok c => .ok (.ok c)
  | .error e =>
    match e.breakdown? with
    | some cause => .error cause
    | none => .ok (.error e)

def operandValue? (facts : Facts) (s : Statement) (position : Nat) :
    Except Breakdown (Option Const) :=
  match s.operand position with
  | .ok o => .ok (lookUp? facts o)
  | .error part => .error (.missing part)

variable (b : Bounds)

/-- What is known after a statement. -/
def transfer (moment : Moment) (facts : Facts) (s : Statement) :
    Except Breakdown Facts :=
  match s.kind with
  | .call => return define facts s (← surviving (fold b moment facts s)).toOption
  | .assignment => do
    return define facts s (← if s.op = "copy" then operandValue? facts s 0 else pure none)
  | .branch => .ok facts
  | _ => .ok (define facts s none)

def condition? (facts : Facts) (s : Statement) : Except Breakdown (Option Const) :=
  operandValue? facts s 0

/-- The facts after the statements of a block from a position on, and the known condition of the
last branch. -/
def runFrom (round : Nat) (condition : Option Const) :
    Nat → Facts → List Statement → Except Breakdown (Facts × Option Const)
  | _, facts, [] => .ok (facts, condition)
  | position, facts, s :: rest => do
    let known ← if s.kind = .branch then condition? facts s else pure condition
    runFrom round known (position + 1) (← transfer b ⟨round, position⟩ facts s) rest

/-- Whether a branch on a known condition is taken; none when both ways are possible. -/
def taken? (s : Statement) (condition : Const) : Option Bool :=
  if s.op = "for" then
    match condition.length with
    | .ok 0 => some false
    | _ => none
  else some condition.truth

def follows (taken : Bool) (e : Edge) : Bool :=
  match e.kind with
  | .branchTrue => taken
  | .branchFalse | .loopExit => !taken
  | _ => true

/-- The edges that are left when the condition is known. -/
def liveEdges (edges : List Edge) (last : Option Statement) (condition : Option Const) :
    List Edge :=
  match last, condition with
  | some s, some c =>
    if s.kind = .branch then
      match taken? s c with
      | some taken => edges.filter (follows taken)
      | none => edges
    else edges
  | _, _ => edges

def send (g : Graph) (round block : Nat) (before : Facts) :
    Except Breakdown (List (Nat × Facts)) := do
  let statements := g.statementsOf block
  let (after, condition) ← runFrom b round none 0 before statements
  return (liveEdges (g.outgoing block) statements.getLast? condition).map fun e =>
    (e.target, after)

/-- The facts at all blocks that are ever run, and the blocks that wait when the rounds end. -/
def propagated (g : Graph) : Except Breakdown (Flow.Pending Facts) :=
  Flow.propagate g .empty (send b g) merge sameFacts Flow.standardRounds

def factsOf (g : Graph) : Except Breakdown (Flow.Facts Facts) := do
  return (← propagated b g).facts

def isEvaluated (s : Statement) (call : Graph.CallInfo) : Bool :=
  match call.dispatch with
  | .static => (pure? call.callee).isSome
  | .operator => s.op != "slice"
  | _ => false

def isCandidate (facts : Facts) (s : Statement) : Except Breakdown Bool :=
  match s.kind with
  | .branch => return (← condition? facts s).isSome
  | .call =>
    match s.call with
    | none => .error (.missing (.description "dispatch"))
    | some call =>
      .ok (isEvaluated s call && s.operands.any fun o => (lookUp? facts o).isSome)
  | _ => .ok false

/-- The candidate that an outcome makes; a constant has to be written. -/
def finding (s : Statement) : Except Obstacle Const → Except Breakdown Candidate
  | .ok c => return ⟨s.location, true, 1, ← c.brief.mapError .raised⟩
  | .error e => .ok ⟨s.location, false, 0, e.message⟩

def candidate (moment : Moment) (facts : Facts) (s : Statement) : Except Breakdown Candidate := do
  match s.kind with
  | .branch => finding s ((← condition? facts s).elim (.error .condition) .ok)
  | _ => finding s (← surviving (fold b moment facts s))

def candidate? (moment : Moment) (facts : Facts) (s : Statement) :
    Except Breakdown (List Candidate) := do
  if ← isCandidate facts s then return [← candidate b moment facts s] else return []

def candidatesFrom (round : Nat) :
    Nat → Facts → List Statement → Except Breakdown (List Candidate)
  | _, _, [] => .ok []
  | position, facts, s :: rest => do
    let found ← candidate? b ⟨round, position⟩ facts s
    let after ← transfer b ⟨round, position⟩ facts s
    return found ++ (← candidatesFrom round (position + 1) after rest)

def candidatesOf (g : Graph) (facts : Flow.Facts Facts) (block : Nat) :
    Except Breakdown (List Candidate) :=
  match facts.get? block with
  | some before =>
    candidatesFrom b (Flow.standardRounds + block) 0 before (g.statementsOf block)
  | none => .ok []

/-- The part of the code that need not be run, in per cent with two places. -/
def reduction (saved total : Nat) : Float :=
  if total = 0 then 0.0
  else
    let share := 100.0 * Float.ofNat saved / Float.ofNat total
    Decimal.roundPlaces 2 (if share < 100.0 then share else 100.0)

def neverRun (g : Graph) (facts : Flow.Facts Facts) : List Nat :=
  g.reachable.filter fun block => !facts.contains block

def analyse (g : Graph) : Except Breakdown Constants := do
  let facts ← factsOf b g
  let reachable := g.reachable
  let count (blocks : List Nat) : Nat := (blocks.flatMap g.statementsOf).length
  let found ← reachable.mapM (candidatesOf b g facts)
  let candidates := found.flatten
  let foldable := (candidates.filter Candidate.isFoldable).length
  let eliminable := count (neverRun g facts)
  let total := count reachable
  return { candidates
           foldable := foldable
           reduction := reduction (foldable + eliminable) total
           eliminable := eliminable
           total := total }

end Readiness.Folding
