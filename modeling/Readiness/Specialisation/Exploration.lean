import Readiness.Inference.Session
import Readiness.Specialisation.Callees
import Readiness.Specialisation.Slots

/-!
# Specialising a call graph

`explore` says whether all functions can be specialised and which ones it saw, and
`analyse` gives the section of the report.
-/

namespace Readiness.Specialisation

open Inference (Step Limits)

/-- Instances seen so far, the labels of those explored, and those of the next level. -/
structure Frontier where
  seen : List Target
  labels : List String
  next : List Graph

inductive Advance
  /-- Some function cannot be specialised. -/
  | stopped (labels : List String)
  | going (frontier : Frontier)

structure Exploration where
  isComplete : Bool
  labels : List String

variable (image : Image) (build : Target → Step Graph)

/-- Takes one instance into the next level, unless it has been seen; `depth` is the depth of that
level, if there may be one. -/
def meet (depth : Nat) (mayDescend : Bool)
    (place : String) (frontier : Frontier) (t : Target) : Step Advance := do
  if frontier.seen.any t.same then return .going frontier
  else if !mayDescend then throw (.tooDeep depth place)
  else
    let built ←
      try
        let g ← build t
        pure (some g)
      catch r =>
        match r with
        | .unavailable _ _ => pure none
        | .tooDeep reached _ => do throw (.tooDeep reached (← Inference.labelOf image t))
        | .defective d => throw (.defective d)
    match built with
    | none => return .stopped frontier.labels
    | some g =>
      return .going { frontier with seen := frontier.seen ++ [t], next := frontier.next ++ [g] }

def Advance.andThen (a : Advance) (f : Frontier → Step Advance) : Step Advance :=
  match a with
  | .stopped labels => return .stopped labels
  | .going frontier => f frontier

def exploreStatement (depth : Nat)
    (mayDescend : Bool) (g : Graph) (a : Advance) (s : Graph.Statement) : Step Advance :=
  a.andThen fun frontier =>
    match callees image g s with
    | .error _ => return .stopped frontier.labels
    | .ok targets =>
      targets.foldlM
        (fun a t => a.andThen fun f => meet image build depth mayDescend s.location.text f t)
        (.going frontier)

def exploreFunction (depth : Nat)
    (mayDescend : Bool) (a : Advance) (g : Graph) : Step Advance :=
  a.andThen fun frontier =>
    let labels := frontier.labels ++ [g.label]
    if isConcrete g then
      g.statements.foldlM (exploreStatement image build depth mayDescend g)
        (.going { frontier with labels })
    else return .stopped labels

def exploreLevel (depth : Nat) (mayDescend : Bool)
    (frontier : Frontier) : Step Advance :=
  frontier.next.foldlM (exploreFunction image build depth mayDescend)
    (.going { frontier with next := [] })

/-- Explores a level and those below it; the first number is that of the levels that may follow. -/
def exploreLevels :
    Nat → Nat → Frontier → Step Exploration
  | 0, depth, frontier => do
    match ← exploreLevel image build (depth + 1) false frontier with
    | .stopped labels => return ⟨false, labels⟩
    | .going frontier => return ⟨true, frontier.labels⟩
  | room + 1, depth, frontier => do
    match ← exploreLevel image build (depth + 1) true frontier with
    | .stopped labels => return ⟨false, labels⟩
    | .going frontier =>
      if frontier.next.isEmpty then return ⟨true, frontier.labels⟩
      else exploreLevels room (depth + 1) frontier

/-- Builds what a target calls, level by level. -/
def explore (limit : Nat) (t : Target) (g : Graph) :
    Step Exploration :=
  exploreLevels image build limit 0 ⟨[t], [], [g]⟩

/-- The share of concrete slots; a function without slots counts as concrete. -/
def factor (slots : List Report.Slot) : Float :=
  if slots.isEmpty then 1.0
  else (slots.countP Report.Slot.isConcrete).toFloat / slots.length.toFloat

def analyse (limits : Limits) (t : Target) (g : Graph) :
    Step Report.Specialisation := do
  let found := slots g
  let hasAbstract := !isConcrete g
  let explored ←
    if hasAbstract then pure ⟨false, [g.label]⟩
    else
      explore image (Inference.build image limits)
        (limits.calls.getD Inference.boundlessCalls) t g
  return { slots := found, hasAbstract, factor := factor found
           isComplete := explored.isComplete, instances := explored.labels }

end Readiness.Specialisation
