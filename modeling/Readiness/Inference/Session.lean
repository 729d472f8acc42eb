import Readiness.Graph.Order
import Readiness.Inference.Rules
import Readiness.Lowering.Body

/-!
# Building typed flow graphs

A session keeps the graphs built so far.  `build` gives the graph of a target.
-/

namespace Readiness.Inference

open Graph (Statement)

def maxRounds : Nat := 32

/-- How deep source may nest, how deep calls are followed and how deep source can nest on the stack;
absent when there is no limit. -/
structure Limits where
  nesting : Option Nat
  calls : Option Nat
  stack : Option Nat

/-- The graphs built so far, and the functions that are being typed with the types returned so
far. -/
structure Session where
  built : List (Target × Graph)
  pending : List (Target × TypeSet)

def Session.empty : Session := ⟨[], []⟩

def Session.find? (s : Session) (t : Target) : Option Graph :=
  (s.built.find? fun b => b.1.same t).map Prod.snd

def Session.returned? (s : Session) (t : Target) : Option TypeSet :=
  (s.pending.find? fun b => b.1.same t).map Prod.snd

def Session.opened (s : Session) (t : Target) : Session :=
  { s with pending := (t, []) :: s.pending }

def Session.closed (s : Session) (t : Target) : Session :=
  { s with pending := s.pending.filter fun b => !b.1.same t }

def Session.returning (s : Session) (t : Target) (ts : TypeSet) : Session :=
  { s with pending := s.pending.map fun b => if b.1.same t then (b.1, ts) else b }

def Session.keeping (s : Session) (t : Target) (g : Graph) : Session :=
  { s with built := s.built ++ [(t, g)] }

/-- Steps of a session; the graphs built so far outlive a refusal. -/
abbrev Step := ExceptT Refusal (StateM Session)

structure Progress where
  types : Types
  returns : TypeSet
  changed : List String

variable (image : Image) (ask : Target → Step (Option TypeSet))

def statementType (types : Types)
    (s : Statement) : Step (Option TypeSet) :=
  match plan image types s with
  | .ok r => pure r
  | .error (.inl t) => ask t
  | .error (.inr d) => throw (.defective d)

def typeStatement (fixed : List String)
    (p : Progress) (s : Statement) : Step Progress := do
  if s.kind = .return_ then
    match s.operands.head?.map (operandType p.types) with
    | some (t :: ts) => return { p with returns := TypeSet.join p.returns (t :: ts) }
    | _ => return p
  else
    match s.target with
    | none => return p
    | some target =>
      if fixed.contains target then return p
      else
        match ← statementType image ask p.types s with
        | none | some [] => return p
        | some result =>
          let old := (p.types.get? target).getD []
          let new := TypeSet.join old result
          if TypeSet.equal new old then return p
          else
            return { p with
              types := p.types.set target new
              changed :=
                if p.changed.contains target then p.changed else p.changed ++ [target] }

/-- Types statements once, and notes what the function has returned so far. -/
def typeRound (fixed : List String)
    (target : Target) (statements : List Statement) (p : Progress) : Step Progress := do
  let next ← statements.foldlM (typeStatement image ask fixed) { p with changed := [] }
  modify fun s => s.returning target next.returns
  return next

def typeRounds (fixed : List String)
    (target : Target) (statements : List Statement) : Nat → Progress → Step Progress
  | 0, p =>
    return { p with types := p.changed.foldl (fun t n => t.set n TypeSet.unknown) p.types }
  | n + 1, p => do
    let next ← typeRound image ask fixed target statements p
    if next.changed.isEmpty then return next
    else typeRounds fixed target statements n next

/-- The types of names and of the result of a function, from the types of its parameters and of its
declared local names. -/
def infer (params fixed : Types)
    (target : Target) (statements : List Statement) : Step (Types × TypeSet) := do
  let typed ← typeRounds image ask fixed.keys target statements maxRounds
    ⟨params.update fixed, [], []⟩
  return (typed.types.filter fun e => !e.2.isEmpty, typed.returns)

/-- A callable without caches and without the marks of methods that take no instance. -/
def bare : Entity → Entity
  | .cached f | .classMethod f | .staticMethod f => bare f
  | e => e

/-- The function behind a callable, after so many wrappers at most. -/
def unwrapped : Nat → Entity → Entity
  | 0, e => bare e
  | room + 1, e =>
    match bare e with
    | .function id =>
      match (image.function? id).bind Image.Function.wrapped with
      | some inner => unwrapped room inner
      | none => .function id
    | e => e

def staticFunction : Entity → Entity
  | .staticMethod f => f
  | e => e

/-- The function behind a callable with the types of the arguments that are already bound.
Functions that wrap each other without going round are at most as many as there are functions. -/
def plainCall (callable : Entity) (args : List TypeExpr) :
    Entity × List TypeExpr :=
  match callable with
  | .method f owner => (unwrapped image image.functions.size f, ownerType owner :: args)
  | e => (unwrapped image image.functions.size e, args)

def plainTarget (t : Target) : Entity × List TypeExpr :=
  plainCall image (staticFunction t.callable) t.args

def expandedEntry : String × TypeExpr → Except Refusal (String × TypeSet)
  | (n, t) =>
    match t.expand with
    | .ok ts => .ok (n, ts)
    | .error .unhashable => .error (.defective .unhashable)

def expanded (types : List (String × TypeExpr)) : Except Refusal Types := do
  return Table.ofList (← types.mapM expandedEntry)

variable (limits : Limits)

def prepareFunction (id : Nat) (f : Image.Function)
    (args : List TypeExpr) (label : String) : Except Refusal (Lowering.Lowered × Types) := do
  let refused (cause : Unavailable) : Refusal := .unavailable cause (some label)
  if f.isAsync then throw (refused .coroutine)
  let bound ← (image.boundTypes (.function id) args).mapError refused
  let body ← (image.body? id f).mapError refused
  let lowered ← (Lowering.lowerBody image f body (bound.map Prod.fst) limits.nesting
    limits.stack).mapError (Refusal.labelled label)
  return (lowered, ← expanded bound)

def prepare (t : Target) (label : String) :
    Except Refusal (Lowering.Lowered × Types) :=
  let refused (cause : Unavailable) : Refusal := .unavailable cause (some label)
  let (callable, args) := plainTarget image t
  match callable with
  | .function id =>
    match image.function? id with
    | none => .error (refused (.notFunction (callable.text)))
    | some f => prepareFunction image limits id f args label
  | .library _ =>
    match image.boundTypes callable args with
    | .ok _ => .error (refused .unreadable)
    | .error cause => .error (refused cause)
  | e => .error (refused (.notFunction (e.text)))

def labelOf (t : Target) : Except Refusal String :=
  match t.label image with
  | .ok l => .ok l
  | .error .unhashable => .error (.defective .unhashable)

def fixedTypes (declared : Table String TypeExpr) (params : Types) : Except Refusal Types :=
  expanded (declared.entries.filter fun (n, t) => !params.contains n && t.isResolvable)

/-- What a target needs before it is typed. -/
structure Groundwork where
  label : String
  lowered : Lowering.Lowered
  params : Types
  fixed : Types

/-- Lowers a target and types its parameters. -/
def groundwork (t : Target) : Except Refusal Groundwork := do
  let label ← labelOf image t
  let (lowered, params) ← prepare image limits t label
  let fixed ← fixedTypes lowered.declared params
  return ⟨label, lowered, params, fixed⟩

def Groundwork.graph (w : Groundwork) (types : Types) (returns : TypeSet) : Graph :=
  { w.lowered.graph with label := w.label }.sealed types (w.params.update w.fixed)
    (if w.lowered.isGenerator then TypeSet.ofClass .generator else returns) w.lowered.locals

/-- Builds the graph of a target that has none yet, where `ask` gives the results of called
targets. -/
def buildAnew (ask : Target → Step (Option TypeSet))
    (t : Target) : Step Graph := do
  let w ← groundwork image limits t
  modify fun s => s.opened t
  let (types, returns) ←
    try infer image ask w.params w.fixed t w.lowered.graph.statements
    catch r => do
      modify fun s => s.closed t
      throw r
  let g := w.graph types returns
  modify fun s => (s.closed t).keeping t g
  return g

/-- Whether a target can be looked up at all. -/
def admitted (t : Target) : Except Refusal Unit :=
  match t.args.find? fun a => !a.isResolvable with
  | some a => do
    let label ← labelOf image t
    throw (.unavailable (.unresolvable a) (some label))
  | none => if t.isHashable then .ok () else .error (.defective .unhashable)

/-- The graph of a target, which is built when there is none. -/
def buildWith (ask : Target → Step (Option TypeSet))
    (t : Target) : Step Graph := do
  admitted image t
  match (← get).find? t with
  | some g => return g
  | none => buildAnew image limits ask t

def shownResult (g : Graph) : TypeSet := if g.returns.isEmpty then TypeSet.unknown else g.returns

/-- The result of a called target, whose graph `build` gives if calls are followed that deep.  Of a
target that is refused nothing is known. -/
def answer (build : Option (Target → Step Graph)) (t : Target) : Step (Option TypeSet) := do
  match (← get).returned? t with
  | some [] => return none
  | some ts => return some ts
  | none =>
    match build with
    | none => return some TypeSet.unknown
    | some build =>
      tryCatch (do return some (shownResult (← build t)))
        fun
        | .defective d => throw (.defective d)
        | _ => return some TypeSet.unknown

/-- The result of a called target; `room` is how much deeper calls are followed. -/
def resultOf : Nat → Target → Step (Option TypeSet)
  | 0 => answer none
  | room + 1 => answer (some (buildWith image limits (resultOf room)))

def boundlessCalls : Nat := 1000000

def build (t : Target) : Step Graph :=
  buildWith image limits (resultOf image limits (limits.calls.getD boundlessCalls)) t

end Readiness.Inference
