import Readiness.Flow.Values
import Readiness.Lifetime.Matching

/-!
# Paths of manual memory

`walk` records which release met which allocation on some path, which allocations
were left open, and which releases met nothing.  It also notes the first part that a statement on
the way lacks.
-/

namespace Readiness.Lifetime

open Graph (Statement Edge MissingPart)

def released : Int := -1

/-- What is known of the memory at one point of a path. -/
structure State where
  /-- The open allocations, oldest first. -/
  opened : List Int
  /-- Which names may point to which allocations, in order. -/
  aliases : List (String × Int)
  /-- How tests of plain names came out, in order. -/
  facts : List (String × Bool)
  deriving Repr, DecidableEq

namespace State

def empty : State := ⟨[], [], []⟩

def sitesOf (s : State) (name : String) : List Int :=
  s.aliases.filterMap fun p => if p.1 = name then some p.2 else none

/-- Gives a name a new value: it points to these allocations, and tests of it are forgotten. -/
def rebind (s : State) (name : String) (sites : List Int) : State :=
  { s with
    aliases := orderedPairs
      (s.aliases.filter (fun p => decide (p.1 ≠ name)) ++ sites.map fun i => (name, i))
    facts := s.facts.filter fun f => decide (f.1 ≠ name) }

def join (a b : State) : State :=
  { opened := (a.opened ++ b.opened).eraseDups
    aliases := orderedPairs (a.aliases ++ b.aliases)
    facts := a.facts.filter b.facts.contains }

end State

def isAllocation (s : Statement) : Bool :=
  s.kind == .allocation && (s.allocation.map Graph.AllocationInfo.manual).getD false

def isRelease (s : Statement) : Bool :=
  s.kind == .call && (s.call.map Graph.CallInfo.deallocates).getD false

def copied? (s : Statement) : Option String :=
  if s.op = "copy" then (s.operands.head?).bind Graph.Operand.var? else none

/-- Adds the targets of copies of pointers, once for each given round. -/
def spread (copies : List (String × String)) : Nat → List String → List String
  | 0, names => names
  | n + 1, names =>
    let fresh := copies.filterMap fun c =>
      if names.contains c.1 && !names.contains c.2 then some c.2 else none
    spread copies n (names ++ fresh.eraseDups)

def pointers (statements : List Statement) : List String :=
  let direct := statements.filterMap fun s => if isAllocation s then s.target else none
  let copies := statements.filterMap fun s => do return (← copied? s, ← s.target)
  spread copies (copies.length + 1) direct.eraseDups

structure Record where
  /-- Allocations with the releases that met them. -/
  pairs : List (Int × Int)
  leaks : List Int
  doubleReleases : List Int
  missing : Option MissingPart := none

def Record.lacking (r : Record) (part : Option MissingPart) : Record :=
  { r with missing := r.missing <|> part }

def note {α : Type} [DecidableEq α] (x : α) (xs : List α) : List α :=
  if x ∈ xs then xs else xs ++ [x]

structure Setting where
  params : List String
  pointers : List String
  /-- Allocations that are handed to the caller. -/
  transfers : List Int

def allocate (k : Setting) (s : Statement) (r : Record) (state : State) : Record × State :=
  let isOpen := state.opened.contains s.index
  let r :=
    if isOpen && !k.transfers.contains s.index then { r with leaks := note s.index r.leaks }
    else r
  let state := if isOpen then state else { state with opened := state.opened ++ [s.index] }
  match s.target with
  | some t => (r, state.rebind t [s.index])
  | none => (r, state)

/-- Which open allocations a release can meet: those its operand points to, or any when nothing
is known of the operand. -/
inductive Aim
  | any
  | sites (sites : List Int)
  /-- Memory of the caller, released through a parameter. -/
  | caller (name : String)

def aim (k : Setting) (s : Statement) (state : State) : Aim :=
  match (s.args.head?).bind Graph.Operand.var? with
  | none => .any
  | some name =>
    match state.sitesOf name with
    | [] =>
      if k.params.contains name then .caller name
      else if k.pointers.contains name then .sites []
      else .any
    | sites => .sites sites

/-- A release meets the most recent of the candidates; without any it releases twice. -/
def meet (s : Statement) (r : Record) (state : State) (candidates : List Int) : Record × State :=
  match candidates.getLast? with
  | none => ({ r with doubleReleases := note s.index r.doubleReleases }, state)
  | some site =>
    ({ r with pairs := note (site, s.index) r.pairs },
      { state with opened := state.opened.filter fun i => i != site })

/-- A release on a path: it meets the most recent open allocation it is aimed at. -/
def release (k : Setting) (s : Statement) (r : Record) (state : State) : Record × State :=
  match aim k s state with
  | .caller name => (r, state.rebind name [released])
  | .any => meet s r state state.opened
  | .sites sites => meet s r state (state.opened.filter sites.contains)

def step (k : Setting) (at_ : Record × State) (s : Statement) : Record × State :=
  let (r, state) := at_
  if isAllocation s then allocate k s r state
  else if isRelease s then release k s r state
  else
    match s.target with
    | none => (r, state)
    | some t =>
      let r := if s.op = "copy" then r.lacking s.lacksOperand? else r
      match copied? s with
      | some source => (r, state.rebind t (state.sitesOf source))
      | none => (r, state.rebind t [])

def untestable? (statements : List Statement) : Option MissingPart :=
  match statements.getLast? with
  | some s => if s.kind = .branch ∧ s.op = "if" then s.lacksOperand? else none
  | none => none

/-- The state along an edge; none when the edge contradicts an earlier test of the same name. -/
def refine (statements : List Statement) (e : Edge) (state : State) : Option State :=
  let tested :=
    match statements.getLast? with
    | some s =>
      if s.kind = .branch ∧ s.op = "if" then (s.operands.head?).bind Graph.Operand.var? else none
    | none => none
  let outcome :=
    match e.kind with
    | .branchTrue => some true
    | .branchFalse => some false
    | _ => none
  match tested, outcome with
  | some name, some taken =>
    if state.facts.contains (name, !taken) then none
    else some { state with facts := orderedPairs (state.facts ++ [(name, taken)]) }
  | _, _ => some state

/-- Allocations that are open at the end of a path leak, unless they are handed on. -/
def finish (k : Setting) (r : Record) (state : State) : Record :=
  { r with
    leaks := (state.opened.filter fun i => !k.transfers.contains i).foldl
      (fun leaks i => note i leaks) r.leaks }

/-- Runs a block from a state; where a path ends, what is still open leaks. -/
def visit (g : Graph) (k : Setting) (b : Nat) (at_ : Record × State) : Record × State :=
  let (found, state) := (g.statementsOf b).foldl (step k) at_
  if b = Graph.exit ∨ (g.outgoing b).isEmpty then (finish k found state, state) else (found, state)

/-- The blocks that can follow a block, each with the state along the edge. -/
def followers (g : Graph) (b : Nat) (state : State) : List (Nat × State) :=
  (g.outgoing b).filterMap fun e =>
    (refine (g.statementsOf b) e state).map fun s => (e.target, s)

structure Walk where
  seen : Table Nat (List State)
  summary : Table Nat State
  queue : List (Nat × State)
  found : Record

def Walk.statesAt (w : Walk) (b : Nat) : List State := (w.seen.get? b).getD []

def isFull (limit : Option Nat) (states : List State) : Bool :=
  match limit with
  | some n => decide (n ≤ states.length)
  | none => false

/-- Decides whether a state at a block is new; past the limit it is joined into the summary. -/
def accept (limit : Option Nat) (w : Walk) (b : Nat) (state : State) : Option (Walk × State) :=
  let states := w.statesAt b
  if states.contains state then none
  else if isFull limit states then
    match w.summary.get? b with
    | none => some ({ w with summary := w.summary.set b state }, state)
    | some previous =>
      let joined := State.join previous state
      if joined = previous then none
      else some ({ w with summary := w.summary.set b joined }, joined)
  else some ({ w with seen := w.seen.set b (states ++ [state]) }, state)

/-- Runs a block from an accepted state and lets what follows wait. -/
def Walk.enter (w : Walk) (g : Graph) (k : Setting) (b : Nat) (state : State) : Walk :=
  let (found, after) := visit g k b (w.found, state)
  { w with
    found :=
      if (g.outgoing b).isEmpty then found else found.lacking (untestable? (g.statementsOf b))
    queue := w.queue ++ followers g b after }

/-- Takes the first pair from the queue; there is no next walk when nothing waits. -/
def Walk.next? (w : Walk) (g : Graph) (k : Setting) (limit : Option Nat) : Option Walk :=
  match w.queue with
  | [] => none
  | (b, state) :: rest =>
    match accept limit { w with queue := rest } b state with
    | none => some { w with queue := rest }
    | some (w, state) => some (w.enter g k b state)

variable (g : Graph)

/-- Takes pairs from the queue until it is empty; `steps` bounds their number. -/
def walkFor (k : Setting) (limit : Option Nat) : Nat → Walk → Walk
  | 0, w => w
  | n + 1, w =>
    match w.next? g k limit with
    | none => w
    | some w => walkFor k limit n w

def allStatements : List Statement :=
  g.blocks.toList.flatMap fun b => b.statements.toList

def sites : List Int := ((allStatements g).filter isAllocation).map Statement.index

def namesOf (s : Statement) : List String :=
  s.target.toList ++ s.operands.filterMap Graph.Operand.var?

def names : List String := (allStatements g).flatMap namesOf

/-- How often a summary can change: it gets more allocations and pointers, and fewer outcomes of
tests. -/
def growth : Nat :=
  (sites g).length + (names g).length * ((sites g).length + 1) + (names g).length * 2

/-- How many states a block can have. -/
def stateBound : Nat :=
  Decimal.twoPow ((sites g).length * (sites g).length +
    ((names g).length * ((sites g).length + 1) + (names g).length * 2))

/-- A bound for the number of steps of a walk: every block takes up to `limit` states, and then
its summary changes. -/
def stepBound (limit : Option Nat) : Nat :=
  let states :=
    match limit with
    | some n => n
    | none => stateBound g
  (states + (growth g + 1)) * (g.edges.size + 1) + 1

def Record.blank : Record := ⟨[], [], [], none⟩

def Walk.start : Walk := ⟨.empty, .empty, [(Graph.entry, .empty)], .blank⟩

/-- What the walk from the entry finds. -/
def walk (k : Setting) (limit : Option Nat) : Record :=
  (walkFor g k limit (stepBound g limit) .start).found

end Readiness.Lifetime
