import Mathlib.Data.List.Basic
import Readiness.Cache
import Readiness.Target

/-!
# Requests that share a cache

Every act is atomic.  A request first looks its target up, and then names it.  If that
raises an error the request ends with it, and what it owns stays in flight.  If it owns the
computation it scores its target outside the lock, finishes under the lock and then publishes the
outcome.  If it has joined a computation it waits until the outcome of that computation has been
published.  Scoring may give a report or an error.  Acts may follow each other in any order in
which each of them can be taken.

`Service.step` is one act and `Service.after` the state after a list of acts.
-/

namespace Readiness

open Target (same)

/-- How far a request has come since it looked its target up. -/
inductive Stage (ε ρ : Type)
  /-- The outcome of a joined computation is awaited. -/
  | waiting
  /-- The target is being scored. -/
  | scoring
  /-- The target has been scored, and the computation is still in flight. -/
  | scored (outcome : Except ε ρ)
  /-- The computation is no longer in flight, and its outcome is not published yet. -/
  | finished (outcome : Except ε ρ)
  /-- The request has returned a report or raised an error. -/
  | done (outcome : Except ε ρ)
  /-- Naming the target has raised an error. -/
  | failed (error : ε)

/-- What a request has come to. -/
def Stage.outcome? {ε ρ : Type} : Stage ε ρ → Option (Except ε ρ)
  | .done o => some o
  | .failed e => some (.error e)
  | _ => none

/-- The error that naming the target has raised. -/
def Stage.failure? {ε ρ : Type} : Stage ε ρ → Option ε
  | .failed e => some e
  | _ => none

structure Request (ε ρ : Type) where
  target : Target
  /-- What looking up came to. -/
  answer : Lookup ρ
  stage : Stage ε ρ

namespace Request

variable {ε ρ : Type}

/-- The stage after looking up, where naming the target may have failed. -/
def firstStage : Option ε → Lookup ρ → Stage ε ρ
  | some e, _ => .failed e
  | none, .served r => .done (.ok r)
  | none, .joined _ | none, .expired => .waiting
  | none, .owned _ => .scoring

variable (r : Request ε ρ)

def owned? : Option Nat :=
  match r.answer with
  | .owned f => some f
  | _ => none

/-- The computation of a request that has looked up and not finished, with its target. -/
def held? : Option (Target × Nat) :=
  match r.answer, r.stage with
  | .owned f, .scoring | .owned f, .scored _ | .owned f, .failed _ => some (r.target, f)
  | _, _ => none

def isExpired : Bool :=
  match r.answer with
  | .expired => true
  | _ => false

def isOwner : Bool := r.owned?.isSome

def isHolding : Bool := r.held?.isSome

/-- Whether a request owns a computation that never starts. -/
def isAbandoned : Bool := r.isOwner && r.stage.failure?.isSome

/-- Whether a request owns a computation, is able to score and has not finished. -/
def isComputing : Bool := r.isHolding && !r.isAbandoned

/-- The outcome of the computation that a request owns. -/
def scored? : Option (Except ε ρ) :=
  match r.answer, r.stage with
  | .owned _, .scored o | .owned _, .finished o | .owned _, .done o => some o
  | _, _ => none

end Request

/-- A cache with its requests, in the order in which they looked up, and the outcomes that have
been published, by the number of the computation. -/
structure Service (ε ρ : Type) where
  cache : Cache Target ρ
  requests : List (Request ε ρ)
  published : Nat → Option (Except ε ρ)

/-- An atomic act.  Requests are referred to by their place in the list of requests. -/
inductive Act (ε ρ : Type)
  /-- A request looks its target up; naming it may raise an error. -/
  | look (target : Target) (now lifetime : Quantity) (fault : Option ε := none)
  | score (request : Nat) (outcome : Except ε ρ)
  | finish (request : Nat) (now : Quantity)
  | publish (request : Nat)
  /-- A waiting request takes the published outcome. -/
  | wake (request : Nat)
  | invalidate (target : Target)
  | clear
  | prune (now maxAge : Quantity)
  | stats (now : Quantity)

/-- The target of an act that looks up, with the error, if any, that naming it raises. -/
def Act.looked? {ε ρ : Type} : Act ε ρ → Option (Target × Option ε)
  | .look t _ _ fault => some (t, fault)
  | _ => none

/-- Whether an act brings a request further. -/
def Act.isAdvance {ε ρ : Type} : Act ε ρ → Bool
  | .score _ _ | .finish _ _ | .publish _ | .wake _ => true
  | _ => false

namespace Service

variable {ε ρ : Type}

/-- A service before the first act. -/
def empty : Service ε ρ := ⟨.empty, [], fun _ => none⟩

def advance (s : Service ε ρ) (i : Nat) (stage : Stage ε ρ) : Service ε ρ :=
  { s with requests := s.requests.modify i fun r => { r with stage } }

def publish (s : Service ε ρ) (flight : Nat) (outcome : Except ε ρ) : Service ε ρ :=
  { s with published := fun f => if f = flight then some outcome else s.published f }

/-- What an outcome leaves to be stored. -/
def kept (keeps : ρ → Bool) : Except ε ρ → Option ρ
  | .ok r => if keeps r then some r else none
  | .error _ => none

section Steps

variable (keeps : ρ → Bool)

def step (s : Service ε ρ) : Act ε ρ → Option (Service ε ρ)
  | .look t now lifetime fault =>
    let (answer, cache) := s.cache.lookup same t now lifetime fault.isNone
    some { s with
      cache, requests := s.requests ++ [⟨t, answer, Request.firstStage fault answer⟩] }
  | .score i o =>
    match s.requests[i]? with
    | some ⟨_, .owned _, .scoring⟩ => some (s.advance i (.scored o))
    | _ => none
  | .finish i now =>
    match s.requests[i]? with
    | some ⟨t, .owned _, .scored o⟩ =>
      some { s.advance i (.finished o) with
        cache := s.cache.finish same t now (kept keeps o) }
    | _ => none
  | .publish i =>
    match s.requests[i]? with
    | some ⟨_, .owned f, .finished o⟩ => some ((s.publish f o).advance i (.done o))
    | _ => none
  | .wake i =>
    match s.requests[i]? with
    | some ⟨_, .joined f, .waiting⟩ => (s.published f).map fun o => s.advance i (.done o)
    | _ => none
  | .invalidate t => some { s with cache := (s.cache.invalidate same t).2 }
  | .clear => some { s with cache := s.cache.clear }
  | .prune now maxAge => some { s with cache := (s.cache.prune now maxAge).2 }
  | .stats _ => some s

/-- The state after acts, if all of them can be taken. -/
def after (acts : List (Act ε ρ)) : Option (Service ε ρ) :=
  acts.foldlM (step keeps) empty

end Steps

end Service
end Readiness
