import Readiness.Quantity

/-!
# A cache of reports

`lookup` and `finish` are the two steps, and `fetch` is a request that takes them one
after the other.  Hits never prolong the life of an entry.  A request names its target once it has
looked it up; where that raises an error it goes no further.
-/

namespace Readiness

structure CacheEntry (κ ρ : Type) where
  target : κ
  report : ρ
  createdAt : Quantity
  lastAccess : Quantity

/-- Stored reports, computations in flight, and counts of requests. -/
structure Cache (κ ρ : Type) where
  entries : List (CacheEntry κ ρ)
  /-- The targets that are being computed, each with the number of its computation. -/
  inFlight : List (κ × Nat)
  hits : Nat
  misses : Nat

/-- How a request is answered. -/
inductive Lookup (ρ : Type)
  /-- A stored report. -/
  | served (report : ρ)
  /-- The computation in flight with this number will answer. -/
  | joined (flight : Nat)
  /-- The request has to compute, under this number. -/
  | owned (flight : Nat)
  /-- The entry has expired, and the target cannot be named. -/
  | expired

def CacheEntry.age {κ ρ : Type} (e : CacheEntry κ ρ) (now : Quantity) : Quantity :=
  now.sub e.createdAt

namespace Cache

variable {κ ρ : Type}

def empty : Cache κ ρ := ⟨[], [], 0, 0⟩

section Steps

variable (same : κ → κ → Bool)

variable (c : Cache κ ρ)

def find? (t : κ) : Option (CacheEntry κ ρ) := c.entries.find? fun e => same e.target t

def contains (t : κ) : Bool := (c.find? same t).isSome

def drop (t : κ) : Cache κ ρ :=
  { c with entries := c.entries.filter fun e => !same e.target t }

/-- Joins the computation of a target or starts it.  Computations are numbered by the misses
before them. -/
def enter (t : κ) : Lookup ρ × Cache κ ρ :=
  match c.inFlight.find? fun f => same f.1 t with
  | some f => (.joined f.2, { c with hits := c.hits + 1 })
  | none =>
    (.owned c.misses,
      { c with inFlight := c.inFlight ++ [(t, c.misses)], misses := c.misses + 1 })

/-- Looks a target up at a time; entries have to be younger than the given lifetime.  Targets are
named before one that has expired is entered again. -/
def lookup (t : κ) (now lifetime : Quantity) (isNamed : Bool := true) :
    Lookup ρ × Cache κ ρ :=
  match c.find? same t with
  | some e =>
    if (e.age now).below lifetime then
      (.served e.report,
        { c with
          hits := c.hits + 1
          entries := c.entries.map fun e =>
            if same e.target t then { e with lastAccess := now } else e })
    else if isNamed then (c.drop same t).enter same t
    else (.expired, c.drop same t)
  | none => c.enter same t

def store (t : κ) (now : Quantity) (report : ρ) : Cache κ ρ :=
  if c.contains same t then
    { c with
      entries := c.entries.map fun e => if same e.target t then ⟨t, report, now, now⟩ else e }
  else { c with entries := c.entries ++ [⟨t, report, now, now⟩] }

/-- Ends the computation of a target; `report` is what it leaves to be stored. -/
def finish (t : κ) (now : Quantity) (report : Option ρ) : Cache κ ρ :=
  let done := { c with inFlight := c.inFlight.filter fun f => !same f.1 t }
  match report with
  | some r => done.store same t now r
  | none => done

/-- A request that nobody else interrupts: the report of a target, stored or computed by `score`
and kept when `keeps` says so; with the number of requests that join it while it computes.  Naming a
target may raise the error that `unnamed` gives. -/
def fetch {ε σ : Type} (keeps : ρ → Bool) (score : κ → σ → Except ε ρ × σ) (c : Cache κ ρ) (t : κ)
    (now lifetime : Quantity) (joining : Nat) (state : σ)
    (unnamed : κ → Option ε := fun _ => none) : Except ε ρ × Cache κ ρ × σ :=
  let look (c : Cache κ ρ) : Lookup ρ × Cache κ ρ := c.lookup same t now lifetime (unnamed t).isNone
  let others (c : Cache κ ρ) : Cache κ ρ := (List.range joining).foldl (fun c _ => (look c).2) c
  match unnamed t, look c with
  | some e, (_, c) => (.error e, others c, state)
  | none, (.served r, c) => (.ok r, others c, state)
  | none, (_, c) =>
    let (result, state) := score t state
    let kept :=
      match result with
      | .ok r => if keeps r then some r else none
      | .error _ => none
    (result, (others c).finish same t now kept, state)

def invalidate (c : Cache κ ρ) (t : κ) : Bool × Cache κ ρ := (c.contains same t, c.drop same t)

end Steps

def clear (c : Cache κ ρ) : Cache κ ρ := { c with entries := [] }

def prune (c : Cache κ ρ) (now maxAge : Quantity) : Nat × Cache κ ρ :=
  let isStale (e : CacheEntry κ ρ) : Bool := maxAge.atMost (e.age now)
  (c.entries.countP isStale, { c with entries := c.entries.filter fun e => !isStale e })

def greatest : List Quantity → Option Quantity
  | [] => none
  | q :: qs => some (qs.foldl (fun best q => if best.below q then q else best) q)

def least : List Quantity → Option Quantity
  | [] => none
  | q :: qs => some (qs.foldl (fun best q => if q.below best then q else best) q)

def ages (c : Cache κ ρ) (now : Quantity) : List Quantity := c.entries.map fun e => e.age now

end Cache
end Readiness
