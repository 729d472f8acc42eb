import Readiness.Graph.Order

/-!
# Forward worklist

`solve` gives the fact at every block that received one.
-/

namespace Readiness.Flow

abbrev Facts (φ : Type) := Table Nat φ

def standardRounds : Nat := 100000

structure Pending (φ : Type) where
  facts : Facts φ
  queue : List Nat

/-- Merges a fact into that of a block; the block waits if its fact has changed. -/
def Pending.receive {φ : Type} (merge : φ → φ → φ) (same : φ → φ → Bool) (p : Pending φ)
    (sent : Nat × φ) : Pending φ :=
  let waiting := if p.queue.contains sent.1 then p.queue else p.queue ++ [sent.1]
  match p.facts.get? sent.1 with
  | none => ⟨p.facts.set sent.1 sent.2, waiting⟩
  | some old =>
    let new := merge old sent.2
    if same new old then p else ⟨p.facts.set sent.1 new, waiting⟩

def inOrder (order : List Nat) (queue : List Nat) : List Nat :=
  queue.mergeSort fun a b => decide (order.idxOf a ≤ order.idxOf b)

/-- Takes blocks from the queue until it is empty or the rounds are used up. -/
@[specialize]
def rounds {m : Type → Type} [Monad m] {φ : Type} (order : List Nat)
    (transfer : Nat → Nat → φ → m (List (Nat × φ))) (merge : φ → φ → φ) (same : φ → φ → Bool) :
    Nat → Pending φ → m (Pending φ)
  | 0, p => pure p
  | n + 1, p =>
    match p.queue with
    | [] => pure p
    | b :: rest =>
      match p.facts.get? b with
      | none => pure p
      | some fact => do
        let sent ← transfer n b fact
        let next := sent.foldl (Pending.receive merge same) ⟨p.facts, rest⟩
        rounds order transfer merge same n { next with queue := inOrder order next.queue }

variable {m : Type → Type} [Monad m] {φ : Type} (g : Graph) (start : φ)
  (transfer : Nat → Nat → φ → m (List (Nat × φ))) (merge : φ → φ → φ) (same : φ → φ → Bool)
  (limit : Nat)

/-- The facts at all blocks that receive one, and the blocks that still wait after the last
round. -/
@[specialize]
def propagate : m (Pending φ) :=
  rounds g.reachable transfer merge same limit
    ⟨Table.empty.set Graph.entry start, [Graph.entry]⟩

@[specialize]
def solve : m (Facts φ) := do
  return (← propagate g start transfer merge same limit).facts

end Readiness.Flow
