import Readiness.Table

/-!
# One-to-one matching

`partners` maps both ends of every chosen pair to each other.  No allocation and no
release is chosen twice.
-/

namespace Readiness.Lifetime

/-- Allocations with the releases chosen for them, and the allocations tried so far. -/
structure Choice where
  tried : List Int
  owner : Table Int Int

variable (pairs : List (Int × Int))

/-- The allocations that a release can take, in order. -/
def options (free : Int) : List Int :=
  pairs.filterMap fun p => if p.2 = free then some p.1 else none

/-- Looks for an allocation for a release; `depth` bounds the chain of moves. -/
def augment (options : Int → List Int) : Nat → Int → Choice → Bool × Choice
  | 0, _, c => (false, c)
  | depth + 1, free, c =>
    (options free).foldl
      (fun (done, c) a =>
        if done then (true, c)
        else if c.tried.contains a then (false, c)
        else
          let c := { c with tried := a :: c.tried }
          match c.owner.get? a with
          | none => (true, { c with owner := c.owner.set a free })
          | some other =>
            match augment options depth other c with
            | (true, c) => (true, { c with owner := c.owner.set a free })
            | (false, c) => (false, c))
      (false, c)

/-- Pairs in order, each once. -/
def orderedPairs {α β : Type} [LT α] [DecidableLT α] [DecidableEq α] [LE β] [DecidableLE β]
    [DecidableEq β] (pairs : List (α × β)) : List (α × β) :=
  (pairs.mergeSort fun a b => decide (a.1 < b.1) || (a.1 == b.1 && decide (a.2 ≤ b.2))).eraseDups

def releases : List Int :=
  (((orderedPairs pairs).map Prod.snd).mergeSort fun a b => decide (a ≤ b)).eraseDups

def owners : Table Int Int :=
  let ordered := orderedPairs pairs
  (releases pairs).foldl
    (fun owner free => (augment (options ordered) (ordered.length + 1) free ⟨[], owner⟩).2.owner)
    .empty

def bothEnds (entries : List (Int × Int)) : List (Int × Int) :=
  entries.flatMap fun p => [p, (p.2, p.1)]

def partners : Table Int Int := .ofList (bothEnds (owners pairs).entries)

end Readiness.Lifetime
