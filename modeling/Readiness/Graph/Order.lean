import Readiness.Graph.Basic

/-!
# Reachable blocks in order

`reachable` lists every block that a path from the entry reaches, once; `Reaches` is
reachability itself.
-/

namespace Readiness.Graph

inductive Reaches (g : Graph) : Nat → Nat → Prop
  | refl (b : Nat) : Reaches g b b
  | step {a b c : Nat} : Reaches g a b → c ∈ g.successors b → Reaches g a c

/-- The blocks seen by a search, and those finished, the last one first. -/
structure Trail where
  seen : List Nat
  finished : List Nat

/-- Searches from a block; `depth` bounds the length of the path to it. -/
def visit (next : Nat → List Nat) : Nat → Nat → Trail → Trail
  | 0, _, trail => trail
  | depth + 1, b, trail =>
    if trail.seen.contains b then trail
    else
      let after := (next b).foldl (fun t c => visit next depth c t)
        { trail with seen := b :: trail.seen }
      { after with finished := b :: after.finished }

def reachable (g : Graph) : List Nat :=
  (visit g.successors (g.edges.size + 1) entry ⟨[], []⟩).finished

def isReachable (g : Graph) (b : Nat) : Bool := g.reachable.contains b

def statements (g : Graph) : List Statement := g.reachable.flatMap g.statementsOf

end Readiness.Graph
