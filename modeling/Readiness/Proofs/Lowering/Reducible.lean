import Readiness.Proofs.Lowering.Loops
import Readiness.Proofs.Lowering.Statements

/-!
# Lowered functions are reducible

The reachable blocks are listed once, the entry first.  Against the order of the list
go only edges to the header of a loop, and all edges that repeat a loop do
(`reducible_of_lowerBody`).
-/

namespace Readiness
variable {e : Edge}

namespace Graph

/-- The reachable blocks are in an order against which only loops go. -/
structure Reducible (g : Graph) : Prop where
  mem_reachable : ∀ b, b ∈ g.reachable ↔ Reaches g entry b
  nodup : g.reachable.Nodup
  entry_first : g.reachable.head? = some entry
  mem_statements : ∀ st, st ∈ g.statements ↔ ∃ b, Reaches g entry b ∧ st ∈ g.statementsOf b
  statements_once : (g.statements.map Statement.index).Nodup
  of_not_later : ∀ e ∈ g.edges, e.source ∈ g.reachable → e.target ∈ g.reachable →
    ¬g.reachable.idxOf e.source < g.reachable.idxOf e.target →
    g.kindOf e.target = headerKind ∧
      (e.kind = .backEdge ∨ e.kind = .proceed ∨ e.kind = .branchFalse)
  not_later : ∀ e ∈ g.edges, e.source ∈ g.reachable → e.kind = .backEdge ∨ e.kind = .proceed →
    ¬g.reachable.idxOf e.source < g.reachable.idxOf e.target

theorem mem_statements (g : Graph) (st : Statement) :
    st ∈ g.statements ↔ ∃ b, Reaches g entry b ∧ st ∈ g.statementsOf b := by
  simp only [statements, List.mem_flatMap, mem_reachable_iff]

theorem target_mem_reachable {g : Graph} (he : e ∈ g.edges) (hsource : e.source ∈ g.reachable) :
    e.target ∈ g.reachable := by
  rw [mem_reachable_iff] at hsource ⊢
  exact hsource.step (mem_successors.mpr ⟨e, he, rfl, rfl⟩)

namespace Draft

variable {s : Draft} (h : s.Complete)
include h

theorem Complete.dominates (he : e ∈ s.graph.edges) (hlooping : Looping s e) :
    Dominates s.graph e.target e.source :=
  hlooping.dominates h.reached.bounded he (by rw [h.loose])

/-- An edge that goes against the order of the list goes back to the header of a loop. -/
theorem Complete.looping_of_not_later (he : e ∈ s.graph.edges)
    (hsource : e.source ∈ s.graph.reachable)
    (hlater : ¬s.graph.reachable.idxOf e.source < s.graph.reachable.idxOf e.target) :
    Looping s e := by
  have hr := h.reached
  obtain ⟨rank, hrank⟩ := hr.ordered.exists_rank hr.bounded (by rw [h.loose])
  refine (hrank e he).resolve_right fun hup => ?_
  obtain ⟨p, hwalk, hnodup, htarget⟩ := (idxOf_lt_or_walk he hsource).resolve_left hlater
  rcases List.mem_cons.mp htarget with heq | htarget
  · rw [heq] at hup
    exact Nat.lt_irrefl _ hup
  · have hedges : ∀ e ∈ s.graph.edges,
        rank e.source < rank e.target ∨ Dominates s.graph e.target e.source :=
      fun e he => (hrank e he).symm.imp_right (h.dominates he)
    exact Nat.lt_asymm hup (hwalk.rank_le hedges hnodup _ _ rfl _ htarget)

theorem Complete.nodup_statements : (s.graph.statements.map Statement.index).Nodup := by
  have hnumbered := h.reached.numbered
  rw [statements, List.map_flatMap, List.nodup_flatMap]
  exact ⟨fun b _ => hnumbered.nodup b,
    (nodup_reachable s.graph).imp fun hne => hnumbered.apart _ _ hne⟩

theorem Complete.reducible : s.graph.Reducible where
  mem_reachable := mem_reachable_iff s.graph
  nodup := nodup_reachable s.graph
  entry_first := by
    obtain ⟨rest, hrest⟩ := reachable_eq_cons s.graph
    rw [hrest, List.head?_cons]
  mem_statements := mem_statements s.graph
  statements_once := h.nodup_statements
  of_not_later := by
    intro e he hsource _ hlater
    have hlooping := h.looping_of_not_later he hsource hlater
    exact ⟨hlooping.header, hlooping.kind⟩
  not_later := by
    intro e he hsource hkind
    exact not_idxOf_lt_of_dominates hsource (target_mem_reachable he hsource)
      (h.dominates he (h.reached.ordered.looping e he hkind))

end Draft
end Graph

namespace Lowering

open Source (Expr Stmt)

theorem reducible_of_lowerBody {image : Image} {f : Image.Function} {body : Image.Body}
    {params : List String} {maxDepth : Option Nat} {l : Lowered}
    (h : lowerBody image f body params maxDepth = .ok l) : l.graph.Reducible := by
  obtain ⟨s, hcomplete, hgraph⟩ := exists_complete_of_lowerBody h
  exact hgraph ▸ hcomplete.reducible

/-- A loop with a comprehension that has a test, and a branch that goes on with the loop or leaves
it. -/
def sifting : List Stmt :=
  let n : Expr := .name ⟨1, 0, 1⟩ "n" .load
  [.loop ⟨1, 0, 5⟩ n
    [.discard ⟨2, 0, 2⟩ (.listComp ⟨2, 0, 2⟩ n [.mk (.name ⟨2, 0, 2⟩ "x" .store) n [n]]),
      .branch ⟨3, 0, 4⟩ n [.proceed ⟨4, 0, 4⟩] [.leave ⟨4, 0, 4⟩]] []]

def siftingLowered : Except Refusal Lowered :=
  lowerBody .empty default ⟨.statements sifting, 0, 0⟩ ["n"] none

theorem sifting_reducible : ∃ l, siftingLowered = .ok l ∧
    l.graph.reachable = [0, 2, 3, 5, 6, 8, 9, 7, 13, 4, 1, 11] ∧ l.graph.Reducible := by
  have horder : siftingLowered.toOption.map (fun l => l.graph.reachable) =
      some [0, 2, 3, 5, 6, 8, 9, 7, 13, 4, 1, 11] := by
    decide +kernel
  obtain ⟨l, hlowered, horder⟩ := exists_ok_of_toOption horder
  exact ⟨l, hlowered, horder, reducible_of_lowerBody hlowered⟩

end Lowering
end Readiness
