import Readiness.Proofs.Lowering.Shape
import Readiness.Proofs.Lowering.Statements

/-!
# Lowered functions have well-formed control flow

When a draft is complete, every block is settled: it holds no statement that ends a
block, or its last statement is the only such one and its edges are those of that statement
(`Settled`).  Hence the graph of a lowered function is well formed
(`wellFormed_of_lowerBody`).
-/

namespace Readiness

open List
namespace Graph

/-- The statements of a block and the edges from it agree. -/
structure Settled (b : Nat) (ss : List Statement) (es : List Edge) : Prop where
  ends_last : ∀ st ∈ ss.dropLast, ¬st.Ends
  of_branch : ∀ st, ss.getLast? = some st → st.kind = .branch → es.countP Edge.isYes = 1 ∧
    es.countP Edge.isNo = 1 ∧ ∀ e ∈ es, e.kind.IsOutcome ∨ e.kind = .exception
  of_no_branch : (∀ st, ss.getLast? = some st → st.kind ≠ .branch) → ∀ e ∈ es, ¬e.kind.IsOutcome
  of_return : ∀ st, ss.getLast? = some st → st.kind = .return_ →
    es.filter (fun e => e.kind != .exception) = [⟨b, exit, .return_⟩]
  of_raise : ∀ st, ss.getLast? = some st → st.Raises → ∀ e ∈ es, e.kind = .exception

structure WellFormed (g : Graph) : Prop where
  entry_statements : g.statementsOf entry = []
  exit_statements : g.statementsOf exit = []
  entry_successors : ∃ b, g.successors entry = [b]
  entry_predecessors : g.predecessors entry = []
  exit_successors : g.successors exit = []
  ends_last : ∀ b, ∀ st ∈ (g.statementsOf b).dropLast, ¬st.Ends
  of_branch : ∀ b st, (g.statementsOf b).getLast? = some st → st.kind = .branch →
    (g.outgoing b).countP Edge.isYes = 1 ∧ (g.outgoing b).countP Edge.isNo = 1 ∧
      ∀ e ∈ g.outgoing b, e.kind.IsOutcome ∨ e.kind = .exception
  of_no_branch : ∀ b, (∀ st, (g.statementsOf b).getLast? = some st → st.kind ≠ .branch) →
    ∀ e ∈ g.outgoing b, ¬e.kind.IsOutcome
  of_return : ∀ b st, (g.statementsOf b).getLast? = some st → st.kind = .return_ →
    (g.outgoing b).filter (fun e => e.kind != .exception) = [⟨b, exit, .return_⟩]
  of_raise : ∀ b st, (g.statementsOf b).getLast? = some st → st.Raises →
    ∀ e ∈ g.outgoing b, e.kind = .exception
  reaches_exit : ∀ b < g.blocks.size, Reaches g b exit

section Settling

variable {b : Nat} {ss : List Statement} {es : List Edge} {last : Statement}

theorem settled_plain (hplain : ∀ st ∈ ss, ¬st.Ends) (hedges : ∀ e ∈ es, ¬e.kind.IsOutcome) :
    Settled b ss es where
  ends_last st hst := hplain st (mem_of_mem_dropLast hst)
  of_branch st hst hkind := absurd (.inl hkind) (hplain st (mem_of_getLast? hst))
  of_no_branch _ := hedges
  of_return st hst hkind := absurd (.inr (.inl hkind)) (hplain st (mem_of_getLast? hst))
  of_raise st hst hraises := absurd (.inr (.inr hraises)) (hplain st (mem_of_getLast? hst))

/-- The last statement ends the block. -/
theorem settled_ended (hplain : ∀ st ∈ ss, ¬st.Ends)
    (hbranch : last.kind = .branch → es.countP Edge.isYes = 1 ∧ es.countP Edge.isNo = 1 ∧
      ∀ e ∈ es, e.kind.IsOutcome ∨ e.kind = .exception)
    (hno : last.kind ≠ .branch → ∀ e ∈ es, ¬e.kind.IsOutcome)
    (hreturn : last.kind = .return_ →
      es.filter (fun e => e.kind != .exception) = [⟨b, exit, .return_⟩])
    (hraise : last.Raises → ∀ e ∈ es, e.kind = .exception) : Settled b (ss ++ [last]) es := by
  have hlast : ∀ st, (ss ++ [last]).getLast? = some st → last = st := fun st hst => by
    rwa [getLast?_concat, Option.some.injEq] at hst
  refine ⟨by rwa [dropLast_concat], fun st hst => ?_, fun h => hno (h last getLast?_concat),
    fun st hst => ?_, fun st hst => ?_⟩
  · exact hlast st hst ▸ hbranch
  · exact hlast st hst ▸ hreturn
  · exact hlast st hst ▸ hraise

theorem not_isOutcome_of_filter {e : Edge} (he : e ∈ es)
    (hedges : es.filter (fun e => e.kind != .exception) = [⟨b, exit, .return_⟩]) :
    ¬e.kind.IsOutcome := by
  by_cases hkind : e.kind = .exception
  · rw [hkind]
    decide
  · have hmem : e ∈ es.filter fun e => e.kind != .exception :=
      mem_filter.mpr ⟨he, by simpa using hkind⟩
    rw [hedges] at hmem
    rw [mem_singleton.mp hmem]
    exact (by decide : ¬EdgeKind.return_.IsOutcome)

end Settling

namespace Draft

variable {s : Draft} (h : s.Complete)
include h

theorem Complete.settled (b : Nat) : Settled b (s.graph.statementsOf b) (s.graph.outgoing b) := by
  have hbounded := h.reached.bounded
  have hfocus : ¬(s.view b).focused := by simp [view, h.focus]
  have hyes : ¬(s.view b).lacksYes := by simp [view, h.loose]
  have hno : ¬(s.view b).lacksNo := by simp [view, h.loose]
  by_cases hb : b < s.graph.blocks.size
  · change Settled b (s.view b).statements (s.view b).outgoing
    have hphase := h.reached.shaped.phases b hb
    generalize s.view b = v at hphase hfocus hyes hno
    cases hphase with
    | waiting => exact settled_plain (forall_mem_nil _) (forall_mem_nil _)
    | current => exact absurd trivial hfocus
    | passed hplain hedges => exact settled_plain hplain hedges
    | quit hplain hedges =>
      rcases hedges with ⟨hlast, hedges⟩ | ⟨hlast, hedges⟩
      · exact settled_ended hplain (fun h => absurd (h.symm.trans hlast) (by decide))
          (fun _ _ he => not_isOutcome_of_filter he hedges) (fun _ => hedges)
          fun h => absurd (h.1.symm.trans hlast) (by decide)
      · exact settled_ended hplain (fun h => absurd (h.symm.trans hlast.1) (by decide))
          (fun _ e he => by rw [hedges e he]; decide)
          (fun h => absurd (h.symm.trans hlast.1) (by decide)) fun _ => hedges
    | branched hplain hlast hcount hcount' hedges =>
      exact settled_ended hplain (fun _ => ⟨(hcount.resolve_left fun h => hyes h.1).2,
          (hcount'.resolve_left fun h => hno h.1).2, hedges⟩) (absurd hlast)
        (fun h => absurd (h.symm.trans hlast) (by decide))
        fun h => absurd (h.1.symm.trans hlast) (by decide)
  · have hle := Nat.le_of_not_lt hb
    refine settled_plain ?_ ?_
    · simp [statementsOf_of_size_le _ hle]
    · intro e he
      obtain ⟨hmem, rfl⟩ := mem_outgoing.mp he
      exact (hb (hbounded.fits.closed e hmem).1).elim

theorem Complete.reaches_exit {b : Nat} (hb : b < s.graph.blocks.size) :
    Reaches s.graph b exit := by
  have hloose := h.loose
  obtain ⟨y, hy, hreach⟩ := h.reached.escaping b hb
  rcases hy with hy | hy | hy
  · rw [h.focus] at hy
    cases hy
  · rw [hloose] at hy
    exact Finset.mem_singleton.mp hy ▸ hreach
  · rw [hloose] at hy
    exact absurd hy (Finset.notMem_empty y)

theorem Complete.wellFormed : s.graph.WellFormed := by
  have hshaped := h.reached.shaped
  have hbounded := h.reached.bounded
  have hview := hbounded.fits.view_of_waiting hbounded.exit
  exact
    { entry_statements := hshaped.entry_statements
      exit_statements := congrArg View.statements hview
      entry_successors := ⟨2, by rw [successors, hshaped.entry_outgoing]; rfl⟩
      entry_predecessors := by
        refine eq_nil_iff_forall_not_mem.mpr fun b hb => ?_
        obtain ⟨e, he, -⟩ := mem_map.mp hb
        obtain ⟨he, htarget⟩ := mem_filter.mp he
        have hpos := hbounded.targets e (Array.mem_toList_iff.mp he)
        rw [eq_of_beq htarget] at hpos
        exact Nat.lt_irrefl _ hpos
      exit_successors := congrArg (·.outgoing.map Edge.target) hview
      ends_last := fun b => (h.settled b).ends_last
      of_branch := fun b => (h.settled b).of_branch
      of_no_branch := fun b => (h.settled b).of_no_branch
      of_return := fun b => (h.settled b).of_return
      of_raise := fun b => (h.settled b).of_raise
      reaches_exit := fun _ => h.reaches_exit }

end Draft
end Graph

namespace Lowering

open Source (Expr Stmt)

/-- The graph of a function that can be lowered has well-formed control flow. -/
theorem wellFormed_of_lowerBody {image : Image} {f : Image.Function} {body : Image.Body}
    {params : List String} {maxDepth : Option Nat} {l : Lowered}
    (h : lowerBody image f body params maxDepth = .ok l) : l.graph.WellFormed := by
  obtain ⟨s, hcomplete, hgraph⟩ := exists_complete_of_lowerBody h
  exact hgraph ▸ hcomplete.wellFormed

/-- A loop around a `try` statement that raises, leaves the loop or goes on with it, and then a
comprehension with a test. -/
def retrying : List Stmt :=
  let n : Expr := .name ⟨1, 0, 1⟩ "n" .load
  [.loop ⟨1, 0, 7⟩ n
    [.guarded ⟨2, 0, 7⟩ false
      [.branch ⟨3, 0, 5⟩ n [.raise ⟨4, 0, 4⟩ (some n) none] [.leave ⟨5, 0, 5⟩]]
      [.mk ⟨6, 0, 7⟩ (some n) none [.proceed ⟨7, 0, 7⟩]] [] []] [],
    .ret ⟨8, 0, 8⟩ (some (.listComp ⟨8, 0, 8⟩ n [.mk (.name ⟨8, 0, 8⟩ "x" .store) n [n]]))]

def retryingLowered : Except Refusal Lowered :=
  lowerBody .empty default ⟨.statements retrying, 0, 0⟩ ["n"] none

theorem retrying_wellFormed :
    ∃ l, retryingLowered = .ok l ∧ l.graph.blocks.size = 20 ∧ l.graph.WellFormed := by
  have hsize : retryingLowered.toOption.map (fun l => l.graph.blocks.size) = some 20 := by
    decide +kernel
  obtain ⟨l, hlowered, hsize⟩ := exists_ok_of_toOption hsize
  exact ⟨l, hlowered, hsize, wellFormed_of_lowerBody hlowered⟩

end Lowering
end Readiness
