import Mathlib.Data.Set.Finite.List
import Mathlib.Data.Set.Finite.Lemmas
import Readiness.Escape
import Readiness.Proofs.Graph.Route
import Readiness.Proofs.Lowering.Reducible
import Readiness.Proofs.Lowering.Suites

/-!
# Loops with an unknown number of rounds

A closed walk goes back to the header of a loop, and the blocks of that loop are
entered through its header only.

The allocations on a closed walk through the header of a loop with an unknown number of
rounds are marked, unless they are made by the test of the loop; they escape, and cannot be promoted
(`allocation_marked_of_cycle`).
-/

namespace Readiness

open List

variable {w : List Graph.Edge}

namespace Graph
namespace Draft

variable {s : Draft} (h : s.Complete)
include h

/-- An edge back to the header of a loop comes from the blocks of the loop. -/
theorem Complete.exists_enclosed {e : Edge} (hlooping : Looping s e) :
    ∃ bound, e.target ≤ e.source ∧ e.source < bound ∧ Enclosed s e.target bound := by
  have hheaders : s.headers = [] := by rw [h.loose]
  rcases hlooping.loop with hopen | ⟨bound, hlt, henclosed⟩
  · rw [hheaders] at hopen
    cases hopen
  · exact ⟨bound, hlooping.le, hlt, henclosed⟩

/-- The first block of a closed walk is the header of a loop. -/
theorem Complete.exists_first {a : Nat} (hroute : Route s.graph a w a) (hw : w ≠ []) :
    ∃ e ∈ w, s.graph.kindOf e.target = headerKind ∧ ∀ f ∈ w, e.target ≤ f.target := by
  have hr := h.reached
  obtain ⟨rank, hrank⟩ := hr.ordered.exists_rank hr.bounded (by rw [h.loose])
  obtain ⟨e, he, hmin⟩ := Set.exists_min_image {f | f ∈ w} (fun f => rank f.target)
    (finite_toSet w) (exists_mem_of_ne_nil w hw)
  -- the block of lowest rank is entered along edges that go back
  have hback : ∀ f ∈ w, f.target = e.target → Looping s f := by
    intro f hf htarget
    refine (hrank f (hroute.mem_edges f hf)).resolve_right fun hup => ?_
    obtain ⟨f', hf', hsource⟩ := hroute.exists_before hf
    rw [htarget, ← hsource] at hup
    exact absurd hup (Nat.not_lt.mpr (hmin f' hf'))
  have hinside : ∀ f ∈ w,
      ∃ bound, e.target ≤ f.target ∧ f.target < bound ∧ Enclosed s e.target bound := by
    refine hroute.forall_of_mem (P := fun k =>
      ∃ bound, e.target ≤ k ∧ k < bound ∧ Enclosed s e.target bound) (fun f hf => ?_) he ?_
    · rintro ⟨bound, hle, hlt, henclosed⟩
      rcases Nat.eq_or_lt_of_le hle with heq | hlt'
      · rw [heq]
        exact h.exists_enclosed (hback f hf heq.symm)
      · obtain ⟨hle', hlt''⟩ := henclosed.edges f (hroute.mem_edges f hf) hlt' hlt
        exact ⟨bound, hle', hlt'', henclosed⟩
    · obtain ⟨bound, hle, hlt, henclosed⟩ := h.exists_enclosed (hback e he rfl)
      exact ⟨bound, Nat.le_refl _, Nat.lt_of_le_of_lt hle hlt, henclosed⟩
  refine ⟨e, he, (hback e he rfl).header, fun f hf => ?_⟩
  obtain ⟨_, hle, -⟩ := hinside f hf
  exact hle

end Draft
end Graph

namespace Escape

/-- An allocation of a loop with an unknown number of rounds escapes, and cannot be promoted. -/
theorem exists_site_of_unbounded {g : Graph} (values : Flow.Values) {st : Graph.Statement}
    (hst : st ∈ g.statements) (hkind : st.kind = .allocation) {info : Graph.AllocationInfo}
    (hinfo : st.allocation = some info) (hloop : info.inUnboundedLoop = true) :
    site values st info ∈ (analyse g values).sites ∧ (site values st info).escapes = true ∧
      (site values st info).canPromote = false := by
  have hreasons : (values.escapeReasons st).isEmpty = false := by
    unfold Flow.Values.escapeReasons
    rw [hinfo]
    cases st.target <;> simp [hloop, eraseDups_cons]
  refine ⟨?_, ?_, ?_⟩
  · unfold analyse Report.Escapes.ofSites
    simp only [mem_mergeSort, mem_filterMap]
    exact ⟨st, hst, by rw [if_pos hkind, hinfo, Option.map_some]⟩
  · simp [site, hreasons]
  · simp [site, hreasons]

end Escape

namespace Lowering

open Graph (Statement Edge Grown Route headerKind)
open Source (Expr Stmt StandsIn)

section Records

variable {c : Context} {g : Graph} {header exit finish : Nat} {known tested : Bool}

theorem exists_record_of_untouched {g' : Graph} (hkind : g'.kindOf header = headerKind)
    (hrecord : ∃ bound ≤ g'.blocks.size, LoopRecord g' header exit bound known tested)
    (hg : Untouched header g'.blocks.size exit g' g) :
    g.kindOf header = headerKind ∧ ∃ bound, LoopRecord g header exit bound known tested := by
  obtain ⟨bound, hle, hrecord⟩ := hrecord
  have hlt := (hrecord.lt.trans hrecord.le).trans_le hle
  exact ⟨(hg.kinds _ hlt).trans hkind, bound, hrecord.keep hle hg⟩

theorem LoopOf.exists_record (h : LoopOf c g header exit finish known tested) :
    g.kindOf header = headerKind ∧ ∃ bound, LoopRecord g header exit bound known tested := by
  have hstmt := follows_lowerStmt
  cases h with
  | loop hs hrun htest hkeeps =>
    obtain ⟨-, o, b₁, htest', hmade⟩ := while_moves (hstmt _) (follows_suite (hstmt _) _ _)
      (follows_suite (hstmt _) _ _) hs.drafts (serves_apart c _) hrun
    cases htest.symm.trans htest'
    exact exists_record_of_untouched hmade.kind hmade.record hkeeps
  | each hs hrun hiter htrips hkeeps =>
    obtain ⟨-, o, b₁, b₂, trips, hiter', htrips', -, hmade⟩ := each_moves (hstmt _)
      (follows_suite (hstmt _) _ _) (follows_suite (hstmt _) _ _) hs.drafts (serves_apart c _) hrun
    cases hiter.symm.trans hiter'
    cases htrips.symm.trans htrips'
    exact exists_record_of_untouched hmade.kind hmade.record hkeeps
  | clause hs hopen hsteps hclose hcount hkeeps =>
    obtain ⟨hkind, hrecord⟩ := record_of_clause (follows_lowerExpr _) hs hopen hsteps
      hclose hcount
    exact exists_record_of_untouched hkind hrecord hkeeps

/-- A closed walk through the header of a loop that meets no block before it stays in the test and
the body of the loop. -/
theorem LoopRecord.inside_of_cycle {bound : Nat} (h : LoopRecord g header exit bound known tested)
    (hroute : Route g header w header) (hfirst : ∀ e ∈ w, header ≤ e.target) :
    ∀ e ∈ w, header ≤ e.target ∧ e.target < bound ∧ e.target ≠ exit := by
  have hlt := h.lt
  have hle := h.le
  have hsource : ∀ e ∈ w, header ≤ e.source := by
    intro e he
    obtain ⟨f, hf, htarget⟩ := hroute.exists_before he
    exact htarget ▸ hfirst f hf
  refine (hroute.forall_of_end (P := fun k => header ≤ k ∧ k < bound ∧ k ≠ exit) (fun e he => ?_)
    ⟨Nat.le_refl _, by omega, by omega⟩).2
  rintro ⟨hlo, hhi, hne⟩
  have hmem := hroute.mem_edges e he
  have hsource' := hsource e he
  rcases Nat.lt_trichotomy e.target exit with hlt' | heq | hgt
  · rcases Nat.eq_or_lt_of_le hlo with heq | hgt
    · have := h.toHeader e hmem heq.symm
      omega
    · have := h.toTest e hmem hgt hlt'
      omega
  · exact absurd heq hne
  · exact h.toBody e hmem hgt hhi

theorem LoopRecord.marked_of_cycle {bound : Nat} (h : LoopRecord g header exit bound false tested)
    (hroute : Route g header w header) (hfirst : ∀ e ∈ w, header ≤ e.target) {e : Edge} (he : e ∈ w)
    (htest : ¬(tested = true ∧ e.target < exit)) : MarkedAt g e.target := by
  obtain ⟨hlo, hhi, hne⟩ := h.inside_of_cycle hroute hfirst e he
  rcases Nat.lt_or_ge e.target exit with hlt | hge
  · -- only the header itself is before the exit of a loop without a test
    have htested : tested = false := Bool.eq_false_iff.mpr fun htested => htest ⟨htested, hlt⟩
    obtain ⟨hexit, hnone⟩ := h.untested htested
    obtain rfl : e.target = header := by omega
    exact fun st hst hkind => absurd hkind (hnone st hst)
  · exact h.marked rfl _ (by omega) hhi

end Records

section Functions

variable {image : Image} {f : Image.Function} {body : Image.Body} {params : List String}
  {maxDepth : Option Nat} {l : Lowered}

/-- What is lowered after a statement leaves its blocks alone. -/
theorem untouched_of_later {y z : Builder} {g : Graph} {lo : Nat} (hg : Grown (later y z) z.graph g)
    (hlo : y.graph.blocks.size ≤ lo) : Untouched lo z.graph.blocks.size z.block z.graph g := by
  refine (Untouched.refl _ _ _ _).grow hg (fun k hk hk' hne hholds => ?_) fun e he hk hk' => ?_
  · rcases hholds with heq | hout
    · exact hne heq
    · exact hout (.inr ⟨hlo.trans hk, hk'⟩)
  · rcases he.2 with hlt | hge
    · exact absurd (hlo.trans hk) (Nat.not_le.mpr hlt)
    · exact absurd hk' (Nat.not_lt.mpr hge)

section

variable (h : lowerBody image f body params maxDepth = .ok l)
include h

theorem exists_loopOf_of_while {stmts : List Stmt} (hbody : body.content = .statements stmts)
    {p : Source.Place} {test : Expr} {suite orelse : List Stmt}
    (hs : StandsIn (.loop p test suite orelse) stmts) :
    ∃ c header exit finish, LoopOf c l.graph header exit finish false true := by
  obtain ⟨c, room, y, z, hrun, hsound, -, -, -, hgrown⟩ := exists_run_of_standsIn h hbody hs
  have hstmt := follows_lowerStmt room
  obtain ⟨-, o, b₁, htest, hmade⟩ := while_moves hstmt (follows_suite hstmt suite _)
    (follows_suite hstmt orelse _) hsound.drafts (serves_apart c y) hrun
  have hkeeps := untouched_of_later hgrown (Nat.le_refl _)
  rw [hmade.block] at hkeeps
  exact ⟨c, _, _, _, .loop hsound hrun htest hkeeps⟩

theorem exists_loopOf_of_for {stmts : List Stmt} (hbody : body.content = .statements stmts)
    {p : Source.Place} {target iter : Expr} {suite orelse : List Stmt}
    (hs : StandsIn (.each p target iter suite orelse) stmts) :
    ∃ c b b' trips header finish, tripCount iter c b = .ok (trips, b') ∧
      LoopOf c l.graph header (header + 1) finish trips.isSome false := by
  obtain ⟨c, room, y, z, hrun, hsound, -, -, -, hgrown⟩ := exists_run_of_standsIn h hbody hs
  have hstmt := follows_lowerStmt room
  obtain ⟨-, o, b₁, b₂, trips, hiter, htrips, hle, hmade⟩ := each_moves hstmt
    (follows_suite hstmt suite _) (follows_suite hstmt orelse _) hsound.drafts (serves_apart c y) hrun
  have hkeeps := untouched_of_later hgrown hle
  rw [hmade.block] at hkeeps
  exact ⟨c, b₁, b₂, trips, _, _, htrips, .each hsound hrun hiter htrips hkeeps⟩

theorem kindOf_eq_header_iff {k : Nat} :
    l.graph.kindOf k = headerKind ↔
      ∃ c exit finish known tested, LoopOf c l.graph k exit finish known tested :=
  ⟨exists_loopOf_of_lowerBody h, fun ⟨_, _, _, _, _, hloop⟩ => hloop.exists_record.1⟩

/-- The headers of a function that lowers are those of its loops.  Where a loop has an unknown
number of rounds, and control can go round from its header to its header without going through a
header before it, every allocation on the way is marked, but for those of the loop's own test;
whatever the flow of its values, it is listed as escaping and not as one that can be promoted. -/
theorem allocation_marked_of_cycle :
    (∀ k, l.graph.kindOf k = headerKind ↔
      ∃ c exit finish known tested, LoopOf c l.graph k exit finish known tested) ∧
    ∀ {c header exit finish tested}, LoopOf c l.graph header exit finish false tested →
      ∀ {w}, Route l.graph header w header →
        (∀ e ∈ w, l.graph.kindOf e.target = headerKind → header ≤ e.target) →
        ∀ e ∈ w, ¬(tested = true ∧ e.target < exit) →
          ∀ st ∈ l.graph.statementsOf e.target, st.kind = .allocation →
            ∃ info, st.allocation = some info ∧ info.inUnboundedLoop = true ∧
              ∀ {g : Graph} (values), g.blocks = l.graph.blocks → e.target ∈ g.reachable →
                Escape.site values st info ∈ (Escape.analyse g values).sites ∧
                (Escape.site values st info).escapes = true ∧
                (Escape.site values st info).canPromote = false := by
  refine ⟨fun k => kindOf_eq_header_iff h,
    fun {c header exit finish tested} hloop w hroute houter e he htest st hst hkind => ?_⟩
  obtain ⟨s, hcomplete, hgraph⟩ := exists_complete_of_lowerBody h
  obtain ⟨-, bound, hrecord⟩ := hloop.exists_record
  have hfirst : ∀ e ∈ w, header ≤ e.target := by
    intro e he
    rw [← hgraph] at hroute houter
    obtain ⟨e₀, he₀, hheader, hmin⟩ := hcomplete.exists_first hroute (ne_nil_of_mem he)
    exact (houter e₀ he₀ hheader).trans (hmin e he)
  obtain ⟨info, hinfo, hmark⟩ := hrecord.marked_of_cycle hroute hfirst he htest st hst hkind
  refine ⟨info, hinfo, hmark, fun {g} values hblocks hreach => ?_⟩
  refine Escape.exists_site_of_unbounded values ?_ hkind hinfo hmark
  refine mem_flatMap.mpr ⟨e.target, hreach, ?_⟩
  rw [Graph.statementsOf, Graph.block, hblocks]
  exact hst

end

end Functions

/-! ### Two functions -/

def headers (g : Graph) : List Nat :=
  (List.range g.blocks.size).filter fun k => g.kindOf k = headerKind

theorem mem_headers {g : Graph} {k : Nat} (h : g.kindOf k = headerKind) : k ∈ headers g := by
  have hlt : k < g.blocks.size := by
    by_contra hge
    rw [kindOf_of_size_le (Nat.le_of_not_lt hge)] at h
    exact absurd h (by decide)
  exact mem_filter.mpr ⟨mem_range.mpr hlt, decide_eq_true h⟩

/-- A loop over a parameter that makes a list of some of its members. -/
def selecting : Stmt :=
  let n : Expr := .name ⟨1, 0, 1⟩ "n" .load
  let x : Expr := .name ⟨2, 0, 2⟩ "x" .load
  .each ⟨1, 0, 3⟩ (.name ⟨1, 0, 1⟩ "x" .store) n
    [.branch ⟨2, 0, 3⟩ x [.assign ⟨3, 0, 3⟩ [.name ⟨3, 0, 3⟩ "a" .store] (.list ⟨3, 0, 3⟩ [x])] []] []

def selectingLowered : Except Refusal Lowered :=
  lowerBody .empty default ⟨.statements [selecting], 0, 0⟩ ["n"] none

def selectingCycle : List Edge :=
  [⟨3, 5, .branchTrue⟩, ⟨5, 7, .branchTrue⟩, ⟨7, 6, .fallThrough⟩, ⟨6, 3, .backEdge⟩]

theorem selecting_allocation_marked :
    ∃ l c finish, selectingLowered = .ok l ∧ LoopOf c l.graph 3 4 finish false false ∧
      Route l.graph 3 selectingCycle 3 ∧
      (∀ e ∈ selectingCycle, l.graph.kindOf e.target = headerKind → 3 ≤ e.target) ∧
      7 ∈ l.graph.reachable ∧ ∃ st ∈ l.graph.statementsOf 7, st.kind = .allocation ∧
        ∃ info, st.allocation = some info ∧ info.inUnboundedLoop = true ∧
          ∀ {g : Graph} (values), g.blocks = l.graph.blocks → 7 ∈ g.reachable →
            Escape.site values st info ∈ (Escape.analyse g values).sites ∧
            (Escape.site values st info).escapes = true ∧
            (Escape.site values st info).canPromote = false := by
  have hfacts : selectingLowered.toOption.map (fun l => (headers l.graph,
      (l.graph.statementsOf 7).map Statement.kind, decide (∀ e ∈ selectingCycle, e ∈ l.graph.edges),
      decide (7 ∈ l.graph.reachable))) = some ([3], [.allocation], true, true) := by
    decide +kernel
  obtain ⟨l, hlowered, hfacts⟩ := exists_ok_of_toOption hfacts
  simp only [Prod.mk.injEq, decide_eq_true_eq] at hfacts
  obtain ⟨hheaders, hkinds, hedges, hreach⟩ := hfacts
  obtain ⟨c, b, b', trips, header, finish, htrips, hloop⟩ := exists_loopOf_of_for hlowered rfl .here
  cases htrips
  have hheader := mem_headers hloop.exists_record.1
  rw [hheaders, mem_singleton] at hheader
  subst hheader
  have hroute : Route l.graph 3 selectingCycle 3 :=
    .step (hedges ⟨3, 5, .branchTrue⟩ (by decide)) (.step (hedges ⟨5, 7, .branchTrue⟩ (by decide))
      (.step (hedges ⟨7, 6, .fallThrough⟩ (by decide)) (.step (hedges ⟨6, 3, .backEdge⟩ (by decide))
        (.done 3))))
  obtain ⟨st, hst, hkind⟩ : ∃ st ∈ l.graph.statementsOf 7, st.kind = .allocation :=
    mem_map.mp (hkinds ▸ mem_singleton.mpr rfl)
  have houter : ∀ e ∈ selectingCycle, l.graph.kindOf e.target = headerKind → 3 ≤ e.target :=
    fun e he _ => (by decide : ∀ e ∈ selectingCycle, 3 ≤ e.target) e he
  exact ⟨l, c, finish, hlowered, hloop, hroute, houter, hreach, st, hst, hkind,
    (allocation_marked_of_cycle hlowered).2 hloop hroute houter ⟨5, 7, .branchTrue⟩ (by decide)
      (by decide) st hst hkind⟩

/-- A loop of two rounds that makes a list before it goes through a `while` loop. -/
def repeating : Stmt :=
  let n : Expr := .name ⟨1, 0, 1⟩ "n" .load
  .each ⟨1, 0, 4⟩ (.name ⟨1, 0, 1⟩ "i" .store) (.tuple ⟨1, 0, 1⟩ [n, n])
    [.assign ⟨2, 0, 2⟩ [.name ⟨2, 0, 2⟩ "a" .store] (.list ⟨2, 0, 2⟩ [n]),
      .loop ⟨3, 0, 4⟩ n [.pass ⟨4, 0, 4⟩] []] []

def repeatingLowered : Except Refusal Lowered :=
  lowerBody .empty default ⟨.statements [repeating], 0, 0⟩ ["n"] none

/-- The way round both loops, from the header of the outer one. -/
def repeatingCycle : List Edge :=
  [⟨3, 5, .branchTrue⟩, ⟨5, 6, .fallThrough⟩, ⟨6, 7, .loopExit⟩, ⟨7, 3, .backEdge⟩]

/-- Control goes round through the header of the `while` loop and through the list, which is not
marked. -/
theorem repeating_allocation_unmarked :
    ∃ l c header exit finish w, repeatingLowered = .ok l ∧
      LoopOf c l.graph header exit finish false true ∧ Route l.graph header w header ∧
      ∃ e ∈ w, ∃ st ∈ l.graph.statementsOf e.target, st.kind = .allocation ∧
        st.allocation.map (·.inUnboundedLoop) = some false := by
  have hfacts : repeatingLowered.toOption.map (fun l => (headers l.graph,
      (l.graph.statementsOf 5).map (fun st => (st.kind, st.allocation.map (·.inUnboundedLoop))),
      decide (∀ e ∈ repeatingCycle, e ∈ l.graph.edges))) =
        some ([3, 6], [(.assignment, none), (.allocation, some false)], true) := by
    decide +kernel
  obtain ⟨l, hlowered, hfacts⟩ := exists_ok_of_toOption hfacts
  simp only [Prod.mk.injEq, decide_eq_true_eq] at hfacts
  obtain ⟨hheaders, hmarks, hedges⟩ := hfacts
  obtain ⟨c, header, exit, finish, hloop⟩ := exists_loopOf_of_while hlowered rfl
    (.inside (mem_cons_self ..) (.later .here))
  have hmem : (Graph.StatementKind.allocation, some false) ∈
      (l.graph.statementsOf 5).map (fun st => (st.kind, st.allocation.map (·.inUnboundedLoop))) := by
    rw [hmarks]
    decide
  obtain ⟨st, hst, heq⟩ := mem_map.mp hmem
  have hunmarked : ∃ st ∈ l.graph.statementsOf 5, st.kind = .allocation ∧
      st.allocation.map (·.inUnboundedLoop) = some false :=
    ⟨st, hst, congrArg Prod.fst heq, congrArg Prod.snd heq⟩
  have hheader := mem_headers hloop.exists_record.1
  rw [hheaders] at hheader
  have h₃ := hedges ⟨3, 5, .branchTrue⟩ (by decide)
  have h₅ := hedges ⟨5, 6, .fallThrough⟩ (by decide)
  have h₆ := hedges ⟨6, 7, .loopExit⟩ (by decide)
  have h₇ := hedges ⟨7, 3, .backEdge⟩ (by decide)
  -- the cycle goes through both headers
  rcases mem_pair.mp hheader with rfl | rfl
  · exact ⟨l, c, 3, exit, finish, _, hlowered, hloop,
      .step h₃ (.step h₅ (.step h₆ (.step h₇ (.done 3)))),
      _, mem_cons_self, hunmarked⟩
  · exact ⟨l, c, 6, exit, finish, _, hlowered, hloop,
      .step h₆ (.step h₇ (.step h₃ (.step h₅ (.done 6)))),
      _, mem_cons_of_mem _ (mem_cons_of_mem _ mem_cons_self), hunmarked⟩

end Lowering
end Readiness
