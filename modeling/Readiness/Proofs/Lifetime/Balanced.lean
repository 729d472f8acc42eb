import Readiness.Proofs.Lifetime.Consistency
import Readiness.Proofs.Lowering.Manual

/-!
# Balanced memory is clean

`Tracks` says what the record and the state hold after some of the acts; one statement
keeps it (`Tracks.step`), and so does the whole block (`tracks_foldl`).  The pairs found are
one-to-one, so the matching keeps them all (`perm_owners`).
-/

namespace Readiness.Lifetime

open Readiness.Graph (Statement Edge)
open Lowering (MemoryAct PerformsFrom Straight ending)
open Report (LifetimeEvent Lifetimes)
open List
open Readiness.Graph (entry exit)

variable {names : List String} {acts : List MemoryAct}

/-! ### Balanced acts -/

/-- Memory is allocated and released once under each of the names, and released later. -/
structure Balanced (names : List String) (acts : List MemoryAct) : Prop where
  nodup : names.Nodup
  perm : acts.Perm (names.map .allocate ++ names.map .release)
  ordered : ∀ n ∈ names, acts.idxOf (.allocate n) < acts.idxOf (.release n)

variable {a : MemoryAct}

namespace Balanced

theorem mem_allocate (h : Balanced names acts) {n : String} : .allocate n ∈ acts ↔ n ∈ names := by
  simp [h.perm.mem_iff]

theorem mem_release (h : Balanced names acts) {n : String} : .release n ∈ acts ↔ n ∈ names := by
  simp [h.perm.mem_iff]

theorem name_mem (h : Balanced names acts) (ha : a ∈ acts) : a.name ∈ names := by
  cases a with
  | allocate n => exact h.mem_allocate.mp ha
  | release n => exact h.mem_release.mp ha

theorem nodup_acts (h : Balanced names acts) : acts.Nodup := by
  rw [h.perm.nodup_iff, nodup_append]
  refine ⟨h.nodup.map fun _ _ => MemoryAct.allocate.inj,
    h.nodup.map fun _ _ => MemoryAct.release.inj, ?_⟩
  intro a ha b hb heq
  obtain ⟨n, -, rfl⟩ := mem_map.mp ha
  obtain ⟨m, -, rfl⟩ := mem_map.mp hb
  cases heq

end Balanced

/-- The index of the statement that performs an act. -/
def position (acts : List MemoryAct) (a : MemoryAct) : Int := acts.idxOf a

theorem position_inj {a' : MemoryAct} (ha : a ∈ acts) (h : position acts a = position acts a') :
    a = a' :=
  (idxOf_inj ha).mp (Int.ofNat.inj h)

/-! ### Runs -/

/-- What is known after some of the acts: the allocations not yet released are open, names point to
their own allocations, and the pairs are those released. -/
structure Tracks (acts done : List MemoryAct) (r : Record) (s : State) : Prop where
  opened : ∀ i, i ∈ s.opened ↔
    ∃ n, .allocate n ∈ done ∧ .release n ∉ done ∧ i = position acts (.allocate n)
  sites : ∀ n i, i ∈ s.sitesOf n ↔ .allocate n ∈ done ∧ i = position acts (.allocate n)
  pairs : ∀ p, p ∈ r.pairs ↔
    ∃ n, .release n ∈ done ∧ p = (position acts (.allocate n), position acts (.release n))
  closed : ∀ n, .release n ∈ done → .allocate n ∈ done
  leaks : r.leaks = []
  doubleReleases : r.doubleReleases = []

theorem tracks_blank (acts : List MemoryAct) : Tracks acts [] .blank .empty := by
  constructor <;> simp [Record.blank, State.empty, State.sitesOf]

variable {done : List MemoryAct} {r : Record} {s : State} {k : Setting} {st : Statement} {n : String}

theorem isAllocation_of_performs (h : MemoryAct.Performs st (.allocate n)) :
    isAllocation st = true ∧ st.target = some n := by
  cases h with
  | allocate hkind hinfo hmanual htarget => simp [isAllocation, hkind, hinfo, hmanual, htarget]

theorem isRelease_of_performs (h : MemoryAct.Performs st (.release n)) :
    isAllocation st = false ∧ isRelease st = true ∧ st.args = [.var n] := by
  cases h with
  | release hkind hinfo hdeallocates hargs =>
    simp [isAllocation, isRelease, hkind, hinfo, hdeallocates, hargs]

/-- An allocation opens and gives its name a new value. -/
theorem Tracks.allocate (h : Tracks acts done r s) (hact : .allocate n ∈ acts)
    (hnew : .allocate n ∉ done) (hperforms : MemoryAct.Performs st (.allocate n))
    (hindex : st.index = position acts (.allocate n)) :
    Tracks acts (done ++ [.allocate n]) (step k (r, s) st).1 (step k (r, s) st).2 := by
  obtain ⟨hallocation, htarget⟩ := isAllocation_of_performs hperforms
  have hclosed : .release n ∉ done := fun hmem => hnew (h.closed n hmem)
  have hnot : st.index ∉ s.opened := by
    rw [h.opened, hindex]
    rintro ⟨m, hm, -, hpos⟩
    exact hnew (position_inj hact hpos ▸ hm)
  have hstep : step k (r, s) st =
      (r, State.rebind { s with opened := s.opened ++ [st.index] } n [st.index]) := by
    simp [step, hallocation, Lifetime.allocate, hnot, htarget]
  rw [hstep, hindex]
  refine ⟨fun i => ?_, fun m i => ?_, fun p => ?_, fun m hm => ?_, h.leaks, h.doubleReleases⟩
  · change i ∈ s.opened ++ [_] ↔ _
    simp only [mem_append, mem_singleton, h.opened, MemoryAct.allocate.injEq, reduceCtorEq,
      or_false]
    constructor
    · rintro (⟨m, hm, hopen, hi⟩ | hi)
      · exact ⟨m, .inl hm, hopen, hi⟩
      · exact ⟨n, .inr rfl, hclosed, hi⟩
    · rintro ⟨m, hm | rfl, hopen, hi⟩
      · exact .inl ⟨m, hm, hopen, hi⟩
      · exact .inr hi
  · have hold : (m, i) ∈ s.aliases ↔ .allocate m ∈ done ∧ i = position acts (.allocate m) :=
      mem_sitesOf.symm.trans (h.sites m i)
    rw [mem_sitesOf, mem_rebind_aliases, mem_append, mem_singleton, mem_singleton]
    change (m, i) ∈ s.aliases ∧ m ≠ n ∨ m = n ∧ i = _ ↔ _
    rw [hold, MemoryAct.allocate.injEq]
    by_cases hm : m = n
    · subst hm
      simp
    · simp [hm]
  · simpa using h.pairs p
  · have hm : .release m ∈ done := by simpa using hm
    exact mem_append_left _ (h.closed m hm)

theorem aim_eq_sites {i : Int} (hargs : st.args = [.var n]) (hi : i ∈ s.sitesOf n) :
    aim k st s = .sites (s.sitesOf n) := by
  unfold aim
  rw [hargs]
  simp only [head?_cons, Option.bind_some, Graph.Operand.var?]
  cases hsites : s.sitesOf n with
  | nil => exact absurd hi (hsites ▸ not_mem_nil)
  | cons j rest => rfl

theorem meet_eq {candidates : List Int} {i : Int} (hi : i ∈ candidates)
    (hall : ∀ j ∈ candidates, j = i) :
    meet st r s candidates = ({ r with pairs := note (i, st.index) r.pairs },
      { s with opened := s.opened.filter fun j => j != i }) := by
  have hlast : candidates.getLast? = some i := by
    rw [getLast?_eq_some_getLast (ne_nil_of_mem hi)]
    exact congrArg some (hall _ (getLast_mem _))
  unfold meet
  rw [hlast]

/-- A release meets the allocation that its name points to. -/
theorem Tracks.release (h : Tracks acts done r s) (hready : .allocate n ∈ done)
    (hact : .allocate n ∈ acts) (hnew : .release n ∉ done)
    (hperforms : MemoryAct.Performs st (.release n))
    (hindex : st.index = position acts (.release n)) :
    Tracks acts (done ++ [.release n]) (step k (r, s) st).1 (step k (r, s) st).2 := by
  obtain ⟨hallocation, hrelease, hargs⟩ := isRelease_of_performs hperforms
  have hsite : position acts (.allocate n) ∈ s.sitesOf n := (h.sites n _).mpr ⟨hready, rfl⟩
  have hopen : position acts (.allocate n) ∈ s.opened := (h.opened _).mpr ⟨n, hready, hnew, rfl⟩
  have hstep : step k (r, s) st =
      ({ r with pairs := note (position acts (.allocate n), st.index) r.pairs },
        { s with opened := s.opened.filter fun i => i != position acts (.allocate n) }) := by
    simp only [step, hallocation, hrelease, Lifetime.release, aim_eq_sites hargs hsite,
      Bool.false_eq_true, if_false, if_true]
    -- the name points to its own allocation and to no other
    refine meet_eq (by simp [hopen, hsite]) fun i hi => ?_
    exact ((h.sites n i).mp (by simpa using (mem_filter.mp hi).2)).2
  rw [hstep, hindex]
  refine ⟨fun i => ?_, fun m i => ?_, fun p => ?_, fun m hm => ?_, h.leaks, h.doubleReleases⟩
  · simp only [mem_filter, h.opened, mem_append, mem_singleton, bne_iff_ne,
      MemoryAct.release.injEq, reduceCtorEq, or_false, not_or]
    constructor
    · rintro ⟨⟨m, hm, hopen, rfl⟩, hne⟩
      exact ⟨m, hm, ⟨hopen, fun heq => hne (heq ▸ rfl)⟩, rfl⟩
    · rintro ⟨m, hm, ⟨hopen, hne⟩, rfl⟩
      refine ⟨⟨m, hm, hopen, rfl⟩, fun heq => hne ?_⟩
      exact (MemoryAct.allocate.inj (position_inj hact heq.symm)).symm
  · change i ∈ s.sitesOf m ↔ _
    simpa using h.sites m i
  · rw [mem_note, h.pairs]
    simp only [mem_append, mem_singleton, MemoryAct.release.injEq]
    constructor
    · rintro (rfl | ⟨m, hm, rfl⟩)
      · exact ⟨n, .inr rfl, rfl⟩
      · exact ⟨m, .inl hm, rfl⟩
    · rintro ⟨m, hm | rfl, rfl⟩
      · exact .inr ⟨m, hm, rfl⟩
      · exact .inl rfl
  · simp only [mem_append, mem_singleton, MemoryAct.release.injEq, reduceCtorEq, or_false] at hm ⊢
    rcases hm with hm | rfl
    · exact h.closed m hm
    · exact hready

variable {rest : List MemoryAct}

/-- An act that has been performed stands before the acts to come. -/
theorem mem_of_idxOf_lt (h : (done ++ rest).idxOf a < done.length) : a ∈ done := by
  by_contra hnot
  rw [idxOf_append_of_notMem hnot] at h
  omega

/-- Every statement of a balanced body keeps track. -/
theorem Tracks.step {a : MemoryAct} (hb : Balanced names (done ++ a :: rest))
    (h : Tracks (done ++ a :: rest) done r s) (hperforms : a.Performs st)
    (hindex : st.index = (done.length : Nat)) :
    Tracks (done ++ a :: rest) (done ++ [a]) (step k (r, s) st).1 (step k (r, s) st).2 := by
  have hnew : a ∉ done := fun hmem =>
    (nodup_append.mp hb.nodup_acts).2.2 a hmem a mem_cons_self rfl
  have hposition : (done ++ a :: rest).idxOf a = done.length := by
    rw [idxOf_append_of_notMem hnew, idxOf_cons_self, Nat.add_zero]
  have hindex : st.index = position (done ++ a :: rest) a := by rw [hindex, position, hposition]
  cases a with
  | allocate n => exact h.allocate (mem_append_right _ mem_cons_self) hnew hperforms hindex
  | release n =>
    have hname : n ∈ names := hb.mem_release.mp (mem_append_right _ mem_cons_self)
    have hready : .allocate n ∈ done := mem_of_idxOf_lt (hposition ▸ hb.ordered n hname)
    exact h.release hready (hb.mem_allocate.mpr hname) hnew hperforms hindex

theorem Tracks.foldl {ss : List Statement} (hb : Balanced names (done ++ rest))
    (h : Tracks (done ++ rest) done r s) (hss : PerformsFrom done.length rest ss) :
    Tracks (done ++ rest) (done ++ rest) (ss.foldl (Lifetime.step k) (r, s)).1
      (ss.foldl (Lifetime.step k) (r, s)).2 := by
  induction rest generalizing done ss r s with
  | nil =>
    cases hss
    simpa using h
  | cons a rest ih =>
    cases hss with
    | cons hperforms hindex hrest =>
      have hnext := h.step (k := k) hb hperforms hindex
      rw [append_cons] at hb hnext ⊢
      rw [foldl_cons]
      exact ih hb hnext (by simpa using hrest)

/-! ### The walk -/

variable {g : Graph} {limit : Option Nat} {w : Walk} {b : Nat} {statements : List Statement}

/-- A block at which nothing has arrived. -/
def Walk.Fresh (w : Walk) (b : Nat) : Prop := w.statesAt b = [] ∧ w.summary.get? b = none

theorem accept_fresh (limit : Option Nat) (s : State) (hb : w.Fresh b) :
    ∃ w', accept limit w b s = some (w', s) ∧ w'.queue = w.queue ∧ w'.found = w.found ∧
      ∀ c, c ≠ b → w.Fresh c → w'.Fresh c := by
  unfold accept
  rw [hb.1, hb.2]
  rw [if_neg (by simp)]
  split
  · refine ⟨_, rfl, rfl, rfl, fun c hc hfresh => ⟨hfresh.1, ?_⟩⟩
    rw [Table.get?_set, if_neg hc]
    exact hfresh.2
  · refine ⟨_, rfl, rfl, rfl, fun c hc hfresh => ⟨?_, hfresh.2⟩⟩
    rw [Walk.statesAt, Table.get?_set, if_neg hc]
    exact hfresh.1

/-- The only waiting state at a fresh block is taken as it is. -/
theorem next?_fresh (g : Graph) (k : Setting) (limit : Option Nat) (hq : w.queue = [(b, s)])
    (hb : w.Fresh b) :
    ∃ w', w.next? g k limit = some w' ∧
      w'.queue = followers g b (visit g k b (w.found, s)).2 ∧
      w'.found = (if (g.outgoing b).isEmpty then (visit g k b (w.found, s)).1
        else (visit g k b (w.found, s)).1.lacking (untestable? (g.statementsOf b))) ∧
      ∀ c, c ≠ b → w.Fresh c → w'.Fresh c := by
  have hb : Walk.Fresh { w with queue := [] } b := hb
  obtain ⟨w', haccept, hqueue, hfound, hfresh⟩ := accept_fresh limit s hb
  refine ⟨w'.enter g k b s, ?_, ?_, ?_, hfresh⟩
  · rw [Walk.next?, hq]
    dsimp only
    rw [haccept]
  · simp [Walk.enter, hqueue, hfound]
  · simp [Walk.enter, hfound]

/-- An edge that no test chooses leaves the state as it is. -/
theorem refine_eq_some {e : Edge} (hyes : e.kind ≠ .branchTrue) (hno : e.kind ≠ .branchFalse) :
    refine statements e s = some s := by
  unfold refine
  cases hkind : e.kind with
  | branchTrue => exact absurd hkind hyes
  | branchFalse => exact absurd hkind hno
  | _ =>
    dsimp only
    split
    · contradiction
    · rfl

/-- The walk follows the only edge of a block. -/
theorem next?_edge (k : Setting) (limit : Option Nat) {e : Edge} (hq : w.queue = [(b, s)])
    (hb : w.Fresh b) (hexit : b ≠ exit) (hout : g.outgoing b = [e])
    (hyes : e.kind ≠ .branchTrue) (hno : e.kind ≠ .branchFalse)
    (htest : untestable? (g.statementsOf b) = none) :
    ∃ w', w.next? g k limit = some w' ∧
      w'.queue = [(e.target, ((g.statementsOf b).foldl (step k) (w.found, s)).2)] ∧
      w'.found = ((g.statementsOf b).foldl (step k) (w.found, s)).1 ∧
      ∀ c, c ≠ b → w.Fresh c → w'.Fresh c := by
  obtain ⟨w', hnext, hqueue, hfound, hfresh⟩ := next?_fresh g k limit hq hb
  have hvisit : visit g k b (w.found, s) = (g.statementsOf b).foldl (step k) (w.found, s) := by
    simp [visit, hexit, hout]
  rw [hvisit] at hqueue hfound
  refine ⟨w', hnext, ?_, ?_, hfresh⟩
  · simp [hqueue, followers, hout, refine_eq_some hyes hno]
  · simp [hfound, hout, htest, Record.lacking]

theorem next?_exit (k : Setting) (limit : Option Nat) (hq : w.queue = [(exit, s)])
    (hb : w.Fresh exit) (hout : g.outgoing exit = [])
    (hnone : g.statementsOf exit = []) :
    ∃ w', w.next? g k limit = some w' ∧ w'.queue = [] ∧ w'.found = finish k w.found s := by
  obtain ⟨w', hnext, hqueue, hfound, -⟩ := next?_fresh g k limit hq hb
  have hvisit : visit g k exit (w.found, s) = (finish k w.found s, s) := by
    simp [visit, hnone]
  rw [hvisit] at hqueue hfound
  exact ⟨w', hnext, by simp [hqueue, followers, hout], by simp [hfound, hout]⟩

theorem walkFor_of_next? {m : Nat} {w' : Walk} (h : w.next? g k limit = some w') :
    walkFor g k limit (m + 1) w = walkFor g k limit m w' := by
  rw [walkFor, h]

theorem walkFor_of_queue (m : Nat) (h : w.queue = []) : walkFor g k limit m w = w := by
  cases m with
  | zero => rfl
  | succ m => rw [walkFor, Walk.next?, h]

/-- In a graph with a single block the walk runs the block and ends. -/
theorem walk_straight (h : Straight g statements) (htest : untestable? statements = none) :
    walk g k limit = finish k (statements.foldl (step k) (.blank, .empty)).1
      (statements.foldl (step k) (.blank, .empty)).2 := by
  have hentry : g.outgoing entry = [⟨entry, 2, .fallThrough⟩] := by
    rw [Graph.outgoing, h.edges]
    rfl
  have hbody : g.outgoing 2 = [⟨2, exit, .return_⟩] := by
    rw [Graph.outgoing, h.edges]
    rfl
  have hexit : g.outgoing exit = [] := by
    rw [Graph.outgoing, h.edges]
    rfl
  obtain ⟨m, hm⟩ : ∃ m, stepBound g limit = m + 3 := by
    refine Nat.exists_eq_add_of_le' ?_
    simp only [stepBound, h.edges, size_toArray, length_cons, length_nil]
    omega
  -- the entry is empty, the block is run, and the exit ends the path
  obtain ⟨w₁, hnext₁, hqueue₁, hfound₁, hfresh₁⟩ := next?_edge k limit (w := .start) rfl
    ⟨rfl, rfl⟩ (by decide) hentry (by decide) (by decide) (h.entry ▸ rfl)
  rw [h.entry] at hqueue₁ hfound₁
  obtain ⟨w₂, hnext₂, hqueue₂, hfound₂, hfresh₂⟩ := next?_edge k limit hqueue₁
    (hfresh₁ 2 (by decide) ⟨rfl, rfl⟩) (by decide) hbody (by decide) (by decide) (h.body ▸ htest)
  rw [h.body, hfound₁] at hqueue₂ hfound₂
  obtain ⟨w₃, hnext₃, hqueue₃, hfound₃⟩ := next?_exit k limit hqueue₂
    (hfresh₂ exit (by decide) (hfresh₁ exit (by decide) ⟨rfl, rfl⟩)) hexit h.exit
  rw [walk, hm, walkFor_of_next? hnext₁, walkFor_of_next? hnext₂, walkFor_of_next? hnext₃,
    walkFor_of_queue m hqueue₃, hfound₃, hfound₂]
  rfl

/-! ### Statements -/

theorem statements_straight (h : Straight g statements) : g.statements = statements := by
  have hsuccessors : g.successors = fun b =>
      ([⟨entry, 2, .fallThrough⟩, ⟨2, exit, .return_⟩].filter fun e : Edge =>
        e.source == b).map Edge.target := by
    funext b
    rw [Graph.successors, Graph.outgoing, h.edges]
  have hreachable : g.reachable = [entry, 2, exit] := by
    rw [Graph.reachable, hsuccessors, h.edges]
    rfl
  rw [Graph.statements, hreachable]
  simp [h.entry, h.body, h.exit]

/-- A statement that performs an act has the parts that it needs. -/
theorem whole_of_performs (h : a.Performs st) : Whole st := by
  cases h with
  | allocate hkind hinfo hmanual =>
    constructor <;> simp [Statement.lacksAllocation?, Statement.lacksCall?, Flow.Values.lacks?,
      isAllocation, hkind, hinfo, hmanual]
  | release hkind hinfo hdeallocates =>
    constructor <;> simp [Statement.lacksAllocation?, Statement.lacksCall?, Flow.Values.lacks?,
      isRelease, hkind, hinfo, hdeallocates]

variable {ss : List Statement} {i : Nat}

theorem isRelease_eq_not_isAllocation (h : PerformsFrom i acts ss) (hst : st ∈ ss) :
    isRelease st = !isAllocation st := by
  obtain ⟨a, ha⟩ := h.exists_performs st hst
  cases a with
  | allocate n =>
    cases ha with
    | allocate hkind hinfo hmanual => simp [isAllocation, isRelease, hkind, hinfo, hmanual]
  | release n =>
    obtain ⟨hallocation, hrelease, -⟩ := isRelease_of_performs ha
    rw [hallocation, hrelease, Bool.not_false]

/-- The allocations and releases of a body are its statements, in order. -/
theorem ordered_eq (hss : PerformsFrom i acts ss) (h : g.statements = ss ++ [st])
    (hst : st.kind = .return_) : ordered g = ss := by
  have hend : isAllocation st = false ∧ isRelease st = false := by
    simp [isAllocation, isRelease, hst]
  have hmanual : (manual g).Perm ss := by
    rw [manual, h, filter_append, filter_append,
      filter_congr fun t ht => isRelease_eq_not_isAllocation hss ht]
    simpa [hend] using filter_append_perm isAllocation ss
  have hsorted := hss.pairwise_index.2
  have hnodup : (ss.map Statement.index).Nodup :=
    pairwise_map.mpr (hsorted.imp fun hlt => hlt.ne)
  exact ((ordered_perm g).trans hmanual).eq_of_pairwise (fun a b _ _ hab hba => (hab.asymm hba).elim)
    (ordered_increasing ((hmanual.map _).nodup_iff.mpr hnodup)) hsorted

/-! ### Partners -/

section Partners

variable {pairs m : List (Int × Int)}

/-- Pairs that share no ends are all chosen. -/
theorem perm_owners (hm : IsMatching pairs m) (hall : ∀ p ∈ pairs, p ∈ m) :
    (owners pairs).entries.Perm m := by
  have howners := isMatching_owners pairs
  have hsub : (owners pairs).entries.Subperm m :=
    howners.nodup_fst.of_map.subperm fun p hp => hall p (howners.subset p hp)
  refine hsub.perm_of_length_le ?_
  have hle := length_le_of_isMatching (settled_owners pairs) hm
  rwa [Table.keys, length_map] at hle

end Partners

def spans (names : List String) (acts : List MemoryAct) : List (Int × Int) :=
  names.map fun n => (position acts (.allocate n), position acts (.release n))

section

variable (hb : Balanced names acts)
include hb

theorem Tracks.mem_pairs (h : Tracks acts acts r s) (p : Int × Int) :
    p ∈ r.pairs ↔ p ∈ spans names acts := by
  rw [h.pairs, spans, mem_map]
  simp only [hb.mem_release, eq_comm]

theorem Tracks.isMatching (h : Tracks acts acts r s) :
    IsMatching r.pairs (spans names acts) := by
  refine ⟨fun p hp => (h.mem_pairs hb p).mpr hp, ?_, ?_⟩
  · rw [spans, map_map]
    refine hb.nodup.map_on fun n hn m _ heq => ?_
    exact MemoryAct.allocate.inj (position_inj (hb.mem_allocate.mpr hn) heq)
  · rw [spans, map_map]
    refine hb.nodup.map_on fun n hn m _ heq => ?_
    exact MemoryAct.release.inj (position_inj (hb.mem_release.mpr hn) heq)

theorem Tracks.ends (h : Tracks acts acts r s) :
    ∀ p ∈ r.pairs, ∀ q ∈ r.pairs, p.1 ≠ q.2 := by
  intro p hp q hq heq
  obtain ⟨n, hn, rfl⟩ := (h.pairs p).mp hp
  obtain ⟨m, -, rfl⟩ := (h.pairs q).mp hq
  cases position_inj (hb.mem_allocate.mpr (hb.mem_release.mp hn)) heq

theorem Tracks.opened_eq_nil (h : Tracks acts acts r s) :
    s.opened = [] := by
  refine eq_nil_iff_forall_not_mem.mpr fun i hi => ?_
  obtain ⟨n, hn, hnot, -⟩ := (h.opened i).mp hi
  exact hnot (hb.mem_release.mpr (hb.mem_allocate.mp hn))

/-! ### Reports -/

/-- A report without findings.  The event of an act stands where the act stands; for every name, the
event of its allocation and that of its release are paired with each other. -/
structure Clean (names : List String) (acts : List MemoryAct) (report : Lifetimes) : Prop where
  leaks : report.leaks = 0
  doubleReleases : report.doubleReleases = 0
  proper : report.proper = names.length
  length_events : report.events.length = acts.length
  paired : ∀ n ∈ names, ∃ a r : LifetimeEvent,
    report.events[acts.idxOf (.allocate n)]? = some a ∧ a.kind = .allocates ∧
    a.index = acts.idxOf (.allocate n) ∧ a.pairedWith = some r.index ∧ a.unmatched = false ∧
    report.events[acts.idxOf (.release n)]? = some r ∧ r.kind = .releases ∧
    r.index = acts.idxOf (.release n) ∧ r.pairedWith = some a.index ∧ r.unmatched = false

/-- What is known after all acts makes a clean report. -/
theorem Tracks.clean (h : Tracks acts acts r s)
    (hss : PerformsFrom 0 acts ss) (hg : g.statements = ss ++ [st]) (hst : st.kind = .return_) :
    Clean names acts (summary g r) := by
  have hevents : (summary g r).events = ss.map (event r (partners r.pairs)) :=
    congrArg (map _) (ordered_eq hss hg hst)
  have hends := h.ends hb
  have hperm := perm_owners (h.isMatching hb) fun p hp => (h.mem_pairs hb p).mp hp
  have hsize : (partners r.pairs).size = 2 * names.length := by
    rw [size_partners hends, hperm.length_eq, spans, length_map]
  have hunmatched : ∀ st, (event r (partners r.pairs) st).unmatched = false := by
    intro st
    rw [event_unmatched]
    cases kindOf st <;> simp [Record.unmatched, h.leaks, h.doubleReleases]
  refine ⟨by simp [summary, h.leaks], by simp [summary, h.doubleReleases], by simp [summary, hsize],
    by rw [hevents, length_map, hss.length_eq], fun n hn => ?_⟩
  have hat : ∀ {a : MemoryAct}, a ∈ acts → acts[acts.idxOf a]? = some a := fun ha =>
    List.getElem?_eq_some_iff.mpr ⟨idxOf_lt_length_of_mem ha, getElem_idxOf _⟩
  obtain ⟨sa, hsa, hallocates, hia⟩ := hss.getElem? (hat (hb.mem_allocate.mpr hn))
  obtain ⟨sr, hsr, hreleases, hir⟩ := hss.getElem? (hat (hb.mem_release.mpr hn))
  rw [Nat.zero_add] at hia hir
  have hspan : (sa.index, sr.index) ∈ (owners r.pairs).entries := by
    rw [hperm.mem_iff, hia, hir]
    exact mem_map_of_mem hn
  refine ⟨event r (partners r.pairs) sa, event r (partners r.pairs) sr, ?_, ?_, ?_, ?_,
    hunmatched sa, ?_, ?_, ?_, ?_, hunmatched sr⟩
  · rw [hevents, getElem?_map, hsa, Option.map_some]
  · rw [event_kind, kindOf, (isAllocation_of_performs hallocates).1, if_pos rfl]
  · rw [event_index, hia]
  · rw [event_pairedWith, event_index, get?_partners_iff hends]
    exact .inl hspan
  · rw [hevents, getElem?_map, hsr, Option.map_some]
  · rw [event_kind, kindOf, (isRelease_of_performs hreleases).1, if_neg Bool.false_ne_true]
  · rw [event_index, hir]
  · rw [event_pairedWith, event_index, get?_partners_iff hends]
    exact .inr hspan

variable {place : Graph.Location}

/-- The walk of a balanced body ends with all acts known and nothing open. -/
theorem tracks_observe (hss : PerformsFrom 0 acts ss)
    (h : Straight g (ss ++ [ending place i])) (values : Flow.Values) (limit : Option Nat) :
    ∃ s, Tracks acts acts (observe g values limit) s := by
  have htest : untestable? (ss ++ [ending place i]) = none := by simp [untestable?, ending]
  have hend (k : Setting) (found : Record × State) : step k found (ending place i) = found := rfl
  unfold observe
  dsimp only
  generalize Setting.mk _ _ _ = k
  have hblank : Tracks ([] ++ acts) [] .blank .empty := tracks_blank acts
  have htracks : Tracks acts acts (ss.foldl (step k) (.blank, .empty)).1
      (ss.foldl (step k) (.blank, .empty)).2 := hblank.foldl hb hss
  refine ⟨(ss.foldl (step k) (.blank, .empty)).2, ?_⟩
  rw [walk_straight h htest, foldl_append, foldl_cons, foldl_nil, hend, finish,
    htracks.opened_eq_nil hb]
  exact htracks

/-- A balanced body is analysed, and its report is clean. -/
theorem analyse_balanced (hss : PerformsFrom 0 acts ss)
    (h : Straight g (ss ++ [ending place i])) (values : Flow.Values) (limit : Option Nat) :
    ∃ report, analyse g values limit = .ok report ∧ Clean names acts report := by
  have hg := statements_straight h
  have hwhole : ∀ st ∈ g.statements, Whole st := by
    rw [hg]
    intro st hst
    rcases mem_append.mp hst with hst | hst
    · obtain ⟨a, ha⟩ := hss.exists_performs st hst
      exact whole_of_performs ha
    · rw [mem_singleton.mp hst]
      exact ⟨rfl, rfl, rfl, fun _ _ _ => rfl⟩
  obtain ⟨report, hreport⟩ := exists_report hwhole values limit
  refine ⟨report, hreport, ?_⟩
  obtain ⟨found, rfl, rfl | ⟨rfl, hnone⟩⟩ := exists_found hreport
  · obtain ⟨s, htracks⟩ := tracks_observe hb hss h values limit
    exact htracks.clean hb hss hg rfl
  · have hnil : ss = [] := by
      rw [← ordered_eq hss hg rfl, ordered, hnone, mergeSort_nil]
    subst hnil
    cases hss
    exact (tracks_blank []).clean hb (.nil 0) hg rfl

end

/-- A function that allocates memory under distinct local names and releases each once, in any order
in which a release follows its allocation, is lowered, and whatever types are found for it and
however few states are kept apart, its report is clean: no leak, no double release, a proper release
for each name, and the event of its allocation paired with that of its release.  Here `malloc` and
`free` are names from outside, and `free` is not a class. -/
theorem balanced_clean (image : Image) (f : Image.Function) (body : Image.Body)
    (params : List String) (maxDepth : Option Nat) {code : List Source.Stmt}
    (hcode : body.content = .statements code) (hwrites : List.Forall₂ MemoryAct.Writes acts code)
    (hb : Balanced names acts) (houter : ∀ n ∈ ["malloc", "free"], n ∉ params ∧ n ∉ names)
    (hfree : (Lowering.outerValue image (Lowering.capturedBy image f) "free").class? = none)
    (hdepth : ∀ n, maxDepth = some n → 3 ≤ n) :
    ∃ l, Lowering.lowerBody image f body params maxDepth = .ok l ∧
      ∀ label types declared returns locals values limit, ∃ report,
        analyse (({ l.graph with label } : Graph).sealed types declared returns locals) values
          limit = .ok report ∧ Clean names acts report := by
  obtain ⟨l, ss, place, hlower, hss, hstraight⟩ := Lowering.lowerBody_straight hcode hwrites
    (fun a ha => hb.name_mem ha) (fun n hn => hb.mem_allocate.mpr hn) houter hfree hdepth
  refine ⟨l, hlower, fun label types declared returns locals values limit => ?_⟩
  have hsealed : Straight (({ l.graph with label } : Graph).sealed types declared returns locals)
      (ss ++ [ending place ss.length]) :=
    ⟨hstraight.edges, hstraight.entry, hstraight.body, hstraight.exit⟩
  exact analyse_balanced hb hss hsealed values limit

def written (line : Nat) : List MemoryAct → List Source.Stmt
  | [] => []
  | .allocate n :: rest =>
    .assign ⟨line, 4, line⟩ [.name ⟨line, 4, line⟩ n .store]
      (.call ⟨line, 8, line⟩ (.name ⟨line, 8, line⟩ "malloc" .load)
        [.constant ⟨line, 15, line⟩ (.int 8)] []) :: written (line + 1) rest
  | .release n :: rest =>
    .discard ⟨line, 4, line⟩ (.call ⟨line, 4, line⟩ (.name ⟨line, 4, line⟩ "free" .load)
      [.name ⟨line, 9, line⟩ n .load] []) :: written (line + 1) rest

theorem writes_written (acts : List MemoryAct) :
    ∀ line, List.Forall₂ MemoryAct.Writes acts (written line acts) := by
  induction acts with
  | nil => exact fun _ => .nil
  | cons a acts ih =>
    intro line
    cases a with
    | allocate n => exact .cons (.allocate ..) (ih _)
    | release n => exact .cons (.release ..) (ih _)

def crossed : List MemoryAct :=
  [.allocate "p", .allocate "q", .release "p", .allocate "r", .release "r", .release "q"]

theorem crossed_clean :
    Balanced ["p", "q", "r"] crossed ∧
      ∃ l, Lowering.lowerBody .empty default ⟨.statements (written 2 crossed), 0, 1⟩ ["n"]
          (some 3) = .ok l ∧
        ∀ label types declared returns locals values limit, ∃ report,
          analyse (({ l.graph with label } : Graph).sealed types declared returns locals) values
            limit = .ok report ∧ Clean ["p", "q", "r"] crossed report := by
  have hb : Balanced ["p", "q", "r"] crossed := ⟨by decide, by decide, by decide⟩
  refine ⟨hb, balanced_clean .empty default ⟨.statements (written 2 crossed), 0, 1⟩ ["n"] (some 3)
    rfl (writes_written crossed 2) hb (by decide) rfl fun n hn => ?_⟩
  exact (Option.some.inj hn).le

/-- The graph of a function that takes its release function as the parameter `free`. -/
def passing : Graph :=
  { Graph.start "" "" ["free"] with
    blocks := #[⟨"entry", 0, #[]⟩, ⟨"exit", 0, #[]⟩,
      ⟨"body", 0, #[
        { kind := .allocation, op := "malloc", location := ⟨"prog.py", 2, 8⟩, index := 0
          target := some "p", operands := [.const (.int 8)]
          allocation := some { allocator := "malloc", manual := true, size := some 8
                               hint := .cls .rawPointer } },
        { kind := .call, op := "call", location := ⟨"prog.py", 3, 4⟩, index := 1
          target := some "%2", operands := [.var "free", .var "p"]
          call := some { dispatch := .indirect, calleeName := "free", hasReceiver := true } },
        ending ⟨"prog.py", 3, 0⟩ 2]⟩]
    edges := #[⟨entry, 2, .fallThrough⟩, ⟨2, exit, .return_⟩] }

/-- A parameter called `free` is called as any value, and the memory leaks. -/
theorem passed_free_not_clean :
    Balanced ["p"] [.allocate "p", .release "p"] ∧
      ∃ l report, Lowering.lowerBody .empty default
          ⟨.statements (written 2 [.allocate "p", .release "p"]), 0, 1⟩ ["free"] none = .ok l ∧
        analyse l.graph (.ofGraph l.graph) (some 64) = .ok report ∧ report.leaks = 1 ∧
        report.proper = 0 := by
  have hlowered : Lowering.lowerBody .empty default
      ⟨.statements (written 2 [.allocate "p", .release "p"]), 0, 1⟩ ["free"] none =
        .ok ⟨passing, .empty, ["free", "p"], false⟩ := by
    with_unfolding_all rfl
  have hreport : analyse passing (.ofGraph passing) (some 64) =
      .ok ⟨[⟨⟨"prog.py", 2, 8⟩, .allocates, 0, none, true, "malloc"⟩], 1, 0, 0⟩ := by
    with_unfolding_all rfl
  exact ⟨⟨by decide, by decide, by decide⟩, _, _, hlowered, hreport, rfl, rfl⟩

end Readiness.Lifetime
