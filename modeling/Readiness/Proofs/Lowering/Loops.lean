import Mathlib.Algebra.Order.BigOperators.Group.List
import Mathlib.Algebra.Order.Group.Nat
import Readiness.Proofs.Graph.Finishing
import Readiness.Proofs.Lowering.Shape

/-!
# The loops of a draft

Blocks are numbered in the order in which they are made, so that the blocks of a loop
are those from its header on until the loop is closed.

Every edge goes up in rank or back to the header of a loop whose blocks are entered
through the header only (`Ordered`).  When no loop is open any more, such a header dominates the
source of the edge (`Enclosed.dominates`).  Statements have numbers of their own (`Numbered`).
-/

namespace Readiness.Graph

open List
variable {e : Edge} {b c : Nat} {far : Nat → Prop} {σ : Draft.Setting} {t : Scope}

namespace Draft

/-- Nothing leads into the blocks between a header and a bound but those blocks and the header. -/
structure Enclosed (s : Draft) (h bound : Nat) : Prop where
  made : bound ≤ s.graph.blocks.size
  edges : ∀ e ∈ s.graph.edges, h < e.target → e.target < bound → h ≤ e.source ∧ e.source < bound
  waiting : ∀ w ∈ s.waiting, ¬(h < w ∧ w < bound)
  headers : ∀ h' ∈ s.headers, ¬(h < h' ∧ h' < bound)

structure Looping (s : Draft) (e : Edge) : Prop where
  kind : e.kind = .backEdge ∨ e.kind = .proceed ∨ e.kind = .branchFalse
  header : s.graph.kindOf e.target = headerKind
  le : e.target ≤ e.source
  loop : e.target ∈ s.headers ∨ ∃ bound, e.source < bound ∧ Enclosed s e.target bound

structure Linking (s : Draft) (e : Edge) : Prop where
  inside : s.Inside e.source
  target : e.target ∈ s.waiting ∧ ¬(e.kind = .backEdge ∨ e.kind = .proceed) ∨
    e.target ∈ s.headers ∧ (e.kind = .backEdge ∨ e.kind = .proceed ∨ e.kind = .branchFalse)

/-- A step that neither enters a block nor opens or closes a loop. -/
structure Extends (s s' : Draft) : Prop where
  headers : s'.headers = s.headers
  waiting : s.waiting ⊆ s'.waiting
  fresh : ∀ w ∈ s'.waiting, w ∈ s.waiting ∨ s.graph.blocks.size ≤ w
  edges : ∀ e ∈ s'.graph.edges, e ∈ s.graph.edges ∨ Linking s e

/-- The edges of a draft go up or back, and nothing leads into an open loop from before it. -/
structure Ordered (s : Draft) : Prop where
  ranked : ∃ rank : Nat → Nat, ∀ e ∈ s.graph.edges,
    Looping s e ∨ (e.target ∉ s.waiting → rank e.source < rank e.target)
  looping : ∀ e ∈ s.graph.edges, e.kind = .backEdge ∨ e.kind = .proceed → Looping s e
  around : ∀ h ∈ s.headers, ∀ e ∈ s.graph.edges, h < e.target → h ≤ e.source

theorem ordered_start (label name : String) (params : List String) :
    Ordered (start label name params) := by
  have hedges : ∀ e ∈ (start label name params).graph.edges, e = ⟨entry, 2, .fallThrough⟩ := by
    intro e he
    simpa [start, Graph.start, Graph.addBlock, Graph.addEdge] using he
  refine ⟨⟨id, fun e he => ?_⟩, fun e he hkind => ?_, fun h hh => absurd hh not_mem_nil⟩
  · cases hedges e he
    exact .inr fun _ => by decide
  · cases hedges e he
    exact absurd hkind (by decide)

section Extending

variable {s s' : Draft}

theorem Extends.of_edges (hheaders : s'.headers = s.headers) (hwaiting : s'.waiting = s.waiting)
    (hedges : s'.graph.edges = s.graph.edges) : Extends s s' :=
  ⟨hheaders, hwaiting ▸ subset_rfl, fun _ hw => .inl (hwaiting ▸ hw),
    fun _ he => .inl (hedges ▸ he)⟩

theorem Extends.of_addEdge (hheaders : s'.headers = s.headers) (hwaiting : s'.waiting = s.waiting)
    (hedges : s'.graph.edges = (s.graph.addEdge e).edges) (he : Linking s e) : Extends s s' := by
  refine ⟨hheaders, hwaiting ▸ subset_rfl, fun _ hw => .inl (hwaiting ▸ hw), ?_⟩
  intro e' he'
  rw [hedges] at he'
  rcases (mem_edges_addEdge _ _).mp he' with he' | rfl
  · exact .inl he'
  · exact .inr he

theorem Enclosed.extend {h bound : Nat} (henclosed : Enclosed s h bound) (hs : Extends s s')
    (hwithin : Within s.graph s'.graph) : Enclosed s' h bound := by
  refine ⟨henclosed.made.trans hwithin.size, ?_, ?_, hs.headers ▸ henclosed.headers⟩
  · intro e he hlo hhi
    rcases hs.edges e he with he | he
    · exact henclosed.edges e he hlo hhi
    · rcases he.target with ⟨hwaiting, -⟩ | ⟨hheader, -⟩
      · exact (henclosed.waiting _ hwaiting ⟨hlo, hhi⟩).elim
      · exact (henclosed.headers _ hheader ⟨hlo, hhi⟩).elim
  · intro w hw hbetween
    rcases hs.fresh w hw with hw | hw
    · exact henclosed.waiting w hw hbetween
    · exact absurd (henclosed.made.trans hw) (by omega)

theorem Looping.extend (h : Looping s e) (hs : Extends s s') (hwithin : Within s.graph s'.graph)
    (hkind : s'.graph.kindOf e.target = s.graph.kindOf e.target) : Looping s' e := by
  refine ⟨h.kind, hkind.trans h.header, h.le, ?_⟩
  rcases h.loop with hopen | ⟨bound, hlt, henclosed⟩
  · exact .inl (hs.headers ▸ hopen)
  · exact .inr ⟨bound, hlt, henclosed.extend hs hwithin⟩

/-- The headers of a draft are of their kind, and its edges are in bounds. -/
def Sorted (s : Draft) : Prop :=
  (∀ h ∈ s.headers, h < s.graph.blocks.size ∧ s.graph.kindOf h = headerKind) ∧ Closed s.graph

theorem Bounded.sorted (h : Bounded s) : Sorted s :=
  ⟨fun k hk => ⟨h.fits.headers k hk, h.kinds k hk⟩, h.fits.closed⟩

theorem Ordered.extend (h : Ordered s) (hsorted : Sorted s) (hs : Extends s s')
    (hg : Grown t s.graph s'.graph) : Ordered s' := by
  have hold : ∀ e ∈ s.graph.edges, Looping s e → Looping s' e := fun e he hloop =>
    hloop.extend hs hg.within (hg.kinds _ (hsorted.2 e he).2)
  have hnew : ∀ e, Linking s e → e.target ∈ s.headers →
      e.kind = .backEdge ∨ e.kind = .proceed ∨ e.kind = .branchFalse → Looping s' e := by
    intro e he hheader hkind
    obtain ⟨hlt, hname⟩ := hsorted.1 _ hheader
    exact ⟨hkind, (hg.kinds _ hlt).trans hname, he.inside _ hheader, .inl (hs.headers ▸ hheader)⟩
  obtain ⟨rank, hrank⟩ := h.ranked
  refine ⟨⟨rank, ?_⟩, ?_, ?_⟩
  · intro e he
    rcases hs.edges e he with he | he
    · exact (hrank e he).imp (hold e he) fun hup hw => hup fun hmem => hw (hs.waiting hmem)
    · rcases he.target with ⟨hwaiting, -⟩ | ⟨hheader, hkind⟩
      · exact .inr fun hw => (hw (hs.waiting hwaiting)).elim
      · exact .inl (hnew e he hheader hkind)
  · intro e he hkind
    rcases hs.edges e he with he | he
    · exact hold e he (h.looping e he hkind)
    · rcases he.target with ⟨-, hother⟩ | ⟨hheader, hkind⟩
      · exact (hother hkind).elim
      · exact hnew e he hheader hkind
  · intro h' hh' e he hlt
    rw [hs.headers] at hh'
    rcases hs.edges e he with he | he
    · exact h.around h' hh' e he hlt
    · exact he.inside h' hh'

end Extending

/-- Ranks for all blocks but those that wait leave room for one of these, which has no way on. -/
theorem exists_rank_above {edges : Array Edge} {waiting : Finset Nat} {good : Edge → Prop}
    {rank : Nat → Nat}
    (hrank : ∀ e ∈ edges, good e ∨ (e.target ∉ waiting → rank e.source < rank e.target)) (b : Nat)
    (hb : ∀ e ∈ edges, e.source ≠ b) :
    ∃ rank' : Nat → Nat, ∀ e ∈ edges,
      good e ∨ (e.target ∉ waiting.erase b → rank' e.source < rank' e.target) := by
  let top := (edges.toList.map fun e => rank e.source).sum + 1
  refine ⟨Function.update rank b top, fun e he => (hrank e he).imp_right fun hup hw => ?_⟩
  rw [Function.update_of_ne (hb e he)]
  by_cases htarget : e.target = b
  · rw [htarget, Function.update_self]
    exact Nat.lt_succ_of_le
      (single_le_sum (fun _ _ => Nat.zero_le _) _ (mem_map_of_mem he.val))
  · rw [Function.update_of_ne htarget]
    exact hup fun hmem => hw (Finset.mem_erase.mpr ⟨htarget, hmem⟩)

section Loops

variable {s s' : Draft}

/-- A change of the waiting blocks and of the headers that closes no loop too early. -/
theorem Looping.of_headers (h : Looping s e) (hgraph : s'.graph = s.graph)
    (hwaiting : s'.waiting ⊆ s.waiting)
    (hheaders : ∀ h' ∈ s'.headers, h' ∈ s.headers ∨ h' ∈ s.waiting) (hopen : e.target ∈ s.headers →
      e.target ∈ s'.headers ∨ ∃ bound, e.source < bound ∧ Enclosed s' e.target bound) :
    Looping s' e := by
  refine ⟨h.kind, hgraph ▸ h.header, h.le, ?_⟩
  rcases h.loop with htarget | ⟨bound, hlt, henclosed⟩
  · exact hopen htarget
  · refine .inr ⟨bound, hlt, hgraph ▸ henclosed.made, hgraph ▸ henclosed.edges, ?_, ?_⟩
    · exact fun w hw => henclosed.waiting w (hwaiting hw)
    · exact fun h' hh' => (hheaders h' hh').elim (henclosed.headers h') (henclosed.waiting h')

theorem Ordered.enter (h : Ordered s) (hfits : Fits far s) {b : Nat} (hb : b ∈ s.waiting) :
    Ordered (s.enter b) := by
  have hloop : ∀ e, Looping s e → Looping (s.enter b) e := fun e he =>
    he.of_headers rfl (Finset.erase_subset _ _) (fun _ => .inl) .inl
  obtain ⟨rank, hrank⟩ := h.ranked
  obtain ⟨rank', hrank'⟩ := exists_rank_above hrank b (hfits.waiting b hb).2.1
  exact ⟨⟨rank', fun e he => (hrank' e he).imp_left (hloop e)⟩,
    fun e he hkind => hloop e (h.looping e he hkind), h.around⟩

theorem Ordered.openLoop (h : Ordered s) (hclosed : Closed s.graph) (hb : b ∈ s.waiting)
    (hlast : b + 1 = s.graph.blocks.size) : Ordered (s.openLoop b) := by
  have hloop : ∀ e, Looping s e → Looping (s.openLoop b) e := by
    refine fun e he =>
      he.of_headers rfl subset_rfl ?_ fun hopen => .inl (mem_cons_of_mem b hopen)
    rintro h' hh'
    rcases mem_cons.mp hh' with rfl | hh'
    · exact .inr hb
    · exact .inl hh'
  obtain ⟨rank, hrank⟩ := h.ranked
  refine ⟨⟨rank, fun e he => (hrank e he).imp_left (hloop e)⟩,
    fun e he hkind => hloop e (h.looping e he hkind), ?_⟩
  intro h' hh' e he hlt
  rcases mem_cons.mp hh' with rfl | hh'
  · have htarget := (hclosed e he).2
    omega
  · exact h.around h' hh' e he hlt

theorem Ordered.closeLoop (h : Ordered s) (hclosed : Closed s.graph) {rest : List Nat}
    (hheaders : s.headers = b :: rest) (hwaiting : ∀ w ∈ s.waiting, w < b)
    (hrest : ∀ h' ∈ rest, h' < b) : Ordered s.closeLoop := by
  have htail : s.closeLoop.headers = rest := congrArg List.tail hheaders
  have hmem : ∀ h' ∈ s.closeLoop.headers, h' ∈ s.headers := fun h' hh' =>
    mem_of_mem_tail hh'
  have henclosed : Enclosed s.closeLoop b s.graph.blocks.size := by
    refine ⟨le_rfl, ?_, ?_, ?_⟩
    · exact fun e he hlo _ =>
        ⟨h.around b (hheaders ▸ mem_cons_self) e he hlo, (hclosed e he).1⟩
    · exact fun w hw hbetween => absurd (hwaiting w hw) (Nat.lt_asymm hbetween.1)
    · exact fun h' hh' hbetween => absurd (hrest h' (htail ▸ hh')) (Nat.lt_asymm hbetween.1)
  have hloop : ∀ e ∈ s.graph.edges, Looping s e → Looping s.closeLoop e := by
    refine fun e he hloop => hloop.of_headers rfl subset_rfl (fun h' hh' => .inl (hmem h' hh')) ?_
    intro hopen
    rw [hheaders] at hopen
    rcases mem_cons.mp hopen with htarget | hopen
    · exact .inr ⟨_, (hclosed e he).1, htarget ▸ henclosed⟩
    · exact .inl (htail ▸ hopen)
  obtain ⟨rank, hrank⟩ := h.ranked
  exact ⟨⟨rank, fun e he => (hrank e he).imp_left (hloop e he)⟩,
    fun e he hkind => hloop e he (h.looping e he hkind),
    fun h' hh' => h.around h' (hmem h' hh')⟩

end Loops

variable {s : Draft}

theorem Ordered.act {s' : Draft} (h : Ordered s) (hbounded : Bounded s) (hfar : ∀ t, ¬σ.far t)
    (hact : Action σ s s') : Ordered s' := by
  have hg := hact.change.grown
  have hfits := hbounded.fits
  have hextend {d : Draft} (hs : Extends s d) (hg : Grown (s.scope σ) s.graph d.graph) :
      Ordered d := h.extend hbounded.sorted hs hg
  have hinside : ∀ b, s.focus = some b → s.Inside b := fun b hb => (hfits.focus b hb).2.1
  have hblock : ∀ kind depth, Extends s (s.addBlock kind depth) := fun kind depth =>
    ⟨rfl, Finset.subset_insert _ _, fun w hw => (Finset.mem_insert.mp hw).symm.imp_right (·.ge),
      fun e he => .inl he⟩
  cases hact with
  | block depth => exact hextend (hblock _ depth) hg
  | emit | rename | branch => exact hextend (.of_edges rfl rfl rfl) hg
  | guard hfocus ht =>
    exact hextend (.of_addEdge rfl rfl rfl
      ⟨hinside _ hfocus, .inl ⟨ht.resolve_right (hfar _), by simp⟩⟩) hg
  | pass hfocus ht hk =>
    exact hextend (.of_addEdge rfl rfl rfl
      ⟨hinside _ hfocus, .inl ⟨ht, by rcases hk with rfl | rfl <;> simp⟩⟩) hg
  | back hfocus hh hout hk =>
    exact hextend (.of_addEdge rfl rfl rfl ⟨hinside _ hfocus, .inr ⟨hh, hk.imp_right .inl⟩⟩) hg
  | jump _ ht | drop _ _ ht => exact absurd ht (hfar _)
  | quit hfocus hindex ht hquit =>
    refine hextend (.of_addEdge rfl rfl rfl
      ⟨hinside _ hfocus, .inl ⟨ht.resolve_right (hfar _), ?_⟩⟩) hg
    rcases hquit with ⟨-, -, rfl⟩ | ⟨-, rfl⟩ <;> simp
  | yes hc ht hin => exact hextend (.of_addEdge rfl rfl rfl ⟨hin, .inl ⟨ht, by simp⟩⟩) hg
  | no hc ht hin hk =>
    exact hextend (.of_addEdge rfl rfl rfl
      ⟨hin, .inl ⟨ht, by rcases hk with rfl | rfl <;> simp⟩⟩) hg
  | skip hc hh hin hout =>
    exact hextend (.of_addEdge rfl rfl rfl ⟨hin, .inr ⟨hh, .inr (.inr rfl)⟩⟩) hg
  | enter _ hb => exact h.enter hfits hb
  | @header b hfocus depth =>
    have hmade := (Grown.refl (s.scope σ) s.graph).addBlock headerKind depth
    have h₁ := hextend (hblock headerKind depth) hmade
    have hsorted : Sorted (s.addBlock headerKind depth) :=
      ⟨fun k hk => ⟨(hfits.headers k hk).trans_le hmade.size,
        (hmade.kinds k (hfits.headers k hk)).trans (hbounded.kinds k hk)⟩, hfits.closed.addBlock _ _⟩
    have h₂ : Ordered ((s.addBlock headerKind depth).addEdge
        ⟨b, s.graph.blocks.size, .fallThrough⟩).leave :=
      h₁.extend hsorted (.of_addEdge rfl rfl rfl ⟨hinside b hfocus,
        .inl ⟨Finset.mem_insert_self _ _, by simp⟩⟩)
        ((Grown.refl ⟨fun _ => True, fun _ => True, fun _ => True⟩ _).addEdge trivial)
    have hheader := hfits.toHeader hfocus depth
    rw [atHeader_eq hfits]
    exact (h₂.openLoop hheader.closed (Finset.mem_insert_self _ _) (size_addBlock _ _ _).symm).enter
      hheader (Finset.mem_insert_self _ _)
  | closeLoop hheaders _ hpending hrest =>
    exact h.closeLoop hfits.closed hheaders (fun w hw => hpending w (.inl hw)) hrest

theorem Reached.ordered (h : Reached s) : Ordered s := by
  induction h with
  | start label name params => exact ordered_start label name params
  | act hfar hs hact ih => exact ih.act hs.bounded hfar hact

/-- A walk into the blocks of a loop meets its header. -/
theorem Enclosed.mem_walk {h bound : Nat} (henclosed : Enclosed s h bound) {path : List Nat}
    (hwalk : Walk s.graph path) :
    ∀ b rest, path = b :: rest → h ≤ b → b < bound → entry < h → h ∈ path := by
  induction hwalk with
  | entry =>
    rintro b rest ⟨⟩ hle _ hpos
    exact absurd hle (Nat.not_le.mpr hpos)
  | @step a b path _ hb ih =>
    rintro b' rest ⟨⟩ hle hlt hpos
    obtain ⟨e, he, rfl, rfl⟩ := mem_successors.mp hb
    rcases Nat.eq_or_lt_of_le hle with heq | hlo
    · exact heq ▸ mem_cons_self
    · obtain ⟨hsource, hbound⟩ := henclosed.edges e he hlo hlt
      exact mem_cons_of_mem _ (ih _ _ rfl hsource hbound hpos)

/-- When no loop is open, an edge that goes back leads to a block that dominates its source. -/
theorem Looping.dominates (h : Looping s e) (hbounded : Bounded s) (he : e ∈ s.graph.edges)
    (hheaders : s.headers = []) : Dominates s.graph e.target e.source := by
  intro path hwalk
  rcases h.loop with hopen | ⟨bound, hlt, henclosed⟩
  · rw [hheaders] at hopen
    cases hopen
  · exact henclosed.mem_walk hwalk _ _ rfl h.le hlt (hbounded.targets e he)

/-- When only the exit waits, the edges that do not go back go up in rank. -/
theorem Ordered.exists_rank (h : Ordered s) (hbounded : Bounded s) (hwaiting : s.waiting = {exit}) :
    ∃ rank : Nat → Nat, ∀ e ∈ s.graph.edges, Looping s e ∨ rank e.source < rank e.target := by
  obtain ⟨rank, hrank⟩ := h.ranked
  obtain ⟨rank', hrank'⟩ :=
    exists_rank_above hrank exit (hbounded.fits.waiting _ hbounded.exit).2.1
  refine ⟨rank', fun e he => (hrank' e he).imp_right fun hup => hup ?_⟩
  simp [hwaiting]

def numbers (s : Draft) (b : Nat) : List Int := (s.graph.statementsOf b).map Statement.index

/-- No two statements of a draft have the same number. -/
structure Numbered (s : Draft) : Prop where
  lt : ∀ b, ∀ i ∈ s.numbers b, i < s.index
  nodup : ∀ b, (s.numbers b).Nodup
  apart : ∀ b c, b ≠ c → (s.numbers b).Disjoint (s.numbers c)

theorem numbered_start (label name : String) (params : List String) :
    Numbered (start label name params) := by
  have hempty : ∀ b, (start label name params).numbers b = [] := by
    intro b
    have hstatements : (Graph.start label name params).statementsOf b = [] := by
      by_cases hb : b < 2
      · obtain rfl | rfl : b = 0 ∨ b = 1 := by omega
        · rfl
        · rfl
      · exact statementsOf_of_size_le _ (Nat.le_of_not_lt hb)
    simp [numbers, start, hstatements]
  refine ⟨?_, ?_, ?_⟩ <;> simp [hempty]

section Numbers

variable {s s' : Draft}

theorem Numbered.of_eq (h : Numbered s) (hnumbers : ∀ b, s'.numbers b = s.numbers b)
    (hindex : s'.index = s.index) : Numbered s' := by
  refine ⟨?_, ?_, ?_⟩
  · intro b
    rw [hnumbers, hindex]
    exact h.lt b
  · intro b
    rw [hnumbers]
    exact h.nodup b
  · intro b c
    rw [hnumbers, hnumbers]
    exact h.apart b c

theorem Numbered.add (h : Numbered s) (hnumbers : s'.numbers c = s.numbers c ++ [(s.index : Int)])
    (hother : ∀ b ≠ c, s'.numbers b = s.numbers b) (hindex : s'.index = s.index + 1) :
    Numbered s' := by
  have hmem : ∀ b, ∀ i ∈ s'.numbers b, i ∈ s.numbers b ∨ b = c ∧ i = s.index := by
    intro b i hi
    by_cases hb : b = c
    · subst hb
      rw [hnumbers] at hi
      exact (mem_append.mp hi).imp_right fun hi => ⟨rfl, mem_singleton.mp hi⟩
    · exact .inl (hother b hb ▸ hi)
  refine ⟨?_, ?_, ?_⟩
  · intro b i hi
    rw [hindex]
    rcases hmem b i hi with hi | ⟨-, rfl⟩
    · have hlt := h.lt b i hi
      omega
    · omega
  · intro b
    by_cases hb : b = c
    · subst hb
      rw [hnumbers]
      refine (h.nodup b).append (nodup_singleton _) ?_
      intro i hi hnew
      have hlt := h.lt b i hi
      rw [mem_singleton.mp hnew] at hlt
      exact lt_irrefl _ hlt
    · rw [hother b hb]
      exact h.nodup b
  · intro b b' hbb' i hi hi'
    rcases hmem b i hi with hi | ⟨rfl, rfl⟩
    · rcases hmem b' i hi' with hi' | ⟨rfl, rfl⟩
      · exact h.apart b b' hbb' hi hi'
      · exact lt_irrefl _ (h.lt b _ hi)
    · rcases hmem b' _ hi' with hi' | ⟨rfl, -⟩
      · exact lt_irrefl _ (h.lt b' _ hi')
      · exact hbb' rfl

theorem numbers_addStatement (hfits : Fits far s) (hfocus : s.focus = some c) {st : Statement}
    (hindex : st.index = s.index) :
    (s.addStatement c st).numbers c = s.numbers c ++ [(s.index : Int)] := by
  have hstatements : (s.addStatement c st).graph.statementsOf c = s.graph.statementsOf c ++ [st] :=
    statementsOf_addStatement_self _ _ (hfits.focus c hfocus).1
  rw [numbers, hstatements, map_append, map_singleton, hindex, numbers]

theorem numbers_addStatement_of_ne {st : Statement} (hb : b ≠ c) :
    (s.addStatement c st).numbers b = s.numbers b :=
  congrArg (List.map Statement.index) (statementsOf_addStatement_of_ne _ _ hb)

end Numbers

theorem Numbered.act {s' : Draft} (h : Numbered s) (hfits : Fits far s) (hfar : ∀ t, ¬σ.far t)
    (hact : Action σ s s') : Numbered s' := by
  cases hact with
  | block depth | header _ depth =>
    refine h.of_eq (fun b => ?_) rfl
    exact congrArg (List.map Statement.index) (statementsOf_addBlock _ _ _ b)
  | emit hfocus _ hindex =>
    exact h.add (numbers_addStatement hfits hfocus hindex)
      (fun b hb => numbers_addStatement_of_ne hb) rfl
  | rename =>
    exact h.of_eq (fun b => map_statementsOf_retarget _ _ _ _ (fun _ _ => rfl) b) rfl
  | quit hfocus hindex | branch hfocus hindex =>
    exact h.add (numbers_addStatement hfits hfocus hindex)
      (fun b hb => numbers_addStatement_of_ne hb) rfl
  | drop _ _ ht => exact absurd ht (hfar _)
  | _ => exact h.of_eq (fun _ => rfl) rfl

theorem Reached.numbered (h : Reached s) : Numbered s := by
  induction h with
  | start label name params => exact numbered_start label name params
  | act hfar hs hact ih => exact ih.act hs.bounded.fits hfar hact

end Draft
end Readiness.Graph
