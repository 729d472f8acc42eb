import Readiness.Proofs.Lowering.Regions

/-!
# What actions keep

What an action keeps is an `Invariant`.  Every draft `Fits`; when nothing else is open, its blocks
come after the entry (`Bounded`).  A draft that is `Confined` adds to certain blocks only.
-/

namespace Readiness.Graph.Draft

open Finset

variable {σ : Setting} {far : Nat → Prop} {s s' : Draft}

/-! ### Drafts that fit -/

/-- The parts of a draft are in bounds and apart, what waits is empty, and the block in focus has
not ended. -/
structure Fits (far : Nat → Prop) (s : Draft) : Prop where
  exit : Graph.exit < s.graph.blocks.size ∧ (Graph.exit ∈ s.waiting ∨ far Graph.exit)
  far : ∀ t, far t → t < s.graph.blocks.size
  closed : Closed s.graph
  pending : ∀ k, s.Pending k → k < s.graph.blocks.size ∧ s.focus ≠ some k
  waiting : ∀ w ∈ s.waiting, s.graph.statementsOf w = [] ∧ (∀ e ∈ s.graph.edges, e.source ≠ w) ∧
    w ∉ s.needsYes ∧ w ∉ s.needsNo
  headers : ∀ h ∈ s.headers, h < s.graph.blocks.size
  focus : ∀ b, s.focus = some b → b < s.graph.blocks.size ∧ s.Inside b ∧ Unended s.graph b

namespace Fits

variable {b : Nat}

section

variable (h : Fits far s)
include h

theorem source_ne (hfocus : s.focus = some b) : ∀ w ∈ s.waiting, b ≠ w :=
  fun _ hw heq => (h.pending _ (.inl hw)).2 (heq ▸ hfocus)

theorem open_lt {t : Nat} (ht : t ∈ s.waiting ∨ far t) : t < s.graph.blocks.size :=
  ht.elim (fun ht => (h.pending t (.inl ht)).1) (h.far t)

theorem addEdge {e : Edge} (hsource : e.source < s.graph.blocks.size)
    (hne : ∀ w ∈ s.waiting, e.source ≠ w) (htarget : e.target < s.graph.blocks.size)
    (hkind : s.focus = some e.source → e.kind = .exception) : Fits far (s.addEdge e) := by
  refine ⟨h.exit, h.far, h.closed.addEdge hsource htarget, h.pending, fun w hw => ?_, h.headers,
    fun b hb => ?_⟩
  · obtain ⟨hempty, hout, hneeds⟩ := h.waiting w hw
    refine ⟨hempty, fun e' he' => ?_, hneeds⟩
    rcases (mem_edges_addEdge _ _).mp he' with he' | rfl
    · exact hout e' he'
    · exact hne w hw
  · obtain ⟨hlt, hin, hunended⟩ := h.focus b hb
    refine ⟨hlt, hin, fun e' he' heq => ?_⟩
    rcases (mem_edges_addEdge _ _).mp he' with he' | rfl
    · exact hunended e' he' heq
    · exact hkind (heq ▸ hb)

theorem leave : Fits far s.leave :=
  ⟨h.exit, h.far, h.closed, fun k hk => ⟨(h.pending k hk).1, nofun⟩, h.waiting, h.headers, nofun⟩

/-- A change of the statements of a block that does not wait. -/
theorem of_statements {g : Graph} (i : Nat)
    (hsize : g.blocks.size = s.graph.blocks.size) (hedges : g.edges = s.graph.edges)
    (hstatements : ∀ w ∈ s.waiting, g.statementsOf w = s.graph.statementsOf w) :
    Fits far { s with graph := g, index := i } := by
  refine ⟨?_, ?_, ?_, ?_, fun w hw => ?_, ?_, ?_⟩
  · exact hsize ▸ h.exit
  · exact hsize ▸ h.far
  · exact fun e he => hsize ▸ h.closed e (hedges ▸ he)
  · exact hsize ▸ h.pending
  · rw [hstatements w hw, hedges]
    exact h.waiting w hw
  · exact hsize ▸ h.headers
  · intro b hb
    obtain ⟨hlt, hin, hunended⟩ := h.focus b hb
    exact ⟨hsize ▸ hlt, hin, fun e he => hunended e (hedges ▸ he)⟩

theorem addStatement (hfocus : s.focus = some b) (st : Statement) :
    Fits far (s.addStatement b st) :=
  h.of_statements _ (size_addStatement _ _ _) rfl fun _ hw =>
    statementsOf_addStatement_of_ne _ _ (h.source_ne hfocus _ hw).symm

theorem addBlock (kind : String) (depth : Int) : Fits far (s.addBlock kind depth) := by
  have hsize : (s.addBlock kind depth).graph.blocks.size = s.graph.blocks.size + 1 :=
    size_addBlock _ _ _
  have hpending : ∀ k, (s.addBlock kind depth).Pending k → k = s.graph.blocks.size ∨ s.Pending k := by
    rintro k (hk | hk)
    · exact (mem_insert.mp hk).imp_right .inl
    · exact .inr (.inr hk)
  refine ⟨hsize ▸ h.exit.imp Nat.lt_succ_of_lt (Or.imp_left mem_insert_of_mem),
    fun t ht => hsize ▸ Nat.lt_succ_of_lt (h.far t ht), h.closed.addBlock kind depth, fun k hk => ?_,
    fun w hw => ?_, fun h' hh' => hsize ▸ Nat.lt_succ_of_lt (h.headers h' hh'), fun b hb => ?_⟩
  · rw [hsize]
    rcases hpending k hk with rfl | hk
    · exact ⟨Nat.lt_succ_self _, fun hb => Nat.lt_irrefl _ (h.focus _ hb).1⟩
    · exact (h.pending k hk).imp_left Nat.lt_succ_of_lt
  · have hempty : (s.addBlock kind depth).graph.statementsOf w = s.graph.statementsOf w :=
      statementsOf_addBlock _ _ _ w
    rw [hempty]
    rcases mem_insert.mp hw with rfl | hw
    · exact ⟨statementsOf_of_size_le _ (Nat.le_refl _), fun e he => (h.closed e he).1.ne,
        fun hy => Nat.lt_irrefl _ (h.pending _ (.inr (.inl hy))).1,
        fun hn => Nat.lt_irrefl _ (h.pending _ (.inr (.inr hn))).1⟩
    · exact h.waiting w hw
  · rw [hsize]
    exact (h.focus b hb).imp_left Nat.lt_succ_of_lt

/-- A branch has got one of its ways. -/
theorem answer {yes no : Finset Nat} (hyes : yes ⊆ s.needsYes)
    (hno : no ⊆ s.needsNo) : Fits far { s with needsYes := yes, needsNo := no } := by
  refine ⟨h.exit, h.far, h.closed, fun k hk => h.pending k ?_, fun w hw => ?_, h.headers, h.focus⟩
  · exact hk.imp_right (Or.imp (@hyes k) (@hno k))
  · obtain ⟨hempty, hout, hnotYes, hnotNo⟩ := h.waiting w hw
    exact ⟨hempty, hout, fun hw => hnotYes (hyes hw), fun hw => hnotNo (hno hw)⟩

theorem split (hfocus : s.focus = some b) : Fits far (s.split b) := by
  refine ⟨h.exit, h.far, h.closed, fun k hk => ⟨?_, nofun⟩, fun w hw => ?_, h.headers, nofun⟩
  · have hpending : k = b ∨ s.Pending k := by
      rcases hk with hk | hk | hk
      · exact .inr (.inl hk)
      · exact (mem_insert.mp hk).imp_right fun hk => .inr (.inl hk)
      · exact (mem_insert.mp hk).imp_right fun hk => .inr (.inr hk)
    rcases hpending with rfl | hk
    · exact (h.focus _ hfocus).1
    · exact (h.pending k hk).1
  · obtain ⟨hempty, hout, hnotYes, hnotNo⟩ := h.waiting w hw
    have hne := (h.source_ne hfocus w hw).symm
    exact ⟨hempty, hout, fun hw => (mem_insert.mp hw).elim hne hnotYes,
      fun hw => (mem_insert.mp hw).elim hne hnotNo⟩

theorem enter (hb : b ∈ s.waiting) (hne : b ≠ Graph.exit) (hin : s.Inside b)
    : Fits far (s.enter b) := by
  obtain ⟨-, hout, hnotYes, hnotNo⟩ := h.waiting b hb
  refine ⟨h.exit.imp_right (Or.imp_left fun hx => mem_erase.mpr ⟨hne.symm, hx⟩), h.far, h.closed,
    fun k hk => ?_, fun w hw => h.waiting w (mem_of_mem_erase hw), h.headers, ?_⟩
  · rcases hk with hk | hk
    · obtain ⟨hkb, hk⟩ := mem_erase.mp hk
      exact ⟨(h.pending k (.inl hk)).1, fun heq => hkb (Option.some.inj heq).symm⟩
    · refine ⟨(h.pending k (.inr hk)).1, fun heq => ?_⟩
      obtain rfl := Option.some.inj heq
      exact hk.elim hnotYes hnotNo
  · rintro c ⟨⟩
    exact ⟨(h.pending b (.inl hb)).1, hin, fun e he heq => absurd heq (hout e he)⟩

/-- Fewer headers, or one more than a block in focus is behind. -/
theorem headed {headers : List Nat} (hlt : ∀ h' ∈ headers, h' < s.graph.blocks.size)
    (hin : ∀ b, s.focus = some b → ∀ h' ∈ headers, h' ≤ b) : Fits far { s with headers } :=
  ⟨h.exit, h.far, h.closed, h.pending, h.waiting, hlt,
    fun b hb => ⟨(h.focus b hb).1, hin b hb, (h.focus b hb).2.2⟩⟩

theorem inside_of_size_le (hb : s.graph.blocks.size ≤ b) : s.Inside b :=
  fun h' hh' => (h.headers h' hh').le.trans hb

theorem notMem_waiting (hb : s.graph.blocks.size ≤ b) : b ∉ s.waiting :=
  fun hw => Nat.not_lt.mpr hb (h.pending b (.inl hw)).1

end

end Fits

/-- Control comes to a header by making it, passing on, opening the loop and entering it. -/
theorem atHeader_eq (h : Fits far s) (b : Nat) (depth : Int) : s.atHeader b depth =
    ((((s.addBlock headerKind depth).addEdge ⟨b, s.graph.blocks.size, .fallThrough⟩).leave).openLoop
      s.graph.blocks.size).enter s.graph.blocks.size := by
  have hwaiting : (insert s.graph.blocks.size s.waiting).erase s.graph.blocks.size = s.waiting :=
    erase_insert (h.notMem_waiting (Nat.le_refl _))
  unfold atHeader Draft.enter openLoop Draft.leave Draft.addEdge Draft.addBlock
  rw [hwaiting]

theorem Fits.toHeader (h : Fits far s) {b : Nat} (hfocus : s.focus = some b) (depth : Int) :
    Fits far ((((s.addBlock headerKind depth).addEdge
      ⟨b, s.graph.blocks.size, .fallThrough⟩).leave).openLoop s.graph.blocks.size) := by
  have hsize : (s.addBlock headerKind depth).graph.blocks.size = s.graph.blocks.size + 1 :=
    size_addBlock _ _ _
  have h₁ := h.addBlock headerKind depth
  have h₂ := h₁.leave.addEdge (e := ⟨b, s.graph.blocks.size, .fallThrough⟩)
    (hsize ▸ Nat.lt_succ_of_lt (h.focus b hfocus).1) (h₁.source_ne hfocus)
    (hsize ▸ Nat.lt_succ_self _) nofun
  exact h₂.headed (List.forall_mem_cons.mpr ⟨hsize ▸ Nat.lt_succ_self _, h₂.headers⟩) nofun

theorem Fits.act (h : Fits σ.far s) (hact : Action σ s s') : Fits σ.far s' := by
  cases hact with
  | block depth => exact h.addBlock _ depth
  | emit hfocus => exact h.addStatement hfocus _
  | rename hfocus _ _ name =>
    exact h.of_statements _ (size_retarget _ _ _) rfl fun _ hw =>
      statementsOf_retarget_of_ne _ _ (h.source_ne hfocus _ hw).symm
  | guard hfocus ht =>
    exact h.addEdge (h.focus _ hfocus).1 (h.source_ne hfocus) (h.open_lt ht) fun _ => rfl
  | pass hfocus ht =>
    exact h.leave.addEdge (h.focus _ hfocus).1 (h.source_ne hfocus) (h.open_lt (.inl ht)) nofun
  | back hfocus hh =>
    exact h.leave.addEdge (h.focus _ hfocus).1 (h.source_ne hfocus) (h.headers _ hh) nofun
  | jump hfocus ht =>
    exact h.leave.addEdge (h.focus _ hfocus).1 (h.source_ne hfocus) (h.far _ ht) nofun
  | @quit b t st _ hfocus _ ht =>
    have h' := h.addStatement hfocus st
    exact h'.leave.addEdge (h'.focus b hfocus).1 (h.source_ne hfocus) (h'.open_lt ht) nofun
  | drop hfocus => exact (h.addStatement hfocus _).leave
  | branch hfocus => exact (h.addStatement hfocus _).split hfocus
  | yes hc ht =>
    have hpending := h.pending _ (.inr (.inl hc))
    exact (h.addEdge hpending.1 (fun w hw heq => (h.waiting w hw).2.2.1 (heq ▸ hc))
      (h.open_lt (.inl ht)) fun hf => absurd hf hpending.2).answer (erase_subset _ _) Subset.rfl
  | no hc ht =>
    have hpending := h.pending _ (.inr (.inr hc))
    exact (h.addEdge hpending.1 (fun w hw heq => (h.waiting w hw).2.2.2 (heq ▸ hc))
      (h.open_lt (.inl ht)) fun hf => absurd hf hpending.2).answer Subset.rfl (erase_subset _ _)
  | skip hc hh =>
    have hpending := h.pending _ (.inr (.inr hc))
    exact (h.addEdge hpending.1 (fun w hw heq => (h.waiting w hw).2.2.2 (heq ▸ hc))
      (h.headers _ hh) fun hf => absurd hf hpending.2).answer Subset.rfl (erase_subset _ _)
  | enter _ hb hne hin => exact h.enter hb hne hin
  | header hfocus depth =>
    rw [atHeader_eq h]
    exact (h.toHeader hfocus depth).enter (mem_insert_self _ _) h.exit.1.ne'
      (List.forall_mem_cons.mpr ⟨Nat.le_refl _, h.inside_of_size_le (Nat.le_refl _)⟩)
  | closeLoop =>
    exact h.headed (fun h' hh' => h.headers h' (List.mem_of_mem_tail hh'))
      fun b hb h' hh' => (h.focus b hb).2.1 h' (List.mem_of_mem_tail hh')

/-! ### Invariants -/

/-- What actions keep. -/
structure Invariant (σ : Setting) where
  keeps : Draft → Prop
  act : ∀ {s s' : Draft}, Fits σ.far s → keeps s → Action σ s s' → keeps s'

structure Invariant.Holds (R : Invariant σ) (s : Draft) : Prop where
  fits : Fits σ.far s
  keeps : R.keeps s

theorem Invariant.Holds.act {R : Invariant σ} (h : R.Holds s) (hact : Action σ s s') : R.Holds s' :=
  ⟨h.fits.act hact, R.act h.fits h.keeps hact⟩

/-- Where nothing outside is open, actions lead to drafts that are reached. -/
def reached (hfar : ∀ t, ¬σ.far t) : Invariant σ := ⟨Reached, fun _ h => h.act hfar⟩

/-! ### Reached drafts -/

theorem fits_start (label name : String) (params : List String) :
    Fits (fun _ => False) (start label name params) := by
  have hedges : ∀ e ∈ (start label name params).graph.edges, e = ⟨entry, 2, .fallThrough⟩ :=
    fun e he => ((mem_edges_addEdge _ _).mp he).resolve_left (Array.not_mem_empty e)
  have hpending : ∀ k, (start label name params).Pending k → k = Graph.exit := by
    rintro k (hk | hk | hk)
    · exact mem_singleton.mp hk
    · cases hk
    · cases hk
  refine ⟨⟨(by decide : 1 < 3), .inl (mem_singleton_self _)⟩, nofun, fun e he => ?_,
    fun k hk => ?_, fun w hw => ?_, nofun, ?_⟩
  · cases hedges e he
    exact ⟨(by decide : 0 < 3), (by decide : 2 < 3)⟩
  · cases hpending k hk
    exact ⟨(by decide : 1 < 3), nofun⟩
  · cases hpending w (.inl hw)
    refine ⟨rfl, fun e he => ?_, nofun, nofun⟩
    cases hedges e he
    decide
  · rintro k ⟨⟩
    refine ⟨(by decide : 2 < 3), nofun, fun e he hsource => ?_⟩
    cases hedges e he
    cases hsource

/-- Nothing outside is open, nothing leads back to the entry, and loops go back to headers. -/
structure Bounded (s : Draft) : Prop where
  fits : Fits (fun _ => False) s
  live : ∀ k, s.Live k → entry < k
  awaits : ∀ k, s.Awaits k → entry < k
  targets : ∀ e ∈ s.graph.edges, entry < e.target
  kinds : ∀ h ∈ s.headers, s.graph.kindOf h = headerKind

namespace Bounded

variable (h : Bounded s)
include h

theorem exit : Graph.exit ∈ s.waiting := h.fits.exit.2.resolve_right id

theorem pos {k : Nat} (hk : s.graph.blocks.size ≤ k) : entry < k :=
  (Nat.zero_lt_of_lt h.fits.exit.1).trans_le hk

theorem between {k : Nat} (hk : s.Live k) : entry < k ∧ k < s.graph.blocks.size :=
  ⟨h.live k hk, hk.elim (fun hk => (h.fits.pending k hk).1) fun hk => (h.fits.focus k hk).1⟩

theorem act (hfar : ∀ t, ¬σ.far t) (hact : Action σ s s') : Bounded s' := by
  have hσ : σ.far = fun _ => False := funext fun t => eq_false (hfar t)
  obtain ⟨hgrown, hlive, hawaits, hheaders⟩ := hact.change
  refine ⟨hσ ▸ Fits.act (hσ.symm ▸ h.fits) hact, ?_, ?_, ?_, ?_⟩
  · exact fun k hk => (hlive k hk).elim (h.live k) h.pos
  · exact fun k hk => (hawaits k hk).elim (h.awaits k) h.pos
  · intro e he
    rcases hgrown.edges e he with he | ⟨-, ⟨-, ht⟩ | ht | ht⟩
    · exact h.targets e he
    · exact absurd ht (hfar _)
    · exact h.awaits _ ht
    · exact h.pos ht
  · intro k hk
    rcases hheaders k hk with hk | hk
    · exact (hgrown.kinds k (h.fits.headers k hk)).trans (h.kinds k hk)
    · exact hk

end Bounded

theorem bounded_start (label name : String) (params : List String) :
    Bounded (start label name params) := by
  refine ⟨fits_start label name params, ?_, ?_, ?_, nofun⟩ <;>
    simp [Live, Pending, Awaits, start, Graph.start, Graph.addBlock, Graph.addEdge, entry, Graph.exit]

theorem Reached.bounded (h : Reached s) : Bounded s := by
  induction h with
  | start label name params => exact bounded_start label name params
  | act hfar _ hact ih => exact ih.act hfar hact

/-! ### Confined drafts -/

/-- What may be added to certain blocks, with edges to others. -/
def confines (σ : Setting) (own into : Nat → Prop) : Scope where
  holds := own
  leads e := own e.source ∧ (e.kind.isJump = true ∧ σ.far e.target ∨ into e.target)
  marks info := σ.marks = true → info.inUnboundedLoop = true

/-- What a draft has added to a graph, and what is open in it, is confined. -/
structure Confined (σ : Setting) (own into : Nat → Prop) (g : Graph) (s : Draft) : Prop where
  grown : Grown (confines σ own into) g s.graph
  new : ∀ k, s.graph.blocks.size ≤ k → own k ∧ into k
  live : ∀ k, s.Live k → own k
  awaits : ∀ k, s.Awaits k → into k

variable {own into : Nat → Prop} {g : Graph}

theorem Confined.act (h : Confined σ own into g s) (hact : Action σ s s') :
    Confined σ own into g s' := by
  obtain ⟨hgrown, hlive, hawaits, -⟩ := hact.change
  refine ⟨h.grown.trans (hgrown.mono ⟨fun k hk => h.live k (.inr hk), fun e he => ?_, fun _ => id⟩),
    fun k hk => h.new k (hgrown.size.trans hk), fun k hk => ?_, fun k hk => ?_⟩
  · refine ⟨h.live _ he.1, he.2.imp_right fun ht => ?_⟩
    exact ht.elim (h.awaits _) fun ht => (h.new _ ht).2
  · exact (hlive k hk).elim (h.live k) fun hk => (h.new k hk).1
  · exact (hawaits k hk).elim (h.awaits k) fun hk => (h.new k hk).2

/-- Staying confined is an invariant. -/
def confined (σ : Setting) (own into : Nat → Prop) (g : Graph) : Invariant σ :=
  ⟨Confined σ own into g, fun _ h => h.act⟩

end Readiness.Graph.Draft
