import Readiness.Proofs.Lowering.Actions

/-!
# The shape of the blocks of a draft

Every block is in one of five phases: it waits, has the focus, or was left by passing
on, by returning or raising, or by branching (`Phase`).  A change of one block leaves the phases of
the others (`Shaped.of_change`).  Every block leads to one that waits, to the block in
focus or to a branch that lacks a way (`Escaping`).
-/

namespace Readiness.Graph

open List Finset

def EdgeKind.IsOutcome (k : EdgeKind) : Prop := k = .branchTrue ∨ k = .branchFalse ∨ k = .loopExit

instance (k : EdgeKind) : Decidable k.IsOutcome := inferInstanceAs (Decidable (_ ∨ _))

/-- Whether an edge is taken when a test holds. -/
def Edge.isYes (e : Edge) : Bool := e.kind == .branchTrue

/-- Whether an edge is taken when a test fails. -/
def Edge.isNo (e : Edge) : Bool := e.kind == .branchFalse || e.kind == .loopExit

variable {k : EdgeKind} {far : Nat → Prop} {σ : Draft.Setting}

/-- What a draft says about a block. -/
structure View where
  waits : Prop
  focused : Prop
  lacksYes : Prop
  lacksNo : Prop
  statements : List Statement
  outgoing : List Edge

/-- How far the making of a block has come. -/
inductive Phase (b : Nat) : View → Prop
  | waiting : Phase b ⟨True, False, False, False, [], []⟩
  | current {ss : List Statement} {es : List Edge} (hplain : ∀ st ∈ ss, ¬st.Ends)
    (hedges : ∀ e ∈ es, e.kind = .exception) : Phase b ⟨False, True, False, False, ss, es⟩
  | passed {ss : List Statement} {es : List Edge} (hplain : ∀ st ∈ ss, ¬st.Ends)
    (hedges : ∀ e ∈ es, ¬e.kind.IsOutcome) : Phase b ⟨False, False, False, False, ss, es⟩
  | quit {ss : List Statement} {last : Statement} {es : List Edge} (hplain : ∀ st ∈ ss, ¬st.Ends)
    (hedges : last.kind = .return_ ∧
          es.filter (fun e => e.kind != .exception) = [⟨b, exit, .return_⟩] ∨
        last.Raises ∧ ∀ e ∈ es, e.kind = .exception) :
    Phase b ⟨False, False, False, False, ss ++ [last], es⟩
  | branched {yes no : Prop} {ss : List Statement} {last : Statement} {es : List Edge}
    (hplain : ∀ st ∈ ss, ¬st.Ends) (hlast : last.kind = .branch)
    (hyes : yes ∧ es.countP Edge.isYes = 0 ∨ ¬yes ∧ es.countP Edge.isYes = 1)
    (hno : no ∧ es.countP Edge.isNo = 0 ∨ ¬no ∧ es.countP Edge.isNo = 1)
    (hedges : ∀ e ∈ es, e.kind.IsOutcome ∨ e.kind = .exception) :
    Phase b ⟨False, False, yes, no, ss ++ [last], es⟩

namespace Draft

def view (s : Draft) (b : Nat) : View :=
  ⟨b ∈ s.waiting, s.focus = some b, b ∈ s.needsYes, b ∈ s.needsNo, s.graph.statementsOf b,
    s.graph.outgoing b⟩

section Views

variable {s : Draft} {b c : Nat}

theorem view_addBlock (kind : String) (depth : Int) (hb : b ≠ s.graph.blocks.size) :
    (s.addBlock kind depth).view b = s.view b := by
  simp [view, addBlock, hb, outgoing]

theorem view_addStatement (st : Statement) (hb : b ≠ c) : (s.addStatement c st).view b = s.view b := by
  unfold view
  rw [addStatement, statementsOf_addStatement_of_ne _ _ hb]
  rfl

theorem view_addStatement_self (st : Statement) (hb : b < s.graph.blocks.size) :
    (s.addStatement b st).view b =
      { s.view b with statements := (s.view b).statements ++ [st] } := by
  unfold view
  rw [addStatement, statementsOf_addStatement_self _ _ hb]
  rfl

theorem view_retarget (name : String) (hb : b ≠ c) : (s.retarget c name).view b = s.view b := by
  unfold view
  rw [retarget, statementsOf_retarget_of_ne _ _ hb]
  rfl

theorem view_addEdge {t : Nat} (k : EdgeKind) (hb : b ≠ c) :
    (s.addEdge ⟨c, t, k⟩).view b = s.view b := by
  unfold view
  rw [addEdge, outgoing_addEdge_of_ne _ _ hb]
  rfl

theorem view_addEdge_self (t : Nat) (k : EdgeKind) : (s.addEdge ⟨b, t, k⟩).view b =
    { s.view b with outgoing := (s.view b).outgoing ++ [⟨b, t, k⟩] } := by
  unfold view
  rw [addEdge, outgoing_addEdge_self _ ⟨b, t, k⟩]
  rfl

theorem view_leave (hfocus : s.focus = some c) (hb : b ≠ c) : s.leave.view b = s.view b := by
  simp [view, leave, hfocus, hb.symm]

theorem view_leave_self : s.leave.view b = { s.view b with focused := False } := by
  simp [view, leave]

theorem view_split (hfocus : s.focus = some c) (hb : b ≠ c) : (s.split c).view b = s.view b := by
  simp [view, split, hfocus, hb, hb.symm]

theorem view_split_self : (s.split b).view b =
    { s.view b with focused := False, lacksYes := True, lacksNo := True } := by
  simp [view, split]

theorem view_answerYes (hb : b ≠ c) : (s.answerYes c).view b = s.view b := by
  simp [view, answerYes, hb]

theorem view_answerYes_self : (s.answerYes b).view b = { s.view b with lacksYes := False } := by
  simp [view, answerYes]

theorem view_answerNo (hb : b ≠ c) : (s.answerNo c).view b = s.view b := by
  simp [view, answerNo, hb]

theorem view_answerNo_self : (s.answerNo b).view b = { s.view b with lacksNo := False } := by
  simp [view, answerNo]

theorem view_enter (hfocus : s.focus = none) (hb : b ≠ c) : (s.enter c).view b = s.view b := by
  simp [view, enter, hfocus, hb, hb.symm]

theorem view_enter_self : (s.enter b).view b = { s.view b with waits := False, focused := True } := by
  simp [view, enter]

end Views

/-- Every block has a phase, and the entry only leads to the body. -/
structure Shaped (s : Draft) : Prop where
  phases : ∀ b < s.graph.blocks.size, Phase b (s.view b)
  entry_statements : s.graph.statementsOf entry = []
  entry_outgoing : s.graph.outgoing entry = [⟨entry, 2, .fallThrough⟩]

theorem shaped_start (label name : String) (params : List String) :
    Shaped (start label name params) := by
  refine ⟨?_, rfl, rfl⟩
  intro b hb
  have hb : b < 3 := hb
  have hviews : (start label name params).view 0 =
        ⟨False, False, False, False, [], [⟨0, 2, .fallThrough⟩]⟩ ∧
      (start label name params).view 1 = ⟨True, False, False, False, [], []⟩ ∧
      (start label name params).view 2 = ⟨False, True, False, False, [], []⟩ := by
    simp [view, start, entry, exit, outgoing, statementsOf, block, Graph.start, Graph.addBlock,
      Graph.addEdge]
  obtain rfl | rfl | rfl : b = 0 ∨ b = 1 ∨ b = 2 := by omega
  · exact hviews.1 ▸ .passed (forall_mem_nil _) (by decide)
  · exact hviews.2.1 ▸ .waiting
  · exact hviews.2.2 ▸ .current (forall_mem_nil _) (forall_mem_nil _)

variable {s s' : Draft}

/-- It is enough to look at the block that a step works on. -/
theorem Shaped.of_change (h : Shaped s) {c : Nat} (hc : entry < c)
    (hsize : ∀ b < s'.graph.blocks.size, b ≠ c → b < s.graph.blocks.size)
    (hsame : ∀ b ≠ c, s'.view b = s.view b) (hphase : Phase c (s'.view c)) : Shaped s' := by
  have hentry := hsame entry (Nat.ne_of_lt hc)
  refine ⟨?_, (congrArg View.statements hentry).trans h.entry_statements,
    (congrArg View.outgoing hentry).trans h.entry_outgoing⟩
  intro b hb
  by_cases hbc : b = c
  · exact hbc ▸ hphase
  · exact hsame b hbc ▸ h.phases b (hsize b hb hbc)

theorem Fits.view_of_waiting (h : Fits far s) {b : Nat} (hb : b ∈ s.waiting) :
    s.view b = ⟨True, False, False, False, [], []⟩ := by
  obtain ⟨hstatements, hedges, hyes, hno⟩ := h.waiting b hb
  have hout : s.graph.outgoing b = [] := eq_nil_iff_forall_not_mem.mpr fun e he =>
    hedges e (mem_outgoing.mp he).1 (mem_outgoing.mp he).2
  simp [view, hb, (h.pending b (.inl hb)).2, hyes, hno, hstatements, hout]

section Steps

variable {s : Draft} (h : Shaped s) {b : Nat} (hb : entry < b ∧ b < s.graph.blocks.size)
include h

theorem Shaped.addBlock (hfits : Fits far s) (kind : String) (depth : Int) :
    Shaped (s.addBlock kind depth) := by
  refine h.of_change (Nat.zero_lt_of_lt hfits.exit.1) ?_ (fun b hb => view_addBlock kind depth hb) ?_
  · intro b hb hne
    have hb : b < s.graph.blocks.size + 1 := size_addBlock _ _ _ ▸ hb
    omega
  · exact (hfits.addBlock kind depth).view_of_waiting (mem_insert_self _ _) ▸ .waiting

include hb

section

variable (hfocus : s.focus = some b)
include hfocus

theorem Shaped.view_of_focus : ∃ ss es,
    s.view b = ⟨False, True, False, False, ss, es⟩ ∧ (∀ st ∈ ss, ¬st.Ends) ∧
      ∀ e ∈ es, e.kind = .exception := by
  have hphase := h.phases b hb.2
  have hfocused : (s.view b).focused := hfocus
  generalize s.view b = v at hphase hfocused
  cases hphase with
  | current hplain hedges => exact ⟨_, _, rfl, hplain, hedges⟩
  | _ => cases hfocused

variable {st : Statement}

theorem Shaped.emit (hends : ¬st.Ends) :
    Shaped (s.addStatement b st) := by
  obtain ⟨ss, es, hview, hplain, hout⟩ := h.view_of_focus hb hfocus
  refine h.of_change hb.1 (fun c hc _ => size_addStatement _ _ _ ▸ hc)
    (fun c hc => view_addStatement st hc) ?_
  rw [view_addStatement_self st hb.2, hview]
  exact .current (forall_mem_append.mpr ⟨hplain, forall_mem_singleton.mpr hends⟩) hout

theorem Shaped.rename (name : String) : Shaped (s.retarget b name) := by
  obtain ⟨ss, es, hview, hplain, hout⟩ := h.view_of_focus hb hfocus
  refine h.of_change hb.1 (fun c hc _ => size_retarget _ _ _ ▸ hc)
    (fun c hc => view_retarget name hc) ?_
  have hself : (s.retarget b name).view b =
      { s.view b with statements := (s.graph.retarget b name).statementsOf b } := rfl
  rw [hself, hview]
  refine .current (fun st hst => ?_) hout
  have hmem := mem_map_of_mem (f := Statement.Ends) hst
  rw [map_statementsOf_retarget _ _ _ _ (fun _ _ => rfl),
    show s.graph.statementsOf b = ss from congrArg View.statements hview] at hmem
  obtain ⟨st', hst', heq⟩ := mem_map.mp hmem
  exact heq ▸ hplain st' hst'

variable {t : Nat}

theorem Shaped.guard : Shaped (s.addEdge ⟨b, t, .exception⟩) := by
  obtain ⟨ss, es, hview, hplain, hout⟩ := h.view_of_focus hb hfocus
  refine h.of_change hb.1 (fun c hc _ => hc) (fun c hc => view_addEdge _ hc) ?_
  rw [view_addEdge_self, hview]
  exact .current hplain (forall_mem_append.mpr ⟨hout, forall_mem_singleton.mpr rfl⟩)

/-- Control passes on or goes back. -/
theorem Shaped.pass (hk : ¬k.IsOutcome) :
    Shaped (s.addEdge ⟨b, t, k⟩).leave := by
  obtain ⟨ss, es, hview, hplain, hout⟩ := h.view_of_focus hb hfocus
  refine h.of_change hb.1 (fun c hc _ => hc)
    (fun c hc => (view_leave (s := s.addEdge _) hfocus hc).trans (view_addEdge _ hc)) ?_
  rw [view_leave_self, view_addEdge_self, hview]
  refine .passed hplain (forall_mem_append.mpr ⟨fun e he => ?_, forall_mem_singleton.mpr hk⟩)
  rw [hout e he]
  decide

theorem Shaped.quit {k : EdgeKind}
    (hquit : st.kind = .return_ ∧ t = exit ∧ k = .return_ ∨ st.Raises ∧ k = .exception) :
    Shaped ((s.addStatement b st).addEdge ⟨b, t, k⟩).leave := by
  obtain ⟨ss, es, hview, hplain, hout⟩ := h.view_of_focus hb hfocus
  refine h.of_change hb.1 (fun c hc _ => size_addStatement _ _ _ ▸ hc) (fun c hc =>
    (view_leave (s := (s.addStatement b st).addEdge _) hfocus hc).trans
      ((view_addEdge _ hc).trans (view_addStatement st hc))) ?_
  rw [view_leave_self, view_addEdge_self, view_addStatement_self st hb.2, hview]
  refine .quit hplain ?_
  rcases hquit with ⟨hkind, rfl, rfl⟩ | ⟨hraises, rfl⟩
  · refine .inl ⟨hkind, ?_⟩
    rw [filter_append, filter_eq_nil_iff.mpr fun e he => by simp [hout e he]]
    rfl
  · exact .inr ⟨hraises, forall_mem_append.mpr ⟨hout, forall_mem_singleton.mpr rfl⟩⟩

theorem Shaped.branch (hkind : st.kind = .branch) :
    Shaped ((s.addStatement b st).split b) := by
  obtain ⟨ss, es, hview, hplain, hout⟩ := h.view_of_focus hb hfocus
  refine h.of_change hb.1 (fun c hc _ => size_addStatement _ _ _ ▸ hc)
    (fun c hc => (view_split (s := s.addStatement b st) hfocus hc).trans (view_addStatement st hc))
    ?_
  have hnone : ∀ p : Edge → Bool, (∀ e : Edge, e.kind = .exception → p e = false) →
      es.countP p = 0 := by
    intro p hp
    rw [countP_eq_zero]
    intro e he
    rw [hp e (hout e he)]
    exact Bool.false_ne_true
  rw [view_split_self, view_addStatement_self st hb.2, hview]
  exact .branched hplain hkind
    (.inl ⟨trivial, hnone _ fun e he => by simp [Edge.isYes, he]⟩)
    (.inl ⟨trivial, hnone _ fun e he => by simp [Edge.isNo, he]⟩) fun e he => .inr (hout e he)

end

theorem Shaped.answerYes (hlacks : b ∈ s.needsYes) :
    Shaped ((s.addEdge ⟨b, t, .branchTrue⟩).answerYes b) := by
  have hphase := h.phases b hb.2
  have hlacks : (s.view b).lacksYes := hlacks
  refine h.of_change hb.1 (fun c hc _ => hc)
    (fun c hc => (view_answerYes hc).trans (view_addEdge _ hc)) ?_
  rw [view_answerYes_self, view_addEdge_self]
  generalize s.view b = v at hphase hlacks
  cases hphase with
  | branched hplain hlast hyes hno hedges =>
    have hcount := (hyes.resolve_right fun hyes => hyes.1 hlacks).2
    refine .branched hplain hlast (.inr ⟨id, ?_⟩) ?_
      (forall_mem_append.mpr ⟨hedges, forall_mem_singleton.mpr (.inl (.inl rfl))⟩)
    · rw [countP_append, hcount]
      rfl
    · rw [countP_append]
      exact hno
  | _ => cases hlacks

theorem Shaped.answerNo (hlacks : b ∈ s.needsNo) (hk : k = .branchFalse ∨ k = .loopExit) :
    Shaped ((s.addEdge ⟨b, t, k⟩).answerNo b) := by
  have hphase := h.phases b hb.2
  have hlacks : (s.view b).lacksNo := hlacks
  refine h.of_change hb.1 (fun c hc _ => hc)
    (fun c hc => (view_answerNo hc).trans (view_addEdge _ hc)) ?_
  rw [view_answerNo_self, view_addEdge_self]
  generalize s.view b = v at hphase hlacks
  cases hphase with
  | branched hplain hlast hyes hno hedges =>
    have hcount := (hno.resolve_right fun hno => hno.1 hlacks).2
    refine .branched hplain hlast ?_ (.inr ⟨id, ?_⟩)
      (forall_mem_append.mpr ⟨hedges, forall_mem_singleton.mpr (.inl (.inr hk))⟩)
    · rw [countP_append]
      rcases hk with rfl | rfl <;> exact hyes
    · rw [countP_append, hcount]
      rcases hk with rfl | rfl <;> rfl
  | _ => cases hlacks

theorem Shaped.enter (hfits : Fits far s) (hfocus : s.focus = none) (hwaits : b ∈ s.waiting) :
    Shaped (s.enter b) := by
  refine h.of_change hb.1 (fun c hc _ => hc) (fun c hc => view_enter hfocus hc) ?_
  rw [view_enter_self, hfits.view_of_waiting hwaits]
  exact .current (forall_mem_nil _) (forall_mem_nil _)

end Steps

theorem Shaped.act (h : Shaped s) (hbounded : Bounded s) (hfar : ∀ t, ¬σ.far t)
    (hact : Action σ s s') : Shaped s' := by
  have hin : ∀ {b}, s.focus = some b → entry < b ∧ b < s.graph.blocks.size := fun hfocus =>
    hbounded.between (.inr hfocus)
  cases hact with
  | block depth => exact h.addBlock hbounded.fits _ depth
  | emit hfocus hends => exact h.emit (hin hfocus) hfocus hends
  | rename hfocus _ _ name => exact h.rename (hin hfocus) hfocus name
  | guard hfocus => exact h.guard (hin hfocus) hfocus
  | pass hfocus _ hk | back hfocus _ _ hk =>
    exact h.pass (hin hfocus) hfocus (by rcases hk with rfl | rfl <;> decide)
  | jump _ ht | drop _ _ ht => exact absurd ht (hfar _)
  | quit hfocus _ _ hquit => exact h.quit (hin hfocus) hfocus hquit
  | branch hfocus _ htests => exact h.branch (hin hfocus) hfocus htests.1
  | yes hc => exact h.answerYes (hbounded.between (.inl (.inr (.inl hc)))) hc
  | no hc _ _ hk => exact h.answerNo (hbounded.between (.inl (.inr (.inr hc)))) hc hk
  | skip hc => exact h.answerNo (hbounded.between (.inl (.inr (.inr hc)))) hc (.inl rfl)
  | enter hfocus hb => exact h.enter (hbounded.between (.inl (.inl hb))) hbounded.fits hfocus hb
  | header hfocus depth =>
    have hsize : (s.addBlock headerKind depth).graph.blocks.size = s.graph.blocks.size + 1 :=
      size_addBlock _ _ _
    have h' := (h.addBlock hbounded.fits headerKind depth).pass (t := s.graph.blocks.size)
      ((hin hfocus).imp_right fun hlt => hsize ▸ Nat.lt_succ_of_lt hlt) hfocus
      (by decide : ¬EdgeKind.fallThrough.IsOutcome)
    rw [atHeader_eq hbounded.fits]
    refine Shaped.enter ?_ ⟨hbounded.pos (Nat.le_refl _), hsize ▸ Nat.lt_succ_self _⟩
      (hbounded.fits.toHeader hfocus depth) rfl (mem_insert_self _ _)
    exact ⟨h'.phases, h'.entry_statements, h'.entry_outgoing⟩
  | closeLoop => exact ⟨h.phases, h.entry_statements, h.entry_outgoing⟩

theorem Reached.shaped (h : Reached s) : Shaped s := by
  induction h with
  | start label name params => exact shaped_start label name params
  | act hfar hs hact ih => exact ih.act hs.bounded hfar hact

/-- A block that can still get a way on. -/
def IsLoose (s : Draft) (y : Nat) : Prop := s.focus = some y ∨ y ∈ s.waiting ∨ y ∈ s.needsNo

/-- Every block leads to one that can still get a way on. -/
def Escaping (s : Draft) : Prop :=
  ∀ b < s.graph.blocks.size, ∃ y, s.IsLoose y ∧ Reaches s.graph b y

theorem escaping_start (label name : String) (params : List String) :
    Escaping (start label name params) := by
  intro b hb
  have hb : b < 3 := hb
  obtain rfl | rfl | rfl : b = 0 ∨ b = 1 ∨ b = 2 := by omega
  · exact ⟨2, .inl rfl, (Reaches.refl 0).step (List.mem_singleton.mpr rfl)⟩
  · exact ⟨1, .inr (.inl (Finset.mem_singleton_self 1)), .refl 1⟩
  · exact ⟨2, .inl rfl, .refl 2⟩

/-- It is enough that what was loose leads to something loose. -/
theorem Escaping.of_loose (h : Escaping s) (hwithin : Within s.graph s'.graph)
    (hsize : s'.graph.blocks.size = s.graph.blocks.size)
    (hloose : ∀ y, s.IsLoose y → ∃ y', s'.IsLoose y' ∧ Reaches s'.graph y y') : Escaping s' := by
  intro b hb
  obtain ⟨y, hy, hby⟩ := h b (hsize ▸ hb)
  obtain ⟨y', hy', hyy'⟩ := hloose y hy
  exact ⟨y', hy', (hby.mono hwithin).trans hyy'⟩

section Leaving

variable {s s' : Draft} {b t : Nat}

/-- The block in focus has got a way to a block. -/
theorem loose_of_leave (hfocus : s.focus = some b) (hwaiting : s.waiting ⊆ s'.waiting)
    (hno : s.needsNo ⊆ s'.needsNo) (hb : ∃ y, s'.IsLoose y ∧ Reaches s'.graph b y) (y : Nat)
    (hy : s.IsLoose y) : ∃ y', s'.IsLoose y' ∧ Reaches s'.graph y y' := by
  rcases hy with hy | hy | hy
  · obtain rfl : b = y := Option.some.inj (hfocus.symm.trans hy)
    exact hb
  · exact ⟨y, .inr (.inl (hwaiting hy)), .refl y⟩
  · exact ⟨y, .inr (.inr (hno hy)), .refl y⟩

/-- A branch has got the way of a test that fails. -/
theorem loose_of_answer (hb : ∃ y ∈ s.waiting, Reaches ((s.addEdge ⟨b, t, k⟩).answerNo b).graph b y)
    (y : Nat) (hy : s.IsLoose y) : ∃ y', ((s.addEdge ⟨b, t, k⟩).answerNo b).IsLoose y' ∧
      Reaches ((s.addEdge ⟨b, t, k⟩).answerNo b).graph y y' := by
  rcases hy with hy | hy | hy
  · exact ⟨y, .inl hy, .refl y⟩
  · exact ⟨y, .inr (.inl hy), .refl y⟩
  · by_cases hyb : y = b
    · obtain ⟨y', hy', hreach⟩ := hb
      exact ⟨y', .inr (.inl hy'), hyb ▸ hreach⟩
    · exact ⟨y, .inr (.inr (mem_erase.mpr ⟨hyb, hy⟩)), .refl y⟩

end Leaving

section

variable {s s' : Draft} (h : Escaping s)
include h

theorem Escaping.addBlock (kind : String) (depth : Int) : Escaping (s.addBlock kind depth) := by
  intro b hb
  have hb : b < s.graph.blocks.size + 1 := size_addBlock _ _ _ ▸ hb
  by_cases hlt : b < s.graph.blocks.size
  · obtain ⟨y, hy, hby⟩ := h b hlt
    exact ⟨y, hy.imp_right (Or.imp_left mem_insert_of_mem), hby.mono (within_addBlock _ _ _)⟩
  · obtain rfl : b = s.graph.blocks.size := by omega
    exact ⟨_, .inr (.inl (mem_insert_self _ _)), .refl _⟩

theorem Escaping.pass {b t : Nat} (hfocus : s.focus = some b) (ht : t ∈ s.waiting) :
    Escaping (s.addEdge ⟨b, t, k⟩).leave :=
  h.of_loose (within_addEdge _ _) rfl (loose_of_leave hfocus subset_rfl subset_rfl
    ⟨_, .inr (.inl ht), reaches_addEdge _ _⟩)

theorem Escaping.enter (hfocus : s.focus = none) (b : Nat) : Escaping (s.enter b) := by
  refine h.of_loose (.refl _) rfl fun y hy => ⟨y, ?_, .refl y⟩
  rcases hy with hy | hy | hy
  · cases hfocus.symm.trans hy
  · by_cases hyb : y = b
    · exact .inl (congrArg some hyb.symm)
    · exact .inr (.inl (mem_erase.mpr ⟨hyb, hy⟩))
  · exact .inr (.inr hy)

theorem Escaping.act (hfits : Fits far s) (hfar : ∀ t, ¬σ.far t) (hact : Action σ s s') :
    Escaping s' := by
  have hwithin := hact.change.grown.within
  cases hact with
  | block depth => exact h.addBlock _ depth
  | emit => exact h.of_loose hwithin (size_addStatement _ _ _) fun y hy => ⟨y, hy, .refl y⟩
  | rename => exact h.of_loose hwithin (size_retarget _ _ _) fun y hy => ⟨y, hy, .refl y⟩
  | pass hfocus ht => exact h.pass hfocus ht
  | back hfocus _ hout =>
    obtain ⟨y, hy, hreach⟩ := hout
    exact h.of_loose hwithin rfl (loose_of_leave hfocus subset_rfl subset_rfl
      ⟨y, .inr hy, (reaches_addEdge _ _).trans (hreach.mono hwithin)⟩)
  | jump _ ht | drop _ _ ht => exact absurd ht (hfar _)
  | quit hfocus _ ht =>
    exact h.of_loose hwithin (size_addStatement _ _ _) (loose_of_leave hfocus subset_rfl
      subset_rfl ⟨_, .inr (.inl (ht.resolve_right (hfar _))), reaches_addEdge _ _⟩)
  | branch hfocus =>
    exact h.of_loose hwithin (size_addStatement _ _ _) (loose_of_leave hfocus subset_rfl
      (subset_insert _ _) ⟨_, .inr (.inr (mem_needsNo_split _ _)), .refl _⟩)
  | no _ ht =>
    exact h.of_loose hwithin rfl (loose_of_answer ⟨_, ht, reaches_addEdge _ _⟩)
  | skip _ _ _ hout =>
    obtain ⟨y, hy, hreach⟩ := hout
    exact h.of_loose hwithin rfl
      (loose_of_answer ⟨y, hy, (reaches_addEdge _ _).trans (hreach.mono hwithin)⟩)
  | enter hfocus => exact h.enter hfocus _
  | header hfocus depth =>
    rw [atHeader_eq hfits]
    have h' := (h.addBlock headerKind depth).pass (k := .fallThrough) hfocus (mem_insert_self _ _)
    refine Escaping.enter ?_ rfl _
    exact h'
  | guard | yes | closeLoop =>
    exact h.of_loose hwithin rfl fun y hy => ⟨y, hy, .refl y⟩

end

theorem Reached.escaping (h : Reached s) : Escaping s := by
  induction h with
  | start label name params => exact escaping_start label name params
  | act hfar hs hact ih => exact ih.act hs.bounded.fits hfar hact

end Draft
end Readiness.Graph
