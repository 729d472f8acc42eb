import Mathlib.Data.Finset.Basic
import Readiness.Lowering.Expression
import Readiness.Proofs.Graph.Scope

/-!
# Drafts of flow graphs

`Action` says once what lowering may do to a draft, and `Change` what follows for its graph and for
what is open in it.  `Reached` collects the drafts that actions lead to when nothing outside is
open.
-/

namespace Readiness.Lowering

/-- Some run of a step gives a value. -/
def Gives {α : Type} (m : Lower α) (a : α) : Prop := ∃ c b b', m c b = .ok (a, b')

/-- The operands begin with what the arguments of a call are lowered to. -/
def AreGiven (args : List Source.Expr) (operands : List Graph.Operand) : Prop :=
  ∃ room place given rest, operands = given ++ rest ∧
    Gives (args.mapM (item (lowerExpr room) place)) given

end Readiness.Lowering

namespace Readiness.Graph

open Finset

def Statement.Raises (s : Statement) : Prop := s.kind = .other ∧ s.op = "raise"

def Statement.Ends (s : Statement) : Prop := s.kind = .branch ∨ s.kind = .return_ ∨ s.Raises

theorem Statement.Ends.kind_ne {s : Statement} (h : s.Ends) :
    s.kind ≠ .call ∧ s.kind ≠ .allocation ∧ s.kind ≠ .assignment := by
  rcases h with hkind | hkind | ⟨hkind, -⟩ <;> simp [hkind]

instance (s : Statement) : Decidable s.Raises := inferInstanceAs (Decidable (_ ∧ _))

instance (s : Statement) : Decidable s.Ends := inferInstanceAs (Decidable (_ ∨ _))

def Statement.Tests (s : Statement) : Prop := s.kind = .branch ∧ s.operands ≠ []

/-- A call is described; an operator has no receiver, and a choice has a condition and two sides.
Copies and branches have an operand. -/
structure IsDescribed (kind : StatementKind) (op : String) (operands : List Operand)
    (call : Option CallInfo) : Prop where
  call : kind = .call → ∃ info, call = some info ∧ (info.dispatch = .operator →
    info.hasReceiver = false ∧ (op = "select" → operands.length = 3))
  copy : kind = .assignment → op = "copy" → operands ≠ []
  test : kind = .branch → operands ≠ []

theorem IsDescribed.operator {kind : StatementKind} {op : String} {operands : List Operand}
    {info : CallInfo} (h : IsDescribed kind op operands (some info)) (hkind : kind = .call)
    (hdispatch : info.dispatch = .operator) :
    info.hasReceiver = false ∧ (op = "select" → operands.length = 3) := by
  obtain ⟨_, ⟨⟩, h⟩ := h.call hkind
  exact h hdispatch

def Described (g : Graph) : Prop :=
  ∀ b, ∀ st ∈ g.statementsOf b, IsDescribed st.kind st.op st.operands st.call

/-- A size that is computed: only one that is asked for by hand can be negative. -/
def IsSize (operands : List Operand) (allocator : String) (manual : Bool) (size : Option Int) :
    Prop :=
  (∀ n, size = some n → 0 ≤ n) ∨ manual = true ∧
    ∃ args, Lowering.AreGiven args operands ∧ size = Lowering.manualSize? allocator args

def Statement.Sized (s : Statement) : Prop :=
  s.kind = .allocation →
    ∃ info, s.allocation = some info ∧ IsSize s.operands info.allocator info.manual info.size

/-- The kind of the blocks that loops go back to. -/
def headerKind : String := "loop-header"

/-- What is still open in a graph in the making. -/
@[ext] structure LooseEnds where
  /-- The blocks that control has not come to. -/
  waiting : Finset Nat
  /-- The branches that lack the way of a test that holds. -/
  needsYes : Finset Nat
  /-- The branches that lack the way of a test that fails. -/
  needsNo : Finset Nat
  /-- The headers of open loops, innermost first. -/
  headers : List Nat

structure Draft extends LooseEnds where
  graph : Graph
  /-- The block that statements are added to. -/
  focus : Option Nat
  /-- The number of the next statement. -/
  index : Nat

namespace Draft

def start (label name : String) (params : List String) : Draft :=
  { graph := ((Graph.start label name params).addBlock "body" 0).addEdge ⟨entry, 2, .fallThrough⟩
    focus := some 2, index := 0, waiting := {exit}, needsYes := ∅, needsNo := ∅, headers := [] }

section Changes

variable (s : Draft)

def addBlock (kind : String) (depth : Int) : Draft :=
  { s with
    graph := s.graph.addBlock kind depth, waiting := insert s.graph.blocks.size s.waiting }

def addStatement (b : Nat) (st : Statement) : Draft :=
  { s with graph := s.graph.addStatement b st, index := s.index + 1 }

/-- Gives the last value of a block another name. -/
def retarget (b : Nat) (name : String) : Draft := { s with graph := s.graph.retarget b name }

def addEdge (e : Edge) : Draft := { s with graph := s.graph.addEdge e }

/-- No block has the focus any more. -/
def leave : Draft := { s with focus := none }

def split (b : Nat) : Draft :=
  { s with focus := none, needsYes := insert b s.needsYes, needsNo := insert b s.needsNo }

/-- A branch has got the way of a test that holds. -/
def answerYes (b : Nat) : Draft := { s with needsYes := s.needsYes.erase b }

/-- A branch has got the way of a test that fails. -/
def answerNo (b : Nat) : Draft := { s with needsNo := s.needsNo.erase b }

/-- Control comes to a block. -/
def enter (b : Nat) : Draft := { s with focus := some b, waiting := s.waiting.erase b }

/-- A block is the header of a new innermost loop. -/
def openLoop (h : Nat) : Draft := { s with headers := h :: s.headers }

def closeLoop : Draft := { s with headers := s.headers.tail }

/-- A block was made inside all open loops. -/
def Inside (b : Nat) : Prop := ∀ h ∈ s.headers, h ≤ b

/-- A block leads to one that waits or to a branch that lacks a way. -/
def WayOut (h : Nat) : Prop := ∃ y, (y ∈ s.waiting ∨ y ∈ s.needsNo) ∧ Reaches s.graph h y

theorem mem_needsNo_split (b : Nat) : b ∈ (s.split b).needsNo := mem_insert_self _ _

/-- A block that waits or lacks a way. -/
def Pending (k : Nat) : Prop := k ∈ s.waiting ∨ k ∈ s.needsYes ∨ k ∈ s.needsNo

/-- A block that can get a way on. -/
def Live (k : Nat) : Prop := s.Pending k ∨ s.focus = some k

/-- A block that control may be led to. -/
def Awaits (k : Nat) : Prop := k ∈ s.waiting ∨ k ∈ s.headers

/-- Control comes from a block to the header of a new loop. -/
def atHeader (b : Nat) (depth : Int) : Draft :=
  { s with
    graph := (s.graph.addBlock headerKind depth).addEdge ⟨b, s.graph.blocks.size, .fallThrough⟩
    focus := some s.graph.blocks.size, headers := s.graph.blocks.size :: s.headers }

end Changes

/-- What is open around a draft, and what is demanded of actions. -/
structure Setting where
  /-- The blocks outside that control may jump to. -/
  far : Nat → Prop
  /-- Whether allocations have to be marked. -/
  marks : Bool
  /-- What has to hold of a graph when a loop in it is closed, and of the header and the exit of the
  loop. -/
  closes : Graph → Nat → Nat → Prop

inductive Action (σ : Setting) (s : Draft) : Draft → Prop
  | block {kind : String} (depth : Int) (hkind : kind ≠ headerKind) :
    Action σ s (s.addBlock kind depth)
  | emit {b : Nat} {st : Statement} (hfocus : s.focus = some b) (hends : ¬st.Ends)
    (hindex : st.index = s.index) (hcall : IsDescribed st.kind st.op st.operands st.call)
    (hsize : st.Sized) (hmarks : st.kind = .allocation → ∃ info, st.allocation = some info ∧
      (σ.marks = true → info.inUnboundedLoop = true)) : Action σ s (s.addStatement b st)
  | rename {b : Nat} {init : List Statement} {last : Statement} (hfocus : s.focus = some b)
    (hlast : s.graph.statementsOf b = init ++ [last]) (hnamed : last.target.isSome)
    (name : String) : Action σ s (s.retarget b name)
  /-- An exception may go to a block that waits or is outside. -/
  | guard {b t : Nat} (hfocus : s.focus = some b) (ht : t ∈ s.waiting ∨ σ.far t) :
    Action σ s (s.addEdge ⟨b, t, .exception⟩)
  /-- Control passes to a block that waits. -/
  | pass {b t : Nat} {k : EdgeKind} (hfocus : s.focus = some b) (ht : t ∈ s.waiting)
    (hk : k = .fallThrough ∨ k = .leave) : Action σ s (s.addEdge ⟨b, t, k⟩).leave
  /-- Control goes back to an open loop that can be left. -/
  | back {b h : Nat} {k : EdgeKind} (hfocus : s.focus = some b) (hh : h ∈ s.headers)
    (hout : s.WayOut h) (hk : k = .backEdge ∨ k = .proceed) : Action σ s (s.addEdge ⟨b, h, k⟩).leave
  /-- Control jumps out of the draft. -/
  | jump {b t : Nat} {k : EdgeKind} (hfocus : s.focus = some b) (ht : σ.far t)
    (hk : k.isJump = true) : Action σ s (s.addEdge ⟨b, t, k⟩).leave
  /-- Control leaves by returning or by raising. -/
  | quit {b t : Nat} {st : Statement} {k : EdgeKind} (hfocus : s.focus = some b)
    (hindex : st.index = s.index) (ht : t ∈ s.waiting ∨ σ.far t)
    (hquit : st.kind = .return_ ∧ t = exit ∧ k = .return_ ∨ st.Raises ∧ k = .exception) :
    Action σ s ((s.addStatement b st).addEdge ⟨b, t, k⟩).leave
  /-- An exception goes nowhere. -/
  | drop {b : Nat} {st : Statement} (hfocus : s.focus = some b) (hraises : st.Raises)
    (hfar : σ.far exit) : Action σ s (s.addStatement b st).leave
  | branch {b : Nat} {st : Statement} (hfocus : s.focus = some b) (hindex : st.index = s.index)
    (htests : st.Tests) : Action σ s ((s.addStatement b st).split b)
  | yes {c t : Nat} (hc : c ∈ s.needsYes) (ht : t ∈ s.waiting) (hin : s.Inside c) :
    Action σ s ((s.addEdge ⟨c, t, .branchTrue⟩).answerYes c)
  | no {c t : Nat} {k : EdgeKind} (hc : c ∈ s.needsNo) (ht : t ∈ s.waiting) (hin : s.Inside c)
    (hk : k = .branchFalse ∨ k = .loopExit) : Action σ s ((s.addEdge ⟨c, t, k⟩).answerNo c)
  /-- A test that fails goes on with the next round of an open loop. -/
  | skip {c h : Nat} (hc : c ∈ s.needsNo) (hh : h ∈ s.headers) (hin : s.Inside c)
    (hout : ∃ y ∈ s.waiting, Reaches s.graph h y) :
    Action σ s ((s.addEdge ⟨c, h, .branchFalse⟩).answerNo c)
  | enter {b : Nat} (hfocus : s.focus = none) (hb : b ∈ s.waiting) (hne : b ≠ exit)
    (hin : s.Inside b) : Action σ s (s.enter b)
  | header {b : Nat} (hfocus : s.focus = some b) (depth : Int) : Action σ s (s.atHeader b depth)
  | closeLoop {h x : Nat} {rest : List Nat} (hheaders : s.headers = h :: rest)
    (hfocus : s.focus = some x) (hpending : ∀ k, s.Pending k → k < h)
    (hrest : ∀ h' ∈ rest, h' < h) (hcloses : σ.closes s.graph h x) : Action σ s s.closeLoop

inductive Reached : Draft → Prop
  | start (label name : String) (params : List String) : Reached (start label name params)
  | act {σ : Setting} {s s' : Draft} (hfar : ∀ t, ¬σ.far t) :
    Reached s → Action σ s s' → Reached s'

section Change

variable {σ : Setting} {s s' : Draft}

/-- What an action may add to the graph of a draft. -/
def scope (σ : Setting) (s : Draft) : Scope where
  holds k := s.focus = some k
  leads e := s.Live e.source ∧
    (e.kind.isJump = true ∧ σ.far e.target ∨ s.Awaits e.target ∨ s.graph.blocks.size ≤ e.target)
  marks info := σ.marks = true → info.inUnboundedLoop = true

/-- What is open after an action was open before or is new. -/
structure Change (σ : Setting) (s s' : Draft) : Prop where
  grown : Grown (s.scope σ) s.graph s'.graph
  live : ∀ k, s'.Live k → s.Live k ∨ s.graph.blocks.size ≤ k
  awaits : ∀ k, s'.Awaits k → s.Awaits k ∨ s.graph.blocks.size ≤ k
  headers : ∀ h ∈ s'.headers, h ∈ s.headers ∨ s'.graph.kindOf h = headerKind

/-- Nothing more is open than before. -/
theorem Change.of_le (hgrown : Grown (s.scope σ) s.graph s'.graph)
    (hlive : ∀ k, s'.Live k → s.Live k) (hwaiting : s'.waiting ⊆ s.waiting)
    (hheaders : s'.headers ⊆ s.headers) : Change σ s s' :=
  ⟨hgrown, fun k hk => .inl (hlive k hk), fun k hk => .inl (hk.imp (@hwaiting k) (@hheaders k)),
    fun _ hh => .inl (hheaders hh)⟩

theorem Action.change (h : Action σ s s') : Change σ s s' := by
  have hrefl := Grown.refl (s.scope σ) s.graph
  have hopen : ∀ {t : Nat} {k : EdgeKind}, k.isJump = true → t ∈ s.waiting ∨ σ.far t →
      k.isJump = true ∧ σ.far t ∨ s.Awaits t ∨ s.graph.blocks.size ≤ t := fun hk ht =>
    ht.elim (fun ht => .inr (.inl (.inl ht))) fun ht => .inl ⟨hk, ht⟩
  have hleave : ∀ k, s.leave.Live k → s.Live k := fun k hk => .inl (hk.resolve_right nofun)
  have hanswer : ∀ {k : Nat} {yes no : Finset Nat}, yes ⊆ s.needsYes → no ⊆ s.needsNo →
      ({ s with needsYes := yes, needsNo := no } : Draft).Live k → s.Live k := fun hyes hno hk =>
    hk.imp_left (Or.imp_right (Or.imp (@hyes _) (@hno _)))
  cases h with
  | block depth =>
    refine ⟨hrefl.addBlock _ depth, fun k hk => ?_, fun k hk => ?_, fun _ => .inl⟩
    · rcases hk with (hk | hk) | hk
      · exact (mem_insert.mp hk).symm.imp (fun hk => .inl (.inl hk)) fun heq => heq.ge
      · exact .inl (.inl (.inr hk))
      · exact .inl (.inr hk)
    · rcases hk with hk | hk
      · exact (mem_insert.mp hk).symm.imp .inl fun heq => heq.ge
      · exact .inl (.inr hk)
  | emit hfocus _ _ _ _ hmarks =>
    exact .of_le (hrefl.addStatement hfocus hmarks) (fun _ => id) subset_rfl (List.Subset.refl _)
  | rename hfocus hlast hnamed name =>
    exact .of_le (hrefl.retarget hfocus hlast hnamed name) (fun _ => id) subset_rfl
      (List.Subset.refl _)
  | guard hfocus ht =>
    exact .of_le (hrefl.addEdge ⟨.inr hfocus, hopen rfl ht⟩) (fun _ => id) subset_rfl
      (List.Subset.refl _)
  | pass hfocus ht =>
    exact .of_le (hrefl.addEdge ⟨.inr hfocus, .inr (.inl (.inl ht))⟩) hleave subset_rfl
      (List.Subset.refl _)
  | back hfocus hh =>
    exact .of_le (hrefl.addEdge ⟨.inr hfocus, .inr (.inl (.inr hh))⟩) hleave subset_rfl
      (List.Subset.refl _)
  | jump hfocus ht hk =>
    exact .of_le (hrefl.addEdge ⟨.inr hfocus, .inl ⟨hk, ht⟩⟩) hleave subset_rfl
      (List.Subset.refl _)
  | quit hfocus _ ht hquit =>
    refine .of_le ((hrefl.addStatement hfocus fun hkind => ?_).addEdge
      ⟨.inr hfocus, hopen ?_ ht⟩) hleave subset_rfl (List.Subset.refl _)
    · rcases hquit with ⟨h, -⟩ | ⟨⟨h, -⟩, -⟩ <;> cases h.symm.trans hkind
    · rcases hquit with ⟨-, -, rfl⟩ | ⟨-, rfl⟩ <;> rfl
  | drop hfocus hraises =>
    exact .of_le (hrefl.addStatement hfocus fun hkind => by cases hraises.1.symm.trans hkind) hleave
      subset_rfl (List.Subset.refl _)
  | @branch b st hfocus _ htests =>
    refine .of_le (hrefl.addStatement hfocus fun hkind => by cases htests.1.symm.trans hkind)
      (fun k hk => ?_) subset_rfl (List.Subset.refl _)
    rcases hk.resolve_right nofun with hk | hk | hk
    · exact .inl (.inl hk)
    · exact (mem_insert.mp hk).elim (fun heq => .inr (heq ▸ hfocus)) fun hk => .inl (.inr (.inl hk))
    · exact (mem_insert.mp hk).elim (fun heq => .inr (heq ▸ hfocus)) fun hk => .inl (.inr (.inr hk))
  | yes hc ht =>
    exact .of_le (hrefl.addEdge ⟨.inl (.inr (.inl hc)), .inr (.inl (.inl ht))⟩)
      (fun _ => hanswer (erase_subset _ _) subset_rfl) subset_rfl (List.Subset.refl _)
  | no hc ht =>
    exact .of_le (hrefl.addEdge ⟨.inl (.inr (.inr hc)), .inr (.inl (.inl ht))⟩)
      (fun _ => hanswer subset_rfl (erase_subset _ _)) subset_rfl (List.Subset.refl _)
  | skip hc hh =>
    exact .of_le (hrefl.addEdge ⟨.inl (.inr (.inr hc)), .inr (.inl (.inr hh))⟩)
      (fun _ => hanswer subset_rfl (erase_subset _ _)) subset_rfl (List.Subset.refl _)
  | enter _ hb =>
    refine .of_le hrefl (fun k hk => ?_) (erase_subset _ _) (List.Subset.refl _)
    rcases hk with hk | hk
    · exact .inl (hk.imp_left mem_of_mem_erase)
    · exact .inl (.inl (Option.some.inj hk ▸ hb))
  | header hfocus depth =>
    refine ⟨(hrefl.addBlock headerKind depth).addEdge ⟨.inr hfocus, .inr (.inr (Nat.le_refl _))⟩,
      fun k hk => ?_, fun k hk => ?_, fun h hh => ?_⟩
    · exact hk.imp .inl fun hk => (Option.some.inj hk).le
    · rcases hk with hk | hk
      · exact .inl (.inl hk)
      · exact (List.mem_cons.mp hk).symm.imp .inr fun heq => heq.ge
    · rcases List.mem_cons.mp hh with rfl | hh
      · exact .inr (kindOf_addBlock_size _ _ _)
      · exact .inl hh
  | closeLoop => exact .of_le hrefl (fun _ => id) subset_rfl (List.tail_subset _)

end Change

variable {s : Draft}

/-- What holds of the statements that actions add, whatever name their value gets, holds of all. -/
theorem Reached.forall_statements {P : Statement → Prop}
    (hemit : ∀ st, IsDescribed st.kind st.op st.operands st.call → st.Sized → P st)
    (hends : ∀ st, st.Ends → (st.kind = .branch → st.operands ≠ []) → P st)
    (hname : ∀ st target, P st → P { st with target }) (h : Reached s) :
    ∀ b, ∀ st ∈ s.graph.statementsOf b, P st := by
  have hadd : ∀ {g : Graph} {c : Nat} {st : Statement}, (∀ b, ∀ t ∈ g.statementsOf b, P t) → P st →
      ∀ b, ∀ t ∈ (g.addStatement c st).statementsOf b, P t := by
    intro g c st hg hst b t ht
    rcases mem_statementsOf_addStatement ht with ht | rfl
    · exact hg b t ht
    · exact hst
  induction h with
  | start label name params =>
    intro b st hst
    have hempty : (Graph.start label name params).statementsOf b = [] := by
      obtain rfl | rfl | hb : b = 0 ∨ b = 1 ∨ 2 ≤ b := by omega
      · rfl
      · rfl
      · exact statementsOf_of_size_le _ hb
    rw [Draft.start, statementsOf_addEdge, statementsOf_addBlock, hempty] at hst
    cases hst
  | act hfar _ hact ih =>
    cases hact with
    | block depth | header _ depth =>
      intro b st hst
      exact ih b st (statementsOf_addBlock _ _ _ b ▸ hst)
    | emit _ _ _ hcall hsize => exact hadd ih (hemit _ hcall hsize)
    | @rename c _ _ hfocus _ _ name =>
      intro b t ht
      have hmem := List.mem_map_of_mem (f := fun st : Statement => { st with target := none }) ht
      rw [retarget, map_statementsOf_retarget _ c name _ (fun _ _ => rfl)] at hmem
      obtain ⟨t', ht', heq⟩ := List.mem_map.mp hmem
      have hsame : t = { t' with target := t.target } := by
        cases t
        cases t'
        cases heq
        rfl
      exact hsame ▸ hname t' t.target (ih b t' ht')
    | quit _ _ _ hquit =>
      refine hadd ih (hends _ (.inr (hquit.imp And.left And.left)) fun hkind => ?_)
      rcases hquit with ⟨h, -⟩ | ⟨⟨h, -⟩, -⟩ <;> cases h.symm.trans hkind
    | drop _ _ ht => exact absurd ht (hfar _)
    | branch _ _ htests => exact hadd ih (hends _ (.inl htests.1) fun _ => htests.2)
    | _ => exact ih

theorem Reached.described (h : Reached s) : Described s.graph := by
  refine h.forall_statements (P := fun st => IsDescribed st.kind st.op st.operands st.call)
    (fun _ hcall _ => hcall) (fun st hends htest => ⟨fun hkind => ?_, fun hkind => ?_, htest⟩)
    fun _ _ => id
  · exact absurd hkind hends.kind_ne.1
  · exact absurd hkind hends.kind_ne.2.2

/-- A draft in which only the exit is open. -/
structure Complete (s : Draft) : Prop where
  reached : Reached s
  focus : s.focus = none
  loose : s.toLooseEnds = ⟨{exit}, ∅, ∅, []⟩

end Draft
end Readiness.Graph
