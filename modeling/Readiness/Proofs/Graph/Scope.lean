import Readiness.Proofs.Graph.Growth

/-!
# Growth within a scope

`Grown` says that a graph has grown within a scope.  It is kept by larger scopes and by
further growth, and it holds of each single addition that the scope allows.  Statements without a
target stay as they are (`Grown.unnamed`).
-/

namespace Readiness.Graph

open List

/-- Whether control jumps along an edge: by returning, leaving or repeating a loop, or by
raising. -/
def EdgeKind.isJump : EdgeKind → Bool
  | .return_ | .leave | .proceed | .exception => true
  | _ => false

structure Scope where
  /-- The blocks that may get statements. -/
  holds : Nat → Prop
  /-- The edges that may be added. -/
  leads : Edge → Prop
  /-- What is known of new allocations. -/
  marks : AllocationInfo → Prop

/-- A scope that allows no more than another one. -/
structure Scope.Le (s t : Scope) : Prop where
  holds : ∀ k, s.holds k → t.holds k
  leads : ∀ e, s.leads e → t.leads e
  marks : ∀ info, s.marks info → t.marks info

def unnamed (g : Graph) (b : Nat) : List Statement :=
  (g.statementsOf b).filter fun s => s.target.isNone

def Closed (g : Graph) : Prop :=
  ∀ e ∈ g.edges, e.source < g.blocks.size ∧ e.target < g.blocks.size

structure Grown (s : Scope) (g g' : Graph) : Prop where
  size : g.blocks.size ≤ g'.blocks.size
  kept : ∀ e ∈ g.edges, e ∈ g'.edges
  edges : ∀ e ∈ g'.edges, e ∈ g.edges ∨ s.leads e
  kinds : ∀ k, k < g.blocks.size → g'.kindOf k = g.kindOf k
  statements : ∀ k, ¬s.holds k → g'.statementsOf k = g.statementsOf k
  unnamed : ∀ k, g.unnamed k <+: g'.unnamed k
  allocations : ∀ k, ∀ st ∈ g'.statementsOf k, st.kind = .allocation →
    (∃ st' ∈ g.statementsOf k, st'.kind = .allocation ∧ st'.allocation = st.allocation) ∨
      ∃ info, st.allocation = some info ∧ s.marks info

variable {b : Nat}

namespace Grown

variable {s t : Scope} {g g' g'' : Graph}

theorem refl (s : Scope) (g : Graph) : Grown s g g where
  size := Nat.le_refl _
  kept _ := id
  edges _ := .inl
  kinds _ _ := rfl
  statements _ _ := rfl
  unnamed _ := prefix_rfl
  allocations _ st hst hkind := .inl ⟨st, hst, hkind, rfl⟩

theorem mono (h : Grown s g g') (hle : s.Le t) : Grown t g g' where
  size := h.size
  kept := h.kept
  edges e he := (h.edges e he).imp_right (hle.leads e)
  kinds := h.kinds
  statements k hk := h.statements k fun hs => hk (hle.holds k hs)
  unnamed := h.unnamed
  allocations k st hst hkind := (h.allocations k st hst hkind).imp_right fun ⟨info, hinfo, hmark⟩ =>
    ⟨info, hinfo, hle.marks info hmark⟩

theorem trans (h : Grown s g g') (h' : Grown s g' g'') : Grown s g g'' where
  size := Nat.le_trans h.size h'.size
  kept e he := h'.kept e (h.kept e he)
  edges e he := (h'.edges e he).elim (h.edges e) .inr
  kinds k hk := (h'.kinds k (Nat.lt_of_lt_of_le hk h.size)).trans (h.kinds k hk)
  statements k hk := (h'.statements k hk).trans (h.statements k hk)
  unnamed k := (h.unnamed k).trans (h'.unnamed k)
  allocations k st hst hkind := by
    rcases h'.allocations k st hst hkind with ⟨st', hst', hkind', heq⟩ | hmark
    · rw [← heq]
      exact h.allocations k st' hst' hkind'
    · exact .inr hmark

theorem within (h : Grown s g g') : Within g g' := ⟨h.size, h.kept⟩

theorem addBlock (h : Grown s g g') (kind : String) (depth : Int) :
    Grown s g (g'.addBlock kind depth) := by
  refine h.trans ⟨by simp, fun _ => id, fun _ => .inl, fun k hk => kindOf_addBlock_of_lt _ _ _ hk,
    fun k _ => statementsOf_addBlock _ _ _ k, fun k => ?_, fun k st hst hkind => .inl ?_⟩
  · have heq : (g'.addBlock kind depth).unnamed k = g'.unnamed k := by
      rw [Graph.unnamed, Graph.unnamed, statementsOf_addBlock]
    exact heq ▸ prefix_rfl
  · rw [statementsOf_addBlock] at hst
    exact ⟨st, hst, hkind, rfl⟩

theorem addEdge (h : Grown s g g') {e : Edge} (hlead : s.leads e) : Grown s g (g'.addEdge e) := by
  refine h.trans ⟨Nat.le_refl _, fun e' he' => ?_, fun e' he' => ?_, fun _ _ => rfl,
    fun _ _ => rfl, fun _ => prefix_rfl, fun k st hst hkind => .inl ⟨st, hst, hkind, rfl⟩⟩
  · exact (mem_edges_addEdge _ _).mpr (.inl he')
  · rcases (mem_edges_addEdge _ _).mp he' with he' | rfl
    · exact .inl he'
    · exact .inr hlead

theorem addStatement (h : Grown s g g') (hb : s.holds b) {st : Statement}
    (hst : st.kind = .allocation → ∃ info, st.allocation = some info ∧ s.marks info) :
    Grown s g (g'.addStatement b st) := by
  refine h.trans ⟨by simp, fun _ => id, fun _ => .inl, fun k _ => kindOf_addStatement _ _ _ k,
    fun k hk => ?_, fun k => ?_, fun k st' hst' hkind => ?_⟩
  · exact statementsOf_addStatement_of_ne _ _ fun heq => hk (heq ▸ hb)
  · by_cases hk : k = b
    · subst hk
      unfold Graph.unnamed
      by_cases hlt : k < g'.blocks.size
      · rw [statementsOf_addStatement_self _ _ hlt, filter_append]
        exact prefix_append _ _
      · rw [statementsOf_of_size_le _ (Nat.le_of_not_lt hlt)]
        exact nil_prefix
    · have heq : (g'.addStatement b st).unnamed k = g'.unnamed k := by
        rw [Graph.unnamed, Graph.unnamed, statementsOf_addStatement_of_ne _ _ hk]
      exact heq ▸ prefix_rfl
  · rcases mem_statementsOf_addStatement hst' with hold | rfl
    · exact .inl ⟨st', hold, hkind, rfl⟩
    · exact .inr (hst hkind)

end Grown

/-- The last statement of a block gets another target. -/
theorem statementsOf_retarget_self {g : Graph} {init : List Statement} {last : Statement}
    (h : g.statementsOf b = init ++ [last]) (name : String) :
    (g.retarget b name).statementsOf b = init ++ [{ last with target := some name }] := by
  have hb : b < g.blocks.size := by
    by_contra hb
    rw [statementsOf_of_size_le _ (Nat.le_of_not_lt hb)] at h
    simp at h
  have hlength : (g.block b).statements.size - 1 = init.length := by
    have := congrArg List.length h
    simp only [statementsOf, Array.length_toList, length_append, length_cons, length_nil] at this
    omega
  rw [statementsOf, retarget, block_modify, if_pos ⟨rfl, hb⟩]
  change ((g.block b).statements.modify _ _).toList = _
  rw [Array.toList_modify, hlength]
  change (g.statementsOf b).modify _ _ = _
  rw [h]
  clear h hlength
  induction init with
  | nil => rfl
  | cons st rest ih => exact congrArg (st :: ·) ih

theorem Grown.retarget {s : Scope} {g g' : Graph} (h : Grown s g g') (hb : s.holds b)
    {init : List Statement} {last : Statement} (hlast : g'.statementsOf b = init ++ [last])
    (hnamed : last.target.isSome) (name : String) : Grown s g (g'.retarget b name) := by
  have hself := statementsOf_retarget_self hlast name
  refine h.trans ⟨by simp, fun _ => id, fun _ => .inl, fun k _ => kindOf_retarget _ _ _ k,
    fun k hk => ?_, fun k => ?_, fun k st hst hkind => .inl ?_⟩
  · exact statementsOf_retarget_of_ne _ _ fun heq => hk (heq ▸ hb)
  · by_cases hk : k = b
    · subst hk
      have hsome : last.target.isNone = false := by
        cases htarget : last.target with
        | none => rw [htarget] at hnamed; cases hnamed
        | some n => rfl
      rw [Graph.unnamed, Graph.unnamed, hself, hlast, filter_append, filter_append]
      simp [hsome]
    · have heq : (g'.retarget b name).unnamed k = g'.unnamed k := by
        rw [Graph.unnamed, Graph.unnamed, statementsOf_retarget_of_ne _ _ hk]
      exact heq ▸ prefix_rfl
  · by_cases hk : k = b
    · subst hk
      rw [hself] at hst
      rcases mem_append.mp hst with hst | hst
      · exact ⟨st, hlast ▸ mem_append_left _ hst, hkind, rfl⟩
      · cases mem_singleton.mp hst
        exact ⟨last, hlast ▸ mem_append_right _ mem_cons_self, hkind, rfl⟩
    · rw [statementsOf_retarget_of_ne _ _ hk] at hst
      exact ⟨st, hst, hkind, rfl⟩

end Readiness.Graph
