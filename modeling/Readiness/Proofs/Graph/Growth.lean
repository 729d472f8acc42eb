import Readiness.Proofs.Graph.Reachable

/-!
# Graphs that grow

What each addition does to the statements, to the kind and to the outgoing edges of
every block.  Reachability stays when edges are added (`Reaches.mono`).
-/

namespace Readiness.Graph

open Array

def kindOf (g : Graph) (b : Nat) : String := (g.block b).kind

variable {b : Nat} {g : Graph}

theorem mem_outgoing {e : Edge} : e ∈ g.outgoing b ↔ e ∈ g.edges ∧ e.source = b := by
  simp [outgoing]

section Blocks

variable (g : Graph) (kind : String) (depth : Int)

@[simp] theorem size_addBlock : (g.addBlock kind depth).blocks.size = g.blocks.size + 1 := by
  simp [addBlock]

@[simp] theorem edges_addBlock : (g.addBlock kind depth).edges = g.edges := rfl

@[simp] theorem statementsOf_addBlock (b : Nat) :
    (g.addBlock kind depth).statementsOf b = g.statementsOf b := by
  unfold statementsOf block addBlock
  rw [getD_eq_getD_getElem?, getD_eq_getD_getElem?, getElem?_push]
  by_cases hb : b = g.blocks.size
  · simp [hb, default, Inhabited.default]
    rfl
  · simp [hb]

theorem statementsOf_of_size_le (hb : g.blocks.size ≤ b) : g.statementsOf b = [] := by
  rw [statementsOf, block, getD_eq_getD_getElem?, getElem?_eq_none hb]
  rfl

theorem kindOf_addBlock_of_lt (hb : b < g.blocks.size) :
    (g.addBlock kind depth).kindOf b = g.kindOf b := by
  unfold kindOf block addBlock
  rw [getD_eq_getD_getElem?, getD_eq_getD_getElem?, getElem?_push_lt hb, getElem?_eq_getElem hb]

@[simp] theorem kindOf_addBlock_size : (g.addBlock kind depth).kindOf g.blocks.size = kind := by
  simp [kindOf, block, addBlock]

end Blocks

section Edges

variable (g : Graph) (e : Edge)

@[simp] theorem statementsOf_addEdge (b : Nat) : (g.addEdge e).statementsOf b = g.statementsOf b :=
  rfl

@[simp] theorem kindOf_addEdge (b : Nat) : (g.addEdge e).kindOf b = g.kindOf b := rfl

@[simp] theorem mem_edges_addEdge {e' : Edge} :
    e' ∈ (g.addEdge e).edges ↔ e' ∈ g.edges ∨ e' = e := by
  simp [addEdge]

@[simp] theorem outgoing_addEdge_self : (g.addEdge e).outgoing e.source =
    g.outgoing e.source ++ [e] := by
  simp [outgoing, addEdge]

theorem outgoing_addEdge_of_ne (hb : b ≠ e.source) : (g.addEdge e).outgoing b = g.outgoing b := by
  simp [outgoing, addEdge, Ne.symm hb]

end Edges

section Statements

variable (g : Graph) (c : Nat) (s : Statement) (name : String)

/-- A change of one block leaves the others as they are. -/
theorem block_modify (f : Block → Block) (b : Nat) :
    ({ g with blocks := g.blocks.modify c f } : Graph).block b =
      if b = c ∧ c < g.blocks.size then f (g.block c) else g.block b := by
  unfold block
  rw [getD_eq_getD_getElem?, getD_eq_getD_getElem?, getD_eq_getD_getElem?, getElem?_modify]
  by_cases hb : b = c
  · subst hb
    by_cases hlt : b < g.blocks.size <;> simp [hlt]
  · simp [hb, Ne.symm hb]

@[simp] theorem size_addStatement : (g.addStatement c s).blocks.size = g.blocks.size := by
  simp [addStatement]

@[simp] theorem kindOf_addStatement (b : Nat) : (g.addStatement c s).kindOf b = g.kindOf b := by
  rw [kindOf, addStatement, block_modify]
  split
  · next h => rw [h.1, kindOf]
  · rfl

theorem statementsOf_addStatement_self {c : Nat} (hc : c < g.blocks.size) :
    (g.addStatement c s).statementsOf c = g.statementsOf c ++ [s] := by
  rw [statementsOf, addStatement, block_modify, if_pos ⟨rfl, hc⟩]
  exact toList_push

theorem statementsOf_addStatement_of_ne {c : Nat} (hb : b ≠ c) :
    (g.addStatement c s).statementsOf b = g.statementsOf b := by
  rw [statementsOf, addStatement, block_modify, if_neg fun h => hb h.1, statementsOf]

variable {g c s} in
theorem mem_statementsOf_addStatement {t : Statement} (h : t ∈ (g.addStatement c s).statementsOf b) :
    t ∈ g.statementsOf b ∨ t = s := by
  rw [statementsOf, addStatement, block_modify] at h
  split at h
  · next hb =>
      obtain ⟨rfl, -⟩ := hb
      rw [toList_push, List.mem_append, List.mem_singleton] at h
      exact h
  · exact .inl h

@[simp] theorem size_retarget : (g.retarget c name).blocks.size = g.blocks.size := by
  simp [retarget]

@[simp] theorem kindOf_retarget (b : Nat) : (g.retarget c name).kindOf b = g.kindOf b := by
  rw [kindOf, retarget, block_modify]
  split
  · next h => rw [h.1, kindOf]
  · rfl

theorem statementsOf_retarget_of_ne {c : Nat} (hb : b ≠ c) :
    (g.retarget c name).statementsOf b = g.statementsOf b := by
  rw [statementsOf, retarget, block_modify, if_neg fun h => hb h.1, statementsOf]

/-- A new name for a value changes neither what a statement does nor its number. -/
theorem map_statementsOf_retarget {α : Type} (f : Statement → α)
    (hf : ∀ s target, f { s with target } = f s) (b : Nat) :
    ((g.retarget c name).statementsOf b).map f = (g.statementsOf b).map f := by
  rw [statementsOf, retarget, block_modify]
  split
  · next h =>
      rw [h.1, statementsOf]
      apply List.ext_getElem?
      intro i
      rw [toList_modify, List.getElem?_map, List.getElem?_map, List.getElem?_modify]
      cases (g.block c).statements.toList[i]? with
      | none => rfl
      | some s => split <;> simp [hf]
  · rfl

/-- A statement that has just been added is renamed as if it had been added under that name. -/
theorem retarget_addStatement :
    (g.addStatement c s).retarget c name = g.addStatement c { s with target := some name } := by
  unfold retarget addStatement
  congr 1
  apply ext_getElem?
  intro i
  simp only [getElem?_modify]
  by_cases hi : c = i
  · simp only [hi, if_true, Option.map_map]
    cases g.blocks[i]? with
    | none => rfl
    | some b =>
      simp only [Option.map_some, Function.comp]
      congr 2
      apply ext_getElem?
      intro j
      simp only [getElem?_modify, getElem?_push, size_push, Nat.add_sub_cancel]
      by_cases hj : b.statements.size = j
      · simp [hj]
      · simp [hj, Ne.symm hj]
  · simp [hi]

end Statements

/-- The edges of one graph are edges of another that has no fewer blocks. -/
structure Within (g g' : Graph) : Prop where
  size : g.blocks.size ≤ g'.blocks.size
  edges : ∀ e ∈ g.edges, e ∈ g'.edges

theorem Within.refl (g : Graph) : Within g g := ⟨Nat.le_refl _, fun _ => id⟩

theorem Within.trans {g' g'' : Graph} (h : Within g g') (h' : Within g' g'') : Within g g'' :=
  ⟨Nat.le_trans h.size h'.size, fun e he => h'.edges e (h.edges e he)⟩

theorem within_addBlock (g : Graph) (kind : String) (depth : Int) :
    Within g (g.addBlock kind depth) :=
  ⟨by simp, fun _ => id⟩

theorem within_addEdge (g : Graph) (e : Edge) : Within g (g.addEdge e) :=
  ⟨Nat.le_refl _, fun _ he' => (mem_edges_addEdge g e).mpr (.inl he')⟩

theorem within_addStatement (g : Graph) (c : Nat) (s : Statement) :
    Within g (g.addStatement c s) :=
  ⟨by simp, fun _ => id⟩

theorem within_retarget (g : Graph) (c : Nat) (name : String) : Within g (g.retarget c name) :=
  ⟨by simp, fun _ => id⟩

variable {a : Nat}

theorem mem_successors : b ∈ g.successors a ↔ ∃ e ∈ g.edges, e.source = a ∧ e.target = b := by
  simp [successors, outgoing, and_assoc]

theorem Reaches.mono {g' : Graph} (h : Within g g') (hab : Reaches g a b) : Reaches g' a b := by
  induction hab with
  | refl => exact .refl a
  | step _ hc ih =>
    obtain ⟨e, he, hsource, htarget⟩ := mem_successors.mp hc
    exact ih.step (mem_successors.mpr ⟨e, h.edges e he, hsource, htarget⟩)

theorem reaches_addEdge (g : Graph) (e : Edge) : Reaches (g.addEdge e) e.source e.target :=
  (Reaches.refl e.source).step
    (mem_successors.mpr ⟨e, (mem_edges_addEdge g e).mpr (.inr rfl), rfl, rfl⟩)

end Readiness.Graph
