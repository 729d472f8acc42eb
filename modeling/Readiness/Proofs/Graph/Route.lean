import Readiness.Graph.Basic

/-!
# Walks along edges

A walk that ends outside some blocks leaves them along an edge (`Route.exists_exit`).
What holds of one block of a closed walk, and of the source of an edge whenever it holds of the
target, holds of all its blocks (`Route.forall_of_mem`).
-/

namespace Readiness.Graph

open List

/-- A walk along edges from one block to another. -/
inductive Route (g : Graph) : Nat → List Edge → Nat → Prop
  | done (k : Nat) : Route g k [] k
  | step {e : Edge} {w : List Edge} {k : Nat} : e ∈ g.edges → Route g e.target w k →
    Route g e.source (e :: w) k

variable {e : Edge}

/-- A walk goes on along one more edge. -/
theorem Route.concat {g : Graph} {a : Nat} {w : List Edge} (h : Route g a w e.source)
    (he : e ∈ g.edges) : Route g a (w ++ [e]) e.target := by
  generalize hz : e.source = z at h
  induction h with
  | done k =>
    subst hz
    exact .step he (.done e.target)
  | step hfirst _ ih => exact .step hfirst (ih hz)

/-- A walk that ends outside leaves along an edge. -/
theorem Route.exists_exit {g : Graph} {inside : Nat → Prop} {a z : Nat} {w : List Edge}
    (h : Route g a w z) (ha : inside a) (hz : ¬inside z) :
    ∃ stay e rest, w = stay ++ e :: rest ∧ (∀ e' ∈ stay, inside e'.target) ∧ e ∈ g.edges ∧
      inside e.source ∧ ¬inside e.target := by
  induction h with
  | done k => exact absurd ha hz
  | @step e w k he _ ih =>
    by_cases hin : inside e.target
    · obtain ⟨stay, e', rest, rfl, hstay, he', hsource, htarget⟩ := ih hin hz
      refine ⟨e :: stay, e', rest, rfl, fun f hf => ?_, he', hsource, htarget⟩
      rcases mem_cons.mp hf with rfl | hf
      · exact hin
      · exact hstay f hf
    · exact ⟨[], e, w, rfl, nofun, he, ha, hin⟩

section Backwards

variable {g : Graph} {P : Nat → Prop} {a z : Nat} {w : List Edge}

theorem Route.forall_of_end (h : Route g a w z) (hback : ∀ e ∈ w, P e.target → P e.source) (hz : P z) :
    P a ∧ ∀ e ∈ w, P e.target := by
  induction h with
  | done k => exact ⟨hz, nofun⟩
  | @step e w k _ _ ih =>
    obtain ⟨htarget, hrest⟩ := ih (fun f hf => hback f (mem_cons_of_mem _ hf)) hz
    refine ⟨hback e mem_cons_self htarget, fun f hf => ?_⟩
    rcases mem_cons.mp hf with rfl | hf
    · exact htarget
    · exact hrest f hf

/-- Backwards from a block of a walk to its start. -/
theorem Route.start_of_mem (h : Route g a w z) (hback : ∀ e ∈ w, P e.target → P e.source)
    (he : e ∈ w) (htarget : P e.target) : P a := by
  induction h with
  | done k => cases he
  | @step f w k _ _ ih =>
    refine hback f mem_cons_self ?_
    rcases mem_cons.mp he with rfl | he
    · exact htarget
    · exact ih (fun e' he' => hback e' (mem_cons_of_mem _ he')) he

/-- Backwards around a closed walk. -/
theorem Route.forall_of_mem (h : Route g a w a) (hback : ∀ e ∈ w, P e.target → P e.source)
    (he : e ∈ w) (htarget : P e.target) : ∀ f ∈ w, P f.target :=
  (h.forall_of_end hback (h.start_of_mem hback he htarget)).2

end Backwards

section Members

variable {g : Graph} {a z : Nat} {w : List Edge}

theorem Route.mem_edges (h : Route g a w z) : ∀ e ∈ w, e ∈ g.edges := by
  induction h with
  | done k => exact nofun
  | step he _ ih => exact forall_mem_cons.mpr ⟨he, ih⟩

theorem Route.eq_of_nil (h : Route g a [] z) : a = z := by
  cases h
  rfl

theorem Route.exists_last (h : Route g a w z) (hw : w ≠ []) : ∃ f ∈ w, f.target = z := by
  induction h with
  | done k => exact absurd rfl hw
  | @step e w k _ hrest ih =>
    cases w with
    | nil =>
      exact ⟨e, mem_cons_self, hrest.eq_of_nil⟩
    | cons f rest =>
      obtain ⟨f', hf', htarget⟩ := ih (cons_ne_nil _ _)
      exact ⟨f', mem_cons_of_mem _ hf', htarget⟩

theorem Route.source_eq_or (h : Route g a w z) (he : e ∈ w) :
    e.source = a ∨ ∃ f ∈ w, f.target = e.source := by
  induction h with
  | done k => cases he
  | @step f w k _ _ ih =>
    rcases mem_cons.mp he with rfl | he
    · exact .inl rfl
    · right
      rcases ih he with heq | ⟨f', hf', htarget⟩
      · exact ⟨f, mem_cons_self, heq.symm⟩
      · exact ⟨f', mem_cons_of_mem _ hf', htarget⟩

/-- On a closed walk, control comes to the source of every edge along an edge of the walk. -/
theorem Route.exists_before (h : Route g a w a) (he : e ∈ w) : ∃ f ∈ w, f.target = e.source := by
  rcases h.source_eq_or he with heq | hbefore
  · rw [heq]
    exact h.exists_last (ne_nil_of_mem he)
  · exact hbefore

end Members

end Readiness.Graph
