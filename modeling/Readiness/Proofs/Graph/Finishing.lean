import Readiness.Proofs.Graph.Growth

/-!
# The order in which a search finishes

Every block is listed once and the entry first (`nodup_reachable`,
`reachable_eq_cons`).  An edge leads to a block that is listed later, or back to a block on a walk
to its source that meets no block twice (`idxOf_lt_or_walk`).  A block that every walk to another
one meets is not listed later than that one (`not_idxOf_lt_of_dominates`).
-/

namespace Readiness.Graph

open List

variable {g : Graph}

theorem reachable_eq_cons (g : Graph) : ∃ rest, g.reachable = entry :: rest := ⟨_, rfl⟩

theorem nodup_reachable (g : Graph) : g.reachable.Nodup := (arranged_reachable g).nodup

/-- A block comes later in a list without repetitions when it is behind the first one. -/
theorem exists_suffix_idxOf {l : List Nat} (hnodup : l.Nodup) {u : Nat} (hu : u ∈ l) :
    ∃ rest, u :: rest <:+ l ∧ ∀ v ∈ l, l.idxOf u < l.idxOf v ↔ v ∈ rest := by
  obtain ⟨before, rest, rfl⟩ := append_of_mem hu
  refine ⟨rest, suffix_append _ _, ?_⟩
  intro v hv
  obtain ⟨-, hcons, hdisjoint⟩ := nodup_append.mp hnodup
  have hub : u ∉ before := fun h => hdisjoint u h u mem_cons_self rfl
  rw [idxOf_append_of_notMem hub, idxOf_cons_self]
  by_cases hvb : v ∈ before
  · have hvr : v ∉ rest := fun h => hdisjoint v hvb v (mem_cons_of_mem u h) rfl
    have hlt := idxOf_lt_length_of_mem hvb
    rw [idxOf_append_of_mem hvb]
    exact iff_of_false (by omega) hvr
  · rw [idxOf_append_of_notMem hvb]
    by_cases hvu : v = u
    · subst hvu
      rw [idxOf_cons_self]
      exact iff_of_false (by omega) (nodup_cons.mp hcons).1
    · rw [idxOf_cons_ne _ (Ne.symm hvu)]
      have hvr : v ∈ rest := by
        rcases mem_append.mp hv with h | h
        · exact (hvb h).elim
        · exact (mem_cons.mp h).resolve_left hvu
      exact iff_of_true (by omega) hvr

/-- An edge leads to a block that is listed later, or to one on a walk to its source. -/
theorem idxOf_lt_or_walk {e : Edge} (he : e ∈ g.edges) (hsource : e.source ∈ g.reachable) :
    g.reachable.idxOf e.source < g.reachable.idxOf e.target ∨
      ∃ p, Walk g (e.source :: p) ∧ (e.source :: p).Nodup ∧ e.target ∈ e.source :: p := by
  have hnext : e.target ∈ g.successors e.source := mem_successors.mpr ⟨e, he, rfl, rfl⟩
  have htarget : e.target ∈ g.reachable := by
    rw [mem_reachable_iff] at hsource ⊢
    exact hsource.step hnext
  obtain ⟨rest, hsuffix, hidx⟩ := exists_suffix_idxOf (nodup_reachable g) hsource
  rw [hidx _ htarget]
  exact (arranged_reachable g).later e.source rest hsuffix e.target hnext

/-- A block that dominates another one is not listed later. -/
theorem not_idxOf_lt_of_dominates {u v : Nat} (hu : u ∈ g.reachable) (hv : v ∈ g.reachable)
    (hdominates : Dominates g v u) : ¬g.reachable.idxOf u < g.reachable.idxOf v := by
  obtain ⟨rest, hsuffix, hidx⟩ := exists_suffix_idxOf (nodup_reachable g) hu
  rw [hidx v hv]
  exact (arranged_reachable g).earlier u rest hsuffix v hdominates

/-- Ranks grow along a walk that meets no block twice, if every edge goes up in rank or back to
a block that dominates its source. -/
theorem Walk.rank_le {rank : Nat → Nat}
    (hedges : ∀ e ∈ g.edges, rank e.source < rank e.target ∨ Dominates g e.target e.source)
    {p : List Nat} (hwalk : Walk g p) : p.Nodup → ∀ b rest, p = b :: rest →
      ∀ x ∈ rest, rank x < rank b := by
  induction hwalk with
  | entry =>
    rintro - b rest ⟨⟩ x hx
    cases hx
  | @step a b path hwalk hb ih =>
    rintro hnodup b' rest ⟨⟩ x hx
    obtain ⟨hfresh, hpath⟩ := nodup_cons.mp hnodup
    obtain ⟨e, he, rfl, rfl⟩ := mem_successors.mp hb
    have hup := (hedges e he).resolve_right fun h => hfresh (h path hwalk)
    rcases mem_cons.mp hx with rfl | hx
    · exact hup
    · exact Nat.lt_trans (ih hpath _ _ rfl x hx) hup

end Readiness.Graph
