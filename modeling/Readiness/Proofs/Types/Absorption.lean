import Readiness.Proofs.Types.Sameness

/-!
# Type sets that absorb others

A set absorbs another one when joining them changes nothing (`Absorbs`).  It does so
when nothing is known of it, or when it holds all members of the other one and the class of all
values is none of them (`absorbs_iff`).  A join absorbs what was joined (`absorbs_join`), and goes
on to absorb it when more is joined (`Absorbs.join`).
-/

namespace Readiness.TypeSet

open TypeExpr (same_refl same_euclid same_equivalence)

/-- Joining the second set to the first one changes nothing. -/
def Absorbs (a b : TypeSet) : Prop := equal (join a b) a = true

instance (a b : TypeSet) : Decidable (Absorbs a b) := inferInstanceAs (Decidable (_ = true))

variable {a b c : TypeSet} {t u : TypeExpr}

theorem has_iff : has a t = true ↔ ∃ x ∈ a, TypeExpr.same t x = true := List.any_eq_true

theorem has_of_mem (h : t ∈ a) : has a t = true := has_iff.mpr ⟨t, h, same_refl t⟩

theorem has_congr (h : TypeExpr.same t u = true) : has a t = has a u := by
  rw [Bool.eq_iff_iff, has_iff, has_iff]
  constructor
  · rintro ⟨x, hx, htx⟩
    exact ⟨x, hx, same_euclid t u x h htx⟩
  · rintro ⟨x, hx, hux⟩
    exact ⟨x, hx, same_equivalence.trans h hux⟩

theorem subset_iff : subset a b = true ↔ ∀ t, has a t = true → has b t = true := by
  rw [subset, List.all_eq_true]
  constructor
  · intro h t ht
    obtain ⟨x, hx, htx⟩ := has_iff.mp ht
    exact has_congr htx ▸ h x hx
  · exact fun h t ht => h t (has_of_mem ht)

theorem equal_iff : equal a b = true ↔ ∀ t, has a t = has b t := by
  rw [equal, Bool.and_eq_true, subset_iff, subset_iff]
  constructor
  · exact fun h t => Bool.eq_iff_iff.mpr ⟨h.1 t, h.2 t⟩
  · exact fun h => ⟨fun t ht => h t ▸ ht, fun t ht => (h t).symm ▸ ht⟩

theorem equal_refl (a : TypeSet) : equal a a = true := equal_iff.mpr fun _ => rfl

theorem has_insert : has (insert a u) t = (has a t || TypeExpr.same t u) := by
  unfold insert
  split
  · rename_i hu
    by_cases htu : TypeExpr.same t u = true
    · rw [has_congr htu, hu, Bool.true_or]
    · rw [Bool.not_eq_true] at htu
      rw [htu, Bool.or_false]
  · simp [has]

theorem has_union : has (union a b) t = (has a t || has b t) := by
  induction b generalizing a with
  | nil => simp [union, has]
  | cons u b ih =>
    have hfold : union a (u :: b) = union (insert a u) b := rfl
    rw [hfold, ih, has_insert, Bool.or_assoc]
    rfl

/-- What is already there does not change a set. -/
theorem union_eq_left (h : subset b a = true) : union a b = a := by
  induction b with
  | nil => rfl
  | cons u b ih =>
    simp only [subset, List.all_cons, Bool.and_eq_true] at h
    have hfold : union a (u :: b) = union (insert a u) b := rfl
    rw [hfold, insert, if_pos h.1]
    exact ih h.2

theorem has_object_unknown : has unknown TypeExpr.object = true :=
  has_of_mem List.mem_cons_self

theorem absorbs_iff : Absorbs a b ↔
    isUnknown a = true ∨ has a TypeExpr.object = false ∧ subset b a = true := by
  unfold Absorbs join
  dsimp only
  split
  · -- the union holds the class of all values
    rename_i hobject
    rw [has_union, Bool.or_eq_true] at hobject
    have hcomm : equal unknown a = isUnknown a := by
      rw [isUnknown, equal, equal, Bool.and_comm]
    rw [hcomm]
    refine ⟨.inl, fun h => h.resolve_right fun ⟨hnot, hsub⟩ => ?_⟩
    rcases hobject with hobject | hobject
    · exact Bool.false_ne_true (hnot.symm.trans hobject)
    · exact Bool.false_ne_true (hnot.symm.trans (subset_iff.mp hsub _ hobject))
  · rename_i hobject
    rw [Bool.not_eq_true, has_union, Bool.or_eq_false_iff] at hobject
    constructor
    · intro h
      refine .inr ⟨hobject.1, subset_iff.mpr fun t ht => ?_⟩
      rw [← equal_iff.mp h t, has_union, ht, Bool.or_true]
    · rintro (h | ⟨-, hsub⟩)
      · have hknown := (equal_iff.mp h TypeExpr.object).trans has_object_unknown
        exact absurd (hobject.1.symm.trans hknown) Bool.false_ne_true
      · rw [union_eq_left hsub]
        exact equal_refl a

theorem absorbs_unknown (b : TypeSet) : Absorbs unknown b :=
  absorbs_iff.mpr (.inl (equal_refl unknown))

theorem absorbs_join (a b : TypeSet) : Absorbs (join a b) b := by
  unfold join
  dsimp only
  split
  · exact absorbs_unknown b
  · rename_i hobject
    refine absorbs_iff.mpr (.inr ⟨Bool.not_eq_true _ ▸ hobject, subset_iff.mpr fun t ht => ?_⟩)
    rw [has_union, ht, Bool.or_true]

theorem Absorbs.join (h : Absorbs a c) (b : TypeSet) : Absorbs (join a b) c := by
  unfold TypeSet.join
  dsimp only
  split
  · exact absorbs_unknown c
  · rename_i hobject
    rw [Bool.not_eq_true] at hobject
    have hnot : has a TypeExpr.object = false := by
      rw [has_union, Bool.or_eq_false_iff] at hobject
      exact hobject.1
    rcases absorbs_iff.mp h with hunknown | ⟨-, hsub⟩
    · have hknown := (equal_iff.mp hunknown TypeExpr.object).trans has_object_unknown
      exact absurd (hnot.symm.trans hknown) Bool.false_ne_true
    · refine absorbs_iff.mpr (.inr ⟨hobject, subset_iff.mpr fun t ht => ?_⟩)
      rw [has_union, subset_iff.mp hsub t ht, Bool.true_or]

end Readiness.TypeSet
