import Mathlib.Algebra.Order.Ring.Int
import Readiness.Gate

/-!
# When the gate passes

Both figures are rounded before they are compared.

`passes_iff` says which lists pass, without rounding the share of ready functions.
-/

namespace Readiness

namespace Decimal

/-- The integer is nearest to the quotient, and the even one when two are. -/
def IsNearest (num den : Nat) (n : Int) : Prop :=
  (2 * num : Int) ≤ 2 * (n * den) + den ∧ 2 * (n * den) ≤ (2 * num : Int) + den ∧
    ((2 * num : Int) = 2 * (n * den) + den ∨ 2 * (n * den) = (2 * num : Int) + den → 2 ∣ n)

/-- The quotient is not below the bound by more than a half, and by a half only if the bound is
even. -/
def NearlyAtLeast (num den : Nat) (bound : Int) : Prop :=
  2 * (bound * den) < (2 * num : Int) + den ∨ 2 * (bound * den) = (2 * num : Int) + den ∧ 2 ∣ bound

theorem isNearest_roundDiv (num : Nat) {den : Nat} (hden : 0 < den) :
    IsNearest num den (roundDiv num den : Nat) := by
  have hnum : ((num / den : Nat) : Int) * den + (num % den : Nat) = num := by
    exact_mod_cast Nat.div_add_mod' num den
  have hlt : num % den < den := Nat.mod_lt num hden
  unfold IsNearest roundDiv
  dsimp only
  generalize num / den = q at hnum ⊢
  generalize num % den = r at hnum hlt ⊢
  have hnext : ((q + 1 : Nat) : Int) * den = (q : Int) * den + den := by
    rw [Nat.cast_succ, add_mul, one_mul]
  split
  · omega
  · split
    · rw [hnext]
      omega
    · split
      · omega
      · rw [hnext]
        omega

/-- A bound is reached by the nearest integer exactly when it is nearly reached by the quotient. -/
theorem IsNearest.le_iff {num den : Nat} (hden : 0 < den) {n : Int} (h : IsNearest num den n)
    (bound : Int) : bound ≤ n ↔ NearlyAtLeast num den bound := by
  obtain ⟨hlow, hhigh, heven⟩ := h
  have hpos : (0 : Int) < den := by exact_mod_cast hden
  rcases lt_trichotomy bound n with hlt | rfl | hgt
  · have hmul : (bound + 1) * den ≤ n * den := Int.mul_le_mul_of_nonneg_right hlt hpos.le
    rw [add_mul, one_mul] at hmul
    exact iff_of_true hlt.le (.inl (by omega))
  · refine iff_of_true le_rfl ?_
    rcases hhigh.lt_or_eq with hlt | heq
    · exact .inl hlt
    · exact .inr ⟨heq, heven (.inr heq)⟩
  · -- a bound above the nearest integer is the next one if a half is missing, and that one is odd
    refine iff_of_false hgt.not_ge ?_
    have hmul : (n + 1) * den ≤ bound * den := Int.mul_le_mul_of_nonneg_right hgt hpos.le
    rw [add_mul, one_mul] at hmul
    rintro (hnear | ⟨heq, hbound⟩)
    · omega
    · have hn : 2 ∣ n := heven (.inl (by omega))
      have hnext : bound * den = (n + 1) * den := by rw [add_mul, one_mul]; omega
      have := mul_right_cancel₀ hpos.ne' hnext
      omega

end Decimal

namespace Gate

open Decimal (IsNearest NearlyAtLeast isNearest_roundDiv)

theorem below_whole (a b : Int) : (Quantity.whole a).below (.whole b) = decide (a < b) := by
  have hcompare : (Quantity.whole a).below (.whole b) = (compare a b == .lt) := rfl
  rw [hcompare, Bool.eq_iff_iff, beq_iff_eq, decide_eq_true_iff, compare_lt_iff_lt]

theorem reasonsFor_eq_nil_iff (reports : List Report) (minReady minAverage : Int) :
    reasonsFor reports (.whole minReady) (.whole minAverage) = [] ↔
      (∀ r ∈ reports, r.hasFailures = false) ∧
        minReady ≤ (Decimal.roundDiv (100 * readyOf reports) reports.length : Nat) ∧
        minAverage ≤ (Decimal.roundDiv (scoreSum reports) reports.length : Nat) := by
  simp [reasonsFor, below_whole, List.filter_eq_nil_iff]

/-- The gate passes a list exactly when it is not empty, no report has a failure, the share of ready
reports is nearly at least the least one, and the nearest integer to the average score is at least
the least one.  It gives a reason exactly when it does not pass.  A share that is high enough is
always nearly so. -/
theorem passes_iff (reports : List Report) (minReady minAverage : Int) :
    ((evaluate reports (.whole minReady) (.whole minAverage)).passed = true ↔
      reports ≠ [] ∧ (∀ r ∈ reports, r.hasFailures = false) ∧
        NearlyAtLeast (100 * readyOf reports) reports.length minReady ∧
        ∃ average, IsNearest (scoreSum reports) reports.length average ∧ minAverage ≤ average) ∧
      ((evaluate reports (.whole minReady) (.whole minAverage)).reasons = [] ↔
        (evaluate reports (.whole minReady) (.whole minAverage)).passed = true) ∧
      (reports ≠ [] → minReady * reports.length ≤ 100 * readyOf reports →
        NearlyAtLeast (100 * readyOf reports) reports.length minReady) := by
  cases reports with
  | nil => simp [evaluate]
  | cons r rest =>
    have hlength : 0 < (r :: rest).length := Nat.zero_lt_succ _
    generalize r :: rest = reports at hlength ⊢
    have hne : reports ≠ [] := List.ne_nil_of_length_pos hlength
    have hready := isNearest_roundDiv (100 * readyOf reports) hlength
    have haverage := isNearest_roundDiv (scoreSum reports) hlength
    have hreasons := reasonsFor_eq_nil_iff reports minReady minAverage
    rw [hready.le_iff hlength] at hreasons
    simp only [evaluate, List.isEmpty_iff, hne, if_false]
    refine ⟨?_, trivial, fun _ hshare => .inl (by push_cast at hshare ⊢; omega)⟩
    rw [hreasons]
    refine ⟨fun ⟨hclean, hshare, hmean⟩ => ⟨hne, hclean, hshare, _, haverage, hmean⟩, ?_⟩
    rintro ⟨-, hclean, hshare, average, hnearest, hmean⟩
    refine ⟨hclean, hshare, (haverage.le_iff hlength _).mpr ?_⟩
    exact (hnearest.le_iff hlength _).mp hmean

end Gate
end Readiness
