import Mathlib.Data.List.Forall2
import Mathlib.Order.Compare
import Readiness.Proofs.Gate.Passing

/-!
# Better reports and their order

A gate that passes a list passes every list of reports that are no worse, one by one, and does not
look at the order of the reports (`improvement_passes`).  Rounding the figures does not get in the
way: the nearest integer to a larger quotient is not smaller.
-/

namespace Readiness

namespace Decimal

theorem NearlyAtLeast.mono {num num' den : Nat} {bound : Int} (h : NearlyAtLeast num den bound)
    (hle : num ≤ num') : NearlyAtLeast num' den bound := by
  unfold NearlyAtLeast at h ⊢
  omega

theorem roundDiv_mono {num num' den : Nat} (hden : 0 < den) (hle : num ≤ num') :
    roundDiv num den ≤ roundDiv num' den := by
  have hnear := ((isNearest_roundDiv num hden).le_iff hden _).mp le_rfl
  exact_mod_cast ((isNearest_roundDiv num' hden).le_iff hden _).mpr (hnear.mono hle)

end Decimal

/-- What is below a quantity has everything smaller below it too. -/
theorem Quantity.below_of_le {a b : Int} {q : Quantity} (hle : a ≤ b)
    (h : (whole b).below q = true) : (whole a).below q = true := by
  have hless : ∀ c d e : Int, c ≤ d → (some (compare d e) == some .lt) = true →
      (some (compare c e) == some .lt) = true := by
    intro c d e hcd hde
    simp only [beq_iff_eq, Option.some.injEq, compare_lt_iff_lt] at hde ⊢
    omega
  cases q with
  | flag v | whole v => exact hless _ _ _ hle h
  | real x =>
    change (compareReal b x == some .lt) = true at h
    change (compareReal a x == some .lt) = true
    unfold compareReal at h ⊢
    split at h
    · exact h
    · exact h
    · exact hless _ _ _ (Int.mul_le_mul_of_nonneg_right hle (Int.natCast_nonneg _)) h

namespace Gate

/-- The second report is ready if the first is, scores as much and has no failure of its own. -/
structure NoWorse (first second : Report) : Prop where
  ready : first.isReady = true → second.isReady = true
  score : first.score.value ≤ second.score.value
  clean : first.hasFailures = false → second.hasFailures = false

theorem passed_iff {reports : List Report} {minReady minAverage : Quantity} :
    (evaluate reports minReady minAverage).passed = true ↔
      reports ≠ [] ∧ (∀ r ∈ reports, r.hasFailures = false) ∧
        (Quantity.whole (Decimal.roundDiv (100 * readyOf reports) reports.length)).below
          minReady = false ∧
        (Quantity.whole (Decimal.roundDiv (scoreSum reports) reports.length)).below
          minAverage = false := by
  cases reports with
  | nil => simp [evaluate]
  | cons r rest => simp [evaluate, reasonsFor, List.filter_eq_nil_iff]

section Lists

variable {first second : List Report}

theorem readyOf_le (h : List.Forall₂ NoWorse first second) : readyOf first ≤ readyOf second := by
  induction h with
  | nil => exact le_rfl
  | @cons r r' rest rest' hr _ ih =>
    simp only [readyOf, List.countP_cons] at ih ⊢
    cases hready : r.isReady with
    | false =>
      rw [if_neg Bool.false_ne_true]
      omega
    | true =>
      rw [hr.ready hready]
      omega

theorem scoreSum_cons (r : Report) (rest : List Report) :
    scoreSum (r :: rest) = r.score.value + scoreSum rest := by
  unfold scoreSum
  rw [List.map_cons, List.foldl_cons, Nat.add_comm 0]
  exact List.foldl_assoc

theorem scoreSum_le (h : List.Forall₂ NoWorse first second) :
    scoreSum first ≤ scoreSum second := by
  induction h with
  | nil => exact le_rfl
  | cons hr _ ih =>
    rw [scoreSum_cons, scoreSum_cons]
    exact Nat.add_le_add hr.score ih

theorem clean_of_noWorse (h : List.Forall₂ NoWorse first second)
    (hclean : ∀ r ∈ first, r.hasFailures = false) : ∀ r ∈ second, r.hasFailures = false := by
  induction h with
  | nil => exact hclean
  | cons hr _ ih =>
    rw [List.forall_mem_cons] at hclean ⊢
    exact ⟨hr.clean hclean.1, ih hclean.2⟩

end Lists

/-- A list that passes still does when each report is replaced by one that is no worse.  A list in
another order gives the same gate, but for the reasons. -/
theorem improvement_passes (minReady minAverage : Quantity) :
    (∀ first second : List Report, List.Forall₂ NoWorse first second →
      (evaluate first minReady minAverage).passed = true →
        (evaluate second minReady minAverage).passed = true) ∧
      ∀ first second : List Report, first.Perm second →
        { evaluate first minReady minAverage with reasons := [] } =
          { evaluate second minReady minAverage with reasons := [] } := by
  constructor
  · intro first second h hpassed
    obtain ⟨hne, hclean, hready, haverage⟩ := passed_iff.mp hpassed
    have hlength := h.length_eq
    have hpos : 0 < first.length := List.length_pos_iff.mpr hne
    have hstill : ∀ {num num' : Nat} {q : Quantity}, num ≤ num' →
        (Quantity.whole (Decimal.roundDiv num first.length)).below q = false →
        (Quantity.whole (Decimal.roundDiv num' second.length)).below q = false := by
      intro num num' q hle hbelow
      rw [← hlength, Bool.eq_false_iff]
      intro h'
      have hround := Decimal.roundDiv_mono hpos hle
      rw [Quantity.below_of_le (by exact_mod_cast hround) h'] at hbelow
      cases hbelow
    refine passed_iff.mpr ⟨?_, clean_of_noWorse h hclean, ?_, ?_⟩
    · exact List.length_pos_iff.mp (hlength ▸ hpos)
    · exact hstill (Nat.mul_le_mul_left 100 (readyOf_le h)) hready
    · exact hstill (scoreSum_le h) haverage
  · intro first second h
    have hready : readyOf first = readyOf second := h.countP_eq _
    have hsum : scoreSum first = scoreSum second :=
      (h.map _).foldl_eq' (fun _ _ _ _ _ => Nat.add_right_comm _ _ _) 0
    have hpassed : (evaluate first minReady minAverage).passed =
        (evaluate second minReady minAverage).passed := by
      rw [Bool.eq_iff_iff, passed_iff, passed_iff, hready, hsum, h.length_eq]
      simp only [h.mem_iff, ne_eq, ← List.isEmpty_iff, h.isEmpty_eq]
    unfold evaluate at hpassed ⊢
    rw [h.isEmpty_eq] at hpassed ⊢
    split
    · rfl
    · rename_i hne
      rw [if_neg hne, if_neg hne] at hpassed
      simp only [h.length_eq, hready, hsum]
      exact congrArg (Gate.mk · _ _ _ _ _) hpassed

def scored (score : Int) : Report :=
  { target := "f()", score := Score.clamp score, isReady := 80 ≤ score, issues := [], timestamp := "" }

theorem scored_passes :
    let gate := fun scores => evaluate (scores.map scored) (.whole 50) (.whole 70)
    (gate [60, 80]).passed = true ∧ (gate [70, 95]).passed = true ∧
      (gate [95, 70]).averageScore = (gate [70, 95]).averageScore := by
  intro gate
  obtain ⟨hbetter, horder⟩ := improvement_passes (.whole 50) (.whole 70)
  have hfirst : (gate [60, 80]).passed = true := by decide
  have hswapped := horder [scored 95, scored 70] [scored 70, scored 95] (.swap _ _ [])
  refine ⟨hfirst, hbetter _ _ ?_ hfirst, (Gate.mk.inj hswapped).2.2.2.2.1⟩
  exact .cons ⟨by decide, by decide, by decide⟩ (.cons ⟨by decide, by decide, by decide⟩ .nil)

end Gate
end Readiness
