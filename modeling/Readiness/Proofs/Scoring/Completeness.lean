import Mathlib.Algebra.Order.Field.Rat
import Mathlib.Tactic.Linarith
import Mathlib.Tactic.FieldSimp
import Mathlib.Tactic.Ring
import Readiness.Proofs.Gate.Passing
import Readiness.Scoring

/-!
# Scores over exact weights

Every category adds its weight to the score or has an issue, and the score is the sum of the weights
that were added, clamped and rounded (`score_complete`).  That weights sum to one hundred only
nearly does not show in the score of a function without issues.
-/

namespace Readiness

open List

namespace Decimal

/-- The integer is nearest to the number, and the even one when two are. -/
structure IsHalfEven (x : ℚ) (n : Int) : Prop where
  near : |x - n| ≤ 1 / 2
  even : |x - n| = 1 / 2 → 2 ∣ n

theorem IsHalfEven.le {x y : ℚ} {n m : Int} (hx : IsHalfEven x n) (hy : IsHalfEven y m)
    (h : x ≤ y) : n ≤ m := by
  by_contra hlt
  have hstep : ((m + 1 : Int) : ℚ) ≤ n := by exact_mod_cast not_le.mp hlt
  push_cast at hstep
  have hn := abs_le.mp hx.near
  have hm := abs_le.mp hy.near
  -- both numbers are half-way between two neighbours, and only one of these is even
  have hxn : x - n = -(1 / 2) := by linarith
  have hym : y - m = 1 / 2 := by linarith
  have heven := hx.even (by rw [hxn]; norm_num)
  have heven' := hy.even (by rw [hym]; norm_num)
  have hnm : n = m + 1 := by
    have : (n : ℚ) = ((m + 1 : Int) : ℚ) := by push_cast; linarith
    exact_mod_cast this
  omega

theorem isHalfEven_intCast (n : Int) : IsHalfEven n n := by
  constructor <;> norm_num

/-- The integer nearest to an exact number that is not negative, a half going to the even neighbour.
-/
def halfEven (x : ℚ) : Int := roundDiv x.num.toNat x.den

theorem isHalfEven_of_isNearest {num den : Nat} (hden : 0 < den) {n : Int}
    (h : IsNearest num den n) : IsHalfEven ((num : ℚ) / den) n := by
  have hpos : (0 : ℚ) < den := by exact_mod_cast hden
  obtain ⟨hlow, hhigh, heven⟩ := h
  have hlow' : (2 * num : ℚ) ≤ 2 * (n * den) + den := by exact_mod_cast hlow
  have hhigh' : 2 * (n * den) ≤ (2 * num : ℚ) + den := by exact_mod_cast hhigh
  have hdiff : (num : ℚ) / den - n = (num - n * den) / den := by field_simp
  constructor
  · rw [hdiff, abs_le, le_div_iff₀ hpos, div_le_iff₀ hpos]
    constructor <;> linarith
  · intro hhalf
    refine heven ?_
    rw [hdiff, abs_eq (by norm_num), div_eq_iff hpos.ne', div_eq_iff hpos.ne'] at hhalf
    refine hhalf.imp (fun h => ?_) fun h => ?_
    · have : (2 * num : ℚ) = 2 * (n * den) + den := by linarith
      exact_mod_cast this
    · have : 2 * (n * den) = (2 * num : ℚ) + den := by linarith
      exact_mod_cast this

theorem isHalfEven_halfEven {x : ℚ} (hx : 0 ≤ x) : IsHalfEven x (halfEven x) := by
  have hnear := isHalfEven_of_isNearest x.den_pos (isNearest_roundDiv x.num.toNat x.den_pos)
  have hnum : ((x.num.toNat : Nat) : ℚ) = x.num := by
    exact_mod_cast Int.toNat_of_nonneg (Rat.num_nonneg.mpr hx)
  rwa [hnum, Rat.num_div_den] at hnear

end Decimal

namespace Scoring

open Decimal (IsHalfEven halfEven isHalfEven_halfEven isHalfEven_intCast)

/-! ### Categories -/

/-- The weights that are added to the score. -/
def added (w : Weights ℚ) (p : Passed) : List ℚ :=
  [(p.abstractTypes, w.abstractTypes), (p.allocations, w.allocations),
    (p.dynamicDispatch, w.dynamicDispatch), (p.lifetimes, w.lifetimes),
    (p.constants, w.constants)].filterMap fun c => if c.1 then some c.2 else none

/-- Every category that passes first passes second too. -/
structure Passed.Within (p q : Passed) : Prop where
  abstractTypes : p.abstractTypes = true → q.abstractTypes = true
  allocations : p.allocations = true → q.allocations = true
  dynamicDispatch : p.dynamicDispatch = true → q.dynamicDispatch = true
  lifetimes : p.lifetimes = true → q.lifetimes = true
  constants : p.constants = true → q.constants = true

/-- Weights that are not negative and sum to one hundred, nearly. -/
structure Acceptable (w : Weights ℚ) : Prop where
  nonneg : ∀ p ∈ w.named, 0 ≤ p.2
  total : |w.total - 100| ≤ 1 / 1000000

theorem points_eq_sum (w : Weights ℚ) (p : Passed) : points w p = (added w p).sum := by
  obtain ⟨a, b, c, d, e⟩ := p
  cases a <;> cases b <;> cases c <;> cases d <;> cases e <;>
    simp [points, gain, added, add_assoc]

/-- An analysis fails, or something is held against the function, or the category passes. -/
theorem outcome_counts {α : Type} (outcome : Except Fault α) (issue : α → Option String) :
    ((if (faultOf? outcome).isSome then 1 else 0) +
      (if (complaint outcome issue).isSome then 1 else 0)) +
      (if passes outcome issue then 1 else 0) = 1 := by
  cases outcome with
  | error fault => simp [faultOf?, complaint, passes]
  | ok found => cases h : issue found <;> simp [faultOf?, complaint, passes, h]

theorem issues_add_added (w : Weights ℚ) (o : Outcomes) :
    o.issues.length + (added w o.passed).length = 5 := by
  have h₁ := outcome_counts o.specialisation abstractIssue
  have h₂ := outcome_counts o.escapes allocationIssue
  have h₃ := outcome_counts o.dispatches dispatchIssue
  have h₄ := outcome_counts o.lifetimes lifetimeIssue
  have h₅ : (if (faultOf? o.constants).isSome then 1 else 0) +
      (if (faultOf? o.constants).isNone then 1 else 0) = 1 := by
    cases faultOf? o.constants <;> rfl
  simp only [Outcomes.issues, Outcomes.failures, added, length_append, length_map,
    length_filterMap_eq_countP, Analysis.all, countP_cons, countP_nil, id,
    Outcomes.fault?, Option.isSome_map, Outcomes.passed]
  simp only [apply_ite Option.isSome, Option.isSome_some, Option.isSome_none, Bool.if_false_right,
    Bool.and_true, Bool.decide_eq_true]
  omega

/-! ### Scores -/

theorem limited_eq (x : ℚ) : limited x = max 0 (min 100 x) := by
  have hcapped : (if x < 100 then x else 100) = min 100 x := by
    split
    · rename_i h
      exact (min_eq_right h.le).symm
    · rename_i h
      exact (min_eq_left (not_lt.mp h)).symm
  unfold limited
  rw [hcapped]
  dsimp only
  split
  · rename_i h
    exact (max_eq_right h.le).symm
  · rename_i h
    exact (max_eq_left (not_lt.mp h)).symm

/-- The score is the nearest integer to the points, cut to the range of scores. -/
theorem isHalfEven_scoreBy (w : Weights ℚ) (p : Passed) :
    IsHalfEven (max 0 (min 100 (added w p).sum)) (scoreBy halfEven w p).value := by
  simp only [scoreBy, Score.clamp, limited_eq, points_eq_sum]
  have hlow : 0 ≤ max 0 (min 100 (added w p).sum) := le_max_left _ _
  have hhigh : max 0 (min 100 (added w p).sum) ≤ 100 := max_le (by norm_num) (min_le_left _ _)
  generalize max 0 (min 100 (added w p).sum) = x at hlow hhigh ⊢
  have hround := isHalfEven_halfEven hlow
  have hzero : 0 ≤ halfEven x := (isHalfEven_intCast 0).le hround hlow
  have hhundred : halfEven x ≤ 100 := hround.le (isHalfEven_intCast 100) hhigh
  have hvalue : ((min 100 (halfEven x).toNat : Nat) : Int) = halfEven x := by omega
  rw [hvalue]
  exact hround

variable {w : Weights ℚ}

/-- What the weights lack to one hundred is lost in rounding. -/
theorem eq_hundred_of_total (hw : Acceptable w) {n : Int}
    (h : IsHalfEven (max 0 (min 100 w.total)) n) : n = 100 := by
  have htotal := abs_le.mp hw.total
  have hlow : 100 - 1 / 1000000 ≤ max 0 (min 100 w.total) :=
    le_max_of_le_right (le_min (by norm_num) (by linarith))
  have hhigh : max 0 (min 100 w.total) ≤ 100 := max_le (by norm_num) (min_le_left _ _)
  have hfull : IsHalfEven (max 0 (min 100 w.total)) 100 := by
    refine ⟨?_, fun _ => by decide⟩
    rw [abs_le]
    push_cast
    constructor <;> linarith
  exact le_antisymm (h.le hfull le_rfl) (hfull.le h le_rfl)

theorem gain_le {passed passed' : Bool} (hpassed : passed = true → passed' = true) {weight : ℚ}
    (hweight : 0 ≤ weight) {sum sum' : ℚ} (hsum : sum ≤ sum') :
    gain passed weight sum ≤ gain passed' weight sum' := by
  unfold gain
  cases passed with
  | true =>
    rw [hpassed rfl]
    exact add_le_add_left hsum weight
  | false => cases passed' <;> simp <;> linarith

theorem points_le (hw : ∀ p ∈ w.named, 0 ≤ p.2) {p q : Passed} (h : p.Within q) :
    points w p ≤ points w q := by
  simp only [Weights.named, forall_mem_cons] at hw
  obtain ⟨hallocations, habstract, hdispatch, hlifetimes, hconstants, -⟩ := hw
  have hlast : ∀ p : Passed, points w p = gain p.constants w.constants (gain p.lifetimes w.lifetimes
      (gain p.dynamicDispatch w.dynamicDispatch (gain p.allocations w.allocations
        (gain p.abstractTypes w.abstractTypes 0)))) := by
    intro p
    unfold points
    cases p.constants <;> simp [gain]
  rw [hlast, hlast]
  exact gain_le h.constants hconstants (gain_le h.lifetimes hlifetimes (gain_le h.dynamicDispatch
    hdispatch (gain_le h.allocations hallocations (gain_le h.abstractTypes habstract le_rfl))))

theorem sum_added_of_length {p : Passed} (h : (added w p).length = 5) : (added w p).sum = w.total := by
  obtain ⟨a, b, c, d, e⟩ := p
  cases a <;> cases b <;> cases c <;> cases d <;> cases e <;> simp [added] at h
  simp [added, Weights.total, Weights.named]
  ring

theorem not_any_isFatal_iff (o : Outcomes) :
    (!o.failures.any Failure.isFatal) = true ↔ ∀ a, a ≠ .constants → o.fault? a = none := by
  rw [Bool.not_eq_true', any_eq_false]
  refine ⟨fun h a ha => ?_, fun h f hf => ?_⟩
  · by_contra hfault
    obtain ⟨fault, hfault⟩ := Option.ne_none_iff_exists'.mp hfault
    have hall : a ∈ Analysis.all := by cases a <;> decide
    have hfatal : isFatal a = true := by cases a <;> first | rfl | exact absurd rfl ha
    exact h _ (mem_filterMap.mpr ⟨a, hall, by rw [hfault]; rfl⟩) hfatal
  · obtain ⟨a, -, hf⟩ := mem_filterMap.mp hf
    obtain ⟨fault, hfault, rfl⟩ := Option.map_eq_some_iff.mp hf
    intro hfatal
    have ha : a ≠ .constants := by
      rintro rfl
      cases hfatal
    cases (h a ha).symm.trans hfault

/-- Every category has an issue or adds its weight.  The score is the sum of the weights added, cut
to the range of scores and rounded; it is one hundred, and the function ready, if there is no issue,
and does not fall when more categories pass.  Of all failures only that of the constants leaves a
function ready. -/
theorem score_complete {w : Weights ℚ} (hw : Acceptable w) {threshold : Quantity}
    (hthreshold : threshold.atMost (.whole 100) = true) (target timestamp : String)
    (o : Outcomes) :
    let report := composeBy halfEven w threshold target timestamp
    (report o).issues.length + (added w o.passed).length = 5 ∧
      (report o).score.value ≤ 100 ∧
      IsHalfEven (max 0 (min 100 (added w o.passed).sum)) (report o).score.value ∧
      ((report o).issues = [] → (report o).score.value = 100 ∧ (report o).isReady = true) ∧
      (∀ o', o.passed.Within o'.passed → (report o).score.value ≤ (report o').score.value) ∧
      ((report o).isReady = true ↔ threshold.atMost (.whole (report o).score.value) = true ∧
        ∀ a, a ≠ .constants → o.fault? a = none) := by
  intro report
  have hcount := issues_add_added w o
  have hround := isHalfEven_scoreBy w o.passed
  have hready : (report o).isReady = true ↔
      threshold.atMost (.whole (report o).score.value) = true ∧
        ∀ a, a ≠ .constants → o.fault? a = none := by
    rw [← not_any_isFatal_iff, ← Bool.and_eq_true]
    rfl
  refine ⟨hcount, (report o).score.value_le, hround, fun hclean => ?_, fun o' h => ?_, hready⟩
  · have hnone : o.issues = [] := hclean
    rw [hnone, length_nil, Nat.zero_add] at hcount
    rw [sum_added_of_length hcount] at hround
    have hvalue : (report o).score.value = 100 := by exact_mod_cast eq_hundred_of_total hw hround
    refine ⟨hvalue, hready.mpr ⟨?_, (not_any_isFatal_iff o).mp ?_⟩⟩
    · rw [hvalue]
      exact hthreshold
    · rw [map_eq_nil_iff.mp (append_eq_nil_iff.mp hnone).1]
      rfl
  · have hsum := points_le hw.nonneg h
    rw [points_eq_sum, points_eq_sum] at hsum
    exact_mod_cast hround.le (isHalfEven_scoreBy w o'.passed)
      (max_le_max_left 0 (min_le_min_left 100 hsum))

/-- Weights that miss one hundred by half of what is tolerated. -/
def slack : Weights ℚ := ⟨25, 20, 20, 20, 15 - 1 / 2000000⟩

/-- Outcomes with nothing to complain about. -/
def clean : Outcomes := ⟨.ok default, .ok default, .ok default, .ok default, .ok default⟩

theorem slack_score_complete : Acceptable slack ∧ clean.issues = [] ∧
    (composeBy halfEven slack (.whole 100) "f()" "" clean).score.value = 100 := by
  have hslack : Acceptable slack := by
    constructor
    · simp only [slack, Weights.named, forall_mem_cons, not_mem_nil]
      norm_num
    · norm_num [slack, Weights.total, Weights.named]
  have hclean : clean.issues = [] := rfl
  exact ⟨hslack, hclean,
    ((score_complete hslack (by decide) "f()" "" clean).2.2.2.1 hclean).1⟩

end Scoring

end Readiness
