import Mathlib.Algebra.Group.Basic
import Mathlib.Algebra.Group.Int.Defs
import Mathlib.Tactic.Tauto
import Readiness.Report.Comparison

/-!
# Comparing two reports both ways

Over exact numbers the comparison of `b` with `a` undoes that of `a` with `b`, and comparisons add
up along three reports (`compareBy_antisymm`).  Figures are read by their names, so that what a
report lacks has no change.
-/

namespace Readiness.Report

open List

section Deltas

variable {ν : Type} {sub : ν → ν → ν} {key : String}

theorem lookup_map_snd {α β : Type} (f : α → β) : ∀ l : List (String × α),
    (l.map fun (name, x) => (name, f x)).lookup key = (l.lookup key).map f
  | [] => rfl
  | (name, x) :: rest => by
    by_cases hname : key = name
    · simp [hname]
    · simp [lookup_cons, beq_false_of_ne hname, lookup_map_snd f rest]

/-- The change of a figure is known where both sides have it. -/
theorem lookup_metricDeltas (new : List (String × ν)) : ∀ old : List (String × ν),
    (metricDeltas sub old new).lookup key =
      (old.lookup key).bind fun before => (new.lookup key).map fun after => sub after before
  | [] => rfl
  | (name, before) :: rest => by
    have ih := lookup_metricDeltas new rest
    unfold metricDeltas at ih ⊢
    by_cases hname : key = name
    · subst hname
      cases hnew : new.lookup key <;> simp [hnew, ih]
    · cases hnew : new.lookup name <;>
        simp [hnew, lookup_cons, beq_false_of_ne hname, ih]

end Deltas

theorem mem_issuesBeyond {r other : Report} {i : Text} :
    i ∈ r.issuesBeyond other ↔ i ∈ r.issues ∧ i ∉ other.issues := by
  simp [issuesBeyond]

/-- Exact comparisons give the change of every figure that both reports have and of no other.  They
are antisymmetric: the score, the figures, the issues and the verdicts of one are those of the other
turned round.  The issues that came and went lead from one report to the other, and the changes of a
figure that three reports have are there and add up. -/
theorem compareBy_antisymm {ν : Type} [AddCommGroup ν] (exact : Quantity → ν) (a b c : Report) :
    let compared := compareBy (· - ·) fun r => r.metrics.map fun (name, q) => (name, exact q)
    (compared b a).scoreDelta = -(compared a b).scoreDelta ∧
      (∀ key, (compared a b).metricDeltas.lookup key = (a.metrics.lookup key).bind fun before =>
        (b.metrics.lookup key).map fun after => exact after - exact before) ∧
      (∀ key, (compared b a).metricDeltas.lookup key =
        ((compared a b).metricDeltas.lookup key).map (- ·)) ∧
      (compared b a).addedIssues = (compared a b).removedIssues ∧
      (compared b a).removedIssues = (compared a b).addedIssues ∧
      (compared b a).improved = (compared a b).regressed ∧
      (compared b a).regressed = (compared a b).improved ∧
      (∀ i, i ∈ b.issues ↔ i ∈ a.issues ∧ i ∉ (compared a b).removedIssues ∨
        i ∈ (compared a b).addedIssues) ∧
      ∀ key x y z, a.metrics.lookup key = some x → b.metrics.lookup key = some y →
        c.metrics.lookup key = some z → ∃ first second,
          (compared a b).metricDeltas.lookup key = some first ∧
          (compared b c).metricDeltas.lookup key = some second ∧
          (compared a c).metricDeltas.lookup key = some (first + second) := by
  intro compared
  have hdelta : ∀ r s : Report, ∀ key, (compared r s).metricDeltas.lookup key =
      (r.metrics.lookup key).bind fun before => (s.metrics.lookup key).map fun after =>
        exact after - exact before := fun r s key => by
    change (metricDeltas _ _ _).lookup key = _
    rw [lookup_metricDeltas, lookup_map_snd, lookup_map_snd, Option.bind_map]
    simp only [Option.map_map, Function.comp_def]
  have hscore : ∀ r s, (compared s r).scoreDelta = -(compared r s).scoreDelta := fun r s =>
    (Int.neg_sub (s.score.value : Int) r.score.value).symm
  have hverdict : ∀ r s, (compared s r).improved = (compared r s).regressed := fun r s => by
    unfold Comparison.improved Comparison.regressed
    rw [hscore, decide_eq_decide.mpr Int.neg_pos]
    rfl
  refine ⟨hscore a b, hdelta a b, fun key => ?_, rfl, rfl, hverdict a b, (hverdict b a).symm,
    fun i => ?_, fun key x y z hx hy hz => ?_⟩
  · rw [hdelta, hdelta]
    cases a.metrics.lookup key <;> cases b.metrics.lookup key <;> simp
  · change _ ↔ _ ∧ i ∉ a.issuesBeyond b ∨ i ∈ b.issuesBeyond a
    rw [mem_issuesBeyond, mem_issuesBeyond]
    tauto
  · refine ⟨exact y - exact x, exact z - exact y, ?_, ?_, ?_⟩
    · rw [hdelta, hx, hy]
      rfl
    · rw [hdelta, hy, hz]
      rfl
    · rw [hdelta, hx, hz, add_comm, sub_add_sub_cancel]
      rfl

/-- A report on a function with so many leaks. -/
def leaking (leaks : Nat) : Report :=
  { target := "f()", score := Score.clamp (100 - 10 * leaks), isReady := leaks == 0
    issues := if leaks = 0 then [] else ["leaks"]
    lifetimes := some { events := [], leaks, doubleReleases := 0, proper := 0 }, timestamp := "" }

def wholePart : Quantity → Int
  | .whole n => n
  | _ => 0

theorem leaking_antisymm :
    let compared := compareBy (· - ·) fun r => r.metrics.map fun (name, q) => (name, wholePart q)
    let changes := fun m n => (compared (leaking m) (leaking n)).metricDeltas.lookup
      "lifetimes.potential_leaks"
    changes 1 3 = some 2 ∧ changes 3 1 = some (-2) ∧
      ∃ first second, changes 1 3 = some first ∧ changes 3 0 = some second ∧
        changes 1 0 = some (first + second) := by
  intro compared changes
  have hmetric : ∀ leaks, (leaking leaks).metrics.lookup "lifetimes.potential_leaks" =
      some (.whole leaks) := fun leaks => rfl
  obtain ⟨-, hdelta, hback, -, -, -, -, -, hsum⟩ :=
    compareBy_antisymm wholePart (leaking 1) (leaking 3) (leaking 0)
  have hchange : changes 1 3 = some 2 := by
    rw [show changes 1 3 = _ from hdelta _, hmetric, hmetric]
    rfl
  refine ⟨hchange, ?_, hsum _ _ _ _ (hmetric 1) (hmetric 3) (hmetric 0)⟩
  calc
    changes 3 1 = (changes 1 3).map (- ·) := hback _
    _ = some (-2) := by rw [hchange]; rfl

end Readiness.Report
