import Mathlib.Data.List.Nodup
import Mathlib.Data.List.Perm.Subperm
import Readiness.Lifetime.Matching

/-!
# Lists without repetition

`eraseDups` keeps the members of a list in their order, each once, and leaves a list
without repetition alone.  A list without repetition is no longer than a list that has all its
members.
-/

namespace Readiness

open List

variable {α : Type} [BEq α] [LawfulBEq α]

omit [LawfulBEq α] in
theorem eraseDups_sublist : ∀ l : List α, l.eraseDups.Sublist l
  | [] => by simp
  | x :: rest => by
    rw [eraseDups_cons]
    exact ((eraseDups_sublist (rest.filter fun y => !y == x)).trans
      filter_sublist).cons_cons x
termination_by l => l.length
decreasing_by exact Nat.lt_succ_of_le (length_filter_le _ _)

theorem nodup_eraseDups : ∀ l : List α, l.eraseDups.Nodup
  | [] => by simp
  | x :: rest => by
    have hrest := nodup_eraseDups (rest.filter fun y => !y == x)
    have hx : x ∉ (rest.filter fun y => !y == x).eraseDups := by simp
    rw [eraseDups_cons]
    exact nodup_cons.mpr ⟨hx, hrest⟩
termination_by l => l.length
decreasing_by exact Nat.lt_succ_of_le (length_filter_le _ _)

theorem eraseDups_of_nodup {l : List α} (h : l.Nodup) : l.eraseDups = l := by
  have hperm : l.eraseDups.Perm l := by
    rw [perm_ext_iff_of_nodup (nodup_eraseDups l) h]
    intro x
    exact mem_eraseDups
  exact (eraseDups_sublist l).eq_of_length hperm.length_eq

omit [BEq α] [LawfulBEq α] in
theorem length_le_of_nodup {l m : List α} (h : l.Nodup) (hsub : ∀ x ∈ l, x ∈ m) :
    l.length ≤ m.length :=
  (h.subperm hsub).length_le

namespace Lifetime

variable {α β : Type} [LT α] [DecidableLT α] [DecidableEq α] [LE β] [DecidableLE β] [DecidableEq β]

@[simp] theorem mem_orderedPairs {p : α × β} {l : List (α × β)} : p ∈ orderedPairs l ↔ p ∈ l := by
  simp [orderedPairs]

theorem nodup_orderedPairs (l : List (α × β)) : (orderedPairs l).Nodup := nodup_eraseDups _

end Lifetime

end Readiness
