import Mathlib.Logic.Relation
import Readiness.Flow.Values
import Readiness.Proofs.Distinct

/-!
# Closures of names

With enough room `close` gives the names that can be reached from its roots
(`mem_close_iff`).  The names in `reaching` are those to which aliases and holders lead
(`mem_reaching_iff`).
-/

open Relation (ReflTransGen)

namespace Readiness.Flow

open List
variable {name : String} {pool : List String}

namespace Values

/-- The state of a closure: what has been seen is waiting or has been followed. -/
structure Closing (next : String → List String) (pool queue seen : List String) : Prop where
  nodup : seen.Nodup
  pool : ∀ x ∈ seen, x ∈ pool
  followed : ∀ x ∈ seen, x ∈ queue ∨ ∀ y ∈ next x, y ∈ seen

def fresh (next : String → List String) (name : String) (seen : List String) : List String :=
  (next name).eraseDups.filter fun n => !seen.contains n

variable {next : String → List String}

theorem mem_fresh {x : String} {seen : List String} :
    x ∈ fresh next name seen ↔ x ∈ next name ∧ x ∉ seen := by
  simp [fresh]

theorem closing_step {queue seen : List String} (hnext : ∀ x, ∀ y ∈ next x, y ∈ pool)
    (h : Closing next pool (name :: queue) seen) :
    Closing next pool (queue ++ fresh next name seen) (seen ++ fresh next name seen) := by
  refine ⟨?_, ?_, ?_⟩
  · refine nodup_append.mpr ⟨h.nodup, (nodup_eraseDups _).filter _, ?_⟩
    intro x hx y hy hxy
    exact (mem_fresh.mp hy).2 (hxy ▸ hx)
  · intro x hx
    rcases mem_append.mp hx with hx | hx
    · exact h.pool x hx
    · exact hnext name x (mem_fresh.mp hx).1
  · intro x hx
    rcases mem_append.mp hx with hx | hx
    · rcases h.followed x hx with hwait | hdone
      · rcases mem_cons.mp hwait with rfl | hwait
        · right
          intro y hy
          by_cases hy' : y ∈ seen
          · exact mem_append_left _ hy'
          · exact mem_append_right _ (mem_fresh.mpr ⟨hy, hy'⟩)
        · exact Or.inl (mem_append_left _ hwait)
      · exact Or.inr fun y hy => mem_append_left _ (hdone y hy)
    · exact Or.inl (mem_append_right _ hx)

/-- With enough room a closure keeps what it has seen and is closed at its end. -/
theorem close_closed (hnext : ∀ x, ∀ y ∈ next x, y ∈ pool) :
    ∀ (room : Nat) (queue seen : List String), Closing next pool queue seen →
      queue.length + pool.length ≤ room + seen.length →
      (∀ x ∈ seen, x ∈ close next room queue seen) ∧
        ∀ x ∈ close next room queue seen, ∀ y ∈ next x, y ∈ close next room queue seen
  | 0, queue, seen, h, hroom => by
    have hle : seen.length ≤ pool.length := length_le_of_nodup h.nodup h.pool
    have hnil : queue = [] := length_eq_zero_iff.mp (by omega)
    subst hnil
    refine ⟨fun _ => id, ?_⟩
    intro x hx
    exact (h.followed x hx).resolve_left not_mem_nil
  | room + 1, [], seen, h, _ => by
    refine ⟨fun _ => id, ?_⟩
    intro x hx
    exact (h.followed x hx).resolve_left not_mem_nil
  | room + 1, name :: queue, seen, h, hroom => by
    have hroom' : (queue ++ fresh next name seen).length + pool.length ≤
        room + (seen ++ fresh next name seen).length := by
      rw [length_cons] at hroom
      rw [length_append, length_append]
      omega
    obtain ⟨hkeep, hclosed⟩ := close_closed hnext room _ _ (closing_step hnext h) hroom'
    exact ⟨fun x hx => hkeep x (mem_append_left _ hx), hclosed⟩

/-- Everything in a closure can be reached from what had been seen. -/
theorem reaches_of_mem_close :
    ∀ (room : Nat) (queue seen : List String), (∀ x ∈ queue, x ∈ seen) →
      ∀ x ∈ close next room queue seen, ∃ r ∈ seen, ReflTransGen (fun a b => b ∈ next a) r x
  | 0, _, seen, _, x, hx | _ + 1, [], seen, _, x, hx => ⟨x, hx, .refl⟩
  | room + 1, name :: queue, seen, hqueue, x, hx => by
    have hqueue' : ∀ y ∈ queue ++ fresh next name seen, y ∈ seen ++ fresh next name seen := by
      intro y hy
      rcases mem_append.mp hy with hy | hy
      · exact mem_append_left _ (hqueue y (mem_cons_of_mem _ hy))
      · exact mem_append_right _ hy
    obtain ⟨r, hr, hpath⟩ := reaches_of_mem_close room _ _ hqueue' x hx
    rcases mem_append.mp hr with hr | hr
    · exact ⟨r, hr, hpath⟩
    · exact ⟨name, hqueue name mem_cons_self, hpath.head (mem_fresh.mp hr).1⟩

/-- With room for all names, a closure holds what can be reached from its roots. -/
theorem mem_close_iff {roots : List String} {room : Nat} (hnext : ∀ x, ∀ y ∈ next x, y ∈ pool)
    (hroots : ∀ x ∈ roots, x ∈ pool) (hnodup : roots.Nodup) (hroom : pool.length ≤ room)
    (x : String) :
    x ∈ close next room roots roots ↔
      ∃ r ∈ roots, ReflTransGen (fun a b => b ∈ next a) r x := by
  have hstart : Closing next pool roots roots := ⟨hnodup, hroots, fun _ => Or.inl⟩
  obtain ⟨hkeep, hclosed⟩ := close_closed hnext room roots roots hstart (by omega)
  constructor
  · exact reaches_of_mem_close room roots roots (fun _ => id) x
  · rintro ⟨r, hr, hpath⟩
    induction hpath with
    | refl => exact hkeep r hr
    | tail _ hstep ih => exact hclosed _ ih _ hstep

/-! ## Reaching names -/

/-- A value may pass from one name to another one: as an alias, or into a holder. -/
def Flows (v : Values) (a b : String) : Prop := b ∈ v.aliases.of a ∨ b ∈ v.hold.of a

theorem mem_values_of_get? {r : Relation String} {l : List String} (h : r.get? name = some l) :
    l ∈ r.values := by
  exact mem_map.2 ⟨(name, l), Table.mem_entries_of_get? h, rfl⟩

theorem mem_flatten_of_mem_of {r : Relation String} {x : String} (h : x ∈ r.of name) :
    x ∈ r.values.flatten := by
  unfold Relation.of at h
  cases hget : r.get? name with
  | none => simp [hget] at h
  | some l =>
    rw [hget] at h
    exact mem_flatten.mpr ⟨l, mem_values_of_get? hget, h⟩

theorem length_flatten_eq (r : Relation String) :
    r.values.flatten.length = (r.values.map List.length).foldl (· + ·) 0 := by
  rw [length_flatten, sum_eq_foldl]

/-- The names that may hold or contain a value are those to which it may pass. -/
theorem mem_reaching_iff (v : Values) (name x : String) :
    x ∈ v.reaching name ↔ ReflTransGen v.Flows name x := by
  have hnext : ∀ n, ∀ y ∈ v.aliases.of n ++ v.hold.of n,
      y ∈ [name] ++ (v.aliases.values.flatten ++ v.hold.values.flatten) := by
    intro n y hy
    refine mem_append_right _ (mem_append.mpr ?_)
    exact (mem_append.mp hy).imp mem_flatten_of_mem_of mem_flatten_of_mem_of
  have hroom : ([name] ++ (v.aliases.values.flatten ++ v.hold.values.flatten)).length ≤
      v.room 1 := by
    simp only [length_append, length_singleton, length_flatten_eq, room]
    omega
  have hclose := mem_close_iff hnext (fun y hy => mem_append_left _ hy)
    (nodup_singleton name) hroom x
  have hflows : (fun a b => b ∈ v.aliases.of a ++ v.hold.of a) = v.Flows := by
    funext a b
    rw [mem_append, Flows]
  rw [reaching, hclose, hflows]
  simp

end Values
end Readiness.Flow
