import Readiness.Folding.Facts
import Readiness.Proofs.Const.Renaming
import Readiness.Proofs.Flow.Worklist

/-!
# Merging what is known

Merged facts have grown, and they absorb what was sent: a name that was sent as known
varies afterwards, is known in the same way, or in a way that agrees.  Merging makes no birth.
-/

namespace Readiness.Folding

open Table

/-- Facts grow: a known name stays as it is or varies. -/
def Grows (old new : Facts) : Prop :=
  ∀ x k, old.get? x = some k → new.get? x = some k ∨ new.get? x = some .varies

def Known.StandsFor (now sent : Known) : Prop :=
  now = .varies ∨ now = sent ∨ now.agrees sent = true

/-- Facts that have taken in other ones: each name that was sent stands in them. -/
def Absorbs (now sent : Facts) : Prop :=
  ∀ x k, sent.get? x = some k → ∃ k', now.get? x = some k' ∧ k'.StandsFor k

/-- Something holds of every name with a known constant. -/
def Each (P : String → Const → Prop) (facts : Facts) : Prop :=
  ∀ e ∈ facts.entries, ∀ c, e.2 = .const c → P e.1 c

/-- Whether all births in the facts are of rounds between two bounds. -/
def Dated (low high : Nat) : Facts → Prop :=
  Each fun _ c => ∀ r ∈ c.rounds, low ≤ r ∧ r < high

theorem mergeKnown_none (new : Known) : mergeKnown none new = new := rfl

theorem mergeKnown_some (old new : Known) :
    mergeKnown (some old) new = old ∨ mergeKnown (some old) new = .varies := by
  cases old with
  | varies => exact .inl rfl
  | const c =>
    simp only [mergeKnown]
    split
    · exact .inl rfl
    · exact .inr rfl

theorem standsFor_mergeKnown (old : Option Known) (new : Known) :
    (mergeKnown old new).StandsFor new := by
  cases old with
  | none => exact .inr (.inl rfl)
  | some old =>
    cases old with
    | varies => exact .inl rfl
    | const c =>
      simp only [mergeKnown]
      split
      · rename_i h
        exact .inr (.inr h)
      · exact .inl rfl

theorem Grows.refl (facts : Facts) : Grows facts facts := fun _ _ h => .inl h

variable {a b : Facts}

theorem Grows.trans {c : Facts} (hab : Grows a b) (hbc : Grows b c) : Grows a c := by
  intro x k h
  rcases hab x k h with h | h
  · exact hbc x k h
  · exact .inr ((hbc x .varies h).elim id id)

theorem Absorbs.self (facts : Facts) : Absorbs facts facts :=
  fun _ k h => ⟨k, h, .inr (.inl rfl)⟩

theorem Absorbs.of_grows {sent : Facts} (h : Absorbs a sent) (hab : Grows a b) :
    Absorbs b sent := by
  intro x k hk
  obtain ⟨k', hk', hstands⟩ := h x k hk
  rcases hab x k' hk' with h | h
  · exact ⟨k', h, hstands⟩
  · exact ⟨.varies, h, .inl rfl⟩

def mergeEntry (facts : Facts) (e : String × Known) : Facts :=
  facts.set e.1 (mergeKnown (facts.get? e.1) e.2)

theorem merge_eq_foldl (a b : Facts) : merge a b = b.entries.foldl mergeEntry a := rfl

theorem grows_mergeEntry (facts : Facts) (e : String × Known) :
    Grows facts (mergeEntry facts e) := by
  intro x k h
  by_cases hx : x = e.1
  · subst hx
    simp only [mergeEntry, get?_set_self, h]
    exact (mergeKnown_some k e.2).imp (congrArg some) (congrArg some)
  · exact .inl ((get?_set_of_ne _ hx _).trans h)

theorem grows_foldl (entries : List (String × Known)) (facts : Facts) :
    Grows facts (entries.foldl mergeEntry facts) := by
  induction entries generalizing facts with
  | nil => exact .refl facts
  | cons e rest ih => exact (grows_mergeEntry facts e).trans (ih _)

variable {x : String}

theorem standsFor_foldl {entries : List (String × Known)} {k : Known} (h : (x, k) ∈ entries)
    (facts : Facts) : ∃ k', (entries.foldl mergeEntry facts).get? x = some k' ∧ k'.StandsFor k := by
  induction entries generalizing facts with
  | nil => cases h
  | cons e rest ih =>
    rcases List.mem_cons.1 h with rfl | h
    · have hnow : (mergeEntry facts (x, k)).get? x = some (mergeKnown (facts.get? x) k) :=
        get?_set_self _ _ _
      rcases grows_foldl rest _ x _ hnow with hlater | hlater
      · exact ⟨_, hlater, standsFor_mergeKnown _ k⟩
      · exact ⟨.varies, hlater, .inl rfl⟩
    · exact ih h _

theorem absorbs_merge (a b : Facts) : Absorbs (merge a b) b := by
  intro x k h
  exact standsFor_foldl (mem_entries_of_get? h) a

/-- Facts that merging leaves the same had taken in what was sent. -/
theorem absorbs_of_sameFacts {old sent : Facts} (h : sameFacts (merge old sent) old = true) :
    Absorbs old sent := by
  intro x k hk
  obtain ⟨now, hnow, hstands⟩ := absorbs_merge old sent x k hk
  simp only [sameFacts, Bool.and_eq_true, List.all_eq_true] at h
  have hx := h.2 _ (mem_entries_of_get? hnow)
  cases hold : old.get? x with
  | none => simp [hold] at hx
  | some before =>
    -- what was known before is still known, or varied before as well
    rcases grows_foldl sent.entries old x before hold with hsame | hvaries
    · rw [← merge_eq_foldl, hnow] at hsame
      exact ⟨before, rfl, Option.some.inj hsame ▸ hstands⟩
    · rw [← merge_eq_foldl, hnow] at hvaries
      simp only [hold, Option.map_some, Option.getD_some, Option.some.inj hvaries] at hx
      cases before with
      | varies => exact ⟨.varies, rfl, .inl rfl⟩
      | const c => cases hx

theorem merging : Flow.Merging merge sameFacts Grows Absorbs where
  refl := .refl
  trans := .trans
  absorbs_self := .self
  absorbs_of_grows := .of_grows
  grows_merge old sent := grows_foldl sent.entries old
  absorbs_merge := absorbs_merge
  absorbs_of_same := absorbs_of_sameFacts

/-! ### Known constants -/

section Each

variable {P : String → Const → Prop} {facts : Facts}

theorem Each.get (h : Each P facts) {c : Const} (hx : facts.get? x = some (.const c)) : P x c :=
  h _ (mem_entries_of_get? hx) c rfl

theorem Each.set (h : Each P facts) {k : Known} (hk : ∀ c, k = .const c → P x c) :
    Each P (facts.set x k) := by
  intro e he
  rcases mem_entries_set he with rfl | he
  · exact hk
  · exact h e he

theorem Each.merge (ha : Each P a) (hb : Each P b) : Each P (merge a b) := by
  rw [merge_eq_foldl]
  unfold Each at hb
  generalize b.entries = entries at hb
  induction entries generalizing a with
  | nil => exact ha
  | cons e rest ih =>
    refine ih (ha.set fun c hc => ?_) fun e' he' => hb e' (List.mem_cons_of_mem _ he')
    cases hold : a.get? e.1 with
    | none =>
      rw [hold, mergeKnown_none] at hc
      exact hb e List.mem_cons_self c hc
    | some old =>
      rw [hold] at hc
      rcases mergeKnown_some old e.2 with h | h
      · rw [h] at hc
        exact ha.get (hold.trans (congrArg some hc))
      · rw [h] at hc
        cases hc

end Each

theorem Dated.mono {low low' high : Nat} {facts : Facts} (h : Dated low high facts)
    (hlow : low' ≤ low) : Dated low' high facts := by
  intro e he c hc r hr
  have := h e he c hc r hr
  omega

end Readiness.Folding
