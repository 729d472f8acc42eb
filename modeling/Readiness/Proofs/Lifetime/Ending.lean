import Mathlib.Data.Finset.Powerset
import Mathlib.Data.Fintype.BigOperators
import Mathlib.Data.Fintype.Option
import Readiness.Proofs.Lifetime.Termination

/-!
# Every walk ends

The number of states is bounded (`length_le_stateBound`), a walk without a limit is a walk
with that limit (`walkFor_none_eq`), and the queue of every walk becomes empty within the steps that
it is given (`walk_ends`).
-/

namespace Readiness.Lifetime

open Graph (Statement Edge)
open List Finset

variable {g : Graph} {k : Setting} {limit : Option Nat} {w w' : Walk} {b : Nat} {s t : State}

/-! ## Test outcomes in order -/

/-- A state that can arise in a graph and has its test outcomes in order. -/
structure State.Ordered (g : Graph) (s : State) : Prop extends s.Within g where
  facts_pairwise : s.facts.Pairwise (pairLe · · = true)

theorem ordered_empty (g : Graph) : State.empty.Ordered g :=
  ⟨within_empty g, List.Pairwise.nil⟩

theorem State.Ordered.join (h : s.Ordered g) (h' : t.Ordered g) : (s.join t).Ordered g :=
  ⟨h.toWithin.join h'.toWithin, h.facts_pairwise.filter _⟩

theorem facts_rebind_sublist (s : State) (name : String) (is : List Int) :
    (s.rebind name is).facts.Sublist s.facts := filter_sublist

/-- A statement records no test outcome; it may forget some. -/
theorem facts_step_sublist (k : Setting) (s : State) (a : Statement) :
    (step k (.blank, s) a).2.facts.Sublist s.facts := by
  have hmeet : ∀ candidates, (meet a .blank s candidates).2.facts.Sublist s.facts := by
    intro candidates
    unfold meet
    cases candidates.getLast? <;> exact .refl _
  unfold step
  dsimp only
  split
  · unfold allocate
    cases a.target with
    | none =>
      dsimp only
      split <;> exact .refl _
    | some name =>
      refine (facts_rebind_sublist _ _ _).trans ?_
      split <;> exact .refl _
  · split
    · unfold release
      split
      · exact facts_rebind_sublist _ _ _
      · exact hmeet _
      · exact hmeet _
    · split
      · exact .refl _
      · split <;> exact facts_rebind_sublist _ _ _

theorem facts_advance_sublist (k : Setting) (statements : List Statement) (s : State) :
    (advance k s statements).facts.Sublist s.facts := by
  induction statements generalizing s with
  | nil => exact .refl _
  | cons a rest ih =>
    rw [advance_cons]
    exact (ih _).trans (facts_step_sublist k s a)

/-- Every block with an edge behind it keeps states ordered. -/
theorem State.Ordered.edge {e : Edge} (h : s.Ordered g)
    (ht : refine (g.statementsOf b) e (after g k b s) = some t) : t.Ordered g := by
  refine ⟨within_refine (within_after b h.toWithin) ht, ?_⟩
  rcases refine_cases ht with rfl | ⟨_, _, _, -, -, -, rfl⟩
  · exact h.facts_pairwise.sublist (facts_advance_sublist k _ s)
  · exact pairwise_orderedPairs _

/-! ## The number of states -/

/-- The pointers that a state can have. -/
def allAliases (g : Graph) : Finset (String × Int) :=
  (names g).toFinset ×ˢ (released :: sites g).toFinset

/-- The test outcomes that a state can have. -/
def allFacts (g : Graph) : Finset (String × Bool) := (names g).toFinset ×ˢ Finset.univ

/-- What a state says: which allocation is open at which place, and which pointers and test outcomes
it has. -/
def State.content (g : Graph) (s : State) :
    (Fin (sites g).length → Option Int) × Finset (String × Int) × Finset (String × Bool) :=
  (fun i => s.opened[i.1]?, s.aliases.toFinset, s.facts.toFinset)

/-- All that a state can say. -/
def contents (g : Graph) :
    Finset ((Fin (sites g).length → Option Int) × Finset (String × Int) ×
      Finset (String × Bool)) :=
  Fintype.piFinset (fun _ => Finset.insertNone (sites g).toFinset) ×ˢ
    (allAliases g).powerset ×ˢ (allFacts g).powerset

theorem content_mem_contents (h : s.Within g) : s.content g ∈ contents g := by
  simp only [contents, State.content, Finset.mem_product, Fintype.mem_piFinset,
    mem_insertNone, mem_powerset]
  refine ⟨fun i site hsite => ?_, fun p hp => ?_, fun f hf => ?_⟩
  · exact mem_toFinset.mpr (h.opened_sites site (mem_of_getElem? hsite))
  · obtain ⟨hname, hsite⟩ := h.aliases_names p (mem_toFinset.mp hp)
    exact Finset.mem_product.mpr ⟨mem_toFinset.mpr hname, mem_toFinset.mpr hsite⟩
  · have hname := h.facts_names f (mem_toFinset.mp hf)
    exact Finset.mem_product.mpr ⟨mem_toFinset.mpr hname, mem_univ _⟩

/-- Ordered states that say the same are the same. -/
theorem eq_of_content_eq (hs : s.Ordered g) (ht : t.Ordered g) (h : s.content g = t.content g) :
    s = t := by
  obtain ⟨hopened, haliases, hfacts⟩ : _ ∧ _ ∧ _ := by simpa [State.content] using h
  have hlen : ∀ {u : State}, u.Ordered g → u.opened.length ≤ (sites g).length := by
    intro u hu
    exact length_le_of_nodup hu.opened_nodup hu.opened_sites
  have h1 : s.opened = t.opened := by
    refine ext_getElem? fun i => ?_
    by_cases hi : i < (sites g).length
    · exact congrFun hopened ⟨i, hi⟩
    · have hs' := hlen hs
      have ht' := hlen ht
      rw [getElem?_eq_none (by omega), getElem?_eq_none (by omega)]
  have h2 : s.aliases = t.aliases := by
    have hperm := perm_of_nodup_nodup_toFinset_eq hs.aliases_nodup ht.aliases_nodup haliases
    exact eq_of_pairwise_pairLe hperm hs.aliases_pairwise ht.aliases_pairwise
  have h3 : s.facts = t.facts := by
    have hperm := perm_of_nodup_nodup_toFinset_eq hs.facts_nodup ht.facts_nodup hfacts
    exact eq_of_pairwise_pairLe hperm hs.facts_pairwise ht.facts_pairwise
  cases s
  cases t
  simp_all

theorem card_contents_le (g : Graph) : (contents g).card ≤ stateBound g := by
  have hsites : (sites g).toFinset.card ≤ (sites g).length := toFinset_card_le _
  have hnames : (names g).toFinset.card ≤ (names g).length := toFinset_card_le _
  have htargets : (released :: sites g).toFinset.card ≤ (sites g).length + 1 :=
    toFinset_card_le _
  have hopened : ((sites g).toFinset.card + 1) ^ (sites g).length ≤
      2 ^ ((sites g).length * (sites g).length) := by
    rw [Nat.pow_mul]
    refine Nat.pow_le_pow_left ?_ _
    have := Nat.lt_two_pow_self (n := (sites g).length)
    omega
  have haliases : (allAliases g).card ≤ (names g).length * ((sites g).length + 1) := by
    rw [allAliases, card_product]
    exact Nat.mul_le_mul hnames htargets
  have hfacts : (allFacts g).card ≤ (names g).length * 2 := by
    rw [allFacts, card_product]
    exact Nat.mul_le_mul hnames (le_of_eq (by decide))
  calc (contents g).card
      = ((sites g).toFinset.card + 1) ^ (sites g).length *
          (2 ^ (allAliases g).card * 2 ^ (allFacts g).card) := by
        simp [contents]
    _ ≤ 2 ^ ((sites g).length * (sites g).length) *
          (2 ^ ((names g).length * ((sites g).length + 1)) * 2 ^ ((names g).length * 2)) := by
        gcongr <;> norm_num
    _ = _ := by
        rw [← Nat.pow_add, ← Nat.pow_add]
        rfl

/-- A list of ordered states without repetition is no longer than the bound. -/
theorem length_le_stateBound {states : List State} (hnodup : states.Nodup)
    (hordered : ∀ s ∈ states, s.Ordered g) : states.length ≤ stateBound g := by
  rw [← toFinset_card_of_nodup hnodup]
  refine (card_le_card_of_injOn (State.content g) ?_ ?_).trans (card_contents_le g)
  · intro s hs
    exact content_mem_contents (hordered s (by simpa using hs)).toWithin
  · intro s hs t ht
    exact eq_of_content_eq (hordered s (by simpa using hs)) (hordered t (by simpa using ht))

/-! ## Walks without a limit -/

def Walk.Distinct (g : Graph) (w : Walk) : Prop := w.Each fun _ s => s.Ordered g

theorem distinct_next? (hw : w.Distinct g) (h : w.next? g k limit = some w') : w'.Distinct g :=
  (each_next? (I := fun _ => True) (fun _ _ _ _ => State.Ordered.join) (fun hs _ => hs.edge)
    (fun _ => id) hw trivial h).1

/-- No block ever has as many states as the bound says when one more arrives. -/
theorem accept_none_eq (hw : w.Distinct g) (hs : s.Ordered g) :
    accept none w b s = accept (some (stateBound g)) w b s := by
  by_cases hknown : s ∈ w.statesAt b
  · simp [accept, hknown]
  · have hlen : (s :: w.statesAt b).length ≤ stateBound g := by
      refine length_le_stateBound (nodup_cons.mpr ⟨hknown, hw.nodup b⟩) ?_
      intro t ht
      rcases mem_cons.mp ht with rfl | ht
      · exact hs
      · exact hw.kept b t ht
    have hfull : isFull (some (stateBound g)) (w.statesAt b) = false :=
      decide_eq_false (Nat.not_le_of_lt hlen)
    unfold accept
    simp only [hfull]
    rfl

theorem next?_none_eq (hw : w.Distinct g) :
    w.next? g k none = w.next? g k (some (stateBound g)) := by
  unfold Walk.next?
  cases hq : w.queue with
  | nil => rfl
  | cons first rest =>
    obtain ⟨b, s⟩ := first
    obtain ⟨hs, hpop⟩ := hw.pop hq
    simp only [accept_none_eq hpop hs]

/-- A walk without a limit is a walk with the number of states as its limit. -/
theorem walkFor_none_eq (n : Nat) (hw : w.Distinct g) :
    walkFor g k none n w = walkFor g k (some (stateBound g)) n w := by
  induction n generalizing w with
  | zero => rfl
  | succ n ih =>
    unfold walkFor
    rw [next?_none_eq hw]
    cases hnext : w.next? g k (some (stateBound g)) with
    | none => rfl
    | some w' => exact ih (distinct_next? hw hnext)

/-- Nothing waits when a walk stops, with a limit or without one. -/
theorem queue_walkFor_eq_nil (g : Graph) (k : Setting) (limit : Option Nat) :
    (walkFor g k limit (stepBound g limit) .start).queue = [] := by
  cases limit with
  | some n => exact queue_walkFor_stepBound g k n
  | none =>
    rw [walkFor_none_eq _ (each_start (ordered_empty g))]
    exact queue_walkFor_stepBound g k (stateBound g)

/-! ## Steps -/

inductive Steps (g : Graph) (k : Setting) (limit : Option Nat) : Nat → Walk → Walk → Prop
  | done (w : Walk) : Steps g k limit 0 w w
  | next {n : Nat} {w₁ w₂ w₃ : Walk} : w₁.next? g k limit = some w₂ → Steps g k limit n w₂ w₃ →
    Steps g k limit (n + 1) w₁ w₃

theorem exists_steps_walkFor (g : Graph) (k : Setting) (limit : Option Nat) (bound : Nat) (w : Walk) :
    ∃ n ≤ bound, Steps g k limit n w (walkFor g k limit bound w) := by
  induction bound generalizing w with
  | zero => exact ⟨0, Nat.le_refl 0, .done w⟩
  | succ bound ih =>
    unfold walkFor
    cases hnext : w.next? g k limit with
    | none => exact ⟨0, Nat.zero_le _, .done w⟩
    | some w' =>
      obtain ⟨n, hn, hsteps⟩ := ih w'
      exact ⟨n + 1, Nat.succ_le_succ hn, .next hnext hsteps⟩

/-- For every graph, whatever is handed to the caller and however many states a block keeps apart,
the queue becomes empty after a bounded number of steps, and `walk` gives what is found by then. -/
theorem walk_ends (g : Graph) (k : Setting) (limit : Option Nat) :
    ∃ n w, n ≤ stepBound g limit ∧ Steps g k limit n .start w ∧ w.queue = [] ∧
      walk g k limit = w.found := by
  obtain ⟨n, hn, hsteps⟩ := exists_steps_walkFor g k limit (stepBound g limit) .start
  exact ⟨n, _, hn, hsteps, queue_walkFor_eq_nil g k limit, rfl⟩

end Readiness.Lifetime
