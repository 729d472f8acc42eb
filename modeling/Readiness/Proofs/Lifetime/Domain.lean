import Mathlib.Data.Prod.Lex
import Mathlib.Data.String.Basic
import Mathlib.Tactic.Linarith
import Readiness.Proofs.Distinct
import Readiness.Proofs.Lifetime.Steps

/-!
# The states of a function

On every path the open allocations, the pointers and the test outcomes come from the
statements of the graph, and none is listed twice (`State.Within`).  Every statement and every edge
keeps this (`within_step`, `within_refine`).  A state therefore has a bounded weight, and a join
that changes a state makes it heavier (`weight_lt_weight_join`).
-/

namespace Readiness.Lifetime

open Graph (Statement Edge Operand)
open List

/-! ## Pairs in order -/

section Order

variable {β : Type} [LinearOrder β]

def pairLe (a b : String × β) : Bool := decide (a.1 < b.1) || (a.1 == b.1 && decide (a.2 ≤ b.2))

theorem pairLe_iff (a b : String × β) : pairLe a b = true ↔ toLex a ≤ toLex b := by
  simp [pairLe, Prod.Lex.le_iff]

theorem pairwise_orderedPairs (l : List (String × β)) :
    (orderedPairs l).Pairwise (pairLe · · = true) := by
  refine (@pairwise_mergeSort _ pairLe ?_ ?_ l).sublist (eraseDups_sublist _)
  · intro a b c hab hbc
    rw [pairLe_iff] at hab hbc ⊢
    exact hab.trans hbc
  · intro a b
    rw [Bool.or_eq_true, pairLe_iff, pairLe_iff]
    exact le_total _ _

theorem eq_of_pairwise_pairLe {l m : List (String × β)} (h : l.Perm m)
    (hl : l.Pairwise (pairLe · · = true)) (hm : m.Pairwise (pairLe · · = true)) : l = m := by
  refine h.eq_of_pairwise (fun a b _ _ hab hba => ?_) hl hm
  rw [pairLe_iff] at hab hba
  exact toLex.injective (le_antisymm hab hba)

end Order

/-! ## Names and sites of a graph -/

variable {g : Graph} {s : Statement}

theorem mem_allStatements {b : Nat} (h : s ∈ g.statementsOf b) : s ∈ allStatements g := by
  unfold Graph.statementsOf Graph.block at h
  by_cases hb : b < g.blocks.size
  · have hmem : g.blocks.getD b default ∈ g.blocks.toList := by
      simp [Array.getD, hb]
    exact mem_flatMap.mpr ⟨_, hmem, h⟩
  · simp [Array.getD, hb, default, Graph.instInhabitedBlock.default] at h

theorem index_mem_sites (h : s ∈ allStatements g) (ha : isAllocation s = true) : s.index ∈ sites g :=
  mem_map.mpr ⟨s, mem_filter.mpr ⟨h, ha⟩, rfl⟩

theorem target_mem_names {t : String} (h : s ∈ allStatements g) (ht : s.target = some t)
    : t ∈ names g :=
  mem_flatMap.mpr ⟨s, h, by simp [namesOf, ht]⟩

theorem operand_mem_names {o : Operand} {n : String} (h : s ∈ allStatements g) (ho : o ∈ s.operands)
    (hn : o.var? = some n) : n ∈ names g :=
  mem_flatMap.mpr ⟨s, h, mem_append_right _ (mem_filterMap.mpr ⟨o, ho, hn⟩)⟩

theorem mem_of_head?_bind {os : List Operand} {n : String}
    (h : os.head?.bind Operand.var? = some n) : ∃ o ∈ os, o.var? = some n := by
  obtain ⟨o, ho, hn⟩ := Option.bind_eq_some_iff.mp h
  exact ⟨o, mem_of_mem_head? ho, hn⟩

/-! ## States within a graph -/

structure State.Within (g : Graph) (s : State) : Prop where
  opened_nodup : s.opened.Nodup
  opened_sites : ∀ i ∈ s.opened, i ∈ sites g
  aliases_nodup : s.aliases.Nodup
  aliases_pairwise : s.aliases.Pairwise (pairLe · · = true)
  aliases_names : ∀ p ∈ s.aliases, p.1 ∈ names g ∧ p.2 ∈ released :: sites g
  facts_nodup : s.facts.Nodup
  facts_names : ∀ f ∈ s.facts, f.1 ∈ names g

variable {g : Graph} {s t : State}

theorem within_empty (g : Graph) : State.empty.Within g :=
  ⟨by simp [State.empty], by simp [State.empty], by simp [State.empty], by simp [State.empty],
    by simp [State.empty], by simp [State.empty], by simp [State.empty]⟩

variable {name : String}

theorem mem_sitesOf {s : State} {i : Int} : i ∈ s.sitesOf name ↔ (name, i) ∈ s.aliases := by
  unfold State.sitesOf
  rw [mem_filterMap]
  constructor
  · rintro ⟨p, hp, h⟩
    split at h
    · rename_i hname
      obtain rfl := Option.some.inj h
      rwa [← hname]
    · cases h
  · intro h
    exact ⟨(name, i), h, by simp⟩

theorem State.Within.sitesOf (h : s.Within g) (name : String) :
    ∀ i ∈ s.sitesOf name, i ∈ released :: sites g := by
  intro i hi
  exact (h.aliases_names _ (mem_sitesOf.mp hi)).2

theorem mem_rebind_aliases {s : State} {is : List Int} {p : String × Int} :
    p ∈ (s.rebind name is).aliases ↔ p ∈ s.aliases ∧ p.1 ≠ name ∨ p.1 = name ∧ p.2 ∈ is := by
  obtain ⟨n, i⟩ := p
  simp only [State.rebind, mem_orderedPairs, mem_append, mem_filter, mem_map,
    decide_eq_true_eq, Prod.mk.injEq]
  constructor
  · rintro (h | ⟨j, hj, rfl, rfl⟩)
    · exact Or.inl h
    · exact Or.inr ⟨rfl, hj⟩
  · rintro (h | ⟨rfl, hi⟩)
    · exact Or.inl h
    · exact Or.inr ⟨i, hi, rfl, rfl⟩

theorem State.Within.rebind (h : s.Within g) {is : List Int} (hname : name ∈ names g)
    (his : ∀ i ∈ is, i ∈ released :: sites g) : (s.rebind name is).Within g := by
  refine ⟨h.opened_nodup, h.opened_sites, nodup_orderedPairs _, pairwise_orderedPairs _, ?_,
    h.facts_nodup.filter _, ?_⟩
  · intro p hp
    rcases mem_rebind_aliases.mp hp with ⟨hp, -⟩ | ⟨hn, hi⟩
    · exact h.aliases_names p hp
    · exact ⟨hn ▸ hname, his _ hi⟩
  · intro f hf
    exact h.facts_names f (mem_of_mem_filter hf)

theorem State.Within.open_site (h : s.Within g) {i : Int} (hi : i ∈ sites g)
    (hnew : i ∉ s.opened) : State.Within g { s with opened := s.opened ++ [i] } := by
  refine ⟨?_, ?_, h.aliases_nodup, h.aliases_pairwise, h.aliases_names, h.facts_nodup,
    h.facts_names⟩
  · exact nodup_append.mpr ⟨h.opened_nodup, nodup_singleton i, by
      intro a ha b hb hab
      obtain rfl := mem_singleton.mp hb
      exact hnew (hab ▸ ha)⟩
  · intro j hj
    rcases mem_append.mp hj with hj | hj
    · exact h.opened_sites j hj
    · exact mem_singleton.mp hj ▸ hi

theorem State.Within.close_sites (h : s.Within g) (p : Int → Bool) :
    State.Within g { s with opened := s.opened.filter p } :=
  ⟨h.opened_nodup.filter p, fun i hi => h.opened_sites i (mem_of_mem_filter hi),
    h.aliases_nodup, h.aliases_pairwise, h.aliases_names, h.facts_nodup, h.facts_names⟩

variable {k : Setting} {a : Statement}

variable {r : Record}

theorem within_allocate (h : s.Within g) (ha : a ∈ allStatements g) (halloc : isAllocation a = true) :
    (allocate k a r s).2.Within g := by
  have hsite : a.index ∈ sites g := index_mem_sites ha halloc
  have hopen :
      (if s.opened.contains a.index then s
        else { s with opened := s.opened ++ [a.index] }).Within g := by
    split
    · exact h
    · rename_i hnot
      exact h.open_site hsite (by simpa using hnot)
  unfold allocate
  cases ht : a.target with
  | none => exact hopen
  | some t =>
    refine hopen.rebind (target_mem_names ha ht) ?_
    intro i hi
    exact mem_cons_of_mem _ (mem_singleton.mp hi ▸ hsite)

theorem within_meet (h : s.Within g) (candidates : List Int) :
    (meet a r s candidates).2.Within g := by
  unfold meet
  cases candidates.getLast? with
  | none => exact h
  | some site => exact h.close_sites _

theorem aim_eq_caller (h : aim k a s = .caller name) :
    a.args.head?.bind Operand.var? = some name := by
  unfold aim at h
  split at h
  · cases h
  · rename_i n hn
    split at h
    · split at h
      · rw [hn, Aim.caller.inj h]
      · split at h <;> cases h
    · cases h

theorem within_release (h : s.Within g) (ha : a ∈ allStatements g) :
    (release k a r s).2.Within g := by
  unfold release
  cases haim : aim k a s with
  | any | sites is => exact within_meet h _
  | caller name =>
    obtain ⟨o, ho, hn⟩ := mem_of_head?_bind (aim_eq_caller haim)
    have hname : name ∈ names g := operand_mem_names ha (Statement.mem_operands_of_mem_args ho) hn
    refine h.rebind hname ?_
    intro i hi
    exact mem_singleton.mp hi ▸ mem_cons_self

theorem within_step (h : s.Within g) (ha : a ∈ allStatements g) : (step k (r, s) a).2.Within g := by
  unfold step
  by_cases halloc : isAllocation a = true
  · simpa [halloc] using within_allocate h ha halloc
  · by_cases hrel : isRelease a = true
    · simpa [halloc, hrel] using within_release h ha
    · cases ht : a.target with
      | none => simpa [halloc, hrel] using h
      | some t =>
        have hname : t ∈ names g := target_mem_names ha ht
        cases hc : copied? a with
        | none =>
          have hnone : ∀ i ∈ ([] : List Int), i ∈ released :: sites g := by simp
          simpa [halloc, hrel] using h.rebind hname hnone
        | some source => simpa [halloc, hrel] using h.rebind hname (h.sitesOf source)

theorem within_advance (statements : List Statement) :
    ∀ {s : State}, s.Within g → (∀ a ∈ statements, a ∈ allStatements g) →
      (advance k s statements).Within g := by
  induction statements with
  | nil =>
    intro s h _
    exact h
  | cons a rest ih =>
    intro s h hall
    have hstep : (step k (.blank, s) a).2.Within g := within_step h (hall a mem_cons_self)
    rw [advance_cons]
    exact ih hstep fun x hx => hall x (mem_cons_of_mem a hx)

theorem within_after (b : Nat) (h : s.Within g) : (after g k b s).Within g :=
  within_advance _ h fun _ ha => mem_allStatements ha

/-- What `refine` returns: the state itself, or the state with one more test outcome, of an
operand of the last statement. -/
theorem refine_cases {statements : List Statement} {e : Edge} {s t : State}
    (h : refine statements e s = some t) :
    t = s ∨ ∃ a name taken, a ∈ statements ∧ a.operands.head?.bind Operand.var? = some name ∧
      (name, !taken) ∉ s.facts ∧
      t = { s with facts := orderedPairs (s.facts ++ [(name, taken)]) } := by
  unfold refine at h
  dsimp only at h
  split at h
  · rename_i name taken htested _
    split at htested
    · rename_i a hlast
      split at htested
      · split at h
        · cases h
        · rename_i hfact
          refine Or.inr ⟨a, name, taken, mem_of_getLast? hlast, htested, ?_, ?_⟩
          · simpa using hfact
          · exact (Option.some.inj h).symm
      · cases htested
    · cases htested
  · exact Or.inl (Option.some.inj h).symm

theorem within_refine {b : Nat} {e : Edge} (h : s.Within g)
    (ht : refine (g.statementsOf b) e s = some t) : t.Within g := by
  rcases refine_cases ht with rfl | ⟨a, name, taken, ha, hhead, -, rfl⟩
  · exact h
  · obtain ⟨o, ho, hn⟩ := mem_of_head?_bind hhead
    have hname : name ∈ names g := operand_mem_names (mem_allStatements ha) ho hn
    refine ⟨h.opened_nodup, h.opened_sites, h.aliases_nodup, h.aliases_pairwise, h.aliases_names,
      nodup_orderedPairs _, ?_⟩
    intro f hf
    rw [mem_orderedPairs, mem_append, mem_singleton] at hf
    rcases hf with hf | rfl
    · exact h.facts_names f hf
    · exact hname

theorem State.Within.join (h : s.Within g) (h' : t.Within g) : (s.join t).Within g := by
  refine ⟨nodup_eraseDups _, ?_, nodup_orderedPairs _, pairwise_orderedPairs _, ?_,
    h.facts_nodup.filter _, ?_⟩
  · intro i hi
    rcases mem_append.mp (mem_eraseDups.mp hi) with hi | hi
    · exact h.opened_sites i hi
    · exact h'.opened_sites i hi
  · intro p hp
    rcases mem_append.mp (mem_orderedPairs.mp hp) with hp | hp
    · exact h.aliases_names p hp
    · exact h'.aliases_names p hp
  · intro f hf
    exact h.facts_names f (mem_of_mem_filter hf)

/-! ## Weights -/

/-- How much a state says: open allocations and pointers count up, test outcomes down. -/
def State.weight (g : Graph) (s : State) : Nat :=
  s.opened.length + s.aliases.length + ((names g).length * 2 - s.facts.length)

theorem length_facts_le (h : s.Within g) : s.facts.length ≤ (names g).length * 2 := by
  have hsub : ∀ f ∈ s.facts, f ∈ (names g).flatMap fun n => [(n, true), (n, false)] := by
    intro f hf
    refine mem_flatMap.mpr ⟨f.1, h.facts_names f hf, ?_⟩
    obtain ⟨n, taken⟩ := f
    cases taken <;> simp
  have hle := length_le_of_nodup h.facts_nodup hsub
  simpa [length_flatMap, Nat.mul_comm] using hle

theorem length_aliases_le (h : s.Within g) :
    s.aliases.length ≤ (names g).length * ((sites g).length + 1) := by
  have hsub : ∀ p ∈ s.aliases,
      p ∈ (names g).flatMap fun n => (released :: sites g).map fun i => (n, i) := by
    intro p hp
    obtain ⟨hn, hi⟩ := h.aliases_names p hp
    exact mem_flatMap.mpr ⟨p.1, hn, mem_map.mpr ⟨p.2, hi, rfl⟩⟩
  have hle := length_le_of_nodup h.aliases_nodup hsub
  simpa [length_flatMap, Nat.mul_comm] using hle

theorem weight_le_growth (h : s.Within g) : s.weight g ≤ growth g := by
  have hopened := length_le_of_nodup h.opened_nodup h.opened_sites
  have haliases := length_aliases_le h
  unfold State.weight growth
  omega

theorem opened_join (h : s.opened.Nodup) :
    (s.join t).opened = s.opened ++ (t.opened.removeAll s.opened).eraseDups := by
  rw [State.join, eraseDups_append, eraseDups_of_nodup h]

theorem aliases_join_of_length_le (h : s.Within g)
    (hle : (s.join t).aliases.length ≤ s.aliases.length) : (s.join t).aliases = s.aliases := by
  have hsub : s.aliases.Subperm (s.join t).aliases := by
    refine h.aliases_nodup.subperm ?_
    intro p hp
    exact mem_orderedPairs.mpr (mem_append_left _ hp)
  have hperm : s.aliases.Perm (s.join t).aliases := hsub.perm_of_length_le hle
  exact (eq_of_pairwise_pairLe hperm h.aliases_pairwise (pairwise_orderedPairs _)).symm

/-- A join that changes a state makes it heavier. -/
theorem weight_lt_weight_join (h : s.Within g) (hne : s.join t ≠ s) :
    s.weight g < (s.join t).weight g := by
  have hfacts := length_facts_le h
  have hopened : (s.join t).opened.length =
      s.opened.length + (t.opened.removeAll s.opened).eraseDups.length := by
    rw [opened_join h.opened_nodup, length_append]
  have haliases : s.aliases.length ≤ (s.join t).aliases.length := by
    refine length_le_of_nodup h.aliases_nodup ?_
    intro p hp
    exact mem_orderedPairs.mpr (mem_append_left _ hp)
  have hkept : (s.join t).facts.length ≤ s.facts.length := length_filter_le _ _
  by_contra hnot
  -- no component has changed its length, so none has changed
  apply hne
  unfold State.weight at hnot
  have h1 : (s.join t).opened = s.opened := by
    have hnil : (t.opened.removeAll s.opened).eraseDups = [] := by
      rw [← length_eq_zero_iff]
      omega
    rw [opened_join h.opened_nodup, hnil, append_nil]
  have h2 : (s.join t).aliases = s.aliases := by
    apply aliases_join_of_length_le h
    omega
  have h3 : (s.join t).facts = s.facts := by
    refine filter_sublist.eq_of_length ?_
    change (s.join t).facts.length = s.facts.length
    omega
  cases hj : s.join t
  cases s
  simp_all

end Readiness.Lifetime
