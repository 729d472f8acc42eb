import Mathlib
import Readiness.Proofs.Folding.Typing
import Readiness.Proofs.Graph.Finishing
import Readiness.Proofs.Lifetime.Matching
import Readiness.Proofs.Lowering.WellFormed

/-!
# The propagation of constants drains

What is known of a name moves at most twice at each block: from absent to a constant, and
from there to varying.  So the facts have a height, every block that is put in the queue raises it,
and the rounds last until no block waits (`constants_drain`).
-/

namespace Readiness

open List

/-! ### Weights of tables -/

namespace Table

variable {κ α : Type} [DecidableEq κ] {t : Table κ α}

/-- The sum of the weights of all values. -/
def weigh (w : α → Nat) (t : Table κ α) : Nat := t.entries.foldr (fun e n => w e.2 + n) 0

theorem weigh_set (w : α → Nat) (t : Table κ α) (key : κ) (value : α) :
    (t.set key value).weigh w + ((t.get? key).map w).getD 0 = t.weigh w + w value := by
  simp only [weigh, set, get?]
  induction t.entries with
  | nil => simp [assign, lookup]
  | cons e rest ih =>
    by_cases h : e.1 = key
    · simp only [assign, lookup, h, if_true, foldr_cons, Option.map_some, Option.getD_some]
      omega
    · simp only [assign, lookup, h, if_false, foldr_cons]
      omega

theorem set_eq_self {key : κ} {value : α} (h : t.get? key = some value) : t.set key value = t := by
  obtain ⟨entries, hnodup⟩ := t
  simp only [set, get?, mk.injEq] at h ⊢
  clear hnodup
  induction entries with
  | nil => cases h
  | cons e rest ih =>
    by_cases hk : e.1 = key
    · simp only [lookup, hk, if_true, Option.some.injEq] at h
      simp [assign, ← hk, ← h]
    · simp only [lookup, hk, if_false] at h
      simp [assign, hk, ih h]

omit [DecidableEq κ] in
theorem weigh_le {w : α → Nat} {bound : Nat} {l : List κ}
    (h : ∀ e ∈ t.entries, e.1 ∈ l ∧ w e.2 ≤ bound) : t.weigh w ≤ l.length * bound := by
  have hsum : t.weigh w ≤ t.entries.length * bound := by
    have hw : ∀ e ∈ t.entries, w e.2 ≤ bound := fun e he => (h e he).2
    unfold weigh
    generalize t.entries = entries at hw
    induction entries with
    | nil => exact Nat.zero_le _
    | cons e rest ih =>
      have hfirst := hw e mem_cons_self
      have hrest := ih fun e' he' => hw e' (mem_cons_of_mem e he')
      rw [foldr_cons, length_cons, Nat.succ_mul]
      omega
  refine Nat.le_trans hsum (Nat.mul_le_mul_right bound ?_)
  have hlength := length_le_of_nodup t.nodup (m := l) fun key hkey => by
    obtain ⟨e, he, rfl⟩ := mem_map.mp hkey
    exact (h e he).1
  simpa using hlength

end Table

/-! ### The height of facts -/

namespace Folding

open Readiness.Graph (Statement)
open Report (Candidate)
open Table

def Known.height : Known → Nat
  | const _ => 1
  | varies => 2

def level : Facts → Nat := weigh Known.height

theorem mergeEntry_rises (facts : Facts) (e : String × Known) :
    mergeEntry facts e = facts ∨ level facts < level (mergeEntry facts e) := by
  have hset := weigh_set Known.height facts e.1 (mergeKnown (facts.get? e.1) e.2)
  unfold mergeEntry level
  cases hold : facts.get? e.1 with
  | none =>
    have hpos : 0 < (mergeKnown none e.2).height := by
      cases mergeKnown none e.2 <;> simp [Known.height]
    rw [hold] at hset
    simp only [Option.map_none, Option.getD_none] at hset
    omega
  | some old =>
    rw [hold] at hset
    simp only [Option.map_some, Option.getD_some] at hset
    rcases mergeKnown_some old e.2 with hnew | hnew
    · rw [hnew]
      exact .inl (set_eq_self hold)
    · rw [hnew] at hset ⊢
      cases old with
      | varies => exact .inl (set_eq_self hold)
      | const c =>
        simp only [Known.height] at hset
        omega

theorem merge_rises (a b : Facts) : merge a b = a ∨ level a < level (merge a b) := by
  rw [merge_eq_foldl]
  induction b.entries generalizing a with
  | nil => exact .inl rfl
  | cons e rest ih =>
    rw [foldl_cons]
    rcases mergeEntry_rises a e with he | he
    · rw [he]
      exact ih a
    · rcases ih (mergeEntry a e) with hrest | hrest
      · exact .inr (hrest.symm ▸ he)
      · exact .inr (Nat.lt_trans he hrest)

theorem agrees_self (k : Known) : k.agrees k = true := by
  cases k with
  | varies => rfl
  | const c => simp [Known.agrees, Const.agrees, Const.same_refl]

theorem sameFacts_self (facts : Facts) : sameFacts facts facts = true := by
  simp only [sameFacts, beq_self_eq_true, Bool.true_and, all_eq_true]
  intro e he
  rw [get?_of_mem he]
  exact agrees_self e.2

/-! ### Rounds -/

section Rounds

variable {b : Bounds} {g : Graph} {p : Flow.Pending Facts}

/-- The names that statements of a graph define, each once. -/
def targetsOf (g : Graph) : List String := (g.statements.filterMap Statement.target).dedup

/-- Facts are only about names that are defined. -/
def Proper (g : Graph) (facts : Facts) : Prop := ∀ x ∈ facts.keys, x ∈ targetsOf g

variable {facts : Facts} {n rounds : Nat}

theorem Proper.set (h : Proper g facts) {x : String} (hx : x ∈ targetsOf g) (k : Known) :
    Proper g (facts.set x k) := by
  intro y hy
  obtain ⟨e, he, rfl⟩ := mem_map.mp hy
  rcases mem_entries_set he with rfl | he
  · exact hx
  · exact h _ (mem_map_of_mem he)

theorem Proper.merge {x y : Facts} (hx : Proper g x) (hy : Proper g y) : Proper g (merge x y) := by
  rw [merge_eq_foldl]
  have hkeys : ∀ e ∈ y.entries, e.1 ∈ targetsOf g := fun e he => hy _ (mem_map_of_mem he)
  generalize y.entries = entries at hkeys
  induction entries generalizing x with
  | nil => exact hx
  | cons e rest ih =>
    exact ih (hx.set (hkeys e mem_cons_self) _) fun e' he' => hkeys e' (mem_cons_of_mem _ he')

theorem Proper.level_le (h : Proper g facts) : level facts ≤ (targetsOf g).length * 2 :=
  weigh_le fun e he => ⟨h _ (mem_map_of_mem he), by cases e.2 <;> simp [Known.height]⟩

theorem Proper.runFrom {round position : Nat} {condition condition' : Option Const}
    {before after : Facts} {statements : List Statement} (h : Proper g before)
    (hmem : ∀ s ∈ statements, s ∈ g.statements)
    (hrun : runFrom b round condition position before statements = .ok (after, condition')) :
    Proper g after := by
  induction statements generalizing before condition position with
  | nil =>
    cases hrun
    exact h
  | cons s rest ih =>
    obtain ⟨known, middle, -, hfirst, hrun⟩ := runFrom_cons hrun
    refine ih ?_ (fun s' hs' => hmem s' (mem_cons_of_mem s hs')) hrun
    rcases transfer_cases hfirst with ⟨-, rfl⟩ | ⟨-, value, rfl, -⟩
    · exact h
    · unfold define
      split
      · exact h
      · rename_i x hx
        exact h.set (mem_dedup.mpr (mem_filterMap.mpr ⟨s, hmem s mem_cons_self, hx⟩)) _

/-- What a block sends is proper, and goes to blocks that can be reached. -/
theorem proper_of_send {round block : Nat} {outs : List (Nat × Facts)}
    (hreach : block ∈ g.reachable) (h : Proper g facts)
    (houts : send b g round block facts = .ok outs) :
    ∀ sent ∈ outs, sent.1 ∈ g.reachable ∧ Proper g sent.2 := by
  obtain ⟨after, condition, hrun, rfl⟩ := exists_of_send houts
  intro sent hsent
  obtain ⟨e, he, rfl⟩ := mem_map.mp hsent
  obtain ⟨hedge, hsource⟩ := Graph.mem_outgoing.mp (mem_of_mem_liveEdges he)
  refine ⟨(Graph.mem_reachable_iff g _).mpr (.step ((Graph.mem_reachable_iff g _).mp hreach) ?_),
    h.runFrom (fun s hs => mem_flatMap.mpr ⟨block, hreach, hs⟩) hrun⟩
  exact Graph.mem_successors.mpr ⟨e, hedge, hsource, rfl⟩

/-- In every state the blocks with facts can be reached, and their facts are proper. -/
theorem proper_of_propagates (hp : Propagates b g n p) :
    ∀ {block facts}, p.facts.get? block = some facts → block ∈ g.reachable ∧ Proper g facts := by
  induction hp with
  | start =>
    intro block facts h
    obtain ⟨rfl, rfl⟩ := Flow.get?_start h
    exact ⟨(Graph.mem_reachable_iff g _).mpr (.refl _), nofun⟩
  | @round n block rest p fact outs before hqueue hfact houts ih =>
    intro block' facts h
    obtain ⟨hreach, hproper⟩ := ih hfact
    exact Flow.forall_receive_all (Q := fun block facts => block ∈ g.reachable ∧ Proper g facts)
      (fun hx hy => ⟨hx.1, hx.2.merge hy.2⟩) (proper_of_send hreach hproper houts)
      (p := ⟨p.facts, rest⟩) ih h

/-- Every time that a block is put in the queue this rises. -/
def height : Flow.Facts Facts → Nat := weigh fun facts => level facts + 1

theorem height_le (hp : Propagates b g n p) :
    height p.facts ≤ g.reachable.length * (2 * (targetsOf g).length + 1) := by
  refine weigh_le fun e he => ?_
  obtain ⟨hreach, hproper⟩ := proper_of_propagates hp (get?_of_mem he)
  have hle := hproper.level_le
  exact ⟨hreach, by omega⟩

/-- A state after a number of rounds: each of them took a block from the queue, and those that wait
have facts. -/
structure Counted (rounds : Nat) (p : Flow.Pending Facts) : Prop where
  waiting : ∀ block ∈ p.queue, (p.facts.get? block).isSome
  count : rounds + p.queue.length ≤ height p.facts

/-- The facts of a block change to higher ones, and it waits. -/
theorem Counted.set {block : Nat} (h : Counted rounds p)
    (hrises : ((p.facts.get? block).map fun old => level old + 1).getD 0 ≤ level facts) :
    Counted rounds
      ⟨p.facts.set block facts, if p.queue.contains block then p.queue else p.queue ++ [block]⟩ where
  waiting block' hmem := by
    rw [get?_set]
    split
    · rfl
    · rename_i hne
      refine h.waiting block' ?_
      split at hmem
      · exact hmem
      · exact (mem_append.mp hmem).resolve_right fun hlast => hne (mem_singleton.mp hlast)
  count := by
    have hcount := h.count
    have hset := weigh_set (fun facts => level facts + 1) p.facts block facts
    simp only [height] at hcount ⊢
    split
    · omega
    · rw [length_append, length_singleton]
      omega

theorem Counted.receive (h : Counted rounds p) (sent : Nat × Facts) :
    Counted rounds (p.receive merge sameFacts sent) := by
  unfold Flow.Pending.receive
  cases hold : p.facts.get? sent.1 with
  | none => exact h.set (by simp [hold])
  | some old =>
    simp only
    split
    · exact h
    · rename_i hchanged
      refine h.set ?_
      rw [hold]
      refine (merge_rises old sent.2).resolve_left fun heq => hchanged ?_
      rw [heq]
      exact sameFacts_self old

theorem Counted.receive_all (h : Counted rounds p) (outs : List (Nat × Facts)) :
    Counted rounds (outs.foldl (Flow.Pending.receive merge sameFacts) p) := by
  induction outs generalizing p with
  | nil => exact h
  | cons sent rest ih => exact ih (h.receive sent)

theorem counted_of_propagates (hp : Propagates b g n p) : Counted (Flow.standardRounds - n) p := by
  induction hp with
  | start =>
    refine ⟨fun block hblock => ?_, ?_⟩
    · rw [mem_singleton.mp hblock, get?_set_self]
      rfl
    · rw [Nat.sub_self]
      decide
  | @round n block rest p _ outs before hqueue _ _ ih =>
    have hn := before.le
    have hcount := ih.count
    rw [hqueue, length_cons] at hcount
    have htaken : Counted (Flow.standardRounds - n) ⟨p.facts, rest⟩ :=
      ⟨fun a ha => ih.waiting a (hqueue ▸ mem_cons_of_mem block ha),
        by simp only; omega⟩
    have hnext := htaken.receive_all outs
    have hperm := mergeSort_perm
      (outs.foldl (Flow.Pending.receive merge sameFacts) ⟨p.facts, rest⟩).queue
      fun a b => decide (g.reachable.idxOf a ≤ g.reachable.idxOf b)
    exact ⟨fun a ha => hnext.waiting a (hperm.mem_iff.mp ha),
      hperm.length_eq.symm ▸ hnext.count⟩

/-- The rounds last until no block waits. -/
theorem queue_of_propagated (hp : propagated b g = .ok p)
    (hsize : g.reachable.length * (2 * (targetsOf g).length + 1) ≤ Flow.standardRounds) :
    p.queue = [] := by
  obtain ⟨k, hk, hend⟩ := Flow.Passed.start.rounds hp
  have hcounted := counted_of_propagates hk
  have hcount := hcounted.count
  have hheight := height_le hk
  cases hqueue : p.queue with
  | nil => rfl
  | cons block rest =>
    rcases hend with rfl | hend
    · rw [hqueue, length_cons] at hcount
      omega
    · have hwaits := hcounted.waiting block (hqueue ▸ mem_cons_self)
      rw [hqueue, head?_cons, Option.bind_some] at hend
      rw [hend] at hwaits
      cases hwaits

end Rounds

/-! ### Counting statements -/

section Counting

variable {b : Bounds} {g : Graph} {facts : Flow.Facts Facts}

theorem length_candidate?_le {moment : Moment} {before : Facts} {s : Statement}
    {found : List Candidate} (h : candidate? b moment before s = .ok found) : found.length ≤ 1 := by
  obtain ⟨isOne, -, h⟩ := ok_of_bind h
  cases isOne with
  | false =>
    cases h
    exact Nat.zero_le 1
  | true =>
    obtain ⟨c, -, h⟩ := ok_of_bind h
    cases h
    exact Nat.le_refl 1

theorem length_candidatesFrom_le {round position : Nat} {before : Facts}
    {statements : List Statement} {found : List Candidate}
    (h : candidatesFrom b round position before statements = .ok found) :
    found.length ≤ statements.length := by
  induction statements generalizing position before found with
  | nil =>
    cases h
    exact Nat.le_refl 0
  | cons s rest ih =>
    obtain ⟨first, hfirst, h⟩ := ok_of_bind h
    obtain ⟨after, -, h⟩ := ok_of_bind h
    obtain ⟨later, hlater, h⟩ := ok_of_bind h
    cases h
    have hone := length_candidate?_le hfirst
    have hrest := ih hlater
    rw [length_append, length_cons]
    omega

/-- A block without facts is counted as never run, and a statement of another one is counted at most
once as foldable. -/
theorem count_le {blocks : List Nat} {found : List (List Candidate)}
    (h : blocks.mapM (candidatesOf b g facts) = .ok found) :
    (found.flatten.filter Candidate.isFoldable).length +
        ((blocks.filter fun block => !facts.contains block).flatMap g.statementsOf).length ≤
      (blocks.flatMap g.statementsOf).length := by
  induction blocks generalizing found with
  | nil =>
    cases h
    exact Nat.le_refl 0
  | cons block rest ih =>
    rw [mapM_cons] at h
    obtain ⟨first, hfirst, h⟩ := ok_of_bind h
    obtain ⟨later, hlater, h⟩ := ok_of_bind h
    cases h
    have hrest := ih hlater
    simp only [flatten_cons, filter_append, length_append, flatMap_cons, filter_cons]
    unfold candidatesOf at hfirst
    cases hfacts : facts.get? block with
    | none =>
      have hnever : facts.contains block = false := congrArg Option.isSome hfacts
      rw [hfacts] at hfirst
      cases hfirst
      simp only [hnever, Bool.not_false, if_true, flatMap_cons, length_append, filter_nil,
        length_nil]
      omega
    | some before =>
      have hrun : facts.contains block = true := congrArg Option.isSome hfacts
      rw [hfacts] at hfirst
      have hfound := length_candidatesFrom_le hfirst
      have hfoldable := length_filter_le Candidate.isFoldable first
      simp only [hrun, Bool.not_true, Bool.false_eq_true, if_false]
      omega

end Counting

/-! ### Breaking off -/

section Breaking

/-- Evaluating an expression of the graph breaks off the analysis, or writing a condition does. -/
def Breaks (b : Bounds) (g : Graph) (cause : Breakdown) : Prop :=
  ∃ block, ∃ s ∈ g.statementsOf block, ∃ facts,
    (∃ moment e, fold b moment facts s = .error e ∧ e.breakdown? = some cause) ∨
      s.kind = .branch ∧ ∃ c, condition? facts s = .ok (some c) ∧
        c.brief.mapError .raised = .error cause

variable {α β : Type} {P : Breakdown → Prop} {b : Bounds} {g : Graph} {s : Statement}

theorem fails_operandValue? (hs : s.operands ≠ []) (facts : Facts) :
    Fails P (operandValue? facts s 0) := by
  obtain ⟨o, rest, hoperands⟩ := exists_cons_of_ne_nil hs
  simp only [operandValue?, Statement.operand, hoperands, getElem?_cons_zero]
  exact fails_ok

variable {block : Nat}

theorem fails_surviving (hs : s ∈ g.statementsOf block) (moment : Moment) (facts : Facts) :
    Fails (Breaks b g) (surviving (fold b moment facts s)) := by
  intro cause h
  unfold surviving at h
  split at h
  · cases h
  · rename_i e he
    split at h
    · rename_i cause' hcause
      cases h
      exact ⟨block, s, hs, facts, .inl ⟨moment, e, he, hcause⟩⟩
    · cases h

variable (hg : g.Described)
include hg

theorem fails_transfer (hs : s ∈ g.statementsOf block) (moment : Moment) (facts : Facts) :
    Fails (Breaks b g) (transfer b moment facts s) := by
  unfold transfer
  split
  · exact (fails_surviving hs moment facts).bind fun _ => fails_ok
  · rename_i hkind
    split
    · rename_i hop
      exact Fails.bind (fails_operandValue? ((hg block s hs).copy hkind hop) facts)
        fun _ => fails_ok
    · exact fails_ok
  · exact fails_ok
  · exact fails_ok

theorem fails_runFrom {round position : Nat} {statements : List Statement}
    (hs : ∀ s ∈ statements, s ∈ g.statementsOf block) (condition : Option Const) (facts : Facts) :
    Fails (Breaks b g) (runFrom b round condition position facts statements) := by
  induction statements generalizing position condition facts with
  | nil => exact fails_ok
  | cons s rest ih =>
    have hrest := fun s' hs' => hs s' (mem_cons_of_mem s hs')
    have hmem := hs s mem_cons_self
    have hlater : ∀ known, Fails (Breaks b g) (do
        runFrom b round known (position + 1) (← transfer b ⟨round, position⟩ facts s) rest) :=
      fun known => (fails_transfer hg hmem _ facts).bind fun after => ih hrest known after
    unfold runFrom
    split
    · rename_i hkind
      exact (fails_operandValue? ((hg block s hmem).test hkind) facts).bind hlater
    · exact hlater condition

theorem fails_propagated : Fails (Breaks b g) (propagated b g) := by
  have hrounds : ∀ n p, Fails (Breaks b g)
      (Flow.rounds g.reachable (send b g) merge sameFacts n p) := by
    intro n
    induction n with
    | zero => exact fun p => fails_ok
    | succ n ih =>
      intro p
      unfold Flow.rounds
      split
      · exact fails_ok
      · split
        · exact fails_ok
        · refine Fails.bind ?_ fun _ => ih _
          exact (fails_runFrom hg (fun _ h => h) _ _).bind fun _ => fails_ok
  exact hrounds _ _

theorem fails_candidate? (hs : s ∈ g.statementsOf block) (moment : Moment) (facts : Facts) :
    Fails (Breaks b g) (candidate? b moment facts s) := by
  have hparts := hg block s hs
  have hone : Fails (Breaks b g) (isCandidate facts s) := by
    unfold isCandidate
    split
    · rename_i hkind
      exact (fails_operandValue? (hparts.test hkind) facts).bind fun _ => fails_ok
    · rename_i hkind
      obtain ⟨info, hinfo, -⟩ := hparts.call hkind
      rw [hinfo]
      exact fails_ok
    · exact fails_ok
  refine hone.bind fun isOne => ?_
  cases isOne with
  | false => exact fails_ok
  | true =>
    refine Fails.bind ?_ fun _ => fails_ok
    unfold candidate
    split
    · rename_i hkind
      intro cause h
      rcases error_of_bind h with h | ⟨known, hknown, h⟩
      · exact fails_operandValue? (hparts.test hkind) facts cause h
      · cases known with
        | none => cases h
        | some c =>
          rcases error_of_bind h with h | ⟨_, -, ⟨⟩⟩
          exact ⟨block, s, hs, facts, .inr ⟨hkind, c, hknown, h⟩⟩
    · intro cause h
      rcases error_of_bind h with h | ⟨outcome, houtcome, h⟩
      · exact fails_surviving hs moment facts cause h
      · cases outcome with
        | error e => cases h
        | ok c =>
          -- What is folded has been written already.
          obtain ⟨-, -, -, -, text, htext⟩ := folded_of_fold (ok_of_surviving houtcome)
          rw [finding, htext] at h
          cases h

theorem fails_candidatesFrom {round position : Nat} {statements : List Statement}
    (hs : ∀ s ∈ statements, s ∈ g.statementsOf block) (facts : Facts) :
    Fails (Breaks b g) (candidatesFrom b round position facts statements) := by
  induction statements generalizing position facts with
  | nil => exact fails_ok
  | cons s rest ih =>
    have hmem := hs s mem_cons_self
    exact (fails_candidate? hg hmem _ facts).bind fun _ =>
      (fails_transfer hg hmem _ facts).bind fun after =>
        (ih (fun s' hs' => hs s' (mem_cons_of_mem s hs')) after).bind fun _ => fails_ok

theorem fails_analyse : Fails (Breaks b g) (analyse b g) := by
  refine ((fails_propagated hg).bind fun _ => fails_ok).bind fun facts =>
    (Fails.mapM (fun block => ?_) _).bind fun _ => fails_ok
  unfold candidatesOf
  split
  · exact fails_candidatesFrom hg (fun _ h => h) _
  · exact fails_ok

end Breaking

section Lowered

variable {image : Image} {f : Image.Function} {body : Image.Body} {params : List String}
  {maxDepth : Option Nat} {l : Lowering.Lowered}

theorem length_reachable_le (h : Lowering.lowerBody image f body params maxDepth = .ok l) :
    l.graph.reachable.length ≤ l.graph.blocks.size := by
  obtain ⟨draft, hcomplete, hgraph⟩ := Lowering.exists_complete_of_lowerBody h
  have hfits := hcomplete.reached.bounded.fits
  have hexit := hfits.exit.1
  have hclosed := hfits.closed
  rw [hgraph] at hexit hclosed
  have hlt : ∀ block, Graph.Reaches l.graph Graph.entry block → block < l.graph.blocks.size := by
    intro block hreach
    cases hreach with
    | refl => exact Nat.zero_lt_of_lt hexit
    | step _ hlast =>
      obtain ⟨e, he, -, rfl⟩ := Graph.mem_successors.mp hlast
      exact (hclosed e he).2
  have hlength := length_le_of_nodup (Graph.nodup_reachable l.graph) (m := range l.graph.blocks.size)
    fun block hblock => mem_range.mpr (hlt block ((Graph.mem_reachable_iff _ block).mp hblock))
  rwa [length_range] at hlength

/-- Constants are propagated through a lowered function until nothing changes any more, if the
blocks and the names that statements define are not too many, or else evaluating an expression or
writing a condition breaks off.  Only blocks that can be reached have facts, and no statement is
counted twice. -/
theorem constants_drain (h : Lowering.lowerBody image f body params maxDepth = .ok l)
    (hsize : l.graph.blocks.size * (2 * (targetsOf l.graph).length + 1) ≤ Flow.standardRounds)
    (b : Bounds) :
    (∀ p, propagated b l.graph = .ok p → p.queue = [] ∧
      ∀ block facts, p.facts.get? block = some facts → Graph.Reaches l.graph Graph.entry block) ∧
    (∀ r, analyse b l.graph = .ok r → r.foldable + r.eliminable ≤ r.total) ∧
    ∀ cause, propagated b l.graph = .error cause ∨ analyse b l.graph = .error cause →
      Breaks b l.graph cause := by
  obtain ⟨draft, hcomplete, hgraph⟩ := Lowering.exists_complete_of_lowerBody h
  have hdescribed : l.graph.Described := hgraph ▸ hcomplete.reached.described
  refine ⟨fun p hp => ⟨queue_of_propagated hp ?_, fun block facts hfacts => ?_⟩, fun r hr => ?_,
    fun cause hcause => hcause.elim (fails_propagated hdescribed cause)
      (fails_analyse hdescribed cause)⟩
  · exact Nat.le_trans (Nat.mul_le_mul_right _ (length_reachable_le h)) hsize
  · obtain ⟨k, hk, -⟩ := Flow.Passed.start.rounds hp
    exact (Graph.mem_reachable_iff _ _).mp (proper_of_propagates hk hfacts).1
  · obtain ⟨facts, -, hr⟩ := ok_of_bind hr
    obtain ⟨found, hfound, hr⟩ := ok_of_bind hr
    cases hr
    exact Int.ofNat_le.mpr (count_le hfound)

end Lowered

theorem propagated_retrying : Lowering.retryingLowered.toOption.map (fun l =>
    (propagated .standard l.graph).toOption.map (·.facts.keys)) =
      some (some [0, 2, 3, 5, 4, 6, 7, 9, 11, 15, 16, 17, 18, 1]) := by
  cbv

theorem retrying_constants_drain : ∃ l p, Lowering.retryingLowered = .ok l ∧
    l.graph.blocks.size * (2 * (targetsOf l.graph).length + 1) = 100 ∧
    propagated .standard l.graph = .ok p ∧ p.queue = [] := by
  have hsize : Lowering.retryingLowered.toOption.map (fun l =>
      l.graph.blocks.size * (2 * (targetsOf l.graph).length + 1)) = some 100 := by
    decide +kernel
  have hrun := propagated_retrying
  obtain ⟨l, hlowered, hsize⟩ := Lowering.exists_ok_of_toOption hsize
  rw [hlowered] at hrun
  obtain ⟨p, hp, -⟩ := Lowering.exists_ok_of_toOption (Option.some.inj hrun)
  have hdrain := constants_drain hlowered (hsize.trans_le (by decide)) .standard
  exact ⟨l, p, hlowered, hsize, hp, (hdrain.1 p hp).1⟩

end Folding
end Readiness
