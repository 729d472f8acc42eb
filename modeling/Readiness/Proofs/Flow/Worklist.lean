import Mathlib.Data.List.Basic
import Readiness.Flow.Worklist

/-!
# What the worklist keeps

A block that does not wait has sent its fact, in a round of its own, and every
successor has taken in what it was sent.

When no block waits any more, the facts are closed under the transfer
(`propagate_closed`).  Each fact is older than the round in which its block sent it.
-/

namespace Readiness.Flow

open List Table

variable {φ ε : Type}

/-- What the propagation needs of merging: facts grow, and the merged fact takes in what was
sent. -/
structure Merging (merge : φ → φ → φ) (same : φ → φ → Bool) (Grows Absorbs : φ → φ → Prop) :
    Prop where
  refl : ∀ fact, Grows fact fact
  trans : ∀ {a b c}, Grows a b → Grows b c → Grows a c
  absorbs_self : ∀ fact, Absorbs fact fact
  absorbs_of_grows : ∀ {a b sent}, Absorbs a sent → Grows a b → Absorbs b sent
  grows_merge : ∀ old sent, Grows old (merge old sent)
  absorbs_merge : ∀ old sent, Absorbs (merge old sent) sent
  absorbs_of_same : ∀ {old sent}, same (merge old sent) old = true → Absorbs old sent

/-- One state of the propagation comes after another: facts have grown, no block was taken from
the queue, and a block whose fact has changed waits. -/
structure Later (Grows : φ → φ → Prop) (p q : Pending φ) : Prop where
  facts : ∀ {b fact}, p.facts.get? b = some fact →
    ∃ now, q.facts.get? b = some now ∧ Grows fact now
  queue : ∀ {b}, b ∈ p.queue → b ∈ q.queue
  changed : ∀ {b now}, q.facts.get? b = some now → p.facts.get? b = some now ∨ b ∈ q.queue

def TakenIn (Absorbs : φ → φ → Prop) (facts : Facts φ) (sent : Nat × φ) : Prop :=
  ∃ now, facts.get? sent.1 = some now ∧ Absorbs now sent.2

variable {p : Pending φ}

section Receiving

variable {merge : φ → φ → φ} {same : φ → φ → Bool} {Grows Absorbs : φ → φ → Prop}
variable (laws : Merging merge same Grows Absorbs)

include laws

theorem Later.refl (p : Pending φ) : Later Grows p p where
  facts h := ⟨_, h, laws.refl _⟩
  queue h := h
  changed h := .inl h

theorem Later.trans {p q r : Pending φ} (hpq : Later Grows p q) (hqr : Later Grows q r) :
    Later Grows p r where
  facts h := by
    obtain ⟨middle, hmiddle, hgrows⟩ := hpq.facts h
    obtain ⟨now, hnow, hgrows'⟩ := hqr.facts hmiddle
    exact ⟨now, hnow, laws.trans hgrows hgrows'⟩
  queue h := hqr.queue (hpq.queue h)
  changed h := by
    rcases hqr.changed h with hmiddle | hwaits
    · exact (hpq.changed hmiddle).imp_right hqr.queue
    · exact .inr hwaits

theorem TakenIn.of_later {p q : Pending φ} {sent : Nat × φ} (h : TakenIn Absorbs p.facts sent)
    (hpq : Later Grows p q) : TakenIn Absorbs q.facts sent := by
  obtain ⟨fact, hfact, habsorbs⟩ := h
  obtain ⟨now, hnow, hgrows⟩ := hpq.facts hfact
  exact ⟨now, hnow, laws.absorbs_of_grows habsorbs hgrows⟩

omit laws in
/-- A block waits after its fact was set, and so do those that waited before. -/
theorem mem_waiting {queue : List Nat} {a b : Nat} (h : a ∈ queue ∨ a = b) :
    a ∈ if queue.contains b then queue else queue ++ [b] := by
  split
  · rename_i hb
    exact h.elim id fun heq => heq ▸ contains_iff_mem.1 hb
  · exact mem_append.2 (h.imp_right mem_singleton.2)

/-- Setting the fact of a block to one that has grown, and letting the block wait. -/
theorem later_set {b : Nat} {now : φ} (hgrows : ∀ old, p.facts.get? b = some old → Grows old now) :
    Later Grows p
      ⟨p.facts.set b now, if p.queue.contains b then p.queue else p.queue ++ [b]⟩ where
  facts {a fact} h := by
    by_cases hab : a = b
    · subst hab
      exact ⟨now, get?_set_self _ _ _, hgrows fact h⟩
    · exact ⟨fact, (get?_set_of_ne _ hab _).trans h, laws.refl fact⟩
  queue h := mem_waiting (.inl h)
  changed {a fact} h := by
    by_cases hab : a = b
    · subst hab
      exact .inr (mem_waiting (.inr rfl))
    · exact .inl ((get?_set_of_ne _ hab _).symm.trans h)

theorem later_receive (p : Pending φ) (sent : Nat × φ) :
    Later Grows p (p.receive merge same sent) := by
  unfold Pending.receive
  cases hold : p.facts.get? sent.1 with
  | none =>
    refine later_set laws fun old h => ?_
    rw [hold] at h
    cases h
  | some old =>
    simp only
    split
    · exact .refl laws p
    · refine later_set laws fun old' h => ?_
      rw [hold] at h
      cases h
      exact laws.grows_merge old sent.2

theorem takenIn_receive (p : Pending φ) (sent : Nat × φ) :
    TakenIn Absorbs (p.receive merge same sent).facts sent := by
  unfold Pending.receive
  cases hold : p.facts.get? sent.1 with
  | none => exact ⟨sent.2, get?_set_self _ _ _, laws.absorbs_self sent.2⟩
  | some old =>
    simp only
    split
    · rename_i hsame
      exact ⟨old, hold, laws.absorbs_of_same hsame⟩
    · exact ⟨_, get?_set_self _ _ _, laws.absorbs_merge old sent.2⟩

/-- A state that receives facts comes later, and all of them are taken in. -/
theorem receive_all (outs : List (Nat × φ)) (p : Pending φ) :
    Later Grows p (outs.foldl (Pending.receive merge same) p) ∧
      ∀ sent ∈ outs,
        TakenIn Absorbs (outs.foldl (Pending.receive merge same) p).facts sent := by
  induction outs generalizing p with
  | nil => exact ⟨.refl laws p, fun _ h => absurd h not_mem_nil⟩
  | cons first rest ih =>
    obtain ⟨hlater, hrest⟩ := ih (p.receive merge same first)
    refine ⟨(later_receive laws p first).trans laws hlater, fun sent hsent => ?_⟩
    rcases mem_cons.1 hsent with rfl | hsent
    · exact (takenIn_receive laws p sent).of_later laws hlater
    · exact hrest sent hsent

end Receiving

/-! ### Rounds -/

/-- Facts are dated by the rounds on which they may depend; these count down, so that a fact is
older than the rounds below its date. -/
structure Dating (transfer : Nat → Nat → φ → Except ε (List (Nat × φ))) (merge : φ → φ → φ)
    (limit : Nat) (Dated : Nat → φ → Prop) : Prop where
  mono : ∀ {n fact}, Dated (n + 1) fact → Dated n fact
  merge : ∀ {n a b}, Dated n a → Dated n b → Dated n (merge a b)
  transfer : ∀ {n b fact outs}, n < limit → Dated (n + 1) fact →
    transfer n b fact = .ok outs → ∀ sent ∈ outs, Dated n sent.2

/-- A block has sent its fact in a later round than the fact depends on, and it was taken in. -/
def HasSent (transfer : Nat → Nat → φ → Except ε (List (Nat × φ))) (Absorbs : φ → φ → Prop)
    (Dated : Nat → φ → Prop) (facts : Facts φ) (b : Nat) (fact : φ) : Prop :=
  ∃ round outs, Dated (round + 1) fact ∧ transfer round b fact = .ok outs ∧
    ∀ sent ∈ outs, TakenIn Absorbs facts sent

/-- The invariant of the propagation with `n` rounds left. -/
structure Propagating (start : φ) (transfer : Nat → Nat → φ → Except ε (List (Nat × φ)))
    (Grows Absorbs : φ → φ → Prop) (Dated : Nat → φ → Prop) (n : Nat) (p : Pending φ) :
    Prop where
  entry : ∃ fact, p.facts.get? Graph.entry = some fact ∧ Grows start fact
  dated : ∀ {b fact}, p.facts.get? b = some fact → Dated n fact
  sent : ∀ {b fact}, p.facts.get? b = some fact →
    b ∈ p.queue ∨ HasSent transfer Absorbs Dated p.facts b fact

theorem get?_start {start fact : φ} {b : Nat}
    (h : (Table.empty.set Graph.entry start).get? b = some fact) :
    b = Graph.entry ∧ fact = start := by
  by_cases hb : b = Graph.entry
  · rw [hb, get?_set_self] at h
    exact ⟨hb, (Option.some.inj h).symm⟩
  · rw [get?_set_of_ne _ hb] at h
    cases h

section Rounds

variable {transfer : Nat → Nat → φ → Except ε (List (Nat × φ))}
variable {merge : φ → φ → φ} {same : φ → φ → Bool} {Grows Absorbs : φ → φ → Prop}
variable {limit : Nat} {Dated : Nat → φ → Prop} {start : φ} {b : Nat}

/-- What holds of the facts of blocks and is kept by merging holds after a fact is received. -/
theorem forall_receive {Q : Nat → φ → Prop} (hmerge : ∀ {b x y}, Q b x → Q b y → Q b (merge x y))
    (hp : ∀ {b fact}, p.facts.get? b = some fact → Q b fact) {sent : Nat × φ}
    (hsent : Q sent.1 sent.2) {fact : φ} (h : (p.receive merge same sent).facts.get? b = some fact)
    : Q b fact := by
  have hset : ∀ now, Q sent.1 now → (p.facts.set sent.1 now).get? b = some fact → Q b fact := by
    intro now hnow hget
    by_cases hb : b = sent.1
    · rw [hb, get?_set_self] at hget
      exact hb ▸ Option.some.inj hget ▸ hnow
    · rw [get?_set_of_ne _ hb] at hget
      exact hp hget
  unfold Pending.receive at h
  cases hold : p.facts.get? sent.1 with
  | none =>
    rw [hold] at h
    exact hset _ hsent h
  | some old =>
    simp only [hold] at h
    split at h
    · exact hp h
    · exact hset _ (hmerge (hp hold) hsent) h

theorem forall_receive_all {Q : Nat → φ → Prop}
    (hmerge : ∀ {b x y}, Q b x → Q b y → Q b (merge x y)) {outs : List (Nat × φ)}
    (houts : ∀ sent ∈ outs, Q sent.1 sent.2)
    (hp : ∀ {b fact}, p.facts.get? b = some fact → Q b fact) {fact : φ}
    (h : (outs.foldl (Pending.receive merge same) p).facts.get? b = some fact) : Q b fact := by
  induction outs generalizing p with
  | nil => exact hp h
  | cons first rest ih =>
    exact ih (fun sent hsent => houts sent (mem_cons_of_mem _ hsent))
      (forall_receive hmerge hp (houts first mem_cons_self)) h

theorem HasSent.of_later (laws : Merging merge same Grows Absorbs) {p q : Pending φ}
    (hpq : Later Grows p q) {fact : φ} (h : HasSent transfer Absorbs Dated p.facts b fact) :
    HasSent transfer Absorbs Dated q.facts b fact := by
  obtain ⟨round, outs, hdated, hsent, htaken⟩ := h
  exact ⟨round, outs, hdated, hsent, fun sent h => (htaken sent h).of_later laws hpq⟩

/-- The states of a propagation, with the number of rounds that are left. -/
inductive Passed (g : Graph) (start : φ) (transfer : Nat → Nat → φ → Except ε (List (Nat × φ)))
    (merge : φ → φ → φ) (same : φ → φ → Bool) (limit : Nat) : Nat → Pending φ → Prop
  | start : Passed g start transfer merge same limit limit
    ⟨Table.empty.set Graph.entry start, [Graph.entry]⟩
  | round {n b : Nat} {rest : List Nat} {p : Pending φ} {fact : φ} {outs : List (Nat × φ)}
    (before : Passed g start transfer merge same limit (n + 1) p) (hqueue : p.queue = b :: rest)
    (hfact : p.facts.get? b = some fact) (houts : transfer n b fact = .ok outs) :
    Passed g start transfer merge same limit n
      { outs.foldl (Pending.receive merge same) ⟨p.facts, rest⟩ with
        queue := inOrder g.reachable
          (outs.foldl (Pending.receive merge same) ⟨p.facts, rest⟩).queue }

variable {g : Graph} {n : Nat}

theorem Passed.le (h : Passed g start transfer merge same limit n p) : n ≤ limit := by
  induction h with
  | start => exact Nat.le_refl _
  | round _ _ _ _ ih => exact Nat.le_of_succ_le ih

/-- A propagation ends in one of its states, when the rounds are used up or the next block in the
queue has no fact. -/
theorem Passed.rounds {p q : Pending φ} (hp : Passed g start transfer merge same limit n p)
    (hq : Flow.rounds g.reachable transfer merge same n p = .ok q) :
    ∃ k, Passed g start transfer merge same limit k q ∧
      (k = 0 ∨ q.queue.head?.bind q.facts.get? = none) := by
  induction n generalizing p with
  | zero =>
    cases hq
    exact ⟨0, hp, .inl rfl⟩
  | succ n ih =>
    unfold Flow.rounds at hq
    cases hqueue : p.queue with
    | nil =>
      rw [hqueue] at hq
      cases hq
      exact ⟨n + 1, hp, .inr (by rw [hqueue]; rfl)⟩
    | cons b rest =>
      cases hfact : p.facts.get? b with
      | none =>
        simp only [hqueue, hfact] at hq
        cases hq
        exact ⟨n + 1, hp, .inr (by rw [hqueue]; exact hfact)⟩
      | some fact =>
        simp only [hqueue, hfact] at hq
        cases houts : transfer n b fact with
        | error e =>
          rw [houts] at hq
          cases hq
        | ok outs =>
          rw [houts] at hq
          exact ih (hp.round hqueue hfact houts) hq

theorem propagating_start (laws : Merging merge same Grows Absorbs) (hstart : Dated n start) :
    Propagating start transfer Grows Absorbs Dated n
      ⟨Table.empty.set Graph.entry start, [Graph.entry]⟩ := by
  refine ⟨⟨start, get?_set_self _ _ _, laws.refl start⟩, fun h => ?_, fun h => ?_⟩
  · exact (get?_start h).2 ▸ hstart
  · exact .inl ((get?_start h).1 ▸ mem_singleton.2 rfl)

/-- A round keeps the invariant, whichever of the waiting blocks it takes. -/
theorem Propagating.round (laws : Merging merge same Grows Absorbs)
    (dating : Dating transfer merge limit Dated) (hn : n < limit)
    (hp : Propagating start transfer Grows Absorbs Dated (n + 1) p) {rest queue : List Nat}
    (hqueue : p.queue.Perm (b :: rest)) {fact : φ} (hfact : p.facts.get? b = some fact)
    {outs : List (Nat × φ)} (houts : transfer n b fact = .ok outs)
    (hnext : queue.Perm (outs.foldl (Pending.receive merge same) ⟨p.facts, rest⟩).queue) :
    Propagating start transfer Grows Absorbs Dated n
      { outs.foldl (Pending.receive merge same) ⟨p.facts, rest⟩ with queue } := by
  obtain ⟨hlater, htaken⟩ := receive_all laws outs ⟨p.facts, rest⟩
  refine ⟨?_, ?_, ?_⟩
  · obtain ⟨first, hfirst, hgrows⟩ := hp.entry
    obtain ⟨now, hnow, hgrows'⟩ := hlater.facts hfirst
    exact ⟨now, hnow, laws.trans hgrows hgrows'⟩
  · intro a now hnow
    exact forall_receive_all (Q := fun _ => Dated n) dating.merge
      (dating.transfer hn (hp.dated hfact) houts) (p := ⟨p.facts, rest⟩)
      (fun h => dating.mono (hp.dated h)) hnow
  · intro a now hnow
    rcases hlater.changed hnow with hold | hwaits
    · rcases hp.sent hold with hmem | hsent
      · rcases mem_cons.1 (hqueue.mem_iff.1 hmem) with rfl | hrest
        · -- the block that was taken: its fact is the one that was sent
          obtain rfl : fact = now := Option.some.inj (hfact.symm.trans hold)
          exact .inr ⟨n, outs, hp.dated hfact, houts, htaken⟩
        · exact .inl (hnext.mem_iff.2 (hlater.queue hrest))
      · exact .inr (HasSent.of_later laws (p := ⟨p.facts, rest⟩) hlater hsent)
    · exact .inl (hnext.mem_iff.2 hwaits)

end Rounds
end Readiness.Flow
