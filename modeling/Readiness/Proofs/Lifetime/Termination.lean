import Readiness.Proofs.Lifetime.Domain

/-!
# A walk ends within its bound

Every step lowers the potential (`potential_next?_lt`), since the pairs that a block
adds to the queue are paid for by the room it loses.  The queue is empty when `walk` stops
(`queue_walkFor_stepBound`).
-/

namespace Readiness.Lifetime

open Graph (Statement Edge Operand)
open List Table

variable {g : Graph} {k : Setting} {limit : Option Nat} {w w' : Walk} {b : Nat} {s s' : State}

/-! ## What a step can do -/

/-- The ways in which a state that reaches a block is taken in. -/
inductive Verdict (limit : Option Nat) (w : Walk) (b : Nat) (s : State) :
    Option (Walk × State) → Prop
  /-- The block has this state already. -/
  | known : s ∈ w.statesAt b → Verdict limit w b s none
  /-- The summary covers the state already. -/
  | covered {p : State} : isFull limit (w.statesAt b) = true → w.summary.get? b = some p →
    p.join s = p → Verdict limit w b s none
  | apart : s ∉ w.statesAt b → isFull limit (w.statesAt b) = false →
    Verdict limit w b s (some ({ w with seen := w.seen.set b (w.statesAt b ++ [s]) }, s))
  | first : s ∉ w.statesAt b → isFull limit (w.statesAt b) = true → w.summary.get? b = none →
    Verdict limit w b s (some ({ w with summary := w.summary.set b s }, s))
  | joined {p : State} : s ∉ w.statesAt b → isFull limit (w.statesAt b) = true →
    w.summary.get? b = some p → p.join s ≠ p →
    Verdict limit w b s (some ({ w with summary := w.summary.set b (p.join s) }, p.join s))

theorem accept_verdict (limit : Option Nat) (w : Walk) (b : Nat) (s : State) :
    Verdict limit w b s (accept limit w b s) := by
  unfold accept
  dsimp only
  split
  · rename_i h
    exact .known (by simpa using h)
  · rename_i h
    have hnew : s ∉ w.statesAt b := by simpa using h
    split
    · rename_i hfull
      cases hsum : w.summary.get? b with
      | none => exact .first hnew hfull hsum
      | some p =>
        by_cases hj : p.join s = p
        · simpa [hj] using Verdict.covered hfull hsum hj
        · simpa [hj] using Verdict.joined hnew hfull hsum hj
    · rename_i hfull
      exact .apart hnew (by simpa using hfull)

/-- A step takes the first pair from the queue; if the state is accepted, its block is run. -/
theorem next?_cases (h : w.next? g k limit = some w') :
    ∃ b s rest, w.queue = (b, s) :: rest ∧
      ((accept limit { w with queue := rest } b s = none ∧ w' = { w with queue := rest }) ∨
        ∃ w₁ s₁, accept limit { w with queue := rest } b s = some (w₁, s₁) ∧
          w' = w₁.enter g k b s₁) := by
  unfold Walk.next? at h
  cases hq : w.queue with
  | nil => simp [hq] at h
  | cons first rest =>
    obtain ⟨b, s⟩ := first
    refine ⟨b, s, rest, rfl, ?_⟩
    simp only [hq] at h
    cases ha : accept limit { w with queue := rest } b s with
    | none =>
      simp only [ha] at h
      exact Or.inl ⟨rfl, (Option.some.inj h).symm⟩
    | some next =>
      obtain ⟨w₁, s₁⟩ := next
      simp only [ha] at h
      exact Or.inr ⟨w₁, s₁, rfl, (Option.some.inj h).symm⟩

theorem queue_eq_nil_of_next?_eq_none (h : w.next? g k limit = none) : w.queue = [] := by
  unfold Walk.next? at h
  cases hq : w.queue with
  | nil => rfl
  | cons first rest =>
    obtain ⟨b, s⟩ := first
    simp only [hq] at h
    split at h <;> cases h

/-- What every step keeps holds at the end of a run. -/
theorem walkFor_invariant {I : Walk → Prop}
    (hstep : ∀ w w', I w → w.next? g k limit = some w' → I w') :
    ∀ n w, I w → I (walkFor g k limit n w)
  | 0, _, h => h
  | n + 1, w, h => by
    unfold walkFor
    cases hnext : w.next? g k limit with
    | none => exact h
    | some w' => exact walkFor_invariant hstep n w' (hstep w w' h hnext)

theorem enter_queue (w : Walk) (s : State) :
    (w.enter g k b s).queue = w.queue ++ followers g b (after g k b s) := by
  rw [← visit_state g k b w.found s]
  rfl

/-- The states of a block after one more was kept apart. -/
theorem statesAt_set (w : Walk) (b c : Nat) (states : List State) :
    ({ w with seen := w.seen.set b states } : Walk).statesAt c =
      if c = b then states else w.statesAt c := by
  unfold Walk.statesAt
  split
  · rename_i h
    simp [h, get?_set_self]
  · rename_i h
    simp [get?_set_of_ne _ h]

variable {c : Nat}

/-- The states of a block after one more was kept apart at some block. -/
theorem mem_statesAt_set {t : State} :
    t ∈ ({ w with seen := w.seen.set b (w.statesAt b ++ [s]) } : Walk).statesAt c ↔
      t ∈ w.statesAt c ∨ c = b ∧ t = s := by
  rw [statesAt_set]
  split
  · rename_i h
    simp [h]
  · rename_i h
    simp [h]

/-- The states of a block stay distinct when a new one is kept apart. -/
theorem nodup_statesAt_set (hw : ∀ c, (w.statesAt c).Nodup) (hs : s ∉ w.statesAt b) (c : Nat) :
    (({ w with seen := w.seen.set b (w.statesAt b ++ [s]) } : Walk).statesAt c).Nodup := by
  rw [statesAt_set]
  split
  · refine nodup_append.mpr ⟨hw b, nodup_singleton s, ?_⟩
    intro t ht u hu htu
    exact hs (mem_singleton.mp hu ▸ htu ▸ ht)
  · exact hw c

theorem mem_followers :
    (c, s') ∈ followers g b s ↔
      ∃ e ∈ g.outgoing b, refine (g.statementsOf b) e s = some s' ∧ e.target = c := by
  unfold followers
  rw [mem_filterMap]
  constructor
  · rintro ⟨e, he, h⟩
    obtain ⟨t, ht, hpair⟩ := Option.map_eq_some_iff.mp h
    obtain ⟨rfl, rfl⟩ := Prod.mk.inj hpair
    exact ⟨e, he, ht, rfl⟩
  · rintro ⟨e, he, h, rfl⟩
    exact ⟨e, he, by rw [h]; rfl⟩

theorem length_followers_le : (followers g b s).length ≤ (g.outgoing b).length :=
  length_filterMap_le _ _

/-! ## States of a walk -/

/-- All states of a walk have a property, which may depend on the block, and those that a block
keeps apart differ. -/
structure Walk.Each (P : Nat → State → Prop) (w : Walk) : Prop where
  queue : ∀ b s, (b, s) ∈ w.queue → P b s
  summary : ∀ b s, w.summary.get? b = some s → P b s
  kept : ∀ b, ∀ s ∈ w.statesAt b, P b s
  nodup : ∀ b, (w.statesAt b).Nodup

section Each

variable {P : Nat → State → Prop} {I : Record → Prop}

theorem each_start (h : P Graph.entry .empty) : Walk.start.Each P := by
  refine ⟨?_, nofun, fun b => nofun, fun b => nodup_nil⟩
  intro b s hs
  obtain ⟨rfl, rfl⟩ := Prod.mk.inj (mem_singleton.mp hs)
  exact h

theorem Walk.Each.pop {rest : List (Nat × State)} (hw : w.Each P)
    (hq : w.queue = (b, s) :: rest) : P b s ∧ ({ w with queue := rest } : Walk).Each P :=
  ⟨hw.queue b s (hq ▸ mem_cons_self), fun c t ht => hw.queue c t (hq ▸ mem_cons_of_mem _ ht),
    hw.summary, hw.kept, hw.nodup⟩

theorem accept_rest (h : accept limit w b s = some (w', s')) :
    w'.queue = w.queue ∧ w'.found = w.found := by
  have hv := accept_verdict limit w b s
  rw [h] at hv
  cases hv <;> exact ⟨rfl, rfl⟩

/-- What joins keep holds of an accepted state. -/
theorem each_accept
    (hjoin : ∀ b p s, w.summary.get? b = some p → P b p → P b s → P b (p.join s)) (hw : w.Each P)
    (hs : P b s) (h : accept limit w b s = some (w', s')) : w'.Each P ∧ P b s' := by
  have hset : ∀ t : State, P b t → ∀ c u, (w.summary.set b t).get? c = some u → P c u := by
    intro t ht c u hu
    by_cases hc : c = b
    · rw [hc, get?_set_self] at hu
      exact hc ▸ Option.some.inj hu ▸ ht
    · rw [get?_set_of_ne _ hc] at hu
      exact hw.summary c u hu
  have hv := accept_verdict limit w b s
  rw [h] at hv
  cases hv with
  | apart hnew =>
    refine ⟨⟨hw.queue, hw.summary, fun c t ht => ?_, nodup_statesAt_set hw.nodup hnew⟩, hs⟩
    rcases mem_statesAt_set.mp ht with ht | ⟨rfl, rfl⟩
    · exact hw.kept c t ht
    · exact hs
  | first => exact ⟨⟨hw.queue, hset s hs, hw.kept, hw.nodup⟩, hs⟩
  | joined _ _ hp _ =>
    have hjoined := hjoin b _ s hp (hw.summary b _ hp) hs
    exact ⟨⟨hw.queue, hset _ hjoined, hw.kept, hw.nodup⟩, hjoined⟩

/-- What joins, blocks and edges keep is kept by every step, and so is what running a block keeps
of the record. -/
theorem each_next?
    (hjoin : ∀ b p s, w.summary.get? b = some p → P b p → P b s → P b (p.join s))
    (hedge : ∀ {b s t e}, P b s → e ∈ g.outgoing b →
      refine (g.statementsOf b) e (after g k b s) = some t → P e.target t)
    (henter : ∀ {w : Walk} {b s}, P b s → I w.found → I (w.enter g k b s).found)
    (hw : w.Each P) (hI : I w.found) (h : w.next? g k limit = some w') :
    w'.Each P ∧ I w'.found := by
  obtain ⟨b, s, rest, hq, hcase⟩ := next?_cases h
  obtain ⟨hs, hpop⟩ := hw.pop hq
  rcases hcase with ⟨-, rfl⟩ | ⟨w₁, s₁, ha, rfl⟩
  · exact ⟨hpop, hI⟩
  · obtain ⟨hw₁, hs₁⟩ := each_accept (w := { w with queue := rest }) hjoin hpop hs ha
    refine ⟨⟨?_, hw₁.summary, hw₁.kept, hw₁.nodup⟩, henter hs₁ ((accept_rest ha).2 ▸ hI)⟩
    intro c t ht
    rw [enter_queue, mem_append] at ht
    rcases ht with ht | ht
    · exact hw₁.queue c t ht
    · obtain ⟨e, hout, he, rfl⟩ := mem_followers.mp ht
      exact hedge hs₁ hout he

/-- What every block that is run keeps holds of the record of a walk. -/
theorem walk_keeps (hentry : P Graph.entry .empty)
    (hjoin : ∀ b s t, P b s → P b t → P b (s.join t))
    (hedge : ∀ {b s t e}, P b s → e ∈ g.outgoing b →
      refine (g.statementsOf b) e (after g k b s) = some t → P e.target t)
    (hblank : I .blank)
    (henter : ∀ {w : Walk} {b s}, P b s → I w.found → I (w.enter g k b s).found) :
    I (walk g k limit) :=
  (walkFor_invariant (I := fun w => w.Each P ∧ I w.found)
    (fun _ _ hw => each_next? (fun b p s _ => hjoin b p s) hedge henter hw.1 hw.2) _ _
    ⟨each_start hentry, hblank⟩).2

end Each

/-- The states of a walk can arise in the graph. -/
def Walk.Bounded (g : Graph) (w : Walk) : Prop := w.Each fun _ s => s.Within g

theorem bounded_next? (hw : w.Bounded g) (h : w.next? g k limit = some w') : w'.Bounded g :=
  (each_next? (I := fun _ => True) (fun _ _ _ _ => State.Within.join)
    (fun hs _ he => within_refine (within_after _ hs) he) (fun _ => id) hw trivial h).1

/-! ## The potential -/

/-- How often a summary can still change. -/
def spare (g : Graph) : Option State → Nat
  | none => growth g + 1
  | some s => growth g - s.weight g

/-- How often a block can still accept a state. -/
def Walk.room (w : Walk) (g : Graph) (n b : Nat) : Nat :=
  (n - (w.statesAt b).length) + spare g (w.summary.get? b)

/-- The number of steps that can still follow. -/
def Walk.potential (w : Walk) (g : Graph) (n : Nat) : Nat :=
  w.queue.length + (g.edges.toList.map fun e => w.room g n e.source).sum

variable {n : Nat}

theorem room_of_ne (hseen : w'.statesAt c = w.statesAt c)
    (hsum : w'.summary.get? c = w.summary.get? c) : w'.room g n c = w.room g n c := by
  unfold Walk.room
  rw [hseen, hsum]

/-- Accepting a state takes room from its block and from no other. -/
theorem room_accept (hw : w.Bounded g) (hs : s.Within g) (h : accept (some n) w b s = some (w', s')) :
    w'.room g n b < w.room g n b ∧ ∀ c, c ≠ b → w'.room g n c = w.room g n c := by
  have hset : ∀ t : State, spare g (some t) < spare g (w.summary.get? b) →
      ({ w with summary := w.summary.set b t } : Walk).room g n b < w.room g n b ∧ ∀ c, c ≠ b →
        ({ w with summary := w.summary.set b t } : Walk).room g n c = w.room g n c := by
    intro t ht
    refine ⟨?_, fun c hc => room_of_ne rfl (get?_set_of_ne _ hc _)⟩
    unfold Walk.room
    rw [get?_set_self]
    exact Nat.add_lt_add_left ht _
  have hv := accept_verdict (some n) w b s
  rw [h] at hv
  cases hv with
  | apart _ hfull =>
    have hlt : (w.statesAt b).length < n := by simpa [isFull] using hfull
    refine ⟨?_, fun c hc => room_of_ne (by rw [statesAt_set, if_neg hc]) rfl⟩
    unfold Walk.room
    rw [statesAt_set, if_pos rfl, length_append, length_singleton]
    dsimp only
    omega
  | first _ _ hsum =>
    refine hset s ?_
    rw [hsum, spare, spare]
    omega
  | @joined p _ _ hsum hne =>
    have hp : p.Within g := hw.summary b p hsum
    have hlt : p.weight g < (p.join s).weight g := weight_lt_weight_join hp hne
    have hle : (p.join s).weight g ≤ growth g := weight_le_growth (hp.join hs)
    refine hset (p.join s) ?_
    rw [hsum, spare, spare]
    omega

theorem sum_source_le {room room' : Nat → Nat} (hb : room' b < room b)
    (hc : ∀ c, c ≠ b → room' c = room c) (edges : List Edge) :
    (edges.map fun e => room' e.source).sum + (edges.filter fun e => e.source == b).length ≤
      (edges.map fun e => room e.source).sum := by
  induction edges with
  | nil => simp
  | cons e rest ih =>
    by_cases he : e.source = b
    · simp only [map_cons, sum_cons, filter_cons, he, beq_self_eq_true, if_true, length_cons]
      omega
    · have hroom := hc e.source he
      simp only [map_cons, sum_cons, filter_cons, beq_iff_eq, he, if_false]
      omega

theorem potential_next?_lt (hw : w.Bounded g) (h : w.next? g k (some n) = some w') :
    w'.potential g n < w.potential g n := by
  obtain ⟨b, s, rest, hq, hcase⟩ := next?_cases h
  obtain ⟨hs, hpop⟩ := hw.pop hq
  rcases hcase with ⟨-, rfl⟩ | ⟨w₁, s₁, ha, rfl⟩
  · have hroom : ∀ c, ({ w with queue := rest } : Walk).room g n c = w.room g n c := fun _ => rfl
    simp only [Walk.potential, hq, hroom, length_cons]
    omega
  · obtain ⟨hlt, heq⟩ := room_accept hpop hs ha
    have hqueue : w₁.queue = rest := (accept_rest ha).1
    have hsum := sum_source_le hlt heq g.edges.toList
    have hlen : (followers g b (after g k b s₁)).length ≤ (g.outgoing b).length :=
      length_followers_le
    have hroom : ∀ c, (w₁.enter g k b s₁).room g n c = w₁.room g n c := fun _ => rfl
    have hroom' : ∀ c, ({ w with queue := rest } : Walk).room g n c = w.room g n c := fun _ => rfl
    simp only [hroom'] at hsum
    unfold Graph.outgoing at hlen
    simp only [Walk.potential, enter_queue, hqueue, hq, hroom, length_append, length_cons]
    omega

theorem queue_walkFor :
    ∀ (fuel : Nat) (w : Walk), w.Bounded g → w.potential g n < fuel →
      (walkFor g k (some n) fuel w).queue = []
  | 0, _, _, h => absurd h (Nat.not_lt_zero _)
  | fuel + 1, w, hw, h => by
    unfold walkFor
    cases hnext : w.next? g k (some n) with
    | none => exact queue_eq_nil_of_next?_eq_none hnext
    | some w' =>
      have hlt := potential_next?_lt hw hnext
      exact queue_walkFor fuel w' (bounded_next? hw hnext) (by omega)

/-! ## The bound -/

theorem potential_start_lt_stepBound (g : Graph) (n : Nat) :
    Walk.start.potential g n < stepBound g (some n) := by
  have hroom : ∀ b, Walk.start.room g n b = n + (growth g + 1) := fun _ => rfl
  have hqueue : Walk.start.queue.length = 1 := rfl
  have hstart : Walk.start.potential g n = 1 + g.edges.size * (n + (growth g + 1)) := by
    simp [Walk.potential, hroom, hqueue]
  change _ < (n + (growth g + 1)) * (g.edges.size + 1) + 1
  rw [hstart, Nat.mul_comm _ (g.edges.size + 1), Nat.succ_mul]
  omega

/-- Nothing waits when `walk` stops. -/
theorem queue_walkFor_stepBound (g : Graph) (k : Setting) (n : Nat) :
    (walkFor g k (some n) (stepBound g (some n)) .start).queue = [] :=
  queue_walkFor _ _ (each_start (within_empty g)) (potential_start_lt_stepBound g n)

end Readiness.Lifetime
