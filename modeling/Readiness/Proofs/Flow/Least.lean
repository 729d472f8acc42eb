import Mathlib.Data.List.Permutation
import Readiness.Proofs.Flow.Worklist

/-!
# The worklist finds the least solution

When no block waits any more, the facts solve the problem: the entry has the fact it starts with,
and every block has what is sent to it (`Taken.solves`).  If the transfer is monotone, the facts are
below every other solution (`Taken.facts_below`), so the order in which blocks are taken does not
matter (`propagate_least`).
-/

namespace Readiness.Flow

variable {φ : Type}

/-- Merging is associative, commutative and idempotent up to sameness, an equivalence that it
respects. -/
structure Semilattice (merge : φ → φ → φ) (same : φ → φ → Bool) : Prop where
  symm : ∀ {a b}, same a b = true → same b a = true
  trans : ∀ {a b c}, same a b = true → same b c = true → same a c = true
  congr : ∀ {a b}, same a b = true → ∀ c, same (merge a c) (merge b c) = true
  assoc : ∀ a b c, same (merge (merge a b) c) (merge a (merge b c)) = true
  comm : ∀ a b, same (merge a b) (merge b a) = true
  idem : ∀ a, same (merge a a) a = true

/-- The order of facts: merging the lower one in changes nothing. -/
def Below (merge : φ → φ → φ) (same : φ → φ → Bool) (low high : φ) : Prop :=
  same (merge high low) high = true

/-- The entry has taken in the first fact, and every block what is sent to it. -/
structure Solves (start : φ) (transfer : Nat → φ → List (Nat × φ)) (merge : φ → φ → φ)
    (same : φ → φ → Bool) (facts : Nat → Option φ) : Prop where
  entry : ∃ fact, facts Graph.entry = some fact ∧ Below merge same start fact
  closed : ∀ b fact, facts b = some fact → ∀ sent ∈ transfer b fact,
    ∃ now, facts sent.1 = some now ∧ Below merge same sent.2 now

/-- A higher fact drops no edge, and what takes in all that it sends along an edge takes in what a
lower fact sends there. -/
def MonotoneTransfer (transfer : Nat → φ → List (Nat × φ)) (merge : φ → φ → φ)
    (same : φ → φ → Bool) : Prop :=
  ∀ b low high, Below merge same low high → ∀ sent ∈ transfer b low,
    (∃ sent' ∈ transfer b high, sent'.1 = sent.1) ∧
      ∀ bound, (∀ sent' ∈ transfer b high, sent'.1 = sent.1 → Below merge same sent'.2 bound) →
        Below merge same sent.2 bound

/-- The states of a propagation that takes the waiting blocks in any order. -/
inductive Taken (start : φ) (transfer : Nat → φ → List (Nat × φ)) (merge : φ → φ → φ)
    (same : φ → φ → Bool) : Pending φ → Prop
  | start : Taken start transfer merge same ⟨Table.empty.set Graph.entry start, [Graph.entry]⟩
  | round {p : Pending φ} {b : Nat} {rest queue : List Nat} {fact : φ}
    (before : Taken start transfer merge same p) (hqueue : p.queue.Perm (b :: rest))
    (hfact : p.facts.get? b = some fact)
    (hnext : queue.Perm
      ((transfer b fact).foldl (Pending.receive merge same) ⟨p.facts, rest⟩).queue) :
    Taken start transfer merge same
      { (transfer b fact).foldl (Pending.receive merge same) ⟨p.facts, rest⟩ with queue }

section Order

variable {merge : φ → φ → φ} {same : φ → φ → Bool} (laws : Semilattice merge same)

include laws

variable {a b : φ}

theorem Semilattice.congr_right (h : same a b = true) (c : φ) :
    same (merge c a) (merge c b) = true :=
  laws.trans (laws.comm c a) (laws.trans (laws.congr h c) (laws.comm b c))

theorem Below.trans {c : φ} (hab : Below merge same a b) (hbc : Below merge same b c) :
    Below merge same a c := by
  have hsplit : same (merge c a) (merge (merge c b) a) = true := laws.congr (laws.symm hbc) a
  have hjoin : same (merge c (merge b a)) (merge c b) = true := laws.congr_right hab c
  exact laws.trans hsplit (laws.trans (laws.assoc c b a) (laws.trans hjoin hbc))

theorem below_merge_left (a b : φ) : Below merge same a (merge a b) := by
  have hswap : same (merge (merge a b) a) (merge a (merge a b)) = true := laws.comm _ _
  have hassoc : same (merge a (merge a b)) (merge (merge a a) b) = true :=
    laws.symm (laws.assoc a a b)
  exact laws.trans hswap (laws.trans hassoc (laws.congr (laws.idem a) b))

theorem below_merge_right (a b : φ) : Below merge same b (merge a b) :=
  laws.trans (laws.assoc a b b) (laws.congr_right (laws.idem b) a)

theorem merge_below {c : φ} (ha : Below merge same a c) (hb : Below merge same b c) :
    Below merge same (merge a b) c :=
  laws.trans (laws.symm (laws.assoc c a b)) (laws.trans (laws.congr ha b) hb)

theorem same_of_below (hab : Below merge same a b) (hba : Below merge same b a) : same a b = true :=
  laws.trans (laws.symm hba) (laws.trans (laws.comm a b) hab)

/-- Merging grows facts in the order that it induces. -/
theorem Semilattice.merging :
    Merging merge same (Below merge same) (fun fact sent => Below merge same sent fact) where
  refl := laws.idem
  trans := Below.trans laws
  absorbs_self := laws.idem
  absorbs_of_grows := Below.trans laws
  grows_merge := below_merge_left laws
  absorbs_merge := below_merge_right laws
  absorbs_of_same h := h

end Order

section Runs

variable {start : φ} {transfer : Nat → φ → List (Nat × φ)} {merge : φ → φ → φ}
  {same : φ → φ → Bool} {p q : Pending φ}

section

variable (laws : Semilattice merge same)
include laws

/-- All states keep the invariant of the propagation; no fact depends on the rounds. -/
theorem Taken.propagating (h : Taken start transfer merge same p) :
    Propagating (ε := Empty) start (fun _ b fact => .ok (transfer b fact)) (Below merge same)
      (fun fact sent => Below merge same sent fact) (fun _ _ => True) 0 p := by
  induction h with
  | start => exact propagating_start laws.merging trivial
  | round before hqueue hfact hnext ih =>
    exact Propagating.round laws.merging ⟨id, fun _ => id, fun _ _ _ _ _ => trivial⟩ Nat.one_pos
      ⟨ih.entry, fun _ => trivial, ih.sent⟩ hqueue hfact rfl hnext

/-- When no block waits any more, the facts are a solution. -/
theorem Taken.solves (h : Taken start transfer merge same p)
    (hqueue : p.queue = []) : Solves start transfer merge same p.facts.get? := by
  have hsettled := h.propagating laws
  refine ⟨hsettled.entry, fun b fact hfact => ?_⟩
  have hwaits : b ∉ p.queue := hqueue ▸ List.not_mem_nil
  obtain ⟨_, _, -, hsent, htaken⟩ := (hsettled.sent hfact).resolve_left hwaits
  cases hsent
  exact htaken

theorem Taken.facts_below (hmono : MonotoneTransfer transfer merge same) {other : Nat → Option φ}
    (hother : Solves start transfer merge same other) (h : Taken start transfer merge same p)
    {b : Nat} {fact : φ} (hfact : p.facts.get? b = some fact) :
    ∃ high, other b = some high ∧ Below merge same fact high := by
  induction h generalizing b fact with
  | start =>
    obtain ⟨rfl, rfl⟩ := get?_start hfact
    exact hother.entry
  | @round p a rest queue sender before hqueue hsender hnext ih =>
    refine forall_receive_all (Q := fun b fact => ∃ high, other b = some high ∧
      Below merge same fact high) ?_ ?_ (p := ⟨p.facts, rest⟩) (fun hget => ih hget) hfact
    · rintro b x y ⟨high, hhigh, hx⟩ ⟨high', hhigh', hy⟩
      obtain rfl := Option.some.inj (hhigh.symm.trans hhigh')
      exact ⟨high, hhigh, merge_below laws hx hy⟩
    · intro sent hsent
      obtain ⟨high, hhigh, hle⟩ := ih hsender
      obtain ⟨⟨sent', hsent', hsame⟩, hbound⟩ := hmono a sender high hle sent hsent
      obtain ⟨now, hnow, -⟩ := hother.closed a high hhigh sent' hsent'
      rw [hsame] at hnow
      refine ⟨now, hnow, hbound now fun sent'' hmem heq => ?_⟩
      obtain ⟨now', hnow', hle'⟩ := hother.closed a high hhigh sent'' hmem
      rw [heq, hnow] at hnow'
      exact Option.some.inj hnow' ▸ hle'

/-- Two drained propagations have the same facts, whatever their orders are. -/
theorem Taken.same_facts (hmono : MonotoneTransfer transfer merge same)
    (hp : Taken start transfer merge same p)
    (hpq : p.queue = []) (hq : Taken start transfer merge same q) (hqq : q.queue = []) (b : Nat) :
    Option.Rel (same · · = true) (p.facts.get? b) (q.facts.get? b) := by
  have hpSolves := hp.solves laws hpq
  have hqSolves := hq.solves laws hqq
  cases hpb : p.facts.get? b with
  | some fact =>
    obtain ⟨fact', hqb, hle⟩ := hp.facts_below laws hmono hqSolves hpb
    obtain ⟨fact'', hpb', hge⟩ := hq.facts_below laws hmono hpSolves hqb
    obtain rfl := Option.some.inj (hpb.symm.trans hpb')
    rw [hqb]
    exact .some (same_of_below laws hle hge)
  | none =>
    cases hqb : q.facts.get? b with
    | none => exact .none
    | some fact' =>
      obtain ⟨fact, hpb', -⟩ := hq.facts_below laws hmono hpSolves hqb
      rw [hpb] at hpb'
      cases hpb'

end

theorem Taken.rounds (order : List Nat) (n : Nat) (h : Taken start transfer merge same p) :
    Taken start transfer merge same
      (Flow.rounds order (fun _ b fact => (pure (transfer b fact) : Id _)) merge same n p).run := by
  induction n generalizing p with
  | zero => exact h
  | succ n ih =>
    unfold Flow.rounds
    cases hqueue : p.queue with
    | nil => exact h
    | cons b rest =>
      cases hfact : p.facts.get? b with
      | none =>
        simp only [hfact]
        exact h
      | some fact =>
        simp only [hfact]
        exact ih (h.round (.of_eq hqueue) hfact (List.mergeSort_perm _ _))

end Runs

/-- The last state of a propagation whose transfer cannot fail. -/
def settled (g : Graph) (start : φ) (transfer : Nat → φ → List (Nat × φ)) (merge : φ → φ → φ)
    (same : φ → φ → Bool) (limit : Nat) : Pending φ :=
  (propagate g start (fun _ b fact => (pure (transfer b fact) : Id _)) merge same limit).run

/-- If no block waits after the last round, the facts are a solution.  If the transfer is monotone,
they are the least one, and every propagation that takes blocks in another order ends with the same
facts. -/
theorem propagate_least (g : Graph) (start : φ) (transfer : Nat → φ → List (Nat × φ))
    (merge : φ → φ → φ) (same : φ → φ → Bool) (limit : Nat) (laws : Semilattice merge same)
    (hdrained : (settled g start transfer merge same limit).queue = []) :
    Solves start transfer merge same (settled g start transfer merge same limit).facts.get? ∧
      (MonotoneTransfer transfer merge same →
        (∀ other, Solves start transfer merge same other → ∀ b fact,
          (settled g start transfer merge same limit).facts.get? b = some fact →
            ∃ high, other b = some high ∧ Below merge same fact high) ∧
        ∀ q, Taken start transfer merge same q → q.queue = [] → ∀ b,
          Option.Rel (same · · = true)
            ((settled g start transfer merge same limit).facts.get? b) (q.facts.get? b)) := by
  have htaken : Taken start transfer merge same (settled g start transfer merge same limit) :=
    Taken.start.rounds g.reachable limit
  refine ⟨htaken.solves laws hdrained, fun hmono => ⟨?_, ?_⟩⟩
  · intro other hother b fact hfact
    exact htaken.facts_below laws hmono hother hfact
  · intro q hq hqueue b
    exact htaken.same_facts laws hmono hdrained hq hqueue b

/-! ### An instance -/

/-- The last block in the order of numbers that is passed on the way, sent to all successors. -/
def passing (g : Graph) (b passed : Nat) : List (Nat × Nat) :=
  (g.successors b).map fun c => (c, max b passed)

theorem semilattice_max : Semilattice (φ := Nat) max (· == ·) where
  symm h := by simpa using (eq_of_beq h).symm
  trans h h' := by simpa using (eq_of_beq h).trans (eq_of_beq h')
  congr h c := by simpa using congrArg (max · c) (eq_of_beq h)
  assoc a b c := by simp [Nat.max_assoc]
  comm a b := by simpa using Nat.max_comm a b
  idem a := by simp

theorem below_max {a b : Nat} : Below max (· == ·) a b ↔ a ≤ b := by
  rw [Below, beq_iff_eq]
  omega

theorem monotoneTransfer_passing (g : Graph) :
    MonotoneTransfer (passing g) max (· == ·) := by
  intro b low high hle sent hsent
  obtain ⟨c, hc, rfl⟩ := List.mem_map.1 hsent
  have hmem : (c, max b high) ∈ passing g b high := List.mem_map.2 ⟨c, hc, rfl⟩
  refine ⟨⟨_, hmem, rfl⟩, fun bound hbound => ?_⟩
  have hhigh := below_max.1 (hbound _ hmem rfl)
  have hlow := below_max.1 hle
  exact below_max.2 (by omega)

/-- A loop whose body may repeat itself. -/
def nested : Graph :=
  { Graph.start "f" "f" [] with
    blocks := #[{ kind := "entry" }, { kind := "exit" }, { kind := "header" }, { kind := "body" }]
    edges := #[⟨0, 2, .fallThrough⟩, ⟨2, 3, .branchTrue⟩, ⟨2, 1, .loopExit⟩, ⟨3, 3, .branchTrue⟩,
      ⟨3, 2, .backEdge⟩] }

/-- The last blocks that are passed on the way to the blocks of `nested`. -/
def nestedPassed : Pending Nat := settled nested 0 (passing nested) max (· == ·) 20

theorem nested_propagate_least :
    nestedPassed.queue = [] ∧ nestedPassed.facts.get? Graph.exit = some 3 ∧
      Solves 0 (passing nested) max (· == ·) nestedPassed.facts.get? ∧
      (∀ other, Solves 0 (passing nested) max (· == ·) other →
        ∀ b passed, nestedPassed.facts.get? b = some passed →
          ∃ high, other b = some high ∧ passed ≤ high) ∧
      ∀ q, Taken 0 (passing nested) max (· == ·) q → q.queue = [] → ∀ b,
        Option.Rel (fun a b => (a == b) = true) (nestedPassed.facts.get? b) (q.facts.get? b) := by
  have hdrained : nestedPassed.queue = [] := by cbv
  have hexit : nestedPassed.facts.get? Graph.exit = some 3 := by cbv
  obtain ⟨hsolves, hleast⟩ :=
    propagate_least nested 0 (passing nested) max (· == ·) 20 semilattice_max hdrained
  obtain ⟨hbelow, horder⟩ := hleast (monotoneTransfer_passing nested)
  refine ⟨hdrained, hexit, hsolves, fun other hother b passed hpassed => ?_, horder⟩
  obtain ⟨high, hhigh, hle⟩ := hbelow other hother b passed hpassed
  exact ⟨high, hhigh, below_max.1 hle⟩

end Readiness.Flow
