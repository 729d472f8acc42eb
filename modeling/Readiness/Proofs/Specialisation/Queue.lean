import Readiness.Proofs.Specialisation.Steps

/-!
# Exploring level by level is exploring from a queue

What is done with a function does not depend on what waits already
(`exploreFunction_preceded`), so that a level can be taken from the queue one by one.  Whatever the
calls are, also when ever new instances are called, the queue runs empty, or exploring ends before,
with the outcome that the levels give (`drains_explore`).
-/

namespace Readiness.Specialisation

open Inference (Step Session run_bind bind_eq_ok)
open List

variable {image : Image} {build : Target → Step Graph} {limit depth : Nat} {may : Bool} {s : Session}

/-! ### Runs -/

/-- Exploring goes on from functions that wait already. -/
def Advance.preceded (gs : List Graph) : Advance → Advance
  | .stopped labels => .stopped labels
  | .going f => .going { f with next := gs ++ f.next }

/-- The outcome when functions wait already. -/
def preceded (gs : List Graph) (r : Except Refusal Advance × Session) :
    Except Refusal Advance × Session := (r.1.map (Advance.preceded gs), r.2)

theorem meet_preceded (gs : List Graph) (place : String) (f : Frontier) (t : Target) :
    meet image build depth may place { f with next := gs ++ f.next } t s =
      preceded gs (meet image build depth may place f t s) := by
  simp only [meet_run]
  split
  · rfl
  · split
    · rfl
    · rcases build t s with ⟨r, s'⟩
      cases r with
      | ok g => simp [preceded, Except.map, Advance.preceded]
      | error e =>
        cases e with
        | tooDeep reached place => cases Inference.labelOf image t <;> rfl
        | _ => rfl

/-- A step of exploring that does not depend on what waits already. -/
def Oblivious (step : Advance → Step Advance) : Prop :=
  ∀ gs a s, step (a.preceded gs) s = preceded gs (step a s)

theorem oblivious_andThen {f : Frontier → Step Advance}
    (hf : ∀ gs fr s, f { fr with next := gs ++ fr.next } s = preceded gs (f fr s)) :
    Oblivious fun a => a.andThen f := by
  intro gs a s
  cases a with
  | stopped labels => rfl
  | going fr => exact hf gs fr s

theorem oblivious_foldlM {α : Type} {step : Advance → α → Step Advance}
    (hstep : ∀ x, Oblivious fun a => step a x) (xs : List α) :
    Oblivious fun a => xs.foldlM step a := by
  induction xs with
  | nil => exact fun gs a s => rfl
  | cons x xs ih =>
    intro gs a s
    simp only [foldlM_cons, run_bind]
    have hx := hstep x gs a s
    simp only at hx
    rw [hx]
    rcases step a x s with ⟨_ | a', s'⟩
    · rfl
    · exact ih gs a' s'

theorem oblivious_exploreStatement (g : Graph) (st : Graph.Statement) :
    Oblivious fun a => exploreStatement image build depth may g a st := by
  refine oblivious_andThen fun gs fr s => ?_
  have hmeet : ∀ t, Oblivious fun a => a.andThen fun f =>
      meet image build depth may st.location.text f t := fun t =>
    oblivious_andThen fun gs f s => meet_preceded gs _ f t
  cases callees image g st with
  | error e => rfl
  | ok ts => exact oblivious_foldlM hmeet ts gs (.going fr) s

/-- Exploring a function does not depend on what waits already. -/
theorem exploreFunction_preceded (g : Graph) :
    Oblivious fun a => exploreFunction image build depth may a g := by
  refine oblivious_andThen fun gs fr s => ?_
  split
  · exact oblivious_foldlM (oblivious_exploreStatement g) _ gs
      (.going { fr with labels := fr.labels ++ [g.label] }) s
  · rfl

/-! ### The queue -/

/-- Exploring from a queue of functions with their depths, with no bound on the number of functions:
the instances seen, the labels so far, the queue, and what it comes to. -/
inductive Drains (image : Image) (build : Target → Step Graph) (limit : Nat) :
    List Target → List String → List (Graph × Nat) → Session → Except Refusal Exploration → Session →
      Prop
  /-- The queue is empty. -/
  | emptied {seen : List Target} {labels : List String} {s : Session} :
    Drains image build limit seen labels [] s (.ok ⟨true, labels⟩) s
  /-- The first function cannot be specialised. -/
  | stopped {seen : List Target} {labels labels' : List String} {g : Graph} {depth : Nat}
    {rest : List (Graph × Nat)} {s s' : Session}
    (h : exploreFunction image build (depth + 1) (decide (depth < limit))
      (.going ⟨seen, labels, []⟩) g s = (.ok (.stopped labels'), s')) :
    Drains image build limit seen labels ((g, depth) :: rest) s (.ok ⟨false, labels'⟩) s'
  /-- Exploring the first function is refused. -/
  | refused {seen : List Target} {labels : List String} {g : Graph} {depth : Nat}
    {rest : List (Graph × Nat)} {r : Refusal} {s s' : Session}
    (h : exploreFunction image build (depth + 1) (decide (depth < limit))
      (.going ⟨seen, labels, []⟩) g s = (.error r, s')) :
    Drains image build limit seen labels ((g, depth) :: rest) s (.error r) s'
  /-- The functions met in the first one go to the end. -/
  | next {seen : List Target} {labels : List String} {g : Graph} {depth : Nat}
    {rest : List (Graph × Nat)} {f : Frontier} {r : Except Refusal Exploration} {s s' s'' : Session}
    (h : exploreFunction image build (depth + 1) (decide (depth < limit))
      (.going ⟨seen, labels, []⟩) g s = (.ok (.going f), s'))
    (hrest : Drains image build limit f.seen f.labels (rest ++ f.next.map (·, depth + 1)) s' r s'') :
    Drains image build limit seen labels ((g, depth) :: rest) s r s''

/-- What a queue comes to by what its first level comes to. -/
def Continues (image : Image) (build : Target → Step Graph) (limit depth : Nat) :
    Except Refusal Advance × Session → Except Refusal Exploration × Session → Prop
  | (.error e, s), r => r = (.error e, s)
  | (.ok (.stopped labels), s), r => r = (.ok ⟨false, labels⟩, s)
  | (.ok (.going f), s), r =>
    Drains image build limit f.seen f.labels (f.next.map (·, depth + 1)) s r.1 r.2

variable {r : Except Refusal Exploration × Session}

/-- The functions of a level are the first ones in a queue. -/
theorem drains_of_foldlM (hmay : decide (depth < limit) = may) (gs : List Graph) :
    ∀ {seen : List Target} {labels : List String} {met : List Graph} {s : Session},
      Continues image build limit depth
        (gs.foldlM (exploreFunction image build (depth + 1) may) (.going ⟨seen, labels, met⟩) s) r →
      Drains image build limit seen labels (gs.map (·, depth) ++ met.map (·, depth + 1)) s r.1 r.2 := by
  subst hmay
  induction gs with
  | nil => exact fun h => h
  | cons g gs ih =>
    intro seen labels met s h
    have hfirst : exploreFunction image build (depth + 1) (decide (depth < limit))
          (.going ⟨seen, labels, met ++ []⟩) g s =
        preceded met (exploreFunction image build (depth + 1) (decide (depth < limit))
          (.going ⟨seen, labels, []⟩) g s) :=
      exploreFunction_preceded g met (.going ⟨seen, labels, []⟩) s
    rw [append_nil] at hfirst
    rw [foldlM_cons, run_bind, hfirst] at h
    rw [map_cons, cons_append]
    generalize hrun : exploreFunction image build (depth + 1) (decide (depth < limit))
      (.going ⟨seen, labels, []⟩) g s = run at h
    rcases run with ⟨_ | _ | f, s₁⟩
    · cases h
      exact .refused hrun
    · simp only [preceded, Except.map, Advance.preceded] at h
      rw [foldlM_stopped fun _ _ _ => rfl] at h
      cases h
      exact .stopped hrun
    · refine .next hrun ?_
      have hrest := ih h
      rwa [map_append, ← append_assoc] at hrest

theorem drains_of_level (hmay : decide (depth < limit) = may) (f : Frontier)
    (h : Continues image build limit depth (exploreLevel image build (depth + 1) may f s) r) :
    Drains image build limit f.seen f.labels (f.next.map (·, depth)) s r.1 r.2 := by
  have hlevel := drains_of_foldlM hmay f.next h
  rwa [map_nil, append_nil] at hlevel

/-- The last level leaves nothing to explore. -/
theorem next_of_last_level (gs : List Graph) :
    ∀ {f f' : Frontier} {s s' : Session},
      gs.foldlM (exploreFunction image build depth false) (.going f) s = (.ok (.going f'), s') →
      f'.next = f.next := by
  induction gs with
  | nil =>
    intro f f' s s' h
    cases h
    rfl
  | cons g gs ih =>
    intro f f' s s' h
    rw [foldlM_cons, bind_eq_ok] at h
    obtain ⟨a, s₁, hfirst, hrest⟩ := h
    rcases exploreFunction_cases hfirst with ⟨f₁, new, ha, hgrown, -⟩ | ⟨hnot, -⟩
    · cases ha
      have hnone : new = [] := by_contra fun hne => nomatch hgrown.descends hne
      rw [ih hrest, hgrown.next_eq, hnone]
      exact append_nil _
    · cases a with
      | going f₁ => exact absurd rfl (hnot f₁)
      | stopped labels =>
        rw [foldlM_stopped fun _ _ _ => rfl] at hrest
        cases hrest

theorem drains_exploreLevels (room : Nat) : ∀ (depth : Nat) (f : Frontier) (s : Session),
    depth + room = limit →
    Drains image build limit f.seen f.labels (f.next.map (·, depth)) s
      (exploreLevels image build room depth f s).1 (exploreLevels image build room depth f s).2 := by
  induction room with
  | zero =>
    intro depth f s hroom
    refine drains_of_level (decide_eq_false (by omega)) f ?_
    rw [exploreLevels, run_bind]
    generalize hrun : exploreLevel image build (depth + 1) false f s = run
    rcases run with ⟨_ | _ | f', s'⟩
    · rfl
    · rfl
    · have hnone : f'.next = [] := next_of_last_level f.next hrun
      simp only [Continues, hnone, map_nil]
      exact .emptied
  | succ room ih =>
    intro depth f s hroom
    refine drains_of_level (decide_eq_true (by omega)) f ?_
    rw [exploreLevels, run_bind]
    rcases exploreLevel image build (depth + 1) true f s with ⟨_ | _ | f', s'⟩
    · rfl
    · rfl
    · simp only [Continues]
      split
      · rename_i hnone
        rw [isEmpty_iff.mp hnone]
        exact .emptied
      · exact ih (depth + 1) f' s' (by omega)

/-- Exploring ends, for every way to build functions: the queue that starts with the target runs
empty or is given up, with the outcome that the levels give. -/
theorem drains_explore (limit : Nat) (t : Target) (g : Graph) (s : Session) :
    Drains image build limit [t] [] [(g, 0)] s (explore image build limit t g s).1
      (explore image build limit t g s).2 :=
  drains_exploreLevels limit 0 ⟨[t], [], [g]⟩ s (Nat.zero_add limit)

end Readiness.Specialisation
