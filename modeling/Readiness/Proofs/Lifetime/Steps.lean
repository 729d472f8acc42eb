import Mathlib.Data.List.Basic
import Readiness.Lifetime.Path

/-!
# What single paths show

The state after a statement or a block does not depend on the record, and the record
afterwards shows what it showed before together with what the statement or block shows by itself
(`step_shows`, `visit_shows`).  The paths together therefore show what the blocks show in the
states that arrive at them (`exists_recordAlong_shows_iff`).
-/

namespace Readiness.Lifetime

open Graph (Statement Edge)
open List

/-- Something that a record can show. -/
inductive Mark
  /-- A release met an allocation. -/
  | pair (allocation release : Int)
  | leak (allocation : Int)
  | double (release : Int)
  deriving DecidableEq

def Record.Shows (r : Record) : Mark → Prop
  | .pair a f => (a, f) ∈ r.pairs
  | .leak a => a ∈ r.leaks
  | .double f => f ∈ r.doubleReleases

theorem Record.not_blank_shows (m : Mark) : ¬ Record.blank.Shows m := by
  cases m <;> simp [Record.blank, Record.Shows]

theorem mem_note {α : Type} [DecidableEq α] (x y : α) (xs : List α) :
    x ∈ note y xs ↔ x = y ∨ x ∈ xs := by
  unfold note
  split
  · rename_i h
    constructor
    · exact Or.inr
    · rintro (rfl | hx)
      · exact h
      · exact hx
  · simp [or_comm]

theorem mem_foldl_note {α : Type} [DecidableEq α] (x : α) (added : List α) :
    ∀ xs : List α, x ∈ added.foldl (fun xs y => note y xs) xs ↔ x ∈ added ∨ x ∈ xs := by
  induction added with
  | nil =>
    intro xs
    simp
  | cons y added ih =>
    intro xs
    rw [foldl_cons, ih, mem_note, mem_cons]
    tauto

@[simp] theorem Record.lacking_shows (r : Record) (part : Option Graph.MissingPart) (m : Mark) :
    (r.lacking part).Shows m ↔ r.Shows m := by
  cases m <;> simp [Record.lacking, Record.Shows]

variable (k : Setting)

variable (s : Statement)

theorem allocate_shows (r : Record) (state : State) (m : Mark) :
    (allocate k s r state).1.Shows m ↔
      r.Shows m ∨ (allocate k s .blank state).1.Shows m := by
  unfold allocate
  cases s.target <;> cases m <;>
    by_cases h : s.index ∈ state.opened ∧ ¬ s.index ∈ k.transfers <;>
    simp [h, Record.Shows, Record.blank, mem_note, or_comm]

theorem allocate_state (r r' : Record) (state : State) :
    (allocate k s r state).2 = (allocate k s r' state).2 := by
  unfold allocate
  cases s.target <;> rfl

theorem meet_shows (r : Record) (state : State) (candidates : List Int)
    (m : Mark) :
    (meet s r state candidates).1.Shows m ↔
      r.Shows m ∨ (meet s .blank state candidates).1.Shows m := by
  unfold meet
  cases candidates.getLast? <;> cases m <;>
    simp [Record.Shows, Record.blank, mem_note, or_comm]

theorem meet_state (r r' : Record) (state : State) (candidates : List Int) :
    (meet s r state candidates).2 = (meet s r' state candidates).2 := by
  unfold meet
  cases candidates.getLast? <;> rfl

theorem release_shows (r : Record) (state : State) (m : Mark) :
    (release k s r state).1.Shows m ↔ r.Shows m ∨ (release k s .blank state).1.Shows m := by
  unfold release
  cases aim k s state with
  | caller name => simp [Record.not_blank_shows]
  | any | sites sites => exact meet_shows s r state _ m

theorem release_state (r r' : Record) (state : State) :
    (release k s r state).2 = (release k s r' state).2 := by
  unfold release
  cases aim k s state with
  | caller name => rfl
  | any | sites sites => exact meet_state s r r' state _

theorem step_shows (r : Record) (state : State) (m : Mark) :
    (step k (r, state) s).1.Shows m ↔ r.Shows m ∨ (step k (.blank, state) s).1.Shows m := by
  unfold step
  by_cases ha : isAllocation s = true
  · simpa [ha] using allocate_shows k s r state m
  · by_cases hr : isRelease s = true
    · simpa [ha, hr] using release_shows k s r state m
    · cases s.target <;> cases copied? s <;> by_cases hc : s.op = "copy" <;>
        simp [ha, hr, hc, Record.not_blank_shows]

/-- The state after a statement does not depend on the record. -/
theorem step_state (r r' : Record) (state : State) :
    (step k (r, state) s).2 = (step k (r', state) s).2 := by
  unfold step
  by_cases ha : isAllocation s = true
  · simpa [ha] using allocate_state k s r r' state
  · by_cases hr : isRelease s = true
    · simpa [ha, hr] using release_state k s r r' state
    · cases s.target <;> cases copied? s <;> simp [ha, hr]

def advance (state : State) (statements : List Statement) : State :=
  (statements.foldl (step k) (.blank, state)).2

theorem foldl_step_state (statements : List Statement) :
    ∀ at_ : Record × State, (statements.foldl (step k) at_).2 = advance k at_.2 statements := by
  induction statements with
  | nil =>
    intro at_
    rfl
  | cons s rest ih =>
    intro at_
    have hstate : (step k at_ s).2 = (step k (.blank, at_.2) s).2 :=
      step_state k s at_.1 .blank at_.2
    rw [foldl_cons, advance, foldl_cons, ih, ih, hstate]

theorem advance_cons (s : State) (a : Statement) (rest : List Statement) :
    advance k s (a :: rest) = advance k (step k (.blank, s) a).2 rest :=
  foldl_step_state k rest (step k (.blank, s) a)

theorem foldl_step_shows (statements : List Statement) (m : Mark) :
    ∀ at_ : Record × State,
      (statements.foldl (step k) at_).1.Shows m ↔
        at_.1.Shows m ∨ (statements.foldl (step k) (.blank, at_.2)).1.Shows m := by
  induction statements with
  | nil =>
    intro at_
    simp [Record.not_blank_shows]
  | cons s rest ih =>
    intro at_
    have hstate : (step k at_ s).2 = (step k (.blank, at_.2) s).2 :=
      step_state k s at_.1 .blank at_.2
    have hshows : (step k at_ s).1.Shows m ↔ _ := step_shows k s at_.1 at_.2 m
    rw [foldl_cons, foldl_cons, ih, ih (step k (.blank, at_.2) s), hshows, hstate, or_assoc]

theorem finish_shows (r : Record) (state : State) (m : Mark) :
    (finish k r state).Shows m ↔ r.Shows m ∨ (finish k .blank state).Shows m := by
  cases m <;> simp [finish, Record.Shows, Record.blank, mem_foldl_note, or_comm]

def after (g : Graph) (k : Setting) (b : Nat) (state : State) : State :=
  advance k state (g.statementsOf b)

/-- What a block shows by itself when it is entered in a state. -/
def shown (g : Graph) (k : Setting) (b : Nat) (state : State) : Record :=
  (visit g k b (.blank, state)).1

theorem visit_state (g : Graph) (k : Setting) (b : Nat) (r : Record) (state : State) :
    (visit g k b (r, state)).2 = after g k b state := by
  unfold visit after
  rw [← foldl_step_state k (g.statementsOf b) (r, state)]
  dsimp only
  split <;> rfl

/-- A visit adds to a record what the block shows by itself. -/
theorem visit_shows (g : Graph) (k : Setting) (b : Nat) (r : Record) (state : State) (m : Mark) :
    (visit g k b (r, state)).1.Shows m ↔ r.Shows m ∨ (shown g k b state).Shows m := by
  have hfold := foldl_step_shows k (g.statementsOf b) m (r, state)
  have hr := foldl_step_state k (g.statementsOf b) (r, state)
  have hblank := foldl_step_state k (g.statementsOf b) (.blank, state)
  unfold shown visit
  dsimp only
  split
  · rw [finish_shows, hfold, finish_shows k (List.foldl _ (.blank, state) _).1, hr, hblank,
      or_assoc]
  · exact hfold

/-- Runs the blocks along edges, which must follow one another from a block.  The result is the
block at the end, the record so far and the state on arrival there.  There is none when an edge
contradicts an earlier test. -/
def follow (g : Graph) (k : Setting) :
    Nat → Record × State → List Edge → Option (Nat × Record × State)
  | b, at_, [] => some (b, at_)
  | b, at_, e :: es =>
    if e ∈ g.outgoing b then
      match refine (g.statementsOf b) e (visit g k b at_).2 with
      | some state => follow g k e.target ((visit g k b at_).1, state) es
      | none => none
    else none

/-- What the path along edges from the entry records; none when it is not feasible. -/
def recordAlong (g : Graph) (k : Setting) (es : List Edge) : Option Record :=
  (follow g k Graph.entry (.blank, .empty) es).map fun (b, at_) => (visit g k b at_).1

/-- The states that arrive at a block along feasible paths. -/
inductive Arrives (g : Graph) (k : Setting) : Nat → State → Prop
  | entry : Arrives g k Graph.entry .empty
  | edge {b : Nat} {s s' : State} {e : Edge} :
    Arrives g k b s →
    e ∈ g.outgoing b →
    refine (g.statementsOf b) e (after g k b s) = some s' →
    Arrives g k e.target s'

variable {g : Graph} {k : Setting}

theorem follow_concat {b c : Nat} {at_ : Record × State} {r : Record} {s t : State} {e : Edge}
    (es : List Edge) (h : follow g k b at_ es = some (c, r, s)) (he : e ∈ g.outgoing c)
    (ht : refine (g.statementsOf c) e (after g k c s) = some t) :
    follow g k b at_ (es ++ [e]) = some (e.target, (visit g k c (r, s)).1, t) := by
  induction es generalizing b at_ with
  | nil =>
    obtain ⟨rfl, rfl⟩ := Prod.mk.inj (Option.some.inj h)
    rw [nil_append, follow, if_pos he, visit_state, ht]
    rfl
  | cons first rest ih =>
    rw [follow] at h
    rw [cons_append, follow]
    split at h
    · rename_i hfirst
      rw [if_pos hfirst]
      split at h
      · exact ih h
      · cases h
    · cases h

theorem follow_arrives {c : Nat} {r : Record} {t : State} {m : Mark} :
    ∀ {es : List Edge} {b : Nat} {r₀ : Record} {s : State},
      Arrives g k b s → follow g k b (r₀, s) es = some (c, r, t) →
        Arrives g k c t ∧
          (r.Shows m → r₀.Shows m ∨ ∃ b s, Arrives g k b s ∧ (shown g k b s).Shows m)
  | [], b, r₀, s, harr, h => by
    obtain ⟨rfl, hat⟩ := Prod.mk.inj (Option.some.inj h)
    obtain ⟨rfl, rfl⟩ := Prod.mk.inj hat
    exact ⟨harr, Or.inl⟩
  | e :: es, b, r₀, s, harr, h => by
    rw [follow] at h
    split at h
    · rename_i he
      split at h
      · rename_i s' hs'
        rw [visit_state] at hs'
        obtain ⟨hc, hshows⟩ := follow_arrives (.edge harr he hs') h
        refine ⟨hc, ?_⟩
        intro hr
        rcases hshows hr with hvisit | hother
        · rcases (visit_shows g k b r₀ s m).mp hvisit with hr₀ | hhere
          · exact Or.inl hr₀
          · exact Or.inr ⟨b, s, harr, hhere⟩
        · exact Or.inr hother
      · cases h
    · cases h

/-- A state arrives at a block when some feasible path ends there in that state. -/
theorem exists_follow_iff {b : Nat} {s : State} :
    (∃ es r, follow g k Graph.entry (.blank, .empty) es = some (b, r, s)) ↔ Arrives g k b s := by
  constructor
  · rintro ⟨es, r, h⟩
    exact (follow_arrives (m := .leak 0) .entry h).1
  · intro h
    induction h with
    | entry => exact ⟨[], .blank, rfl⟩
    | @edge c s t e _ he ht ih =>
      obtain ⟨es, r, hes⟩ := ih
      exact ⟨es ++ [e], _, follow_concat es hes he ht⟩

/-- The feasible paths together show what the blocks show in the states that arrive at them. -/
theorem exists_recordAlong_shows_iff (g : Graph) (k : Setting) (m : Mark) :
    (∃ es r, recordAlong g k es = some r ∧ r.Shows m) ↔
      ∃ b s, Arrives g k b s ∧ (shown g k b s).Shows m := by
  constructor
  · rintro ⟨es, r, hr, hm⟩
    obtain ⟨⟨b, r', s⟩, hes, rfl⟩ := Option.map_eq_some_iff.mp hr
    obtain ⟨harr, hshows⟩ := follow_arrives (m := m) .entry hes
    rcases (visit_shows g k b r' s m).mp hm with hbefore | hhere
    · rcases hshows hbefore with hblank | hother
      · exact absurd hblank (Record.not_blank_shows m)
      · exact hother
    · exact ⟨b, s, harr, hhere⟩
  · rintro ⟨b, s, harr, hm⟩
    obtain ⟨es, r, hes⟩ := exists_follow_iff.mpr harr
    refine ⟨es, (visit g k b (r, s)).1, ?_, (visit_shows g k b r s m).mpr (Or.inr hm)⟩
    rw [recordAlong, hes]
    rfl

end Readiness.Lifetime
