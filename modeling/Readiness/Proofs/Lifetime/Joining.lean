import Readiness.Proofs.Lifetime.Exactness

/-!
# What joined states keep of a path

A release keeps covering exactly when it is faithful
(`covers_release_iff`): what it closes in the covering state it does not leave open in the covered
one.  A leak that a path shows is therefore reported when the releases on the path are faithful,
whatever the limit is (`leaks_subset_of_faithful`); where nothing is joined all paths are faithful
(`faithfulPath_of_encard_le`).  Otherwise a leak can be lost: a pointer that a path has given up is
found again in the joined state.
-/

namespace Readiness.Lifetime

open Readiness.Graph (Statement Edge)
open List Table

variable {g : Graph} {k : Setting} {limit : Option Nat} {w w' : Walk} {b : Nat} {s t c p : State}

/-! ## Covering -/

variable {s : State} {k : Setting}

theorem mem_facts_rebind {name : String} {is : List Int} {f : String × Bool} :
    f ∈ (s.rebind name is).facts ↔ f ∈ s.facts ∧ f.1 ≠ name := by
  simp [State.rebind]

theorem covers_rebind (h : Covers c s) (name : String) (is js : List Int) :
    Covers (c.rebind name is) (s.rebind name js) := by
  refine ⟨h.opened, ?_⟩
  intro f hf
  rw [mem_facts_rebind] at hf ⊢
  exact ⟨h.facts f hf.1, hf.2⟩

/-! ## Statements -/

variable {a : Statement} {r : Record} {i : Int}

theorem mem_opened_allocate : i ∈ (allocate k a r s).2.opened ↔ i ∈ s.opened ∨ i = a.index := by
  unfold allocate
  by_cases h : a.index ∈ s.opened
  · cases a.target <;> simp [State.rebind, h] <;> exact fun e => e ▸ h
  · cases a.target <;> simp [State.rebind, h]

theorem facts_allocate :
    (allocate k a r s).2.facts =
      match a.target with
      | none => s.facts
      | some name => (s.rebind name []).facts := by
  unfold allocate
  by_cases h : a.index ∈ s.opened
  · cases a.target <;> simp [State.rebind, h]
  · cases a.target <;> simp [State.rebind, h]

theorem covers_allocate (h : Covers c s) (a : Statement) (r : Record) :
    Covers (allocate k a r c).2 (allocate k a r s).2 := by
  constructor
  · intro i hi
    rw [mem_opened_allocate] at hi ⊢
    exact hi.imp (h.opened i) id
  · rw [facts_allocate, facts_allocate]
    cases a.target with
    | none => exact h.facts
    | some name => exact (covers_rebind h name [] []).facts

def closes (k : Setting) (a : Statement) (s : State) : Option Int :=
  match aim k a s with
  | .caller _ => none
  | .any => s.opened.getLast?
  | .sites is => (s.opened.filter is.contains).getLast?

/-- The name of which a release forgets the test outcomes in a state. -/
def forgets (k : Setting) (a : Statement) (s : State) : Option String :=
  match aim k a s with
  | .caller name => some name
  | _ => none

variable {candidates : List Int}

theorem mem_opened_meet :
    i ∈ (meet a r s candidates).2.opened ↔ i ∈ s.opened ∧ candidates.getLast? ≠ some i := by
  unfold meet
  cases candidates.getLast? with
  | none => simp
  | some site => simp [@eq_comm _ site i]

theorem facts_meet : (meet a r s candidates).2.facts = s.facts := by
  unfold meet
  cases candidates.getLast? <;> rfl

theorem mem_opened_release :
    i ∈ (release k a r s).2.opened ↔ i ∈ s.opened ∧ closes k a s ≠ some i := by
  unfold release closes
  cases aim k a s with
  | caller name => simp [State.rebind]
  | any | sites is => exact mem_opened_meet

theorem mem_facts_release {f : String × Bool} :
    f ∈ (release k a r s).2.facts ↔ f ∈ s.facts ∧ forgets k a s ≠ some f.1 := by
  unfold release forgets
  cases aim k a s with
  | caller name => simp [mem_facts_rebind, @eq_comm _ name f.1]
  | any | sites is => simp [facts_meet]

/-- A release treats a covering state like the covered one: it closes there nothing that it leaves
open here, and it keeps there no test outcome that it forgets here. -/
def Faithful (k : Setting) (a : Statement) (s c : State) : Prop :=
  (∀ i ∈ s.opened, closes k a c = some i → closes k a s = some i) ∧
    ∀ f ∈ c.facts, forgets k a s = some f.1 → forgets k a c = some f.1

instance (k : Setting) (a : Statement) (s c : State) : Decidable (Faithful k a s c) :=
  inferInstanceAs (Decidable (_ ∧ _))

theorem faithful_self (k : Setting) (a : Statement) (s : State) : Faithful k a s s :=
  ⟨fun _ _ => id, fun _ _ => id⟩

/-- A release keeps covering exactly when it is faithful. -/
theorem covers_release_iff (h : Covers c s) (a : Statement) (r : Record) :
    Covers (release k a r c).2 (release k a r s).2 ↔ Faithful k a s c := by
  constructor
  · intro hcov
    constructor
    · intro i hi hc
      by_contra hs
      have hopen := hcov.opened i (mem_opened_release.mpr ⟨hi, hs⟩)
      exact (mem_opened_release.mp hopen).2 hc
    · intro f hf hs
      by_contra hc
      have hfact := hcov.facts f (mem_facts_release.mpr ⟨hf, hc⟩)
      exact (mem_facts_release.mp hfact).2 hs
  · rintro ⟨hopened, hfacts⟩
    constructor
    · intro i hi
      obtain ⟨hi, hs⟩ := mem_opened_release.mp hi
      exact mem_opened_release.mpr ⟨h.opened i hi, fun hc => hs (hopened i hi hc)⟩
    · intro f hf
      obtain ⟨hf, hc⟩ := mem_facts_release.mp hf
      exact mem_facts_release.mpr ⟨h.facts f hf, fun hs => hc (hfacts f hf hs)⟩

theorem covers_step (h : Covers c s) (hrel : isRelease a = true → Faithful k a s c) :
    Covers (step k (.blank, c) a).2 (step k (.blank, s) a).2 := by
  unfold step
  by_cases halloc : isAllocation a = true
  · simpa [halloc] using covers_allocate h a .blank
  · by_cases hr : isRelease a = true
    · simpa [halloc, hr] using (covers_release_iff h a .blank).mpr (hrel hr)
    · cases a.target with
      | none => simpa [halloc, hr] using h
      | some name =>
        cases copied? a with
        | none => simpa [halloc, hr] using covers_rebind h name [] []
        | some source => simpa [halloc, hr] using covers_rebind h name _ _

theorem allocate_leak_iff :
    (allocate k a .blank s).1.Shows (.leak i) ↔ i = a.index ∧ i ∈ s.opened ∧ i ∉ k.transfers := by
  have hleak : (allocate k a .blank s).1.Shows (.leak i) ↔
      i = a.index ∧ (a.index ∈ s.opened ∧ a.index ∉ k.transfers) := by
    unfold allocate
    by_cases h : a.index ∈ s.opened ∧ ¬ a.index ∈ k.transfers <;>
      cases a.target <;> simp [h, Record.Shows, Record.blank, note]
  rw [hleak]
  constructor <;>
  · rintro ⟨rfl, h⟩
    exact ⟨rfl, h⟩

theorem not_release_leak : ¬ (release k a .blank s).1.Shows (.leak i) := by
  have hmeet : ∀ candidates : List Int, ¬ (meet a .blank s candidates).1.Shows (.leak i) := by
    intro candidates
    cases h : candidates.getLast? <;> simp [meet, h, Record.Shows, Record.blank]
  unfold release
  cases aim k a s with
  | caller name => exact Record.not_blank_shows _
  | any | sites is => exact hmeet _

/-- The only statement that shows a leak by itself is an allocation of a site that is open. -/
theorem step_leak_iff :
    (step k (.blank, s) a).1.Shows (.leak i) ↔
      isAllocation a = true ∧ i = a.index ∧ i ∈ s.opened ∧ i ∉ k.transfers := by
  unfold step
  by_cases halloc : isAllocation a = true
  · simpa [halloc] using allocate_leak_iff
  · by_cases hr : isRelease a = true
    · simpa [halloc, hr] using not_release_leak
    · cases a.target <;> cases copied? a <;> by_cases hc : a.op = "copy" <;>
        simp [halloc, hr, hc, Record.not_blank_shows]

theorem step_leak_of_covers (h : Covers c s) (hi : (step k (.blank, s) a).1.Shows (.leak i)) :
    (step k (.blank, c) a).1.Shows (.leak i) := by
  rw [step_leak_iff] at hi ⊢
  obtain ⟨ha, hidx, hopen, htrans⟩ := hi
  exact ⟨ha, hidx, h.opened i hopen, htrans⟩

/-! ## Blocks and edges -/

/-- All releases among statements are faithful, where the states advance side by side. -/
def FaithfulIn (k : Setting) : State → State → List Statement → Prop
  | _, _, [] => True
  | s, c, a :: rest =>
    (isRelease a = true → Faithful k a s c) ∧
      FaithfulIn k (step k (.blank, s) a).2 (step k (.blank, c) a).2 rest

instance decidableFaithfulIn (k : Setting) :
    ∀ (s c : State) (statements : List Statement), Decidable (FaithfulIn k s c statements)
  | _, _, [] => .isTrue trivial
  | s, c, a :: rest =>
    have := decidableFaithfulIn k (step k (.blank, s) a).2 (step k (.blank, c) a).2 rest
    inferInstanceAs (Decidable (_ ∧ _))

theorem faithfulIn_self (k : Setting) (s : State) (statements : List Statement) :
    FaithfulIn k s s statements := by
  induction statements generalizing s with
  | nil => trivial
  | cons a rest ih => exact ⟨fun _ => faithful_self k a s, ih _⟩

theorem covers_advance (statements : List Statement) :
    ∀ {c s : State}, Covers c s → FaithfulIn k s c statements →
      Covers (advance k c statements) (advance k s statements) := by
  induction statements with
  | nil =>
    intro c s h _
    exact h
  | cons a rest ih =>
    rintro c s h ⟨ha, hrest⟩
    rw [advance_cons, advance_cons]
    exact ih (covers_step h ha) hrest

theorem foldl_leak_of_covers (statements : List Statement) :
    ∀ {c s : State}, Covers c s → FaithfulIn k s c statements →
      (statements.foldl (step k) (.blank, s)).1.Shows (.leak i) →
      (statements.foldl (step k) (.blank, c)).1.Shows (.leak i) := by
  induction statements with
  | nil =>
    intro c s _ _ hi
    exact hi
  | cons a rest ih =>
    rintro c s h ⟨ha, hrest⟩ hi
    rw [foldl_cons, foldl_step_shows] at hi ⊢
    rcases hi with hi | hi
    · exact Or.inl (step_leak_of_covers h hi)
    · exact Or.inr (ih (covers_step h ha) hrest hi)

theorem finish_leak_iff :
    (finish k r s).Shows (.leak i) ↔ r.Shows (.leak i) ∨ i ∈ s.opened ∧ i ∉ k.transfers := by
  simp [finish, Record.Shows, mem_foldl_note, or_comm]

theorem shown_leak_of_covers (h : Covers c s) (hf : FaithfulIn k s c (g.statementsOf b))
    (hi : (shown g k b s).Shows (.leak i)) : (shown g k b c).Shows (.leak i) := by
  have hafter := covers_advance _ h hf
  unfold shown visit at hi ⊢
  dsimp only at hi ⊢
  split at hi
  · rename_i hend
    rw [if_pos hend, finish_leak_iff, foldl_step_state]
    rw [finish_leak_iff, foldl_step_state] at hi
    rcases hi with hi | ⟨hi, htrans⟩
    · exact Or.inl (foldl_leak_of_covers _ h hf hi)
    · exact Or.inr ⟨hafter.opened i hi, htrans⟩
  · rename_i hend
    rw [if_neg hend]
    exact foldl_leak_of_covers _ h hf hi

theorem covers_refine {statements : List Statement} {e : Edge} (h : Covers c s)
    (ht : refine statements e s = some t) :
    ∃ d, refine statements e c = some d ∧ Covers d t := by
  unfold refine at ht ⊢
  dsimp only at ht ⊢
  split at ht
  · rename_i name taken _ _
    split at ht
    · cases ht
    · rename_i hfree
      have hfree' : (name, !taken) ∉ c.facts := by
        intro hmem
        exact hfree (by simpa using h.facts _ hmem)
      refine ⟨{ c with facts := orderedPairs (c.facts ++ [(name, taken)]) }, ?_, ?_⟩
      · simp [hfree']
      · obtain rfl := Option.some.inj ht
        refine ⟨h.opened, ?_⟩
        intro f hf
        rw [mem_orderedPairs, mem_append] at hf ⊢
        exact hf.imp (h.facts f) id
  · obtain rfl := Option.some.inj ht
    exact ⟨c, rfl, h⟩

/-! ## Walks -/

def Walk.standIn (w : Walk) (b : Nat) (s : State) : State :=
  if s ∈ w.statesAt b then s else (w.summary.get? b).getD s

theorem Walk.Represents.holds_standIn (h : w.Represents b s) : w.Holds b (w.standIn b s) := by
  unfold Walk.standIn
  split
  · rename_i hs
    exact Or.inl hs
  · rename_i hs
    obtain ⟨p, hp, -⟩ := h.resolve_left hs
    exact Or.inr (by rw [hp]; rfl)

theorem Walk.Represents.covers_standIn (h : w.Represents b s) : Covers (w.standIn b s) s := by
  unfold Walk.standIn
  split
  · exact covers_refl s
  · rename_i hs
    obtain ⟨p, hp, hcov⟩ := h.resolve_left hs
    rw [hp]
    exact hcov

/-! ## Paths beside a walk -/

/-- All releases along edges are faithful, where a path from a block is followed beside the states
that stand for it in a walk. -/
def FaithfulAlong (g : Graph) (k : Setting) (w : Walk) :
    Nat → State → State → List Edge → Prop
  | b, s, c, [] => FaithfulIn k s c (g.statementsOf b)
  | b, s, c, e :: es =>
    FaithfulIn k s c (g.statementsOf b) ∧
      match refine (g.statementsOf b) e (after g k b s),
        refine (g.statementsOf b) e (after g k b c) with
      | some t, some d => FaithfulAlong g k w e.target t (w.standIn e.target d) es
      | _, _ => True

instance decidableFaithfulAlong (g : Graph) (k : Setting) (w : Walk) :
    ∀ (b : Nat) (s c : State) (es : List Edge), Decidable (FaithfulAlong g k w b s c es)
  | b, s, c, [] => decidableFaithfulIn k s c (g.statementsOf b)
  | b, s, c, e :: es =>
    match ht : refine (g.statementsOf b) e (after g k b s),
      hd : refine (g.statementsOf b) e (after g k b c) with
    | some t, some d =>
      have := decidableFaithfulAlong g k w e.target t (w.standIn e.target d) es
      decidable_of_iff (FaithfulIn k s c (g.statementsOf b) ∧
        FaithfulAlong g k w e.target t (w.standIn e.target d) es)
        (by rw [FaithfulAlong, ht, hd])
    | some t, none =>
      decidable_of_iff (FaithfulIn k s c (g.statementsOf b))
        (by rw [FaithfulAlong, ht, hd, and_true])
    | none, _ =>
      decidable_of_iff (FaithfulIn k s c (g.statementsOf b))
        (by rw [FaithfulAlong, ht, and_true])

/-- The leaks along a faithful path are found by a walk at its end. -/
theorem found_leak_of_follow (hw : w.Covering g k) (hq : w.queue = []) :
    ∀ {es : List Edge} {b : Nat} {s c : State} {r₀ r : Record} {d : Nat} {t : State},
      w.Holds b c → Covers c s → FaithfulAlong g k w b s c es →
      follow g k b (r₀, s) es = some (d, r, t) →
      (visit g k d (r, t)).1.Shows (.leak i) →
      r₀.Shows (.leak i) ∨ w.found.Shows (.leak i)
  | [], b, s, c, r₀, r, d, t, hc, hcov, hf, h, hi => by
    obtain ⟨rfl, hat⟩ := Prod.mk.inj (Option.some.inj h)
    obtain ⟨rfl, rfl⟩ := Prod.mk.inj hat
    rcases (visit_shows g k b r₀ s (.leak i)).mp hi with hi | hi
    · exact Or.inl hi
    · exact Or.inr (hw.found b c hc _ (shown_leak_of_covers hcov hf hi))
  | e :: es, b, s, c, r₀, r, d, t, hc, hcov, hf, h, hi => by
    rw [follow] at h
    split at h
    · rename_i he
      split at h
      · rename_i s' hs'
        rw [visit_state] at hs'
        have hafter : Covers (after g k b c) (after g k b s) := covers_advance _ hcov hf.1
        obtain ⟨c', hc', hcov'⟩ := covers_refine hafter hs'
        have hmem : (e.target, c') ∈ followers g b (after g k b c) :=
          mem_followers.mpr ⟨e, he, hc', rfl⟩
        have hrep : w.Represents e.target c' := by
          refine (hw.closed b c hc e.target c' hmem).resolve_right ?_
          rw [hq]
          exact not_mem_nil
        have hcov'' : Covers (w.standIn e.target c') s' := hrep.covers_standIn.trans hcov'
        have hrest : FaithfulAlong g k w e.target s' (w.standIn e.target c') es := by
          have := hf.2
          rwa [hs', hc'] at this
        rcases found_leak_of_follow hw hq hrep.holds_standIn hcov'' hrest h hi
          with hvisit | hfound
        · rcases (visit_shows g k b r₀ s (.leak i)).mp hvisit with hi | hi
          · exact Or.inl hi
          · exact Or.inr (hw.found b c hc _ (shown_leak_of_covers hcov hf.1 hi))
        · exact Or.inr hfound
      · cases h
    · cases h

/-- The path along edges from the entry leaks an allocation. -/
def LeaksAlong (g : Graph) (k : Setting) (i : Int) (es : List Edge) : Prop :=
  ∃ r, recordAlong g k es = some r ∧ i ∈ r.leaks

def FaithfulPath (g : Graph) (k : Setting) (limit : Option Nat) (es : List Edge) : Prop :=
  FaithfulAlong g k (lastWalk g k limit) Graph.entry .empty
    ((lastWalk g k limit).standIn Graph.entry .empty) es

instance (g : Graph) (k : Setting) (limit : Option Nat) (es : List Edge) :
    Decidable (FaithfulPath g k limit es) :=
  decidableFaithfulAlong _ _ _ _ _ _ _

theorem faithfulAlong_self (hkept : ∀ b s, Arrives g k b s → w.standIn b s = s) (es : List Edge) :
    ∀ {b : Nat} {s : State} {r : Record}, Arrives g k b s →
      (follow g k b (r, s) es).isSome = true → FaithfulAlong g k w b s s es := by
  induction es with
  | nil =>
    intro b s r _ _
    exact faithfulIn_self k s _
  | cons e es ih =>
    intro b s r hs hfeasible
    refine ⟨faithfulIn_self k s _, ?_⟩
    rw [follow, visit_state] at hfeasible
    split at hfeasible
    · rename_i he
      cases ht : refine (g.statementsOf b) e (after g k b s) with
      | none => trivial
      | some t =>
        have harr : Arrives g k e.target t := .edge hs he ht
        rw [ht] at hfeasible
        simpa only [hkept e.target t harr] using ih harr hfeasible
    · cases hfeasible

/-- Below the limit nothing is joined, so all feasible paths are faithful. -/
theorem faithfulPath_of_encard_le {cap : Nat} (hcap : ∀ b, (arrivals g k b).encard ≤ cap)
    {es : List Edge} (hfeasible : (recordAlong g k es).isSome = true) :
    FaithfulPath g k (some cap) es := by
  have harr : ∀ b, {s | Arrives g k b s}.encard ≤ cap := fun b => arrivals_eq g k b ▸ hcap b
  have hkept : ∀ b s, Arrives g k b s → (lastWalk g k (some cap)).standIn b s = s :=
    fun b s hs => if_pos (mem_statesAt_of_arrives harr hs)
  rw [recordAlong, Option.isSome_map] at hfeasible
  rw [FaithfulPath, hkept _ _ .entry]
  exact faithfulAlong_self hkept es .entry hfeasible

/-- A leak along a faithful path is reported, whatever the limit is. -/
theorem mem_leaks_of_faithfulPath {n : Nat} {es : List Edge} (hleak : LeaksAlong g k i es)
    (hf : FaithfulPath g k (some n) es) : i ∈ (walk g k (some n)).leaks := by
  obtain ⟨r, hr, hi⟩ := hleak
  obtain ⟨⟨b, r', s⟩, hes, rfl⟩ := Option.map_eq_some_iff.mp hr
  have hw := covering_lastWalk g k (some n)
  have hq : (lastWalk g k (some n)).queue = [] := queue_walkFor_stepBound g k n
  have hrep : (lastWalk g k (some n)).Represents Graph.entry .empty := by
    refine hw.entry.resolve_right ?_
    rw [hq]
    exact not_mem_nil
  have hfound := found_leak_of_follow hw hq hrep.holds_standIn hrep.covers_standIn hf hes hi
  exact hfound.resolve_left (Record.not_blank_shows _)

/-- If every allocation that some path leaks is leaked by a path whose releases are all faithful to
the joined states, the leaks reported under a limit include those reported under a limit that no
block exceeds. -/
theorem leaks_subset_of_faithful (g : Graph) (k : Setting) (n large : Nat)
    (hlarge : ∀ b, (arrivals g k b).encard ≤ large)
    (hfaithful : ∀ i es, LeaksAlong g k i es →
      ∃ es', LeaksAlong g k i es' ∧ FaithfulPath g k (some n) es') :
    ∀ i ∈ (walk g k (some large)).leaks, i ∈ (walk g k (some n)).leaks := by
  intro i hi
  have hcap : ∀ b, {s | Arrives g k b s}.encard ≤ large := fun b => arrivals_eq g k b ▸ hlarge b
  obtain ⟨es, r, hr, hleak⟩ := (exists_recordAlong_shows_iff g k (.leak i)).mpr
    ((walk_shows_iff_arrives hcap (.leak i)).mp hi)
  obtain ⟨es', hes', hf⟩ := hfaithful i es ⟨r, hr, hleak⟩
  exact mem_leaks_of_faithfulPath hes' hf

/-- Three branches meet before memory is released; one of them gives a name a new value. -/
def branches (name : String) : Graph :=
  { Graph.start "f" "f" ["a", "b"] with
    blocks := #[
      { kind := "entry", statements := #[
        { kind := .allocation, op := "malloc", location := ⟨"f", 1, 0⟩, index := 0
          target := some "p", allocation := some { allocator := "malloc", manual := true } },
        { kind := .branch, op := "if", location := ⟨"f", 2, 0⟩, index := 1
          operands := [.var "a"] }] },
      { kind := "exit" },
      { kind := "body", statements := #[
        { kind := .assignment, op := "copy", location := ⟨"f", 3, 0⟩, index := 2
          target := some "q", operands := [.var "p"] }] },
      { kind := "body", statements := #[
        { kind := .branch, op := "if", location := ⟨"f", 4, 0⟩, index := 3
          operands := [.var "b"] }] },
      { kind := "body", statements := #[
        { kind := .assignment, op := "copy", location := ⟨"f", 5, 0⟩, index := 4
          target := some name, operands := [.const .none] }] },
      { kind := "join", statements := #[
        { kind := .call, op := "free", location := ⟨"f", 6, 0⟩, index := 5, operands := [.var "p"]
          call := some { dispatch := .static, calleeName := "free", deallocates := true } },
        { kind := .allocation, op := "malloc", location := ⟨"f", 7, 0⟩, index := 6
          target := some "q", allocation := some { allocator := "malloc", manual := true } }] }]
    edges := #[⟨0, 2, .branchTrue⟩, ⟨0, 3, .branchFalse⟩, ⟨2, 5, .fallThrough⟩,
      ⟨3, 5, .branchTrue⟩, ⟨3, 4, .branchFalse⟩, ⟨4, 5, .fallThrough⟩, ⟨5, 1, .fallThrough⟩] }

def branchesSetting : Setting := ⟨["a", "b"], ["p", "q"], []⟩

-- The pointer is lost on the third branch, and joining with the second one finds it again.
example : (walk (branches "p") branchesSetting (some 3)).leaks = [6, 0] ∧
    (walk (branches "p") branchesSetting (some 1)).leaks = [6] := by
  constructor <;> cbv

/-- The states that arrive at the blocks of `branches "r"`. -/
def branchesStates : List (List State) :=
  [[.empty],
    [⟨[6], [("p", 0), ("q", 6)], [("a", true)]⟩,
      ⟨[6], [("p", 0), ("q", 6)], [("a", false), ("b", true)]⟩,
      ⟨[6], [("p", 0), ("q", 6)], [("a", false), ("b", false)]⟩],
    [⟨[0], [("p", 0)], [("a", true)]⟩],
    [⟨[0], [("p", 0)], [("a", false)]⟩],
    [⟨[0], [("p", 0)], [("a", false), ("b", false)]⟩],
    [⟨[0], [("p", 0), ("q", 0)], [("a", true)]⟩, ⟨[0], [("p", 0)], [("a", false), ("b", true)]⟩,
      ⟨[0], [("p", 0)], [("a", false), ("b", false)]⟩]]

def thirdBranch : List Edge :=
  [⟨0, 3, .branchFalse⟩, ⟨3, 4, .branchFalse⟩, ⟨4, 5, .fallThrough⟩, ⟨5, 1, .fallThrough⟩]

theorem branches_leaks_subset :
    (∀ b, (arrivals (branches "r") branchesSetting b).encard ≤ (3 : Nat)) ∧
      (∀ i es, LeaksAlong (branches "r") branchesSetting i es →
        ∃ es', LeaksAlong (branches "r") branchesSetting i es' ∧
          FaithfulPath (branches "r") branchesSetting (some 1) es') ∧
      ∀ i ∈ (walk (branches "r") branchesSetting (some 3)).leaks,
        i ∈ (walk (branches "r") branchesSetting (some 1)).leaks := by
  have hclosed : isClosed (branches "r") branchesSetting branchesStates = true := by cbv
  have hcap : ∀ b, (arrivals (branches "r") branchesSetting b).encard ≤ (3 : Nat) :=
    encard_arrivals_le hclosed (by decide)
  have hleaks : (walk (branches "r") branchesSetting (some 3)).leaks = [6] := by cbv
  have hthird : (recordAlong (branches "r") branchesSetting thirdBranch).map Record.leaks =
      some [6] := by cbv
  have hpath :
      decide (FaithfulPath (branches "r") branchesSetting (some 1) thirdBranch) = true := by
    cbv
  have hfaithful : ∀ i es, LeaksAlong (branches "r") branchesSetting i es →
      ∃ es', LeaksAlong (branches "r") branchesSetting i es' ∧
        FaithfulPath (branches "r") branchesSetting (some 1) es' := by
    rintro i es ⟨r, hr, hi⟩
    have harr : ∀ b, {s | Arrives (branches "r") branchesSetting b s}.encard ≤ (3 : Nat) :=
      fun b => arrivals_eq (branches "r") branchesSetting b ▸ hcap b
    have hwalk : i ∈ (walk (branches "r") branchesSetting (some 3)).leaks :=
      (walk_shows_iff_arrives harr (.leak i)).mpr
        ((exists_recordAlong_shows_iff _ _ (.leak i)).mp ⟨es, r, hr, hi⟩)
    rw [hleaks] at hwalk
    obtain ⟨r', hr', hleak⟩ := Option.map_eq_some_iff.mp hthird
    exact ⟨thirdBranch, ⟨r', hr', hleak ▸ hwalk⟩, of_decide_eq_true hpath⟩
  exact ⟨hcap, hfaithful,
    leaks_subset_of_faithful (branches "r") branchesSetting 1 3 hcap hfaithful⟩

end Readiness.Lifetime
