import Mathlib
import Readiness.Proofs.Lifetime.Termination

/-!
# A walk below its limit shows what the paths show

A state covers another one when everything open there is open here and every test outcome kept here
is kept there; joining covers both states.  Whatever the limit is, what follows a state that a walk
holds is represented or waits, and the record shows what the held states show (`Walk.Covering`).

Below the limit no state is joined, since a block that is full has all states that arrive at it, and
only what arrives is kept and shown (`Walk.Exact`).  At the end nothing waits, so a walk shows
exactly what the feasible paths show, taken one by one (`walk_shows_iff_path`).
-/

namespace Readiness.Lifetime

open List Table

variable {g : Graph} {k : Setting} {limit : Option Nat} {w w' : Walk} {b : Nat} {s c p : State}

/-! ## Covering -/

structure Covers (c s : State) : Prop where
  opened : ∀ i ∈ s.opened, i ∈ c.opened
  facts : ∀ f ∈ c.facts, f ∈ s.facts

theorem covers_refl (s : State) : Covers s s := ⟨fun _ => id, fun _ => id⟩

theorem Covers.trans (h : Covers p c) (h' : Covers c s) : Covers p s :=
  ⟨fun i hi => h.opened i (h'.opened i hi), fun f hf => h'.facts f (h.facts f hf)⟩

theorem covers_join_left (s t : State) : Covers (s.join t) s := by
  constructor
  · intro i hi
    exact mem_eraseDups.mpr (mem_append_left _ hi)
  · intro f hf
    exact mem_of_mem_filter hf

theorem covers_join_right (s t : State) : Covers (s.join t) t := by
  constructor
  · intro i hi
    exact mem_eraseDups.mpr (mem_append_right _ hi)
  · intro f hf
    simpa using (mem_filter.mp hf).2

theorem enter_shows (w : Walk) (s : State) (m : Mark) :
    (w.enter g k b s).found.Shows m ↔ w.found.Shows m ∨ (shown g k b s).Shows m := by
  rw [← visit_shows g k b w.found s m]
  unfold Walk.enter
  dsimp only
  split
  · exact Iff.rfl
  · exact Record.lacking_shows _ _ m

def Walk.Holds (w : Walk) (b : Nat) (c : State) : Prop :=
  c ∈ w.statesAt b ∨ w.summary.get? b = some c

def Walk.Represents (w : Walk) (b : Nat) (s : State) : Prop :=
  s ∈ w.statesAt b ∨ ∃ p, w.summary.get? b = some p ∧ Covers p s

/-- What a walk knows of the states that it has run. -/
structure Walk.Covering (g : Graph) (k : Setting) (w : Walk) : Prop where
  entry : w.Represents Graph.entry .empty ∨ (Graph.entry, .empty) ∈ w.queue
  closed : ∀ b c, w.Holds b c → ∀ d t, (d, t) ∈ followers g b (after g k b c) →
    w.Represents d t ∨ (d, t) ∈ w.queue
  found : ∀ b c, w.Holds b c → ∀ m, (shown g k b c).Shows m → w.found.Shows m

theorem covering_start (g : Graph) (k : Setting) : Walk.start.Covering g k := by
  have hnone : ∀ b c, ¬ Walk.start.Holds b c := by
    rintro b c (h | h)
    · simp [Walk.statesAt, Walk.start, Table.empty, Table.get?, Table.lookup] at h
    · cases h
  refine ⟨Or.inr (mem_singleton.mpr rfl), ?_, ?_⟩
  · intro b c h
    exact absurd h (hnone b c)
  · intro b c h
    exact absurd h (hnone b c)

/-- An accepted state is run as itself or as the new summary; nothing represented is lost, and
nothing else is new. -/
theorem accept_holds (h : accept limit w b s = some (w', c)) :
    w'.Represents b s ∧ (∀ d t, w.Represents d t → w'.Represents d t) ∧
      ∀ d t, w'.Holds d t → (d = b ∧ t = c) ∨ w.Holds d t := by
  have hsum : ∀ (q : State) (d : Nat) (t : State),
      (w.summary.set b q).get? d = some t → (d = b ∧ t = q) ∨ w.summary.get? d = some t := by
    intro q d t ht
    by_cases hd : d = b
    · rw [hd, get?_set_self] at ht
      exact Or.inl ⟨hd, (Option.some.inj ht).symm⟩
    · rw [get?_set_of_ne _ hd] at ht
      exact Or.inr ht
  have hv := accept_verdict limit w b s
  rw [h] at hv
  cases hv with
  | apart =>
    refine ⟨Or.inl (mem_statesAt_set.mpr (Or.inr ⟨rfl, rfl⟩)), ?_, ?_⟩
    · rintro d t (ht | ht)
      · exact Or.inl (mem_statesAt_set.mpr (Or.inl ht))
      · exact Or.inr ht
    · rintro d t (ht | ht)
      · rcases mem_statesAt_set.mp ht with ht | ht
        · exact Or.inr (Or.inl ht)
        · exact Or.inl ht
      · exact Or.inr (Or.inr ht)
  | first _ _ hnone =>
    refine ⟨Or.inr ⟨s, get?_set_self _ _ _, covers_refl s⟩, ?_, ?_⟩
    · rintro d t (ht | ⟨p, hp, hcov⟩)
      · exact Or.inl ht
      · have hd : d ≠ b := by
          rintro rfl
          rw [hnone] at hp
          cases hp
        exact Or.inr ⟨p, (get?_set_of_ne _ hd _).trans hp, hcov⟩
    · rintro d t (ht | ht)
      · exact Or.inr (Or.inl ht)
      · exact (hsum s d t ht).imp id Or.inr
  | @joined p _ _ hp _ =>
    refine ⟨Or.inr ⟨p.join s, get?_set_self _ _ _, covers_join_right p s⟩, ?_, ?_⟩
    · rintro d t (ht | ⟨q, hq, hcov⟩)
      · exact Or.inl ht
      · by_cases hd : d = b
        · subst hd
          obtain rfl := Option.some.inj (hp.symm.trans hq)
          exact Or.inr ⟨_, get?_set_self _ _ _, (covers_join_left p s).trans hcov⟩
        · exact Or.inr ⟨q, (get?_set_of_ne _ hd _).trans hq, hcov⟩
    · rintro d t (ht | ht)
      · exact Or.inr (Or.inl ht)
      · exact (hsum (p.join s) d t ht).imp id Or.inr

variable {rest : List (Nat × State)}

theorem covering_skip (hw : w.Covering g k) (hq : w.queue = (b, s) :: rest) (hs : w.Represents b s) :
     ({ w with queue := rest } : Walk).Covering g k := by
  have hsplit : ∀ d t, (d, t) ∈ w.queue → w.Represents d t ∨ (d, t) ∈ rest := by
    intro d t ht
    rw [hq, mem_cons] at ht
    rcases ht with heq | ht
    · obtain ⟨rfl, rfl⟩ := Prod.mk.inj heq
      exact Or.inl hs
    · exact Or.inr ht
  refine ⟨hw.entry.elim Or.inl (hsplit _ _), ?_, hw.found⟩
  intro d c hc e t ht
  exact (hw.closed d c hc e t ht).elim Or.inl (hsplit e t)

/-- Running the block of an accepted state keeps a walk covering. -/
theorem covering_enter (hw : w.Covering g k) (hq : w.queue = (b, s) :: rest)
    (h : accept limit { w with queue := rest } b s = some (w', c)) :
    (w'.enter g k b c).Covering g k := by
  obtain ⟨hqueue, hfound⟩ := accept_rest h
  obtain ⟨hrep, hkeep, hnew⟩ := accept_holds h
  have hsplit : ∀ d t, w.Represents d t ∨ (d, t) ∈ w.queue →
      w'.Represents d t ∨ (d, t) ∈ (w'.enter g k b c).queue := by
    intro d t ht
    rw [enter_queue, mem_append, hqueue]
    rcases ht with ht | ht
    · exact Or.inl (hkeep d t ht)
    · rw [hq, mem_cons] at ht
      rcases ht with heq | ht
      · obtain ⟨rfl, rfl⟩ := Prod.mk.inj heq
        exact Or.inl hrep
      · exact Or.inr (Or.inl ht)
  refine ⟨hsplit _ _ hw.entry, ?_, ?_⟩
  · intro d u hu e t ht
    rcases hnew d u hu with ⟨rfl, rfl⟩ | hold
    · rw [enter_queue, mem_append]
      exact Or.inr (Or.inr ht)
    · exact hsplit e t (hw.closed d u hold e t ht)
  · intro d u hu m hm
    rw [enter_shows, hfound]
    rcases hnew d u hu with ⟨rfl, rfl⟩ | hold
    · exact Or.inr hm
    · exact Or.inl (hw.found d u hold m hm)

theorem covering_next? (hw : w.Covering g k) (h : w.next? g k limit = some w') :
    w'.Covering g k := by
  obtain ⟨b, s, rest, hq, hcase⟩ := next?_cases h
  rcases hcase with ⟨hnone, rfl⟩ | ⟨w₁, s₁, hsome, rfl⟩
  · have hv := accept_verdict limit { w with queue := rest } b s
    rw [hnone] at hv
    refine covering_skip hw hq ?_
    cases hv with
    | known hs => exact Or.inl hs
    | covered _ hp hjoin => exact Or.inr ⟨_, hp, hjoin ▸ covers_join_right _ s⟩
  · exact covering_enter hw hq hsome

def lastWalk (g : Graph) (k : Setting) (limit : Option Nat) : Walk :=
  walkFor g k limit (stepBound g limit) .start

theorem covering_lastWalk (g : Graph) (k : Setting) (limit : Option Nat) :
    (lastWalk g k limit).Covering g k :=
  walkFor_invariant (fun _ _ => covering_next?) _ _ (covering_start g k)

/-! ## Below the limit -/

/-- The states of a walk arrive, none is joined, and the record shows nothing else. -/
structure Walk.Exact (g : Graph) (k : Setting) (w : Walk) : Prop where
  each : w.Each (Arrives g k)
  no_summary : ∀ b, w.summary.get? b = none
  found : ∀ m, w.found.Shows m → ∃ b s, Arrives g k b s ∧ (shown g k b s).Shows m

theorem exact_start (g : Graph) (k : Setting) : Walk.start.Exact g k :=
  ⟨each_start .entry, fun _ => rfl, fun m hm => absurd hm (Record.not_blank_shows m)⟩

variable {cap : Nat}

theorem mem_statesAt_of_isFull (hcap : {s | Arrives g k b s}.encard ≤ cap) (hw : w.Each (Arrives g k))
    (hs : Arrives g k b s) (hfull : isFull (some cap) (w.statesAt b) = true) :
    s ∈ w.statesAt b := by
  by_contra hnew
  have hle : cap ≤ (w.statesAt b).length := by simpa [isFull] using hfull
  have hnodup : (s :: w.statesAt b).Nodup := nodup_cons.mpr ⟨hnew, hw.nodup b⟩
  have hsub : {t | t ∈ s :: w.statesAt b} ⊆ {t | Arrives g k b t} := by
    intro t ht
    rcases mem_cons.mp ht with rfl | ht
    · exact hs
    · exact hw.kept b t ht
  have hcard : {t | t ∈ s :: w.statesAt b}.encard = ((w.statesAt b).length + 1 : Nat) := by
    rw [← coe_toFinset, Set.encard_coe_eq_coe_finsetCard,
      toFinset_card_of_nodup hnodup, length_cons]
  have hlt := (hcard ▸ Set.encard_le_encard hsub).trans hcap
  have : (w.statesAt b).length + 1 ≤ cap := by exact_mod_cast hlt
  omega

section

variable (hcap : ∀ b, {s | Arrives g k b s}.encard ≤ cap)
include hcap

/-- Below the limit every step keeps a walk exact. -/
theorem exact_next? (hw : w.Exact g k)
    (h : w.next? g k (some cap) = some w') : w'.Exact g k := by
  have hnone : ∀ b p, w.summary.get? b ≠ some p := fun b p hp => by
    rw [hw.no_summary] at hp
    cases hp
  obtain ⟨heach, hfound⟩ := each_next?
    (I := fun r => ∀ m, r.Shows m → ∃ b s, Arrives g k b s ∧ (shown g k b s).Shows m)
    (fun b p _ hp => absurd hp (hnone b p)) Arrives.edge
    (fun hs hI m hm => ((enter_shows _ _ m).mp hm).elim (hI m) fun hm => ⟨_, _, hs, hm⟩) hw.each
    hw.found h
  refine ⟨heach, ?_, hfound⟩
  obtain ⟨b, s, rest, hq, hcase⟩ := next?_cases h
  rcases hcase with ⟨-, rfl⟩ | ⟨w₁, s₁, hsome, rfl⟩
  · exact hw.no_summary
  · have hknown : isFull (some cap) (w.statesAt b) = true → s ∈ w.statesAt b :=
      mem_statesAt_of_isFull (hcap b) hw.each (hw.each.pop hq).1
    have hv := accept_verdict (some cap) { w with queue := rest } b s
    rw [hsome] at hv
    cases hv with
    | apart => exact hw.no_summary
    | first hnew hfull _ | joined hnew hfull _ _ => exact absurd (hknown hfull) hnew

theorem exact_lastWalk :
    (lastWalk g k (some cap)).Exact g k :=
  walkFor_invariant (fun _ _ => exact_next? hcap) _ _ (exact_start g k)

/-- At the end of an exact walk every arriving state is kept. -/
theorem mem_statesAt_of_arrives (h : Arrives g k b s) : s ∈ (lastWalk g k (some cap)).statesAt b := by
  have hkept : ∀ d t, (lastWalk g k (some cap)).Represents d t ∨
      (d, t) ∈ (lastWalk g k (some cap)).queue → t ∈ (lastWalk g k (some cap)).statesAt d := by
    rintro d t ((ht | ⟨p, hp, -⟩) | ht)
    · exact ht
    · rw [(exact_lastWalk hcap).no_summary] at hp
      cases hp
    · rw [lastWalk, queue_walkFor_stepBound] at ht
      cases ht
  have hcovering := covering_lastWalk g k (some cap)
  induction h with
  | entry => exact hkept _ _ hcovering.entry
  | edge _ he href ih =>
    exact hkept _ _ (hcovering.closed _ _ (.inl ih) _ _ (mem_followers.mpr ⟨_, he, href, rfl⟩))

/-- Below the limit a walk shows what the arriving states show. -/
theorem walk_shows_iff_arrives (m : Mark) :
    (walk g k (some cap)).Shows m ↔ ∃ b s, Arrives g k b s ∧ (shown g k b s).Shows m := by
  refine ⟨(exact_lastWalk hcap).found m, ?_⟩
  rintro ⟨b, s, hs, hm⟩
  exact (covering_lastWalk g k (some cap)).found b s (.inl (mem_statesAt_of_arrives hcap hs)) m hm

end

/-- The states in which feasible paths reach a block. -/
def arrivals (g : Graph) (k : Setting) (b : Nat) : Set State :=
  {s | ∃ es r, follow g k Graph.entry (.blank, .empty) es = some (b, r, s)}

theorem arrivals_eq (g : Graph) (k : Setting) (b : Nat) :
    arrivals g k b = {s | Arrives g k b s} :=
  Set.ext fun _ => exists_follow_iff

/-! ## Counting arrivals -/

def isClosed (g : Graph) (k : Setting) (states : List (List State)) : Bool :=
  (states.getD Graph.entry []).contains .empty &&
    g.edges.toList.all fun e => (states.getD e.source []).all fun s =>
      match refine (g.statementsOf e.source) e (after g k e.source s) with
      | some t => (states.getD e.target []).contains t
      | none => true

variable {states : List (List State)}

theorem mem_getD_of_isClosed (h : isClosed g k states = true) (hs : Arrives g k b s) :
    s ∈ states.getD b [] := by
  rw [isClosed, Bool.and_eq_true, all_eq_true] at h
  induction hs with
  | entry => simpa using h.1
  | @edge c s t e _ he href ih =>
    have hedge := mem_filter.mp he
    have hsource : e.source = c := by simpa using hedge.2
    have hall := all_eq_true.mp (h.2 e hedge.1) s (hsource ▸ ih)
    rw [hsource, href] at hall
    simpa using hall

theorem encard_arrivals_le (h : isClosed g k states = true) (hcap : ∀ l ∈ states, l.length ≤ cap)
    (b : Nat) : (arrivals g k b).encard ≤ cap := by
  have hsub : arrivals g k b ⊆ {s | s ∈ states.getD b []} := by
    rw [arrivals_eq]
    exact fun s hs => mem_getD_of_isClosed h hs
  have hlen : (states.getD b []).length ≤ cap := by
    rw [getD_eq_getElem?_getD]
    cases hb : states[b]? with
    | none => simp
    | some l => exact hcap l (mem_of_getElem? hb)
  calc (arrivals g k b).encard
      ≤ {s | s ∈ states.getD b []}.encard := Set.encard_le_encard hsub
    _ = ((states.getD b []).toFinset.card : ENat) := by
        rw [← coe_toFinset, Set.encard_coe_eq_coe_finsetCard]
    _ ≤ cap := by exact_mod_cast (toFinset_card_le _).trans hlen

/-- If no more states reach a block along feasible paths than are kept apart, a walk shows exactly
what the feasible paths show, taken one by one. -/
theorem walk_shows_iff_path (g : Graph) (k : Setting) (cap : Nat)
    (hcap : ∀ b, (arrivals g k b).encard ≤ cap) (m : Mark) :
    (walk g k (some cap)).Shows m ↔ ∃ es r, recordAlong g k es = some r ∧ r.Shows m := by
  rw [walk_shows_iff_arrives, exists_recordAlong_shows_iff]
  intro b
  rw [← arrivals_eq]
  exact hcap b

/-- Memory that is made and released under one and the same test. -/
def guarded : Graph :=
  { Graph.start "f" "f" ["c"] with
    blocks := #[
      { kind := "entry", statements := #[
        { kind := .branch, op := "if", location := ⟨"f", 1, 0⟩, index := 0
          operands := [.var "c"] }] },
      { kind := "exit" },
      { kind := "body", statements := #[
        { kind := .allocation, op := "malloc", location := ⟨"f", 2, 0⟩, index := 1
          target := some "p"
          allocation := some { allocator := "malloc", manual := true } }] },
      { kind := "join", statements := #[
        { kind := .branch, op := "if", location := ⟨"f", 3, 0⟩, index := 2
          operands := [.var "c"] }] },
      { kind := "body", statements := #[
        { kind := .call, op := "free", location := ⟨"f", 4, 0⟩, index := 3, operands := [.var "p"]
          call := some { dispatch := .static, calleeName := "free", deallocates := true } }] }]
    edges := #[⟨0, 2, .branchTrue⟩, ⟨0, 3, .branchFalse⟩, ⟨2, 3, .fallThrough⟩,
      ⟨3, 4, .branchTrue⟩, ⟨3, 1, .branchFalse⟩, ⟨4, 1, .fallThrough⟩] }

def guardedStates : List (List State) :=
  [[.empty],
    [⟨[], [("p", 1)], [("c", true)]⟩, ⟨[], [], [("c", false)]⟩],
    [⟨[], [], [("c", true)]⟩],
    [⟨[1], [("p", 1)], [("c", true)]⟩, ⟨[], [], [("c", false)]⟩],
    [⟨[1], [("p", 1)], [("c", true)]⟩]]

theorem guarded_walk_shows_iff_path :
    (∀ b, (arrivals guarded ⟨["c"], ["p"], []⟩ b).encard ≤ (2 : Nat)) ∧
      ∀ m, (walk guarded ⟨["c"], ["p"], []⟩ (some 2)).Shows m ↔
        ∃ es r, recordAlong guarded ⟨["c"], ["p"], []⟩ es = some r ∧ r.Shows m := by
  have hclosed : isClosed guarded ⟨["c"], ["p"], []⟩ guardedStates = true := by cbv
  have hcap : ∀ b, (arrivals guarded ⟨["c"], ["p"], []⟩ b).encard ≤ (2 : Nat) :=
    encard_arrivals_le hclosed (by decide)
  exact ⟨hcap, walk_shows_iff_path guarded ⟨["c"], ["p"], []⟩ 2 hcap⟩

end Readiness.Lifetime
