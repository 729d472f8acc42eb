import Mathlib.Data.List.Induction
import Mathlib.Data.List.Nodup
import Readiness.Proofs.Cache.Requests
import Readiness.Proofs.Types.Sameness

/-!
# One computation for each target

`Consistent` relates the cache to its requests: the computations in flight are those
of the requests that have looked up and not finished, and no two of them have the same target.

`single_flight`: a target in flight has one owner, hits and misses count the look-ups
and the computations, and a request that has joined a computation ends with its outcome.  A request
that cannot name its target leaves what it owns in flight, and the computation never starts.
-/

namespace Readiness

open List
open Target (same same_equivalence)

variable {ε ρ : Type} {keeps : ρ → Bool}

namespace Request

/-- What was asked and what looking up came to; no later act changes it. -/
def asked (r : Request ε ρ) : Target × Lookup ρ := (r.target, r.answer)

/-- The target of a request, with the error, if any, that naming it has raised. -/
def named (r : Request ε ρ) : Target × Option ε := (r.target, r.stage.failure?)

/-- The stage of a request is one that its answer leads to.  The outcome of a computation is
published exactly when its owner is done.  Only a request that has failed can have any answer. -/
def Fits (published : Nat → Option (Except ε ρ)) (r : Request ε ρ) : Prop :=
  match r.answer, r.stage with
  | .served x, .done o => o = .ok x
  | .joined _, .waiting => True
  | .joined f, .done o => published f = some o
  | .owned f, .scoring | .owned f, .scored _ | .owned f, .finished _ | .owned f, .failed _ =>
    published f = none
  | .owned f, .done o => published f = some o
  | _, .failed _ => True
  | _, _ => False

end Request

namespace Cache

/-! ## What the acts under the lock change -/

theorem enter_cases (c : Cache Target ρ) (t : Target) :
    (∃ k f, (k, f) ∈ c.inFlight ∧ same k t = true ∧
      c.enter same t = (.joined f, { c with hits := c.hits + 1 })) ∨
    ((∀ k ∈ c.inFlight, same k.1 t = false) ∧
      c.enter same t = (.owned c.misses,
        { c with inFlight := c.inFlight ++ [(t, c.misses)], misses := c.misses + 1 })) := by
  unfold enter
  cases hfind : c.inFlight.find? fun f => same f.1 t with
  | some f =>
    have hsame := find?_some hfind
    exact .inl ⟨f.1, f.2, mem_of_find?_eq_some hfind, hsame, rfl⟩
  | none => exact .inr ⟨by simpa using hfind, rfl⟩

/-- Looking up serves a report and counts a hit, joins a computation and counts a hit, or starts a
computation and counts a miss.  A target without name that has expired counts as neither. -/
theorem lookup_cases (c : Cache Target ρ) (t : Target) (now lifetime : Quantity)
    (isNamed : Bool) : ∃ entries,
      (∃ r, c.lookup same t now lifetime isNamed =
        (.served r, { c with entries, hits := c.hits + 1 })) ∨
      isNamed = false ∧ c.lookup same t now lifetime isNamed = (.expired, { c with entries }) ∨
      (∃ k f, (k, f) ∈ c.inFlight ∧ same k t = true ∧
        c.lookup same t now lifetime isNamed = (.joined f, { c with entries, hits := c.hits + 1 })) ∨
      ((∀ k ∈ c.inFlight, same k.1 t = false) ∧
        c.lookup same t now lifetime isNamed = (.owned c.misses,
          { c with
            entries, inFlight := c.inFlight ++ [(t, c.misses)], misses := c.misses + 1 })) := by
  unfold lookup
  split
  · split
    · exact ⟨_, .inl ⟨_, rfl⟩⟩
    · cases isNamed with
      | false => exact ⟨_, .inr (.inl ⟨rfl, rfl⟩)⟩
      | true => exact ⟨(c.drop same t).entries, .inr (.inr (enter_cases (c.drop same t) t))⟩
  · exact ⟨c.entries, .inr (.inr (enter_cases c t))⟩

theorem finish_spec (c : Cache Target ρ) (t : Target) (now : Quantity) (report : Option ρ) :
    (c.finish same t now report).hits = c.hits ∧ (c.finish same t now report).misses = c.misses ∧
      (c.finish same t now report).inFlight = c.inFlight.filter fun f => !same f.1 t := by
  cases report with
  | none => exact ⟨rfl, rfl, rfl⟩
  | some r =>
    simp only [finish, store]
    split <;> exact ⟨rfl, rfl, rfl⟩

end Cache

variable {act : Act ε ρ}

namespace Service

/-! ## What an act does -/

/-- The service after a request has looked its target up. -/
def looked (s : Service ε ρ) (t : Target) (now lifetime : Quantity)
    (fault : Option ε) : Service ε ρ :=
  let (answer, cache) := s.cache.lookup same t now lifetime fault.isNone
  { s with cache, requests := s.requests ++ [⟨t, answer, Request.firstStage fault answer⟩] }

/-- An act looks a target up, brings a request one stage further or removes entries. -/
inductive Takes (keeps : ρ → Bool) (s : Service ε ρ) :
    Act ε ρ → Service ε ρ → Prop
  | look (t : Target) (now lifetime : Quantity) (fault : Option ε) :
    Takes keeps s (.look t now lifetime fault) (s.looked t now lifetime fault)
  | score {i t f o} (hr : s.requests[i]? = some ⟨t, .owned f, .scoring⟩) :
    Takes keeps s (.score i o) (s.advance i (.scored o))
  | finish {i t f o now} (hr : s.requests[i]? = some ⟨t, .owned f, .scored o⟩) :
    Takes keeps s (.finish i now)
      { s.advance i (.finished o) with cache := s.cache.finish same t now (kept keeps o) }
  | publish {i t f o} (hr : s.requests[i]? = some ⟨t, .owned f, .finished o⟩) :
    Takes keeps s (.publish i) ((s.publish f o).advance i (.done o))
  | wake {i t f o} (hr : s.requests[i]? = some ⟨t, .joined f, .waiting⟩)
    (ho : s.published f = some o) : Takes keeps s (.wake i) (s.advance i (.done o))
  | evict {act entries} (hlook : act.looked? = none) (hadvance : act.isAdvance = false)
    (hsub : entries.Sublist s.cache.entries) :
    Takes keeps s act { s with cache := { s.cache with entries } }

variable {s : Service ε ρ} {r : Request ε ρ} {acts : List (Act ε ρ)}

theorem takes_of_step {s' : Service ε ρ} (h : step keeps s act = some s') :
    Takes keeps s act s' := by
  cases act with
  | look t now lifetime fault =>
    cases h
    exact .look t now lifetime fault
  | score i o | finish i now | publish i =>
    simp only [step] at h
    split at h
    · next hr => cases h; constructor; exact hr
    · cases h
  | wake i =>
    simp only [step] at h
    split at h
    · next hr =>
        obtain ⟨o, ho, rfl⟩ := Option.map_eq_some_iff.mp h
        exact .wake hr ho
    · cases h
  | invalidate t | prune now maxAge =>
    cases h
    exact .evict rfl rfl filter_sublist
  | clear =>
    cases h
    exact .evict rfl rfl (nil_sublist _)
  | stats now =>
    cases h
    exact .evict rfl rfl (.refl _)

/-! ## Stages of requests -/

@[simp] theorem length_advance (s : Service ε ρ) (i : Nat) (stage : Stage ε ρ) :
    (s.advance i stage).requests.length = s.requests.length := by
  simp [advance]

theorem getElem?_advance (s : Service ε ρ) (i j : Nat) (stage : Stage ε ρ) :
    (s.advance i stage).requests[j]? =
      (s.requests[j]?).map fun r => if i = j then { r with stage } else r := by
  simp only [advance, getElem?_modify]
  cases s.requests[j]? with
  | none => simp
  | some r => by_cases h : i = j <;> simp [h]

/-- The request that is brought to another stage, and those around it. -/
theorem advance_split {i : Nat} (hr : s.requests[i]? = some r) (stage : Stage ε ρ) :
    ∃ before behind, s.requests = before ++ r :: behind ∧
      (s.advance i stage).requests = before ++ { r with stage } :: behind := by
  obtain ⟨hi, hget⟩ := List.getElem?_eq_some_iff.mp hr
  refine ⟨s.requests.take i, s.requests.drop (i + 1), ?_, ?_⟩
  · rw [← hget, getElem_cons_drop, take_append_drop]
  · rw [advance, modify_eq_take_cons_drop hi, hget]

/-- What a later stage leaves as it is of one request, it leaves so of all. -/
theorem map_advance {β : Type} {i : Nat} (stage : Stage ε ρ) {g : Request ε ρ → β}
    (hr : s.requests[i]? = some r) (h : g { r with stage } = g r) :
    (s.advance i stage).requests.map g = s.requests.map g := by
  obtain ⟨before, behind, heq, heq'⟩ := advance_split hr stage
  rw [heq, heq', map_append, map_append, map_cons, map_cons, h]

theorem filterMap_advance {β : Type} {i : Nat} (stage : Stage ε ρ) {g : Request ε ρ → Option β}
    (hr : s.requests[i]? = some r) (h : g { r with stage } = g r) :
    (s.advance i stage).requests.filterMap g = s.requests.filterMap g := by
  have hmap := congrArg (filterMap id) (map_advance stage hr h)
  rwa [filterMap_map, filterMap_map] at hmap

theorem mem_advance {i : Nat} {r' : Request ε ρ} {stage : Stage ε ρ}
    (hr : s.requests[i]? = some r) (h : r' ∈ (s.advance i stage).requests) :
    r' = { r with stage } ∨ r' ∈ s.requests := by
  obtain ⟨before, behind, heq, heq'⟩ := advance_split hr stage
  rw [heq'] at h
  rw [heq]
  simp only [mem_append, mem_cons] at h ⊢
  tauto

/-! ## The invariant -/

/-- How the cache, its requests and the acts taken so far agree. -/
structure Consistent (acts : List (Act ε ρ)) (s : Service ε ρ) :
    Prop where
  looked : s.requests.map Request.named = acts.filterMap Act.looked?
  counted : s.cache.hits + s.cache.misses + s.requests.countP Request.isExpired = s.requests.length
  numbered : s.requests.filterMap Request.owned? = List.range s.cache.misses
  flights : s.cache.inFlight = s.requests.filterMap Request.held?
  apart : s.cache.inFlight.Pairwise fun a b => same a.1 b.1 = false
  fits : ∀ r ∈ s.requests, r.Fits s.published
  unpublished : ∀ f, s.cache.misses ≤ f → s.published f = none
  joined : ∀ r ∈ s.requests, ∀ f, r.answer = .joined f →
    ∃ owner ∈ s.requests, owner.answer = .owned f ∧ same owner.target r.target = true
  scored : ∀ i o, .score i o ∈ acts ↔ ∃ r, s.requests[i]? = some r ∧ r.scored? = some o

theorem consistent_empty : Consistent [] (empty : Service ε ρ) where
  looked := rfl
  counted := rfl
  numbered := rfl
  flights := rfl
  apart := .nil
  fits := fun _ h => absurd h not_mem_nil
  unpublished := fun _ _ => rfl
  joined := fun _ h => absurd h not_mem_nil
  scored := fun i o => by simp [empty]

section Advance

variable {i : Nat} {stage : Stage ε ρ} {f : Nat} {t : Target}

theorem exists_owner_advance (hr : s.requests[i]? = some r)
    (h : ∃ owner ∈ s.requests, owner.answer = .owned f ∧ same owner.target t = true) :
    ∃ owner ∈ (s.advance i stage).requests, owner.answer = .owned f ∧
      same owner.target t = true := by
  obtain ⟨owner, hmem, hanswer, hsame⟩ := h
  have hasked : owner.asked ∈ (s.advance i stage).requests.map Request.asked := by
    rw [map_advance stage hr rfl]
    exact mem_map_of_mem hmem
  obtain ⟨owner', hmem', heq⟩ := mem_map.mp hasked
  have htarget : owner'.target = owner.target := congrArg Prod.fst heq
  have hanswer' : owner'.answer = owner.answer := congrArg Prod.snd heq
  exact ⟨owner', hmem', hanswer'.trans hanswer, htarget ▸ hsame⟩

variable (h : Consistent acts s) (hr : s.requests[i]? = some r)
include h hr

theorem joined_advance :
    ∀ r' ∈ (s.advance i stage).requests, ∀ f, r'.answer = .joined f →
      ∃ owner ∈ (s.advance i stage).requests,
        owner.answer = .owned f ∧ same owner.target r'.target = true := by
  intro r' hr' f hanswer
  apply exists_owner_advance hr
  rcases mem_advance hr hr' with rfl | hmem
  · exact h.joined r (mem_of_getElem? hr) f hanswer
  · exact h.joined r' hmem f hanswer

theorem scored_advance (stage : Stage ε ρ) (hstage : Request.scored? { r with stage } = r.scored?)
    (hscore : ∀ j o, .score j o ≠ act) (j : Nat) (o : Except ε ρ) :
    .score j o ∈ acts ++ [act] ↔
      ∃ r', (s.advance i stage).requests[j]? = some r' ∧ r'.scored? = some o := by
  simp only [mem_append, mem_singleton, hscore, or_false]
  rw [h.scored, getElem?_advance]
  by_cases hij : i = j
  · subst hij
    simp [hr, hstage]
  · simp [hij]

theorem fits_advance (hfits : Request.Fits s.published { r with stage }) :
    ∀ r' ∈ (s.advance i stage).requests, r'.Fits s.published := by
  intro r' hmem
  rcases mem_advance hr hmem with rfl | hmem
  · exact hfits
  · exact h.fits r' hmem

/-- A request comes to another stage, by an act that counts nothing and starts no computation. -/
theorem Consistent.move (stage : Stage ε ρ) (hlook : act.looked? = none)
    (hnamed : Request.named { r with stage } = r.named) {cache : Cache Target ρ}
    (hhits : cache.hits = s.cache.hits) (hmisses : cache.misses = s.cache.misses)
    (hsub : cache.inFlight <+ s.cache.inFlight)
    (hflights : cache.inFlight = (s.advance i stage).requests.filterMap Request.held?)
    {published : Nat → Option (Except ε ρ)}
    (hfits : ∀ r' ∈ (s.advance i stage).requests, r'.Fits published)
    (hunpublished : ∀ f, s.cache.misses ≤ f → published f = none)
    (hscored : ∀ j o, .score j o ∈ acts ++ [act] ↔
      ∃ r', (s.advance i stage).requests[j]? = some r' ∧ r'.scored? = some o) :
    Consistent (acts ++ [act]) { s.advance i stage with cache, published } where
  looked := by
    rw [map_advance stage hr hnamed, h.looked, filterMap_append, filterMap_cons_none hlook,
      filterMap_nil, append_nil]
  counted := by
    have hexpired := congrArg (countP id) (map_advance (g := Request.isExpired) stage hr rfl)
    rw [countP_map, countP_map] at hexpired
    rw [length_advance, hhits, hmisses, ← h.counted]
    exact congrArg _ hexpired
  numbered := by rw [filterMap_advance stage hr rfl, h.numbered, hmisses]
  flights := hflights
  apart := h.apart.sublist hsub
  fits := hfits
  unpublished f hf := hunpublished f (hmisses ▸ hf)
  joined := joined_advance h hr
  scored := hscored

end Advance

/-! ## Every act keeps the invariant -/

section Acts

variable {i : Nat} {t : Target} {f : Nat} {o : Except ε ρ}

theorem held?_eq_some {k : Target × Nat} (h : r.held? = some k) :
    r.answer = .owned k.2 ∧ r.target = k.1 := by
  unfold Request.held? at h
  split at h <;> simp_all [Prod.ext_iff]

section FirstStage

variable (t : Target) (fault : Option ε) {answer : Lookup ρ} {published : Nat → Option (Except ε ρ)}

/-- A request that has just looked up has scored nothing and holds what it owns. -/
theorem firstStage_spec (answer : Lookup ρ) :
    let r : Request ε ρ := ⟨t, answer, Request.firstStage fault answer⟩
    r.named = (t, fault) ∧ r.scored? = none ∧ r.held? = r.owned?.map fun f => (t, f) := by
  cases fault <;> cases answer <;> exact ⟨rfl, rfl, rfl⟩

theorem fits_firstStage (howned : ∀ f, answer = .owned f → published f = none)
    (hexpired : answer = .expired → fault.isNone = false) :
    Request.Fits published (⟨t, answer, Request.firstStage fault answer⟩ : Request ε ρ) := by
  cases fault with
  | some e =>
    cases answer with
    | owned f => exact howned f rfl
    | _ => exact trivial
  | none =>
    cases answer with
    | served x => exact rfl
    | joined f => exact trivial
    | owned f => exact howned f rfl
    | expired => cases hexpired rfl

end FirstStage

/-- Publishing the outcome of another computation leaves a request as it fits. -/
theorem Fits.publish {published : Nat → Option (Except ε ρ)} (h : r.Fits published)
    (hnone : published f = none) (hother : r.answer ≠ .owned f) :
    r.Fits fun g => if g = f then some o else published g := by
  obtain ⟨t, answer, stage⟩ := r
  cases answer with
  | served | expired => cases stage <;> exact h
  | joined g =>
    cases stage with
    | done o' =>
      have hg : g ≠ f := by
        rintro rfl
        simp [Request.Fits, hnone] at h
      simpa [Request.Fits, hg] using h
    | _ => exact h
  | owned g =>
    cases stage <;> simp_all [Request.Fits]

variable (h : Consistent acts s)
include h

/-- A request that looks up comes last and is not scored. -/
theorem scored_look (hr : r.scored? = none) (now lifetime : Quantity)
    (fault : Option ε) (j : Nat) (o : Except ε ρ) :
    .score j o ∈ acts ++ [.look t now lifetime fault] ↔
      ∃ r', (s.requests ++ [r])[j]? = some r' ∧ r'.scored? = some o := by
  simp only [mem_append, mem_singleton, reduceCtorEq, or_false, h.scored, getElem?_append]
  constructor
  · rintro ⟨r', hr', ho⟩
    have hj := (List.getElem?_eq_some_iff.mp hr').1
    exact ⟨r', by rw [if_pos hj, hr'], ho⟩
  · rintro ⟨r', hr', ho⟩
    by_cases hj : j < s.requests.length
    · exact ⟨r', by simpa [hj] using hr', ho⟩
    · rw [if_neg hj, getElem?_singleton] at hr'
      split at hr'
      · cases hr'
        rw [hr] at ho
        cases ho
      · cases hr'

/-- A request joins the list of requests; the cache changes as its answer says. -/
theorem Consistent.push (now lifetime : Quantity) {fault : Option ε}
    (hfault : r.named = (t, fault)) {cache : Cache Target ρ} (hscored : r.scored? = none)
    (hcounted : cache.hits + cache.misses + (if r.isExpired then 1 else 0) =
      s.cache.hits + s.cache.misses + 1)
    (hnumbered : List.range cache.misses = List.range s.cache.misses ++ r.owned?.toList)
    (hflights : cache.inFlight = s.cache.inFlight ++ r.held?.toList)
    (hapart : ∀ f ∈ r.held?, ∀ k ∈ s.cache.inFlight, same k.1 f.1 = false)
    (hfits : r.Fits s.published) (hjoined : ∀ f, r.answer = .joined f →
      ∃ owner ∈ s.requests, owner.answer = .owned f ∧ same owner.target r.target = true) :
    Consistent (acts ++ [.look t now lifetime fault])
      { s with cache, requests := s.requests ++ [r] } where
  looked := by simp [h.looked, Act.looked?, hfault]
  counted := by
    have := h.counted
    simp only [countP_append, countP_singleton, length_append, length_singleton]
    omega
  numbered := by
    simp only [filterMap_append, h.numbered, hnumbered]
    cases hr : r.owned? <;> simp [hr]
  flights := by
    simp only [filterMap_append, hflights, ← h.flights]
    cases hr : r.held? <;> simp [hr]
  apart := by
    simp only [hflights, pairwise_append]
    refine ⟨h.apart, ?_, fun k hk f hf => hapart f (Option.mem_toList.mp hf) k hk⟩
    cases r.held? <;> simp
  fits := by
    intro r' hr'
    rcases mem_append.mp hr' with hr' | hr'
    · exact h.fits r' hr'
    · rw [mem_singleton.mp hr']
      exact hfits
  unpublished := by
    intro f hf
    have hlength := congrArg List.length hnumbered
    simp only [length_append, length_range] at hlength
    exact h.unpublished f (by dsimp only at hf; omega)
  joined := by
    intro r' hr' f hanswer
    have hfound : ∃ owner ∈ s.requests,
        owner.answer = .owned f ∧ same owner.target r'.target = true := by
      rcases mem_append.mp hr' with hr' | hr'
      · exact h.joined r' hr' f hanswer
      · rw [mem_singleton.mp hr'] at hanswer ⊢
        exact hjoined f hanswer
    obtain ⟨owner, hmem, howner⟩ := hfound
    exact ⟨owner, mem_append_left _ hmem, howner⟩
  scored := scored_look h hscored now lifetime fault

theorem Consistent.look (now lifetime : Quantity) (t : Target)
    (fault : Option ε) :
    Consistent (acts ++ [.look t now lifetime fault]) (s.looked t now lifetime fault) := by
  obtain ⟨entries, hlookup⟩ := s.cache.lookup_cases t now lifetime fault.isNone
  obtain ⟨hfault, hscored, hheld⟩ :=
    firstStage_spec t fault (s.cache.lookup same t now lifetime fault.isNone).1
  rcases hlookup with ⟨x, heq⟩ | ⟨hnamed, heq⟩ | ⟨k, f, hmem, hsame, heq⟩ | ⟨hapart, heq⟩ <;>
    simp only [Service.looked, heq] at hfault hscored hheld ⊢
  · -- a stored report is served
    exact h.push now lifetime hfault hscored (by simp [Request.isExpired]; omega)
      (by simp [Request.owned?])
      (by simp [hheld, Request.owned?]) (by simp [hheld, Request.owned?])
      (fits_firstStage t fault nofun nofun) nofun
  · exact h.push now lifetime hfault hscored (by simp [Request.isExpired]) (by simp [Request.owned?])
      (by simp [hheld, Request.owned?]) (by simp [hheld, Request.owned?])
      (fits_firstStage t fault nofun fun _ => hnamed) nofun
  · -- the computation of the target is joined; its owner is still in flight
    refine h.push now lifetime hfault hscored (by simp [Request.isExpired]; omega)
      (by simp [Request.owned?])
      (by simp [hheld, Request.owned?]) (by simp [hheld, Request.owned?])
      (fits_firstStage t fault nofun nofun) fun f' hanswer => ?_
    cases hanswer
    rw [h.flights] at hmem
    obtain ⟨owner, howner, hheld⟩ := mem_filterMap.mp hmem
    obtain ⟨hanswer, htarget⟩ := held?_eq_some hheld
    exact ⟨owner, howner, hanswer, htarget ▸ hsame⟩
  · -- a computation starts
    refine h.push now lifetime hfault hscored (by simp [Request.isExpired]; omega)
      (by simp [Request.owned?, range_succ]) (by simp [hheld, Request.owned?]) ?_
      (fits_firstStage t fault (fun f hf => ?_) nofun) nofun
    · intro k hk
      rw [hheld] at hk
      cases hk
      exact hapart
    · cases hf
      exact h.unpublished _ (Nat.le_refl _)

theorem Consistent.score (hr : s.requests[i]? = some ⟨t, .owned f, .scoring⟩) :
    Consistent (acts ++ [.score i o]) (s.advance i (.scored o)) := by
  have hfits : s.published f = none := h.fits _ (mem_of_getElem? hr)
  refine h.move hr (.scored o) rfl rfl rfl rfl (.refl _)
    (h.flights.trans (filterMap_advance (.scored o) hr rfl).symm)
    (fits_advance h hr hfits) h.unpublished ?_
  intro j o'
  simp only [mem_append, mem_singleton, Act.score.injEq, h.scored, getElem?_advance]
  by_cases hij : i = j
  · subst hij
    simp [hr, Request.scored?, eq_comm]
  · simp [hij, Ne.symm hij]

/-- Of the computations in flight, finishing one removes that one only. -/
theorem filter_flights {stage stage' : Stage ε ρ}
    (hr : s.requests[i]? = some ⟨t, .owned f, stage⟩)
    (hstage : Request.held? (⟨t, .owned f, stage⟩ : Request ε ρ) = some (t, f))
    (hstage' : Request.held? (⟨t, .owned f, stage'⟩ : Request ε ρ) = none) :
    s.cache.inFlight.filter (fun k => !same k.1 t) =
      (s.advance i stage').requests.filterMap Request.held? := by
  obtain ⟨before, behind, heq, heq'⟩ := advance_split hr stage'
  have happart := h.apart
  rw [h.flights, heq, filterMap_append, filterMap_cons_some hstage, pairwise_append] at happart
  obtain ⟨-, hbehind, hbefore⟩ := happart
  rw [h.flights, heq, heq', filterMap_append, filterMap_append,
    filterMap_cons_some hstage, filterMap_cons_none hstage', filter_append,
    filter_cons_of_neg (by simp [same_equivalence.refl t])]
  congr 1
  · rw [filter_eq_self]
    intro k hk
    rw [hbefore k hk (t, f) mem_cons_self, Bool.not_false]
  · rw [filter_eq_self]
    intro k hk
    have hne : same t k.1 = false := (pairwise_cons.mp hbehind).1 k hk
    by_contra hsame'
    rw [Bool.not_eq_true, Bool.not_eq_false'] at hsame'
    rw [same_equivalence.symm hsame'] at hne
    cases hne

theorem Consistent.finish (hr : s.requests[i]? = some ⟨t, .owned f, .scored o⟩)
    (now : Quantity) (report : Option ρ) :
    Consistent (acts ++ [.finish i now])
      { s.advance i (.finished o) with cache := s.cache.finish same t now report } := by
  have hfits : s.published f = none := h.fits _ (mem_of_getElem? hr)
  obtain ⟨hhits, hmisses, hflights⟩ := s.cache.finish_spec t now report
  exact h.move hr (.finished o) rfl rfl hhits hmisses (hflights ▸ filter_sublist)
    (hflights.trans (filter_flights h hr rfl rfl)) (fits_advance h hr hfits) h.unpublished
    (scored_advance h hr (.finished o) rfl (by simp))

/-- The numbers of owned computations differ. -/
theorem Consistent.owner_unique {j : Nat} {r' : Request ε ρ}
    (hr : s.requests[i]? = some r) (hr' : s.requests[j]? = some r') (hf : r.answer = .owned f)
    (hf' : r'.answer = .owned f) : i = j := by
  have hnodup : (s.requests.filterMap Request.owned?).Nodup := h.numbered ▸ nodup_range
  rw [List.Nodup, pairwise_filterMap] at hnodup
  have howned : r.owned? = some f := by rw [Request.owned?, hf]
  have howned' : r'.owned? = some f := by rw [Request.owned?, hf']
  obtain ⟨hi, rfl⟩ := List.getElem?_eq_some_iff.mp hr
  obtain ⟨hj, rfl⟩ := List.getElem?_eq_some_iff.mp hr'
  rcases Nat.lt_trichotomy i j with hlt | heq | hlt
  · exact absurd rfl (pairwise_iff_getElem.mp hnodup i j hi hj hlt f howned f howned')
  · exact heq
  · exact absurd rfl (pairwise_iff_getElem.mp hnodup j i hj hi hlt f howned' f howned)

theorem Consistent.publish (hr : s.requests[i]? = some ⟨t, .owned f, .finished o⟩) :
    Consistent (acts ++ [.publish i]) ((s.publish f o).advance i (.done o)) := by
  have hnone : s.published f = none := h.fits _ (mem_of_getElem? hr)
  refine h.move hr (.done o) rfl rfl rfl rfl (.refl _)
    (h.flights.trans (filterMap_advance (.done o) hr rfl).symm) ?_ ?_
    (scored_advance h hr (.done o) rfl (by simp))
  · intro r hmem
    obtain ⟨j, hj⟩ := mem_iff_getElem?.mp hmem
    rw [getElem?_advance] at hj
    obtain ⟨r', hr', rfl⟩ := Option.map_eq_some_iff.mp hj
    by_cases hij : i = j
    · subst hij
      cases hr.symm.trans hr'
      simp [Request.Fits, Service.publish]
    · rw [if_neg hij]
      refine Fits.publish (h.fits r' (mem_of_getElem? hr')) hnone ?_
      exact fun howned => hij (h.owner_unique hr hr' rfl howned)
  · intro g hg
    have hlt : f < s.cache.misses := by
      have hmem : f ∈ s.requests.filterMap Request.owned? :=
        mem_filterMap.mpr ⟨_, mem_of_getElem? hr, rfl⟩
      rw [h.numbered] at hmem
      exact mem_range.mp hmem
    have hne : g ≠ f := by omega
    simp only [Service.publish, if_neg hne]
    exact h.unpublished g hg

/-- A waiting request takes the published outcome and is done. -/
theorem Consistent.wake (hr : s.requests[i]? = some ⟨t, .joined f, .waiting⟩)
    (ho : s.published f = some o) :
    Consistent (acts ++ [.wake i]) (s.advance i (.done o)) :=
  h.move hr (.done o) rfl rfl rfl rfl (.refl _)
    (h.flights.trans (filterMap_advance (.done o) hr rfl).symm) (fits_advance h hr ho)
    h.unpublished (scored_advance h hr (.done o) rfl (by simp))

/-- Acts that only remove entries, or do nothing, change nothing that counts here. -/
theorem Consistent.evict {cache : Cache Target ρ}
    (hlook : act.looked? = none) (hscore : ∀ j o, .score j o ≠ act)
    (hcache : ∃ entries, cache = { s.cache with entries }) :
    Consistent (acts ++ [act]) { s with cache } := by
  obtain ⟨entries, rfl⟩ := hcache
  refine ⟨by simp [h.looked, filterMap_cons_none hlook], h.counted, h.numbered, h.flights, h.apart,
    h.fits, h.unpublished, h.joined, ?_⟩
  intro j o
  simp only [mem_append, mem_singleton, hscore, or_false]
  exact h.scored j o

theorem Consistent.keep {s' : Service ε ρ} (hs : step keeps s act = some s') :
    Consistent (acts ++ [act]) s' := by
  cases takes_of_step hs with
  | look t now lifetime fault => exact h.look now lifetime t fault
  | score hr => exact h.score hr
  | finish hr => exact h.finish hr _ _
  | publish hr => exact h.publish hr
  | wake hr ho => exact h.wake hr ho
  | evict hlook hadvance hsub =>
    refine h.evict hlook ?_ ⟨_, rfl⟩
    rintro j o rfl
    cases hadvance

end Acts

theorem after_concat {s' : Service ε ρ} :
    after keeps (acts ++ [act]) = some s' ↔
      ∃ s, after keeps acts = some s ∧ step keeps s act = some s' := by
  rw [after, foldlM_append]
  constructor
  · intro h
    obtain ⟨s, hafter, hstep⟩ := Option.bind_eq_some_iff.mp h
    exact ⟨s, hafter, by simpa using hstep⟩
  · rintro ⟨s, hafter, hstep⟩
    exact Option.bind_eq_some_iff.mpr ⟨s, hafter, by simpa using hstep⟩

/-- The invariant holds after any acts. -/
theorem consistent_after
    (acts : List (Act ε ρ)) :
    ∀ s, after keeps acts = some s → Consistent acts s := by
  induction acts using List.reverseRecOn with
  | nil =>
    intro s hs
    cases hs
    exact consistent_empty
  | append_singleton acts act ih =>
    intro s' hs
    obtain ⟨s, hafter, hstep⟩ := after_concat.mp hs
    exact (ih s hafter).keep hstep

/-! ## What follows for owners and for requests that have joined -/

/-- Of computations without a common target at most one is of a given target. -/
theorem countP_apart (t : Target) :
    ∀ flights : List (Target × Nat), flights.Pairwise (fun a b => same a.1 b.1 = false) →
      flights.countP (fun f => same f.1 t) = if flights.any fun f => same f.1 t then 1 else 0
  | [], _ => rfl
  | f :: rest, h => by
    obtain ⟨hf, hrest⟩ := pairwise_cons.mp h
    have ih := countP_apart t rest hrest
    by_cases hft : same f.1 t = true
    · have hnone : rest.any (fun g => same g.1 t) = false := by
        rw [any_eq_false]
        intro g hg hgt
        have hfg := hf g hg
        rw [same_equivalence.trans hft (same_equivalence.symm hgt)] at hfg
        cases hfg
      rw [countP_cons_of_pos (p := fun f : Target × Nat => same f.1 t) hft, ih, hnone, any_cons, hft]
      rfl
    · rw [countP_cons_of_neg (p := fun f : Target × Nat => same f.1 t) hft, ih, any_cons,
        eq_false_of_ne_true hft, Bool.false_or]

theorem countP_held
    (h : Consistent acts s) (t : Target) :
    s.requests.countP (fun r => r.isHolding && same r.target t) =
      if s.cache.inFlight.any fun f => same f.1 t then 1 else 0 := by
  rw [← countP_apart t s.cache.inFlight h.apart, h.flights, countP_filterMap]
  apply countP_congr
  intro r _
  cases hr : r.held? with
  | none => simp [Request.isHolding, hr]
  | some k => simp [Request.isHolding, hr, (held?_eq_some hr).2]

theorem isComputing_or_isAbandoned (r : Request ε ρ) :
    (r.isComputing || r.isAbandoned) = r.isHolding := by
  obtain ⟨t, answer, stage⟩ := r
  cases answer <;> cases stage <;> rfl

/-- A miss is counted for every computation that starts and for every one that is abandoned. -/
theorem countP_isOwner (h : Consistent acts s) :
    s.cache.misses = s.requests.countP (fun r => r.isOwner && !r.isAbandoned) +
      s.requests.countP Request.isAbandoned := by
  have hlength := congrArg List.length h.numbered
  rw [length_filterMap_eq_countP, length_range] at hlength
  rw [← hlength, countP_eq_countP_filter_add _ _ fun r => !r.isAbandoned, countP_filter,
    countP_filter]
  congr 1
  exact countP_congr fun r _ => by simp [Request.isAbandoned, Request.isOwner]

/-- A request that has joined a computation and named its target waits for the computation or is
done with its outcome. -/
theorem Consistent.joined_cases (h : Consistent acts s) (hr : r ∈ s.requests) {f : Nat}
    (hanswer : r.answer = .joined f) :
    (∃ e, r.stage = .failed e) ∨ r.stage = .waiting ∨
      ∃ o, r.stage = .done o ∧ s.published f = some o := by
  have hfits := h.fits r hr
  obtain ⟨t, answer, stage⟩ := r
  cases hanswer
  cases stage with
  | failed e => exact .inl ⟨e, rfl⟩
  | waiting => exact .inr (.inl rfl)
  | done o => exact .inr (.inr ⟨o, rfl, hfits⟩)
  | _ => exact hfits.elim

/-- The owner of a computation is done when the outcome is published.  Otherwise it can go on,
unless it could not name its target. -/
theorem Consistent.owner_cases (keeps : ρ → Bool) (h : Consistent acts s) {j : Nat}
    (hr : s.requests[j]? = some r) {f : Nat} (hanswer : r.answer = .owned f) :
    (∃ o, s.published f = some o ∧ r.scored? = some o) ∨
      s.published f = none ∧ (r.isAbandoned = true ∨
        (∀ o, (step keeps s (.score j o)).isSome) ∨
          (∀ now, (step keeps s (.finish j now)).isSome) ∨
          (step keeps s (.publish j)).isSome) := by
  have hfits := h.fits r (mem_of_getElem? hr)
  obtain ⟨t, answer, stage⟩ := r
  cases hanswer
  cases stage with
  | waiting => exact hfits.elim
  | failed e => exact .inr ⟨hfits, .inl rfl⟩
  | scoring => exact .inr ⟨hfits, .inr (.inl fun o => by simp [step, hr])⟩
  | scored o => exact .inr ⟨hfits, .inr (.inr (.inl fun now => by simp [step, hr]))⟩
  | finished o => exact .inr ⟨hfits, .inr (.inr (.inr (by simp [step, hr])))⟩
  | done o => exact .inl ⟨o, hfits, rfl⟩

/-- After any acts: of the requests for a target exactly one has a computation in flight when the
target is in flight, and none otherwise.  It computes, or it could not name the target and has
abandoned the computation, which nobody ever starts.  A request has failed with the error that
naming its target raised, and only then.  Hits and misses together count the look-ups, but for those
that failed at an entry that had expired, and misses the computations that were started or
abandoned.  A request that has joined a computation, which has exactly one owner and is of the same
target, has failed itself; or its owner has; or it waits, and then it or the owner can go on; or it
has ended with the one outcome that the owner scored. -/
theorem single_flight (acts : List (Act ε ρ)) (s : Service ε ρ)
    (hs : after keeps acts = some s) :
    (∀ t, s.requests.countP (fun r => (r.isComputing || r.isAbandoned) && r.target.same t) =
      if s.cache.inFlight.any fun f => f.1.same t then 1 else 0) ∧
    s.requests.map Request.named = acts.filterMap Act.looked? ∧
    s.cache.hits + s.cache.misses + s.requests.countP Request.isExpired =
      (acts.filterMap Act.looked?).length ∧
    s.cache.misses = s.requests.countP (fun r => r.isOwner && !r.isAbandoned) +
      s.requests.countP Request.isAbandoned ∧
    ∀ i r f, s.requests[i]? = some r → r.answer = .joined f →
      ∃ j owner, s.requests[j]? = some owner ∧ owner.answer = .owned f ∧
        owner.target.same r.target = true ∧
        (∀ j' owner', s.requests[j']? = some owner' → owner'.answer = .owned f → j' = j) ∧
        ((∃ e, r.stage = .failed e) ∨ owner.isAbandoned = true ∨
          r.stage = .waiting ∧
            ((step keeps s (.wake i)).isSome ∨
              (∀ o, (step keeps s (.score j o)).isSome) ∨
              (∀ now, (step keeps s (.finish j now)).isSome) ∨
              (step keeps s (.publish j)).isSome) ∨
          ∃ o, r.stage = .done o ∧ .score j o ∈ acts ∧ ∀ o', .score j o' ∈ acts → o' = o) := by
  have h := consistent_after acts s hs
  refine ⟨fun t => ?_, h.looked, by rw [← h.looked, length_map, h.counted], countP_isOwner h, ?_⟩
  · simp only [isComputing_or_isAbandoned]
    exact countP_held h t
  intro i r f hr hanswer
  obtain ⟨owner, hmem, howner, htarget⟩ := h.joined r (List.mem_of_getElem? hr) f hanswer
  obtain ⟨j, hj⟩ := List.mem_iff_getElem?.mp hmem
  refine ⟨j, owner, hj, howner, htarget, fun j' owner' hj' howner' =>
    h.owner_unique hj' hj howner' howner, ?_⟩
  rcases h.joined_cases (List.mem_of_getElem? hr) hanswer with
    hfailed | hwaiting | ⟨o, hdone, hpublished⟩
  · exact .inl hfailed
  · rcases h.owner_cases keeps hj howner with ⟨o, hpublished, -⟩ | ⟨-, habandoned | hgoes⟩
    · refine .inr (.inr (.inl ⟨hwaiting, .inl ?_⟩))
      obtain ⟨t, answer, stage⟩ := r
      cases hanswer
      cases hwaiting
      simp [step, hr, hpublished]
    · exact .inr (.inl habandoned)
    · exact .inr (.inr (.inl ⟨hwaiting, .inr hgoes⟩))
  · refine .inr (.inr (.inr ⟨o, hdone, ?_⟩))
    rcases h.owner_cases keeps hj howner with ⟨o', hpublished', hscored⟩ | ⟨hnone, -⟩
    · obtain rfl : o' = o := Option.some.inj (hpublished'.symm.trans hpublished)
      refine ⟨(h.scored j o').mpr ⟨owner, hj, hscored⟩, fun o'' ho'' => ?_⟩
      obtain ⟨owner'', hj'', hscored''⟩ := (h.scored j o'').mp ho''
      cases hj''.symm.trans hj
      exact Option.some.inj (hscored''.symm.trans hscored)
    · rw [hnone] at hpublished
      cases hpublished

/-- Two requests share a computation that fails; a third request starts it again before the second
one has taken the error.  Two more cannot name their target. -/
def sharedFailure : List (Act String Nat) :=
  let here : Target := ⟨.function 7, [.bars [.cls .int, .none]]⟩
  let sameHere : Target := ⟨.function 7, [.bars [.none, .cls .int]]⟩
  let there : Target := ⟨.function 8, []⟩
  [.look here (.whole 0) (.whole 300), .look sameHere (.whole 1) (.whole 300),
    .look there (.whole 1) (.whole 300) (some "no name"), .score 0 (.error "fault"),
    .finish 0 (.whole 2), .look here (.whole 2) (.whole 300), .publish 0, .clear, .wake 1,
    .look there (.whole 3) (.whole 300) (some "no name")]

theorem sharedFailure_single_flight :
    ∃ s, after (fun _ => true) sharedFailure = some s ∧
      s.requests.countP (fun r => (r.isComputing || r.isAbandoned) &&
        r.target.same ⟨.function 8, []⟩) = 1 ∧
      s.requests.map Request.named =
        sharedFailure.filterMap Act.looked? ∧
      s.cache.hits + s.cache.misses = 5 ∧
      ∃ r owner o, s.requests[1]? = some r ∧ s.requests[0]? = some owner ∧
        owner.answer = .owned 0 ∧ r.stage = .done o ∧ .score 0 o ∈ sharedFailure := by
  have hview : (after (fun _ => true) sharedFailure).map
      (fun s => (s.cache.inFlight.any fun f => f.1.same ⟨.function 8, []⟩,
        s.requests.countP Request.isExpired, s.requests[0]?, s.requests[1]?)) =
      some (true, 0,
        some ⟨⟨.function 7, [.bars [.cls .int, .none]]⟩, .owned 0, .done (.error "fault")⟩,
        some ⟨⟨.function 7, [.bars [.none, .cls .int]]⟩, .joined 0, .done (.error "fault")⟩) := rfl
  obtain ⟨s, hs, hview⟩ := Option.map_eq_some_iff.mp hview
  simp only [Prod.mk.injEq] at hview
  obtain ⟨hflight, hexpired, howner, hr⟩ := hview
  obtain ⟨hone, hfailures, hcounted, -, hjoined⟩ := single_flight sharedFailure s hs
  rw [hexpired] at hcounted
  refine ⟨s, hs, (hone _).trans (by rw [hflight]; rfl), hfailures, hcounted, _, _, .error "fault",
    hr, howner, rfl, rfl, ?_⟩
  obtain ⟨j, owner, hj, -, -, hunique, hend⟩ := hjoined 1 _ 0 hr rfl
  obtain rfl : 0 = j := hunique 0 _ howner rfl
  cases howner.symm.trans hj
  rcases hend with ⟨e, ⟨⟩⟩ | ⟨⟨⟩⟩ | ⟨⟨⟩, -⟩ | ⟨o, ⟨⟩, hscore, -⟩
  exact hscore

end Service
end Readiness
