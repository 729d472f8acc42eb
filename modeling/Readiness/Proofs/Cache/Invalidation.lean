import Mathlib.Data.List.Pairwise
import Readiness.Proofs.Cache.Provenance

/-!
# What an invalidation reaches

Dropping an entry leaves the computations in flight alone.

`outcome_since_eviction`: a request that looks up after the entry was dropped ends with
the outcome of a computation that was started later or was in flight at that moment.  The exception
is needed: a computation in flight is joined and its report is stored afterwards
(`not_evictionsHold`).  It is joined by every request that looks up as long as it is in flight.
-/

namespace Readiness

open Target (same same_equivalence)
open List

variable {ε ρ : Type} {keeps : ρ → Bool}

/-- An act drops the entry of a target. -/
def Act.Evicts (t : Target) (a : Act ε ρ) : Prop :=
  a = .clear ∨ ∃ t', a = .invalidate t' ∧ same t' t = true

namespace Service

/-- No request that looks a target up after its entry was dropped returns a report of a computation
that was started before. -/
def EvictionsHold (ε ρ : Type) (keeps : ρ → Bool) : Prop :=
  ∀ (acts rest : List (Act ε ρ)) (act : Act ε ρ) (t : Target) (s s' : Service ε ρ),
    after keeps acts = some s → act.Evicts t →
    after keeps (acts ++ act :: rest) = some s' →
    ∀ k r x, s.requests.length ≤ k → s'.requests[k]? = some r → same r.target t = true →
      r.stage = .done (.ok x) →
      ∃ i t', s.requests.length ≤ i ∧ same t' t = true ∧
        Gives (acts ++ act :: rest) s' i t' (.ok x)

def sampleTarget : Target := ⟨.function 7, [.bars [.cls .int, .none]]⟩

def begun : List (Act String Nat) :=
  [.look sampleTarget (.whole 0) (.whole 5), .score 0 (.ok 1)]

/-- A second request joins the computation that the first one finishes, and a third one is served
its report. -/
def continued : List (Act String Nat) :=
  [.look sampleTarget (.whole 1) (.whole 5), .finish 0 (.whole 2), .publish 0, .wake 1,
    .look sampleTarget (.whole 3) (.whole 5)]

/-- The report of a computation that was in flight when its target was invalidated is stored
afterwards and served to a request that looks up still later. -/
theorem not_evictionsHold : ¬EvictionsHold String Nat fun _ => true := by
  have hbefore : (after (fun _ => true) begun).map (fun s => s.requests.length) =
      some 1 := rfl
  have hafter : (after (fun _ => true)
      (begun ++ .invalidate sampleTarget :: continued)).map (fun s => s.requests[2]?) =
      some (some ⟨sampleTarget, .served 1, .done (.ok 1)⟩) := rfl
  obtain ⟨s, hs, hlength⟩ := Option.map_eq_some_iff.mp hbefore
  obtain ⟨s', hs', hr⟩ := Option.map_eq_some_iff.mp hafter
  intro h
  obtain ⟨i, t, hi, -, hscore, -⟩ := h begun continued (.invalidate sampleTarget) sampleTarget s s'
    hs (.inr ⟨_, rfl, rfl⟩) hs' 2 _ _ (by omega) hr rfl rfl
  simp only [begun, continued, cons_append, nil_append, mem_cons, reduceCtorEq,
    Act.score.injEq, not_mem_nil, or_false, false_or] at hscore
  omega

section Evicting

variable {acts : List (Act ε ρ)} {act : Act ε ρ} {t : Target} {s s' : Service ε ρ}

/-- A request was computing, or had not looked up yet. -/
def IsCurrent (s : Service ε ρ) (i : Nat) : Prop :=
  s.requests.length ≤ i ∨ ∃ owner, s.requests[i]? = some owner ∧ owner.isHolding = true

theorem step_evicts (hact : act.Evicts t)
    (hs : step keeps s act = some s') :
    s'.requests = s.requests ∧ ∀ e ∈ s'.cache.entries, same e.target t = false := by
  rcases hact with rfl | ⟨t', rfl, ht'⟩
  · cases hs
    exact ⟨rfl, fun e he => absurd he not_mem_nil⟩
  · cases hs
    refine ⟨rfl, fun e he => ?_⟩
    have hne := (mem_filter.mp he).2
    by_contra hsame'
    rw [Bool.not_eq_false] at hsame'
    rw [same_equivalence.trans hsame' (same_equivalence.symm ht')] at hne
    cases hne

theorem step_evicts_inFlight (hact : act.Evicts t) (hs : step keeps s act = some s') :
    s'.cache.inFlight = s.cache.inFlight := by
  rcases hact with rfl | ⟨t', rfl, -⟩ <;> cases hs <;> rfl

/-- When the entry of a target has just been dropped, nothing is stored for it, and only the
requests that are computing can be traced to. -/
theorem traced_of_evicts
    (hact : act.Evicts t) (hs : step keeps s act = some s') :
    Traced keeps s.IsCurrent (fun t' => same t' t = true) s.requests.length (acts ++ [act])
      s' := by
  obtain ⟨hrequests, hnone⟩ := step_evicts hact hs
  have hold : ∀ {k : Nat} {r : Request ε ρ}, s.requests.length ≤ k →
      s'.requests[k]? ≠ some r := by
    intro k r hk hr
    rw [hrequests, List.getElem?_eq_none hk] at hr
    cases hr
  exact
    { started := Nat.le_of_eq (congrArg List.length hrequests).symm
      computing := fun i r hr hcomputing _ => .inr ⟨r, hrequests ▸ hr, hcomputing⟩
      stored := by
        intro e he ht
        rw [hnone e he] at ht
        cases ht
      served := fun k r x hk hr => (hold hk hr).elim
      joined := fun k r f hk hr => (hold hk hr).elim }

/-- A target in flight has one computation, which a request joins when nothing is stored. -/
theorem lookup_joined (h : Consistent acts s)
    (hnone : ∀ e ∈ s.cache.entries, same e.target t = false) {f : Target × Nat}
    (hf : f ∈ s.cache.inFlight) (hft : same f.1 t = true) (now lifetime : Quantity) (isNamed : Bool) :
    (s.cache.lookup same t now lifetime isNamed).1 = .joined f.2 := by
  have hfind : s.cache.find? same t = none := by
    refine List.find?_eq_none.mpr fun e he => ?_
    rw [hnone e he]
    exact Bool.false_ne_true
  have hlookup : s.cache.lookup same t now lifetime isNamed = s.cache.enter same t := by
    rw [Cache.lookup, hfind]
  rw [hlookup]
  rcases Cache.enter_cases s.cache t with ⟨k, g, hmem, hkt, heq⟩ | ⟨hfree, -⟩
  · rw [heq]
    by_contra hne
    have : Std.Symm fun a b : Target × Nat => same a.1 b.1 = false := by
      refine ⟨fun a b hab => ?_⟩
      by_contra hba
      rw [same_equivalence.symm (eq_true_of_ne_false hba)] at hab
      cases hab
    have hapart : same k f.1 = false :=
      h.apart.forall hmem hf fun hkf => hne (by rw [← hkf])
    rw [same_equivalence.trans hkt (same_equivalence.symm hft)] at hapart
    cases hapart
  · rw [hfree f hf] at hft
    cases hft

/-- Computations that come into flight get new numbers. -/
theorem mem_inFlight_of_step (hs : step keeps s act = some s') {f : Target × Nat}
    (hlt : f.2 < s.cache.misses) :
    f.2 < s'.cache.misses ∧ (f ∈ s'.cache.inFlight → f ∈ s.cache.inFlight) := by
  cases takes_of_step hs with
  | look t now lifetime fault =>
    obtain ⟨entries, ⟨x, heq⟩ | ⟨-, heq⟩ | ⟨k, g, -, -, heq⟩ | ⟨-, heq⟩⟩ :=
      s.cache.lookup_cases t now lifetime fault.isNone <;> simp only [looked, heq]
    case inr.inr.inr =>
      refine ⟨Nat.lt_succ_of_lt hlt, fun hf => (mem_append.mp hf).resolve_right fun hnew => ?_⟩
      cases mem_singleton.mp hnew
      exact Nat.lt_irrefl _ hlt
    all_goals exact ⟨hlt, id⟩
  | finish =>
    obtain ⟨-, hmisses, hflights⟩ := s.cache.finish_spec _ _ _
    exact ⟨hmisses ▸ hlt, fun hf => mem_of_mem_filter (hflights ▸ hf)⟩
  | _ => exact ⟨hlt, id⟩

/-- Nothing is stored for a target while a computation of it goes on. -/
theorem unstored_of_step
    (hs : step keeps s act = some s') {f : Target × Nat} (hft : same f.1 t = true)
    (hf : f ∈ s'.cache.inFlight) (hnone : ∀ e ∈ s.cache.entries, same e.target t = false) :
    ∀ e ∈ s'.cache.entries, same e.target t = false := by
  cases takes_of_step hs with
  | look =>
    intro e he
    obtain ⟨e', he', hrecord⟩ := Cache.exists_record_of_mem_lookup he
    exact (congrArg (same · t) (congrArg Prod.fst hrecord)).symm.trans (hnone e' he')
  | @finish i u g o now hr =>
    intro e he
    rcases Cache.mem_entries_finish he with he | ⟨x, -, rfl⟩
    · exact hnone e he
    · -- a computation of the target would have ended
      rw [(Cache.finish_spec _ _ _ _).2.2] at hf
      have hne : same f.1 u = false := by simpa using of_mem_filter hf
      by_contra hut
      rw [same_equivalence.trans hft (same_equivalence.symm (eq_true_of_ne_false hut))] at hne
      cases hne
  | evict _ _ hsub => exact fun e he => hnone e (hsub.subset he)
  | _ => exact hnone

/-- While a computation is still in flight that was when the entry of its target was dropped,
nothing is stored for the target. -/
theorem unstored_since_eviction
    (hs : after keeps acts = some s) (hnone : ∀ e ∈ s.cache.entries, same e.target t = false)
    {f : Target × Nat} (hf : f ∈ s.cache.inFlight) (hft : same f.1 t = true) (rest : List (Act ε ρ)) :
    ∀ s', after keeps (acts ++ rest) = some s' → f.2 < s'.cache.misses ∧
      (f ∈ s'.cache.inFlight → ∀ e ∈ s'.cache.entries, same e.target t = false) := by
  induction rest using List.reverseRecOn with
  | nil =>
    intro s' hs'
    rw [append_nil] at hs'
    cases hs.symm.trans hs'
    have hc := consistent_after acts s hs
    rw [hc.flights] at hf
    obtain ⟨owner, hmem, hheld⟩ := mem_filterMap.mp hf
    have howned : f.2 ∈ s.requests.filterMap Request.owned? :=
      mem_filterMap.mpr ⟨owner, hmem, by rw [Request.owned?, (held?_eq_some hheld).1]⟩
    rw [hc.numbered] at howned
    exact ⟨mem_range.mp howned, fun _ => hnone⟩
  | append_singleton rest act ih =>
    intro s'' hs''
    rw [← append_assoc] at hs''
    obtain ⟨s', hs', hstep⟩ := after_concat.mp hs''
    obtain ⟨hlt, hunstored⟩ := ih s' hs'
    obtain ⟨hlt', hback⟩ := mem_inFlight_of_step hstep hlt
    exact ⟨hlt', fun hf' => unstored_of_step hstep hft hf' (hunstored (hback hf'))⟩

end Evicting

/-- A request that looks a target up after its entry was dropped, and is done, has the outcome of a
computation for this target that was started after that or was in flight at that moment; and a
computation that was in flight is joined by every request that looks up while it still is. -/
theorem outcome_since_eviction (acts rest : List (Act ε ρ)) (act : Act ε ρ)
    (t : Target) (s s' : Service ε ρ) (hs : after keeps acts = some s)
    (hact : act.Evicts t)
    (hs' : after keeps (acts ++ act :: rest) = some s') :
    (∀ k r o, s.requests.length ≤ k → s'.requests[k]? = some r → r.target.same t = true →
      r.stage = .done o →
      ∃ i t', t'.same t = true ∧ Gives (acts ++ act :: rest) s' i t' o ∧
        (s.requests.length ≤ i ∨
          ∃ owner, s.requests[i]? = some owner ∧
            ∃ f ∈ s.cache.inFlight, owner.held? = some f)) ∧
    ∀ f ∈ s.cache.inFlight, f.1.same t = true → f ∈ s'.cache.inFlight →
      ∀ t' now lifetime fault s'', t'.same t = true →
        step keeps s' (.look t' now lifetime fault) = some s'' →
        ∃ r, s''.requests = s'.requests ++ [r] ∧ r.target = t' ∧ r.answer = .joined f.2 := by
  have hc := consistent_after acts s hs
  rw [append_cons] at hs' ⊢
  have hbegin := hs'
  rw [after, foldlM_append] at hbegin
  obtain ⟨s₁, hs₁, -⟩ := Option.bind_eq_some_iff.mp hbegin
  obtain ⟨s₀, hs₀, hstep⟩ := after_concat.mp hs₁
  cases hs.symm.trans hs₀
  constructor
  · intro k r o hk hr ht hdone
    have hcurrent : ∀ i, s.requests.length ≤ i → s.IsCurrent i := fun i hi => .inl hi
    have hclass : ∀ a b : Target, a.same b = true → (a.same t = true ↔ b.same t = true) :=
      fun a b hab => ⟨same_equivalence.trans (same_equivalence.symm hab), same_equivalence.trans hab⟩
    obtain ⟨htraced, -⟩ := (traced_of_evicts hact hstep).after hcurrent hclass hs₁ rest
      s' hs'
    obtain ⟨i, t', hi, hsame', hgives⟩ := htraced.of_done (consistent_after _ s' hs')
      hcurrent hk hr ht hdone
    refine ⟨i, t', same_equivalence.trans hsame' ht, hgives, hi.imp_right ?_⟩
    rintro ⟨owner, howner, hcomputing⟩
    obtain ⟨f, hf⟩ := Option.isSome_iff_exists.mp hcomputing
    refine ⟨owner, howner, f, ?_, hf⟩
    rw [hc.flights]
    exact mem_filterMap.mpr ⟨owner, mem_of_getElem? howner, hf⟩
  · intro f hf hft hf' t' now lifetime fault s'' ht' hlook
    cases hlook
    refine ⟨_, rfl, rfl, lookup_joined (consistent_after _ s' hs') (fun e he => ?_) hf'
      (same_equivalence.trans hft (same_equivalence.symm ht')) now lifetime _⟩
    have hnone := (unstored_since_eviction hs₁ (step_evicts hact hstep).2
      (step_evicts_inFlight hact hstep ▸ hf) hft rest s' hs').2 hf' e he
    by_contra hne
    rw [same_equivalence.trans (eq_true_of_ne_false hne) ht'] at hnone
    cases hnone

/-- A target is scored and its report stored, and another one is being scored. -/
def settled : List (Act String Nat) :=
  [.look sampleTarget (.whole 0) (.whole 5), .score 0 (.ok 1), .finish 0 (.whole 1), .publish 0,
    .look ⟨.function 8, []⟩ (.whole 1) (.whole 5)]

def renewed : List (Act String Nat) :=
  [.look sampleTarget (.whole 2) (.whole 5), .score 2 (.ok 4), .finish 2 (.whole 3), .publish 2]

theorem renewed_since_eviction :
    ∃ s s', after (fun _ => true) settled = some s ∧ s.requests.length = 2 ∧
      after (fun _ => true) (settled ++ .clear :: renewed) = some s' ∧
      s'.requests[2]?.map Request.stage = some (.done (.ok 4)) ∧
      ∃ i t, t.same sampleTarget = true ∧ Gives (settled ++ .clear :: renewed) s' i t (.ok 4) ∧
        (2 ≤ i ∨ ∃ owner, s.requests[i]? = some owner ∧
          ∃ f ∈ s.cache.inFlight, owner.held? = some f) := by
  have hbefore : (after (fun _ => true) settled).map (fun s => s.requests.length) =
      some 2 := rfl
  have hafter : (after (fun _ => true) (settled ++ .clear :: renewed)).map
      (fun s => s.requests[2]?) = some (some ⟨sampleTarget, .owned 2, .done (.ok 4)⟩) := rfl
  obtain ⟨s, hs, hlength⟩ := Option.map_eq_some_iff.mp hbefore
  obtain ⟨s', hs', hr⟩ := Option.map_eq_some_iff.mp hafter
  have houtcome := (outcome_since_eviction settled renewed .clear sampleTarget s s' hs (.inl rfl)
    hs').1 2 _ _ (by omega) hr rfl rfl
  rw [hlength] at houtcome
  exact ⟨s, s', hs, hlength, hs', by rw [hr]; rfl, houtcome⟩

end Service
end Readiness
