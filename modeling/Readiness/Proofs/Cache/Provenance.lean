import Readiness.Proofs.Cache.SingleFlight

/-!
# Where reports come from

`Traced.of_done`: a request that is done has the outcome of a computation that is
traced.
-/

namespace Readiness

open List
open Target (same same_equivalence)

variable {ε ρ : Type} {keeps : ρ → Bool}

def CacheEntry.record (e : CacheEntry Target ρ) : Target × ρ × Quantity :=
  (e.target, e.report, e.createdAt)

/-- The number of acts that a request has still to take. -/
def Stage.remaining : Stage ε ρ → Nat
  | .waiting => 1
  | .scoring => 3
  | .scored _ => 2
  | .finished _ => 1
  | .done _ | .failed _ => 0

variable {c : Cache Target ρ} {t : Target} {now : Quantity}

namespace Cache

/-! ## Entries -/

theorem record_touch (es : List (CacheEntry Target ρ)) (p : CacheEntry Target ρ → Bool)
    (now : Quantity) :
    (es.map fun e => if p e then { e with lastAccess := now } else e).map CacheEntry.record =
      es.map CacheEntry.record := by
  rw [map_map]
  apply map_congr_left
  intro e _
  simp only [Function.comp_apply]
  split <;> rfl

/-- Looking up drops entries at most, and leaves targets, reports and times of creation alone. -/
theorem record_lookup (c : Cache Target ρ) (t : Target) (now lifetime : Quantity) (isNamed : Bool) :
    ((c.lookup same t now lifetime isNamed).2.entries.map CacheEntry.record).Sublist
      (c.entries.map CacheEntry.record) := by
  have henter : ∀ c : Cache Target ρ, (c.enter same t).2.entries = c.entries := by
    intro c
    rcases enter_cases c t with ⟨k, f, -, -, heq⟩ | ⟨-, heq⟩ <;> rw [heq]
  unfold lookup
  split
  · split
    · rw [record_touch]
    · cases isNamed with
      | true =>
        rw [if_pos rfl, henter]
        exact filter_sublist.map _
      | false => exact filter_sublist.map _
  · rw [henter]

theorem exists_record_of_mem_lookup {lifetime : Quantity} {isNamed : Bool} {e : CacheEntry Target ρ}
    (h : e ∈ (c.lookup same t now lifetime isNamed).2.entries) :
    ∃ e' ∈ c.entries, e'.record = e.record := by
  have hmem := (record_lookup c t now lifetime isNamed).subset (mem_map_of_mem h)
  exact mem_map.mp hmem

/-- A report that is served is that of an entry which is younger than the lifetime, and no entry
is dropped. -/
theorem lookup_served {c' : Cache Target ρ} {lifetime : Quantity} {isNamed : Bool} {x : ρ}
    (h : c.lookup same t now lifetime isNamed = (.served x, c')) :
    (∃ e ∈ c.entries, same e.target t = true ∧ e.report = x ∧
      (e.age now).below lifetime = true) ∧
    c'.entries.map CacheEntry.record = c.entries.map CacheEntry.record := by
  have henter : ∀ c : Cache Target ρ, c.enter same t ≠ (.served x, c') := by
    intro c
    rcases enter_cases c t with ⟨k, f, -, -, heq⟩ | ⟨-, heq⟩ <;> rw [heq] <;> simp
  unfold lookup at h
  split at h
  · next e hfind =>
      split at h
      · next hyoung =>
          simp only [Prod.mk.injEq, Lookup.served.injEq] at h
          obtain ⟨hreport, rfl⟩ := h
          have hsame : same e.target t = true :=
            find?_some (p := fun e : CacheEntry Target ρ => same e.target t) hfind
          exact ⟨⟨e, mem_of_find?_eq_some hfind, hsame, hreport, hyoung⟩,
            record_touch _ _ now⟩
      · cases isNamed with
        | true => exact (henter _ h).elim
        | false => cases h
  · exact (henter _ h).elim

theorem mem_entries_finish {report : Option ρ} {e : CacheEntry Target ρ}
    (h : e ∈ (c.finish same t now report).entries) :
    e ∈ c.entries ∨ ∃ x, report = some x ∧ e = ⟨t, x, now, now⟩ := by
  cases report with
  | none => exact .inl h
  | some x =>
    simp only [finish, store] at h
    split at h
    · obtain ⟨e', he', rfl⟩ := mem_map.mp h
      split
      · exact .inr ⟨x, rfl, rfl⟩
      · exact .inl he'
    · rcases mem_append.mp h with h | h
      · exact .inl h
      · exact .inr ⟨x, rfl, mem_singleton.mp h⟩

end Cache

variable {act : Act ε ρ}

namespace Service

/-! ## Later services -/

/-- In a later service the same requests have come no less far, and others may have looked up. -/
def Later (s s' : Service ε ρ) : Prop :=
  ∀ (i : Nat) (r : Request ε ρ), s.requests[i]? = some r →
    ∃ r' : Request ε ρ, s'.requests[i]? = some r' ∧ r'.asked = r.asked ∧
      (r'.isHolding = true → r.isHolding = true)

variable {s s' : Service ε ρ}

theorem later_of_requests (h : s'.requests = s.requests) : Later s s' :=
  fun _ r hr => ⟨r, h ▸ hr, rfl, id⟩

theorem Later.trans {s'' : Service ε ρ} (h : Later s s') (h' : Later s' s'') : Later s s'' := by
  intro i r hr
  obtain ⟨r', hr', hasked, hcomputing⟩ := h i r hr
  obtain ⟨r'', hr'', hasked', hcomputing'⟩ := h' i r' hr'
  exact ⟨r'', hr'', hasked'.trans hasked, hcomputing ∘ hcomputing'⟩

theorem later_advance {i : Nat} {r : Request ε ρ} {stage : Stage ε ρ}
    (hr : s.requests[i]? = some r) (hs' : s'.requests = (s.advance i stage).requests)
    (hcomputing : Request.isHolding { r with stage } = true → r.isHolding = true) : Later s s' := by
  intro j r' hr'
  rw [hs', getElem?_advance, hr']
  by_cases hij : i = j
  · subst hij
    cases hr.symm.trans hr'
    exact ⟨_, rfl, by simp [Request.asked], by simpa using hcomputing⟩
  · exact ⟨_, rfl, by simp [hij], by simp [hij]⟩

theorem later_step (h : step keeps s act = some s') : Later s s' := by
  cases takes_of_step h with
  | look =>
    intro i r hr
    have hi := (List.getElem?_eq_some_iff.mp hr).1
    exact ⟨r, (getElem?_append_left hi).trans hr, rfl, id⟩
  | score hr | finish hr => exact later_advance hr rfl fun _ => rfl
  | publish hr | wake hr => exact later_advance hr rfl id
  | evict => exact later_of_requests rfl

/-! ## Computations behind reports -/

/-- A request for a target has scored it with an outcome. -/
def Gives (acts : List (Act ε ρ)) (s : Service ε ρ) (i : Nat) (t : Target) (o : Except ε ρ) :
    Prop :=
  .score i o ∈ acts ∧ ∃ r, s.requests[i]? = some r ∧ r.target = t

theorem Gives.mono {acts rest : List (Act ε ρ)} {i : Nat} {o : Except ε ρ}
    (h : Gives acts s i t o) (hlater : Later s s') : Gives (acts ++ rest) s' i t o := by
  obtain ⟨hscore, r, hr, htarget⟩ := h
  obtain ⟨r', hr', hasked, -⟩ := hlater i r hr
  exact ⟨mem_append_left _ hscore, r', hr', (congrArg Prod.fst hasked).trans htarget⟩

/-- What is known of the targets in `T`, from the request with number `since` on: the requests that
compute for them, or have computed what is stored or answered for them, are admitted by `P`. -/
structure Traced (keeps : ρ → Bool) (P : Nat → Prop) (T : Target → Prop)
    (since : Nat) (acts : List (Act ε ρ)) (s : Service ε ρ) : Prop where
  started : since ≤ s.requests.length
  computing : ∀ i r, s.requests[i]? = some r → r.isHolding = true → T r.target → P i
  stored : ∀ e ∈ s.cache.entries, T e.target → keeps e.report = true ∧
    ∃ i, P i ∧ Gives acts s i e.target (.ok e.report) ∧ .finish i e.createdAt ∈ acts
  served : ∀ k r x, since ≤ k → s.requests[k]? = some r → T r.target → r.answer = .served x →
    ∃ i t, P i ∧ same t r.target = true ∧ Gives acts s i t (.ok x)
  joined : ∀ k r f, since ≤ k → s.requests[k]? = some r → T r.target → r.answer = .joined f →
    ∃ i owner, P i ∧ s.requests[i]? = some owner ∧ owner.answer = .owned f ∧
      same owner.target r.target = true

theorem traced_empty (P : Nat → Prop) (T : Target → Prop) :
    Traced keeps P T 0 [] (empty : Service ε ρ) where
  started := Nat.le_refl _
  computing := fun _ _ hr => (nomatch hr)
  stored := fun _ he => absurd he not_mem_nil
  served := fun _ _ _ _ hr => (nomatch hr)
  joined := fun _ _ _ _ hr => (nomatch hr)

section Keeping

variable {P : Nat → Prop} {T : Target → Prop} {since : Nat} {acts : List (Act ε ρ)}
  {s s' : Service ε ρ}

/-- A request that had looked up before has asked the same then. -/
theorem Later.exists_before (hlater : Later s s') {k : Nat} {r' : Request ε ρ}
    (hr' : s'.requests[k]? = some r') (hk : k < s.requests.length) :
    ∃ r, s.requests[k]? = some r ∧ r'.target = r.target ∧ r'.answer = r.answer ∧
      (r'.isHolding = true → r.isHolding = true) := by
  obtain ⟨r'', hr'', hasked, hcomputing⟩ := hlater k _ (getElem?_eq_getElem hk)
  cases hr'.symm.trans hr''
  exact ⟨_, getElem?_eq_getElem hk, congrArg Prod.fst hasked, congrArg Prod.snd hasked,
    hcomputing⟩

/-- What is left to show of an act: its new request and its new entry are traced. -/
theorem Traced.extend (h : Traced keeps P T since acts s) (hlater : Later s s')
    (act : Act ε ρ)
    (hstored : ∀ e ∈ s'.cache.entries, (∃ e' ∈ s.cache.entries, e'.record = e.record) ∨
      keeps e.report = true ∧ ∃ i, (T e.target → P i) ∧
        Gives (acts ++ [act]) s' i e.target (.ok e.report) ∧
        .finish i e.createdAt ∈ acts ++ [act])
    (hlength : s.requests.length ≤ s'.requests.length)
    (hnew : ∀ k r, s'.requests[k]? = some r → s.requests.length ≤ k → T r.target → P k ∧
      (∀ x, r.answer = .served x → ∃ i t, P i ∧ same t r.target = true ∧ Gives acts s i t (.ok x)) ∧
      (∀ f, r.answer = .joined f → ∃ i owner, P i ∧ s.requests[i]? = some owner ∧
        owner.answer = .owned f ∧ same owner.target r.target = true)) :
    Traced keeps P T since (acts ++ [act]) s' where
  started := Nat.le_trans h.started hlength
  computing := by
    intro k r' hr' hcomputing hT
    rcases Nat.lt_or_ge k s.requests.length with hk | hk
    · obtain ⟨r, hr, htarget, -, hback⟩ := hlater.exists_before hr' hk
      exact h.computing k r hr (hback hcomputing) (htarget ▸ hT)
    · exact (hnew k r' hr' hk hT).1
  stored := by
    intro e he hT
    rcases hstored e he with ⟨e', he', hrecord⟩ | ⟨hkeeps, i, hP, hgives, hfinish⟩
    · obtain ⟨target, report, createdAt, lastAccess⟩ := e
      cases hrecord
      obtain ⟨hkeeps, i, hP, hgives, hfinish⟩ := h.stored e' he' hT
      exact ⟨hkeeps, i, hP, hgives.mono hlater, mem_append_left _ hfinish⟩
    · exact ⟨hkeeps, i, hP hT, hgives, hfinish⟩
  served := by
    intro k r' x hsince hr' hT hanswer
    have hfound : ∃ i t, P i ∧ same t r'.target = true ∧ Gives acts s i t (.ok x) := by
      rcases Nat.lt_or_ge k s.requests.length with hk | hk
      · obtain ⟨r, hr, htarget, hanswer', -⟩ := hlater.exists_before hr' hk
        rw [htarget] at hT ⊢
        exact h.served k r x hsince hr hT (hanswer'.symm.trans hanswer)
      · exact (hnew k r' hr' hk hT).2.1 x hanswer
    obtain ⟨i, t, hP, hsame, hgives⟩ := hfound
    exact ⟨i, t, hP, hsame, hgives.mono hlater⟩
  joined := by
    intro k r' f hsince hr' hT hanswer
    have hfound : ∃ i owner, P i ∧ s.requests[i]? = some owner ∧ owner.answer = .owned f ∧
        same owner.target r'.target = true := by
      rcases Nat.lt_or_ge k s.requests.length with hk | hk
      · obtain ⟨r, hr, htarget, hanswer', -⟩ := hlater.exists_before hr' hk
        rw [htarget] at hT ⊢
        exact h.joined k r f hsince hr hT (hanswer'.symm.trans hanswer)
      · exact (hnew k r' hr' hk hT).2.2 f hanswer
    obtain ⟨i, owner, hP, howner, howned, hsame⟩ := hfound
    obtain ⟨owner', howner', hasked, -⟩ := hlater i owner howner
    have htarget : owner'.target = owner.target := congrArg Prod.fst hasked
    exact ⟨i, owner', hP, howner', (congrArg Prod.snd hasked).trans howned, htarget ▸ hsame⟩

/-- A request that looks a target up is served what is stored for it or joins what is computed for
it. -/
theorem Traced.look (h : Traced keeps P T since acts s) (hc : Consistent acts s)
    (hP : ∀ i, since ≤ i → P i) (hT : ∀ a b, same a b = true → (T a ↔ T b)) (t : Target)
    (now lifetime : Quantity) (fault : Option ε)
    (hlater : Later s (s.looked t now lifetime fault)) :
    Traced keeps P T since (acts ++ [.look t now lifetime fault])
      (s.looked t now lifetime fault) := by
  refine h.extend hlater _ (fun e he => .inl (Cache.exists_record_of_mem_lookup he))
    (by simp [looked]) ?_
  intro k r hr hk hTr
  obtain rfl : k = s.requests.length := by
    have hlt := (List.getElem?_eq_some_iff.mp hr).1
    simp only [looked, length_append, length_singleton] at hlt
    omega
  rw [looked, getElem?_concat_length] at hr
  cases hr
  refine ⟨hP _ h.started, ?_, ?_⟩
  · intro x hanswer
    obtain ⟨⟨e, he, hsame, hreport, -⟩, -⟩ := Cache.lookup_served (Prod.ext hanswer rfl)
    obtain ⟨-, i, hPi, hgives, -⟩ := h.stored e he ((hT _ _ hsame).mpr hTr)
    exact ⟨i, e.target, hPi, hsame, hreport ▸ hgives⟩
  · intro f hanswer
    obtain ⟨entries, ⟨x, heq⟩ | ⟨-, heq⟩ | ⟨k, g, hmem, hsame, heq⟩ | ⟨-, heq⟩⟩ :=
      s.cache.lookup_cases t now lifetime fault.isNone <;>
      simp only [heq, reduceCtorEq, Lookup.joined.injEq] at hanswer
    subst hanswer
    rw [hc.flights] at hmem
    obtain ⟨owner, howner, hcomputing⟩ := mem_filterMap.mp hmem
    obtain ⟨hanswer, htarget⟩ := held?_eq_some hcomputing
    obtain ⟨i, hi⟩ := mem_iff_getElem?.mp howner
    have hsame' : same owner.target t = true := by rw [htarget]; exact hsame
    refine ⟨i, owner, h.computing i owner hi ?_ ((hT _ _ hsame').mpr hTr), hi, hanswer, hsame'⟩
    rw [Request.isHolding, hcomputing]
    rfl

/-- Every act keeps the tracing, when later requests are admitted. -/
theorem Traced.keep (h : Traced keeps P T since acts s) (hc : Consistent acts s)
    (hP : ∀ i, since ≤ i → P i) (hT : ∀ a b, same a b = true → (T a ↔ T b))
    (hs : step keeps s act = some s') : Traced keeps P T since (acts ++ [act]) s' := by
  have hlater := later_step hs
  have hnone : s'.requests.length = s.requests.length → ∀ {k : Nat} {r : Request ε ρ},
      s'.requests[k]? = some r → ¬s.requests.length ≤ k := by
    intro hlength k r hr hk
    have hlt := (List.getElem?_eq_some_iff.mp hr).1
    omega
  cases takes_of_step hs with
  | look t now lifetime fault => exact h.look hc hP hT t now lifetime fault hlater
  | @finish i t f o now hr =>
    refine h.extend hlater _ ?_ (by simp) fun k r' hr' hk => (hnone (by simp) hr' hk).elim
    intro e he
    rcases Cache.mem_entries_finish he with he | ⟨x, hkept, rfl⟩
    · exact .inl ⟨e, he, rfl⟩
    · -- the new entry holds what the request that finishes has scored
      refine .inr ?_
      cases o with
      | error err => cases hkept
      | ok y =>
        simp only [kept, Option.ite_none_right_eq_some, Option.some.injEq] at hkept
        obtain ⟨hkeeps, rfl⟩ := hkept
        have hgives : Gives acts s i t (.ok y) :=
          ⟨(hc.scored i _).mpr ⟨_, hr, rfl⟩, _, hr, rfl⟩
        exact ⟨hkeeps, i, h.computing i _ hr rfl, hgives.mono hlater, by simp⟩
  | score | publish | wake =>
    exact h.extend hlater _ (fun e he => .inl ⟨e, he, rfl⟩) (Nat.le_of_eq (length_advance _ _ _).symm)
      fun k r' hr' hk => (hnone (length_advance _ _ _) hr' hk).elim
  | evict _ _ hsub =>
    exact h.extend hlater _ (fun e he => .inl ⟨e, hsub.subset he, rfl⟩) (Nat.le_refl _)
      fun k r' hr' hk => (hnone rfl hr' hk).elim

/-- The tracing holds after any further acts. -/
theorem Traced.after
    (hP : ∀ i, since ≤ i → P i) (hT : ∀ a b, same a b = true → (T a ↔ T b))
    (h : Traced keeps P T since acts s) (hs : after keeps acts = some s)
    (rest : List (Act ε ρ)) :
    ∀ s', Service.after keeps (acts ++ rest) = some s' →
      Traced keeps P T since (acts ++ rest) s' ∧ Later s s' := by
  induction rest using List.reverseRecOn with
  | nil =>
    intro s' hs'
    rw [append_nil] at hs' ⊢
    cases hs.symm.trans hs'
    exact ⟨h, later_of_requests rfl⟩
  | append_singleton rest act ih =>
    intro s'' hs''
    rw [← append_assoc] at hs'' ⊢
    obtain ⟨s', hs', hstep⟩ := after_concat.mp hs''
    obtain ⟨htraced, hlater⟩ := ih s' hs'
    exact ⟨htraced.keep (consistent_after _ s' hs') hP hT hstep,
      hlater.trans (later_step hstep)⟩

/-- A request that is done has the outcome of a computation for its target. -/
theorem Traced.of_done (h : Traced keeps P T since acts s) (hc : Consistent acts s)
    (hP : ∀ i, since ≤ i → P i) {k : Nat}
    {r : Request ε ρ} {o : Except ε ρ} (hk : since ≤ k) (hr : s.requests[k]? = some r)
    (hT : T r.target) (hdone : r.stage = .done o) :
    ∃ i t, P i ∧ same t r.target = true ∧ Gives acts s i t o := by
  have hfits := hc.fits r (mem_of_getElem? hr)
  obtain ⟨t, answer, stage⟩ := r
  cases hdone
  cases answer with
  | served x =>
    obtain rfl : o = .ok x := hfits
    exact h.served k _ x hk hr hT rfl
  | joined f =>
    obtain ⟨i, owner, hPi, howner, howned, hsame'⟩ := h.joined k _ f hk hr hT rfl
    have hpublished : s.published f = some o := hfits
    rcases hc.owner_cases keeps howner howned with ⟨o', ho', hscored⟩ | ⟨hnone, -⟩
    · obtain rfl : o' = o := Option.some.inj (ho'.symm.trans hpublished)
      exact ⟨i, owner.target, hPi, hsame', (hc.scored i o').mpr ⟨owner, howner, hscored⟩, owner,
        howner, rfl⟩
    · rw [hnone] at hpublished
      cases hpublished
  | expired => exact hfits.elim
  | owned f =>
    exact ⟨k, t, hP k hk, same_equivalence.refl t, (hc.scored k o).mpr ⟨_, hr, rfl⟩, _, hr, rfl⟩

end Keeping

end Service
end Readiness
