import Mathlib.Algebra.BigOperators.Group.List.Basic
import Mathlib.Algebra.GroupWithZero.Nat
import Readiness.Proofs.Cache.Provenance
import Readiness.Scan

/-!
# What a cache stores and serves

`stores_and_serves`: only reports without failures are stored, for the target that was scored, and
they are served while they are young; with a scorer that is a function every request that can name
its target ends with its score, and a batch has the same results in the order of its targets
whatever the order of the acts.
-/

namespace Readiness

open List Target

/-- Only reports without failures are stored. -/
def Report.isKept (r : Report) : Bool := !r.hasFailures

def Scan.firstOccurrences (ts : List Target) : List Target :=
  (ts.zipIdx.filter fun p => !(ts.take p.2).any p.1.same).map Prod.fst

/-- The results of a batch in the order of its targets, from those in the order of completion: for
equal targets the last one counts. -/
def Scan.gathered (ts : List Target) (completed : List (Target × Report)) :
    Option (List (Target × Report)) :=
  (Scan.distinct ts).mapM fun t =>
    (completed.reverse.find? fun p => p.1.same t).map fun p => (t, p.2)

namespace Scan

/-! ## Targets of a batch -/

theorem mapM_eq_map {α β : Type} {f : α → Option β} {g : α → β} :
    ∀ {l : List α}, (∀ a ∈ l, f a = some (g a)) → l.mapM f = some (l.map g)
  | [], _ => rfl
  | a :: rest, h => by
    rw [mapM_cons, h a mem_cons_self, mapM_eq_map fun b hb => h b (mem_cons_of_mem a hb)]
    rfl

theorem distinct_concat (ts : List Target) (t : Target) :
    distinct (ts ++ [t]) =
      if (distinct ts).any t.same then distinct ts else distinct ts ++ [t] := by
  simp [distinct]

theorem firstOccurrences_concat (ts : List Target) (t : Target) :
    firstOccurrences (ts ++ [t]) =
      if ts.any t.same then firstOccurrences ts else firstOccurrences ts ++ [t] := by
  have hinit : (ts.zipIdx.filter fun p => !((ts ++ [t]).take p.2).any p.1.same) =
      ts.zipIdx.filter fun p => !(ts.take p.2).any p.1.same := by
    apply filter_congr
    intro p hp
    have hlt : p.2 < ts.length := by
      have := snd_lt_add_of_mem_zipIdx hp
      omega
    rw [take_append_of_le_length (Nat.le_of_lt hlt)]
  simp only [firstOccurrences, zipIdx_append, filter_append, hinit, map_append]
  by_cases h : ts.any t.same = true <;> simp [h]

theorem any_same_distinct (ts : List Target) (t : Target) :
    (distinct ts).any t.same = ts.any t.same := by
  induction ts using List.reverseRecOn with
  | nil => rfl
  | append_singleton ts u ih =>
    rw [distinct_concat]
    split
    · next hu =>
        -- what is the same as the target left out is the same as the one found before
        rw [ih, any_append]
        by_cases htu : t.same u = true
        · obtain ⟨v, hv, huv⟩ := any_eq_true.mp hu
          have htv : ts.any t.same = true := by
            rw [← ih]
            exact any_eq_true.mpr ⟨v, hv, same_equivalence.trans htu huv⟩
          simp [htv]
        · simp [htu]
    · rw [any_append, ih, any_append]

theorem distinct_eq_firstOccurrences (ts : List Target) : distinct ts = firstOccurrences ts := by
  induction ts using List.reverseRecOn with
  | nil => rfl
  | append_singleton ts t ih =>
    rw [distinct_concat, firstOccurrences_concat, any_same_distinct, ih]

theorem mem_of_mem_distinct {ts : List Target} {t : Target} (h : t ∈ distinct ts) : t ∈ ts := by
  rw [distinct_eq_firstOccurrences] at h
  obtain ⟨p, hp, rfl⟩ := mem_map.mp h
  exact fst_mem_of_mem_zipIdx (mem_of_mem_filter hp)

/-- Results that a function of the target gives are gathered in the order of the targets, whatever
the order of completion. -/
theorem gathered_eq {reports : Target → Report} {ts : List Target}
    {completed : List (Target × Report)}
    (hreports : ∀ a ∈ ts, ∀ b ∈ ts, a.same b = true → reports a = reports b)
    (hperm : (completed.map Prod.fst).Perm (distinct ts))
    (hvalues : ∀ p ∈ completed, p.2 = reports p.1) :
    gathered ts completed = some ((firstOccurrences ts).map fun t => (t, reports t)) := by
  rw [gathered, ← distinct_eq_firstOccurrences]
  have hkey : ∀ p ∈ completed, p.1 ∈ ts := fun p hp =>
    mem_of_mem_distinct (hperm.subset (mem_map_of_mem hp))
  apply mapM_eq_map
  intro t ht
  obtain ⟨p, hp, rfl⟩ := mem_map.mp (hperm.symm.subset ht)
  cases hfind : completed.reverse.find? fun q => q.1.same p.1 with
  | none =>
    have hnone := find?_eq_none.mp hfind p (mem_reverse.mpr hp)
    exact (hnone (same_equivalence.refl p.1)).elim
  | some q =>
    have hsame : q.1.same p.1 = true := by simpa using find?_some hfind
    have hq := mem_reverse.mp (mem_of_find?_eq_some hfind)
    rw [Option.map_some, hvalues q hq, hreports _ (hkey q hq) _ (hkey p hp) hsame]

end Scan

/-! ## Scoring one target after the other -/

section Alone

variable {ε ρ σ : Type} {f : Target → Except ε ρ}

def Cache.Faithful (f : Target → Except ε ρ) (c : Cache Target ρ) : Prop :=
  ∀ e ∈ c.entries, f e.target = .ok e.report

variable {c : Cache Target ρ}

theorem Cache.Faithful.lookup (h : c.Faithful f) (t : Target) (now lifetime : Quantity)
    (isNamed : Bool) :
    (c.lookup same t now lifetime isNamed).2.Faithful f := by
  intro e he
  obtain ⟨e', he', hrecord⟩ := Cache.exists_record_of_mem_lookup he
  obtain ⟨target, report, createdAt, lastAccess⟩ := e
  cases hrecord
  exact h e' he'

theorem Cache.Faithful.lookups (h : c.Faithful f) (t : Target) (now lifetime : Quantity)
    (isNamed : Bool) (l : List Nat) :
    (l.foldl (fun c _ => (c.lookup same t now lifetime isNamed).2) c).Faithful f := by
  induction l generalizing c with
  | nil => exact h
  | cons _ rest ih => exact ih (h.lookup t now lifetime isNamed)

theorem Cache.Faithful.finish (h : c.Faithful f) {t : Target} {now : Quantity} {report : Option ρ}
    (hreport : ∀ x, report = some x → f t = .ok x) : (c.finish same t now report).Faithful f := by
  intro e he
  rcases Cache.mem_entries_finish he with he | ⟨x, hx, rfl⟩
  · exact h e he
  · exact hreport x hx

/-- A request that nobody interrupts gives what the scorer gives, once it has named its target. -/
theorem Cache.Faithful.fetch (keeps : ρ → Bool) (hf : ∀ a b, same a b = true → f a = f b)
    {score : Target → σ → Except ε ρ × σ} (hscore : ∀ t state, (score t state).1 = f t)
    (h : c.Faithful f) (t : Target) (now lifetime : Quantity) (joining : Nat) (state : σ)
    (unnamed : Target → Option ε) :
    (c.fetch same keeps score t now lifetime joining state unnamed).1 = (unnamed t).elim (f t) .error ∧
      (c.fetch same keeps score t now lifetime joining state unnamed).2.1.Faithful f := by
  unfold Cache.fetch
  extract_lets look others
  have hlookup : (look c).2.Faithful f := h.lookup t now lifetime _
  have hothers : (others (look c).2).Faithful f := hlookup.lookups t now lifetime _ _
  split
  · next e c' hnamed heq =>
      rw [hnamed]
      rw [heq] at hothers
      exact ⟨rfl, hothers⟩
  · next x c' hnamed heq =>
      obtain ⟨⟨e, he, hsame, hreport, -⟩, -⟩ := Cache.lookup_served heq
      rw [heq] at hothers
      rw [hnamed]
      exact ⟨by rw [Option.elim_none, ← hf _ _ hsame, h e he, hreport], hothers⟩
  · next answer c' _ hnamed heq =>
      rw [heq] at hothers
      rw [hnamed]
      refine ⟨hscore t state, hothers.finish ?_⟩
      intro x hx
      rw [hscore t state] at hx
      split at hx
      · next y hy =>
          simp only [Option.ite_none_right_eq_some, Option.some.injEq] at hx
          rw [hy, hx.2]
      · cases hx

end Alone

theorem Scan.scoreAll_eq {ε σ : Type} {f : Target → Except ε Report}
    (hf : ∀ a b : Target, a.same b = true → f a = f b)
    {score : Target → σ → Except ε Report × σ} (hscore : ∀ t state, (score t state).1 = f t)
    (now lifetime : Quantity) (ts : List Target) (unnamed : Target → Option ε) :
    ∀ (c : Cache Target Report) (state : σ), c.Faithful f →
      (scoreAll score now lifetime c state ts unnamed).1 =
        ts.map fun t => (t, (unnamed t).elim (f t) .error) := by
  induction ts with
  | nil => exact fun c state _ => rfl
  | cons t ts ih =>
    intro c state hc
    obtain ⟨hresult, hcache⟩ := hc.fetch (fun r => !r.hasFailures) hf hscore t now lifetime 0
      state unnamed
    simp only [scoreAll, map_cons]
    rw [hresult, ih _ _ hcache]

namespace Service

variable {ε ρ : Type} {keeps : ρ → Bool}

/-! ## Requests come to an end -/

/-- The number of acts that all requests have still to take. -/
def outstanding (s : Service ε ρ) : Nat := (s.requests.map fun r => r.stage.remaining).sum

theorem outstanding_advance {s s' : Service ε ρ} {i : Nat} {r : Request ε ρ}
    {stage : Stage ε ρ} (hr : s.requests[i]? = some r)
    (hstage : stage.remaining + 1 = r.stage.remaining)
    (hs' : s'.requests = (s.advance i stage).requests) : 1 + s'.outstanding = s.outstanding := by
  obtain ⟨before, behind, heq, heq'⟩ := advance_split hr stage
  simp only [outstanding, hs', heq, heq', map_append, map_cons, sum_append, sum_cons]
  omega

theorem outstanding_step {s s' : Service ε ρ} {act : Act ε ρ} (hact : act.isAdvance = true)
    (h : step keeps s act = some s') : 1 + s'.outstanding = s.outstanding := by
  cases takes_of_step h with
  | look => cases hact
  | score hr | finish hr | publish hr | wake hr => exact outstanding_advance hr rfl rfl
  | evict _ hnot => cases hact.symm.trans hnot

/-- Each act of a request leaves one act less to take. -/
theorem outstanding_after {acts : List (Act ε ρ)} {s : Service ε ρ}
    (hs : after keeps acts = some s) (rest : List (Act ε ρ)) :
    ∀ s', (∀ a ∈ rest, a.isAdvance = true) → after keeps (acts ++ rest) = some s' →
      rest.length + s'.outstanding = s.outstanding := by
  induction rest using List.reverseRecOn with
  | nil =>
    intro s' _ hs'
    rw [append_nil] at hs'
    cases hs.symm.trans hs'
    simp
  | append_singleton rest act ih =>
    intro s'' hrest hs''
    rw [← append_assoc] at hs''
    obtain ⟨s', hs', hstep⟩ := after_concat.mp hs''
    have hbefore := ih s' (fun a ha => hrest a (mem_append_left _ ha)) hs'
    have hlast := outstanding_step (hrest act (by simp)) hstep
    simp only [length_append, length_singleton]
    omega

def Scores (f : Target → Except ε ρ) (acts : List (Act ε ρ)) (s : Service ε ρ) : Prop :=
  ∀ i o r, .score i o ∈ acts → s.requests[i]? = some r → o = f r.target

/-- A request has joined a computation that was abandoned. -/
def Stuck (s : Service ε ρ) (r : Request ε ρ) : Prop :=
  ∃ f, r.answer = .joined f ∧
    ∃ owner ∈ s.requests, owner.answer = .owned f ∧ owner.isAbandoned = true

section Function

variable {f : Target → Except ε ρ} {acts : List (Act ε ρ)} {s s' : Service ε ρ}

theorem Scores.extend (h : Scores f acts s) (hc : Consistent acts s) (hlater : Later s s')
    {act : Act ε ρ}
    (hact : ∀ i o, act = .score i o → ∃ r, s.requests[i]? = some r ∧ o = f r.target) :
    Scores f (acts ++ [act]) s' := by
  intro i o r' hmem hr'
  have hfound : ∃ r, s.requests[i]? = some r ∧ o = f r.target := by
    rcases mem_append.mp hmem with hmem | hmem
    · obtain ⟨r, hr, -⟩ := (hc.scored i o).mp hmem
      exact ⟨r, hr, h i o r hmem hr⟩
    · exact hact i o (mem_singleton.mp hmem).symm
  obtain ⟨r, hr, ho⟩ := hfound
  obtain ⟨r'', hr'', hasked, -⟩ := hlater i r hr
  cases hr'.symm.trans hr''
  have htarget : r'.target = r.target := congrArg Prod.fst hasked
  rw [ho, htarget]

/-- A request that has not ended can go on, or the owner of the computation that it awaits can,
unless that is abandoned; what is scored next is what the function gives. -/
theorem Consistent.goes_on (keeps : ρ → Bool) (h : Consistent acts s) {i : Nat}
    {r : Request ε ρ} (hr : s.requests[i]? = some r) (hnot : r.stage.outcome? = none)
    (hfree : ¬s.Stuck r) :
    ∃ a : Act ε ρ, a.isAdvance = true ∧ (step keeps s a).isSome ∧
      ∀ j o, a = .score j o → ∃ r, s.requests[j]? = some r ∧ o = f r.target := by
  have hmem := mem_of_getElem? hr
  have hfits := h.fits r hmem
  obtain ⟨t, answer, stage⟩ := r
  -- an owner that is not done takes the act that its stage asks for
  have howner : ∀ {j : Nat} {owner : Request ε ρ} {g : Nat}, s.requests[j]? = some owner →
      owner.answer = .owned g → owner.isAbandoned = false → s.published g = none →
      ∃ a : Act ε ρ, a.isAdvance = true ∧ (step keeps s a).isSome ∧
        ∀ j o, a = .score j o → ∃ r, s.requests[j]? = some r ∧ o = f r.target := by
    intro j owner g hj howned hable hnone
    rcases h.owner_cases keeps hj howned with ⟨o, ho, -⟩ | ⟨-, hgo | hgo | hgo | hgo⟩
    · rw [hnone] at ho
      cases ho
    · cases hgo.symm.trans hable
    · refine ⟨.score j (f owner.target), rfl, hgo _, fun j' o ho => ?_⟩
      cases ho
      exact ⟨owner, hj, rfl⟩
    · exact ⟨.finish j default, rfl, hgo default, fun _ _ ho => (nomatch ho)⟩
    · exact ⟨.publish j, rfl, hgo, fun _ _ ho => (nomatch ho)⟩
  cases answer with
  | served | expired =>
    cases stage with
    | done | failed => cases hnot
    | _ => exact hfits.elim
  | joined g =>
    cases stage with
    | done | failed => cases hnot
    | waiting =>
      obtain ⟨owner, hmem', howned, -⟩ := h.joined _ hmem g rfl
      obtain ⟨j, hj⟩ := mem_iff_getElem?.mp hmem'
      cases hpublished : s.published g with
      | none =>
        have hable : owner.isAbandoned = false :=
          eq_false_of_ne_true fun habandoned => hfree ⟨g, rfl, owner, hmem', howned, habandoned⟩
        exact howner hj howned hable hpublished
      | some o =>
        exact ⟨.wake i, rfl, by simp [step, hr, hpublished], fun _ _ ho => (nomatch ho)⟩
    | _ => exact hfits.elim
  | owned g =>
    cases stage with
    | done | failed => cases hnot
    | waiting => exact hfits.elim
    | _ => exact howner hr rfl rfl hfits

end Function

/-! ## Reports -/

section Reports

variable {acts : List (Act ε Report)} {s : Service ε Report}

/-- What is stored is the report without failures of a request that scored this very target, and its
age counts from when the request finished; a report is served while its entry is younger than the
lifetime asked for; looking up changes no time of creation; and a computation that fails or gives a
report with failures adds no entry. -/
structure Honest (acts : List (Act ε Report)) (s : Service ε Report) : Prop where
  stored : ∀ e ∈ s.cache.entries, e.report.hasFailures = false ∧
    ∃ i, Gives acts s i e.target (.ok e.report) ∧ .finish i e.createdAt ∈ acts
  served : ∀ t now lifetime fault r x s',
    step Report.isKept s (.look t now lifetime fault) = some s' →
    s'.requests = s.requests ++ [r] → r.answer = .served x →
    (∃ e ∈ s.cache.entries, e.target.same t = true ∧ e.report = x ∧
      (e.age now).below lifetime = true) ∧
    s'.cache.entries.map CacheEntry.record = s.cache.entries.map CacheEntry.record
  looked : ∀ t now lifetime fault s',
    step Report.isKept s (.look t now lifetime fault) = some s' →
    (s'.cache.entries.map CacheEntry.record).Sublist (s.cache.entries.map CacheEntry.record)
  failed : ∀ i now t f o s', s.requests[i]? = some ⟨t, .owned f, .scored o⟩ →
    (∀ x, o = .ok x → x.hasFailures = true) →
    step Report.isKept s (.finish i now) = some s' → s'.cache.entries = s.cache.entries

/-- With a scorer that is a function, requests that are done have the score of their target, and the
others that have ended failed with the error that naming their target raised; no more acts of
requests follow than are outstanding, and when no request can go on all have ended, but for those
that have joined a computation which its owner could not name; if the scorer gives a report for
every target, a batch gathers these reports in the order in which its targets first occur, whatever
the order of completion, and scoring the targets one after the other gives the same. -/
structure Settles (f : Target → Except ε Report) (acts : List (Act ε Report))
    (s : Service ε Report) : Prop where
  done : ∀ r ∈ s.requests, ∀ o, r.stage = .done o → o = f r.target
  failed : s.requests.map Request.named = acts.filterMap Act.looked?
  ends : ∀ rest s', (∀ a ∈ rest, a.isAdvance = true) →
    after Report.isKept (acts ++ rest) = some s' →
    rest.length + s'.outstanding = s.outstanding ∧
      ((∀ r ∈ s'.requests, r.stage.outcome?.isSome = true ∨ s'.Stuck r) ∨
        ∃ a s'', a.isAdvance = true ∧ step Report.isKept s' a = some s'' ∧
          (Scores f (acts ++ rest) s' → Scores f (acts ++ rest ++ [a]) s''))
  batch : ∀ (reports : Target → Report) (targets : List Target)
      (completed : List (Target × Report)),
    (∀ t ∈ targets, f t = .ok (reports t)) →
    (completed.map Prod.fst).Perm (Scan.distinct targets) →
    (∀ p ∈ completed, ∃ r ∈ s.requests, r.target = p.1 ∧ r.stage = .done (.ok p.2)) →
    Scan.gathered targets completed =
      some ((Scan.firstOccurrences targets).map fun t => (t, reports t))
  alone : ∀ {σ : Type} (score : Target → σ → Except ε Report × σ) (state : σ),
    (∀ t state, (score t state).1 = f t) → ∀ now lifetime targets unnamed,
      (Scan.scoreAll score now lifetime s.cache state (Scan.distinct targets) unnamed).1 =
        (Scan.firstOccurrences targets).map fun t => (t, (unnamed t).elim (f t) .error)

theorem honest_of_traced
    (h : Traced Report.isKept (fun _ => True) (fun _ => True) 0 acts s) :
    Honest acts s where
  stored := by
    intro e he
    obtain ⟨hkept, i, -, hgives, hfinish⟩ := h.stored e he trivial
    exact ⟨by simpa [Report.isKept] using hkept, i, hgives, hfinish⟩
  served := by
    intro t now lifetime fault r x s' hs' hrequests hanswer
    cases hs'
    cases append_cancel_left hrequests
    exact Cache.lookup_served (Prod.ext hanswer rfl)
  looked := by
    intro t now lifetime fault s' hs'
    cases hs'
    exact Cache.record_lookup ..
  failed := by
    intro i now t f o s' hr ho hs'
    simp only [step, hr, Option.some.injEq] at hs'
    have hnone : kept Report.isKept o = none := by
      cases o with
      | error e => rfl
      | ok x => simp [kept, Report.isKept, ho x rfl]
    subst hs'
    rw [hnone]
    rfl

theorem settles_of_traced {f : Target → Except ε Report}
    (hf : ∀ a b : Target, a.same b = true → f a = f b)
    (hs : after Report.isKept acts = some s)
    (h : Traced Report.isKept (fun _ => True) (fun _ => True) 0 acts s)
    (hscores : Scores f acts s) : Settles f acts s := by
  have hc := consistent_after acts s hs
  have hdone : ∀ r ∈ s.requests, ∀ o, r.stage = .done o → o = f r.target := by
    intro r hmem o ho
    obtain ⟨k, hr⟩ := mem_iff_getElem?.mp hmem
    obtain ⟨i, t, -, hsame, hscore, r', hr', rfl⟩ := h.of_done hc
      (fun _ _ => trivial) (Nat.zero_le k) hr trivial ho
    rw [hscores i o r' hscore hr', hf _ _ hsame]
  refine ⟨hdone, hc.looked, ?_, ?_, ?_⟩
  · intro rest s' hrest hs'
    refine ⟨outstanding_after hs rest s' hrest hs', ?_⟩
    have hc' := consistent_after _ s' hs'
    by_cases hall : ∀ r ∈ s'.requests, r.stage.outcome?.isSome = true ∨ s'.Stuck r
    · exact .inl hall
    · push Not at hall
      obtain ⟨r, hmem, hnot, hfree⟩ := hall
      obtain ⟨i, hr⟩ := mem_iff_getElem?.mp hmem
      obtain ⟨a, ha, hstep, hscore⟩ :=
        hc'.goes_on (f := f) Report.isKept hr (Option.not_isSome_iff_eq_none.mp hnot) hfree
      obtain ⟨s'', hs''⟩ := Option.isSome_iff_exists.mp hstep
      exact .inr ⟨a, s'', ha, hs'', fun h' => h'.extend hc' (later_step hs'') hscore⟩
  · intro reports targets completed hreports hperm hcompleted
    refine Scan.gathered_eq ?_ hperm ?_
    · intro a ha b hb hab
      have heq := hf a b hab
      rw [hreports a ha, hreports b hb] at heq
      exact Except.ok.inj heq
    · intro p hp
      obtain ⟨r, hmem, htarget, hstage⟩ := hcompleted p hp
      have hkey := Scan.mem_of_mem_distinct (hperm.subset (mem_map_of_mem hp))
      have heq := hdone r hmem _ hstage
      rw [htarget, hreports _ hkey] at heq
      exact Except.ok.inj heq
  · intro σ score state hscore now lifetime targets unnamed
    rw [Scan.scoreAll_eq hf hscore, Scan.distinct_eq_firstOccurrences]
    intro e he
    obtain ⟨-, i, -, ⟨hgiven, r, hr, htarget⟩, -⟩ := h.stored e he trivial
    rw [← htarget, ← hscores i _ r hgiven hr]

/-- After any acts a service of reports is honest, and with a scorer that is a function of the
target it settles every request that can name its target with its score. -/
theorem stores_and_serves (acts : List (Act ε Report)) (s : Service ε Report)
    (hs : after Report.isKept acts = some s) :
    Honest acts s ∧
      ∀ f : Target → Except ε Report, (∀ a b : Target, a.same b = true → f a = f b) →
        Scores f acts s → Settles f acts s := by
  have htraced : Traced Report.isKept (fun _ => True) (fun _ => True) 0 acts s :=
    ((traced_empty (fun _ => True) fun _ => True).after
      (fun _ _ => trivial) (fun _ _ _ => Iff.rfl) rfl acts s hs).1
  exact ⟨honest_of_traced htraced, fun f hf => settles_of_traced hf hs htraced⟩

/-- A good report for one target, and a report with a failure for all others. -/
def verdict (t : Target) : Report :=
  if t.same ⟨.function 7, [.bars [.cls .int, .none]]⟩ then
    { target := "f", score := { value := 90 }, isReady := true, timestamp := "t" }
  else
    { target := "g", score := { value := 10 }, isReady := false, timestamp := "t"
      failures := [⟨"escapes", "fault", false⟩] }

theorem verdict_eq_of_same {a b : Target} (h : a.same b = true) : verdict a = verdict b := by
  have hiff : a.same ⟨.function 7, [.bars [.cls .int, .none]]⟩ =
      b.same ⟨.function 7, [.bars [.cls .int, .none]]⟩ := by
    rw [Bool.eq_iff_iff]
    exact ⟨same_equivalence.trans (same_equivalence.symm h),
      same_equivalence.trans h⟩
  rw [verdict, verdict, hiff]

/-- Two targets are scored at the same time, the report without failures is served, and then it has
expired. -/
def mixedFortunes : List (Act String Report) :=
  let here : Target := ⟨.function 7, [.bars [.cls .int, .none]]⟩
  let sameHere : Target := ⟨.function 7, [.bars [.none, .cls .int]]⟩
  let there : Target := ⟨.function 8, []⟩
  [.look here (.whole 0) (.whole 5), .look there (.whole 0) (.whole 5),
    .score 1 (.ok (verdict there)), .finish 1 (.whole 1), .publish 1,
    .look sameHere (.whole 1) (.whole 5),
    .score 0 (.ok (verdict here)), .finish 0 (.whole 2), .publish 0, .wake 2,
    .look sameHere (.whole 6) (.whole 5), .look here (.whole 7) (.whole 5)]

theorem mixedFortunes_settles :
    ∃ s, after Report.isKept mixedFortunes = some s ∧ s.cache.hits = 2 ∧
      s.cache.entries.length = 0 ∧ Honest mixedFortunes s ∧
      Settles (fun t => .ok (verdict t)) mixedFortunes s := by
  have hview : (after Report.isKept mixedFortunes).map
      (fun s => (s.cache.hits, s.cache.entries.length, s.requests.map Request.target)) =
      some (2, 0, [⟨.function 7, [.bars [.cls .int, .none]]⟩, ⟨.function 8, []⟩,
        ⟨.function 7, [.bars [.none, .cls .int]]⟩, ⟨.function 7, [.bars [.none, .cls .int]]⟩,
        ⟨.function 7, [.bars [.cls .int, .none]]⟩]) := rfl
  obtain ⟨s, hs, hview⟩ := Option.map_eq_some_iff.mp hview
  simp only [Prod.mk.injEq] at hview
  obtain ⟨hhits, hentries, htargets⟩ := hview
  obtain ⟨hhonest, hsettles⟩ := stores_and_serves mixedFortunes s hs
  refine ⟨s, hs, hhits, hentries, hhonest, hsettles _ (fun a b h => ?_) ?_⟩
  · exact congrArg Except.ok (verdict_eq_of_same h)
  · intro i o r hmem hr
    have htarget := congrArg (fun l => l[i]?) htargets
    simp only [List.getElem?_map, hr, Option.map_some] at htarget
    simp only [mixedFortunes, List.mem_cons, reduceCtorEq, Act.score.injEq, List.not_mem_nil,
      or_false, false_or] at hmem
    rcases hmem with ⟨rfl, rfl⟩ | ⟨rfl, rfl⟩ <;> simp_all

end Reports

end Service
end Readiness
