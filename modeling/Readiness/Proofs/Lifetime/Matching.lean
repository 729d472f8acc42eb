import Mathlib.Data.List.Permutation
import Readiness.Proofs.Distinct

/-!
# The chosen pairs are a largest matching

Every search ends within the depth it is given (`searches_augment`).  A search that
succeeds places one more release and keeps those already placed (`Searches.placed`).  In the end
every pair has its allocation in the blocked set or its release placed outside of it, so no matching
is larger (`length_le_of_isMatching`), and the map is a largest one (`partners_isMaximum`).
-/

namespace Readiness

open List Table

namespace Table

variable {κ α : Type} [DecidableEq κ]

theorem get?_set (t : Table κ α) (key other : κ) (value : α) :
    (t.set key value).get? other = if other = key then some value else t.get? other := by
  split
  · rename_i h
    exact h ▸ get?_set_self t key value
  · rename_i h
    exact get?_set_of_ne t h value

variable {t : Table κ α} {key : κ}

theorem get?_of_mem {value : α} (hmem : (key, value) ∈ t.entries) : t.get? key = some value := by
  obtain ⟨entries, h⟩ := t
  simp only [get?] at hmem ⊢
  induction entries with
  | nil => cases hmem
  | cons e rest ih =>
    rw [map_cons, nodup_cons] at h
    rcases mem_cons.mp hmem with rfl | hmem
    · simp [lookup]
    · have hne : e.1 ≠ key := fun heq => h.1 (heq ▸ mem_map_of_mem hmem)
      simp only [lookup, hne, if_false]
      exact ih h.2 hmem

theorem get?_eq_some_iff {value : α} : t.get? key = some value ↔ (key, value) ∈ t.entries :=
  ⟨mem_entries_of_get?, get?_of_mem⟩

/-- A new key goes to the end. -/
theorem entries_set_of_notMem (h : key ∉ t.keys) (value : α) :
    (t.set key value).entries = t.entries ++ [(key, value)] := by
  simp only [keys, set] at h ⊢
  generalize t.entries = entries at h
  induction entries with
  | nil => rfl
  | cons e rest ih =>
    rw [map_cons, mem_cons, not_or] at h
    simp only [assign, Ne.symm h.1, if_false, cons_append, ih h.2]

/-- New keys are listed one after another. -/
theorem entries_foldl_set (l : List (κ × α)) (t : Table κ α)
    (h : (t.keys ++ l.map Prod.fst).Nodup) :
    (l.foldl (fun t e => t.set e.1 e.2) t).entries = t.entries ++ l := by
  induction l generalizing t with
  | nil => exact (append_nil _).symm
  | cons e rest ih =>
    have hnew : e.1 ∉ t.keys := fun hmem => (nodup_append.mp h).2.2 e.1 hmem e.1 mem_cons_self rfl
    have hset := entries_set_of_notMem hnew e.2
    rw [foldl_cons, ih _ (by simpa [keys, hset] using h), hset, append_assoc]
    rfl

end Table

namespace Lifetime

/-! ### Searches -/

/-- What a search through some options of a release comes to, with no bound on the chain of moves:
whether it has found an allocation, and the choices then. -/
inductive Searches (takes : Int → List Int) : Int → List Int → Choice → Bool → Choice → Prop
  /-- No option is left. -/
  | exhausted {free : Int} {c : Choice} : Searches takes free [] c false c
  /-- An allocation that has been tried is passed over. -/
  | tried {free a : Int} {rest : List Int} {c c' : Choice} {done : Bool} (htried : a ∈ c.tried)
    (hrest : Searches takes free rest c done c') : Searches takes free (a :: rest) c done c'
  /-- An allocation without release is taken. -/
  | vacant {free a : Int} {rest : List Int} {c : Choice} (htried : a ∉ c.tried)
    (howner : c.owner.get? a = none) :
    Searches takes free (a :: rest) c true ⟨a :: c.tried, c.owner.set a free⟩
  /-- The release of an allocation moves to another one. -/
  | moved {free a other : Int} {rest : List Int} {c c' : Choice} (htried : a ∉ c.tried)
    (howner : c.owner.get? a = some other)
    (hmove : Searches takes other (takes other) ⟨a :: c.tried, c.owner⟩ true c') :
    Searches takes free (a :: rest) c true ⟨c'.tried, c'.owner.set a free⟩
  /-- The release of an allocation cannot move, and the search goes on. -/
  | stuck {free a other : Int} {rest : List Int} {c c' c'' : Choice} {done : Bool}
    (htried : a ∉ c.tried) (howner : c.owner.get? a = some other)
    (hmove : Searches takes other (takes other) ⟨a :: c.tried, c.owner⟩ false c')
    (hrest : Searches takes free rest c' done c'') :
    Searches takes free (a :: rest) c done c''

variable {takes : Int → List Int} {free : Int} {rest : List Int} {c c' : Choice} {done : Bool}

theorem Searches.tried_subset (h : Searches takes free rest c done c') :
    ∀ a ∈ c.tried, a ∈ c'.tried := by
  induction h with
  | exhausted => exact fun a ha => ha
  | tried _ _ ih => exact ih
  | vacant => exact fun a ha => mem_cons_of_mem _ ha
  | moved _ _ _ ih => exact fun a ha => ih a (mem_cons_of_mem _ ha)
  | stuck _ _ _ _ ihMove ihRest =>
    exact fun a ha => ihRest a (ihMove a (mem_cons_of_mem _ ha))

/-! #### Searches end -/

def untried (pool : List Int) (c : Choice) : List Int := pool.filter fun a => a ∉ c.tried

theorem length_untried_le {pool : List Int} (h : ∀ a ∈ c.tried, a ∈ c'.tried) :
    (untried pool c').length ≤ (untried pool c).length := by
  refine (monotone_filter_right pool fun a ha => ?_).length_le
  simp only [decide_eq_true_eq] at ha ⊢
  exact fun hmem => ha (h a hmem)

theorem length_untried_lt {pool : List Int} {a : Int} (hpool : a ∈ pool) (htried : a ∉ c.tried) :
    (untried pool ⟨a :: c.tried, c.owner⟩).length < (untried pool c).length := by
  have hsub : (untried pool ⟨a :: c.tried, c.owner⟩) = (untried pool c).filter fun b => b ≠ a := by
    unfold untried
    simp [not_or]
  rw [hsub, length_filter_lt_length_iff_exists]
  exact ⟨a, mem_filter.mpr ⟨hpool, by simpa using htried⟩, by simp⟩

/-- One option of a release, when the search for the one that is in the way is bounded. -/
def attempt (takes : Int → List Int) (depth : Nat) (free : Int) (found : Bool × Choice) (a : Int) :
    Bool × Choice :=
  if found.1 then (true, found.2)
  else if found.2.tried.contains a then (false, found.2)
  else
    match found.2.owner.get? a with
    | none => (true, ⟨a :: found.2.tried, found.2.owner.set a free⟩)
    | some other =>
      match augment takes depth other ⟨a :: found.2.tried, found.2.owner⟩ with
      | (true, c) => (true, { c with owner := c.owner.set a free })
      | (false, c) => (false, c)

theorem augment_succ (takes : Int → List Int) (depth : Nat) (free : Int) (c : Choice) :
    augment takes (depth + 1) free c = (takes free).foldl (attempt takes depth free) (false, c) :=
  rfl

theorem foldl_attempt_true (depth : Nat) :
    rest.foldl (attempt takes depth free) (true, c) = (true, c) := by
  induction rest with
  | nil => rfl
  | cons a rest ih => exact ih

/-- A search ends when every chain of moves that it can make fits into its depth. -/
theorem searches_augment (pool : List Int) (hpool : ∀ f, ∀ a ∈ takes f, a ∈ pool) (depth : Nat) :
    ∀ (free : Int) (c : Choice), (untried pool c).length < depth →
      Searches takes free (takes free) c (augment takes depth free c).1
        (augment takes depth free c).2 := by
  induction depth with
  | zero => exact fun free c h => absurd h (Nat.not_lt_zero _)
  | succ depth ih =>
    intro free c hroom
    rw [augment_succ]
    have hoptions := hpool free
    generalize takes free = rest at hoptions
    induction rest generalizing c with
    | nil => exact .exhausted
    | cons a rest ihRest =>
      have hpoolRest : ∀ b ∈ rest, b ∈ pool := fun b hb => hoptions b (mem_cons_of_mem _ hb)
      rw [foldl_cons]
      by_cases htried : a ∈ c.tried
      · have hstep : attempt takes depth free (false, c) a = (false, c) := by
          simp [attempt, htried]
        rw [hstep]
        exact .tried htried (ihRest c hroom hpoolRest)
      · have hless := length_untried_lt (hoptions a mem_cons_self) htried
        cases howner : c.owner.get? a with
        | none =>
          have hstep : attempt takes depth free (false, c) a =
              (true, ⟨a :: c.tried, c.owner.set a free⟩) := by
            simp [attempt, htried, howner]
          rw [hstep, foldl_attempt_true]
          exact .vacant htried howner
        | some other =>
          have hmove := ih other ⟨a :: c.tried, c.owner⟩ (by omega)
          generalize hfound : augment takes depth other ⟨a :: c.tried, c.owner⟩ = found at hmove
          obtain ⟨done, c'⟩ := found
          cases done with
          | true =>
            have hstep : attempt takes depth free (false, c) a =
                (true, ⟨c'.tried, c'.owner.set a free⟩) := by
              simp [attempt, htried, howner, hfound]
            rw [hstep, foldl_attempt_true]
            exact .moved htried howner hmove
          | false =>
            have hstep : attempt takes depth free (false, c) a = (false, c') := by
              simp [attempt, htried, howner, hfound]
            have hle : (untried pool c').length ≤
                (untried pool ⟨a :: c.tried, c.owner⟩).length :=
              length_untried_le hmove.tried_subset
            have hroom' : (untried pool c').length < depth + 1 :=
              Nat.lt_trans (Nat.lt_of_le_of_lt hle hless) hroom
            rw [hstep]
            exact .stuck htried howner hmove (ihRest c' hroom' hpoolRest)

/-! #### A search that fails -/

/-- Every allocation of the set is taken, and its release can take no allocation outside the set. -/
def Blocked (takes : Int → List Int) (owner : Table Int Int) (D : Set Int) : Prop :=
  ∀ a ∈ D, ∃ f, owner.get? a = some f ∧ ∀ b ∈ takes f, b ∈ D

variable {owner : Table Int Int} {D : Set Int} {owner owner' : Table Int Int}
  {tried tried' : List Int}

theorem Blocked.union {E : Set Int} (hD : Blocked takes owner D) (hE : Blocked takes owner E) :
    Blocked takes owner (D ∪ E) := by
  rintro a (ha | ha)
  · exact (hD a ha).imp fun f hf => ⟨hf.1, fun b hb => .inl (hf.2 b hb)⟩
  · exact (hE a ha).imp fun f hf => ⟨hf.1, fun b hb => .inr (hf.2 b hb)⟩

/-- What is left of a search that fails: the choices as before, and all that was tried. -/
structure Fails (takes : Int → List Int) (rest : List Int) (c c' : Choice) : Prop where
  owner_eq : c'.owner = c.owner
  tried_of_mem : ∀ a ∈ rest, a ∈ c'.tried
  blocked : ∀ a ∈ c'.tried, a ∉ c.tried →
    ∃ f, c.owner.get? a = some f ∧ ∀ b ∈ takes f, b ∈ c'.tried

theorem Searches.fails (h : Searches takes free rest c false c') : Fails takes rest c c' := by
  generalize hdone : false = done at h
  induction h with
  | exhausted => exact ⟨rfl, fun _ ha => (nomatch ha), fun a ha hnot => absurd ha hnot⟩
  | tried htried hrest ih =>
    obtain ⟨howner, hmem, hblocked⟩ := ih hdone
    refine ⟨howner, fun b hb => ?_, hblocked⟩
    rcases mem_cons.mp hb with rfl | hb
    · exact hrest.tried_subset _ htried
    · exact hmem b hb
  | vacant | moved => cases hdone
  | @stuck _ a other _ c c' c'' _ htried howner hmove hrest ihMove ihRest =>
    obtain ⟨hownerMove, hmemMove, hblockedMove⟩ := ihMove rfl
    obtain ⟨hownerRest, hmemRest, hblockedRest⟩ := ihRest hdone
    have hgrows := hrest.tried_subset
    have htaken := hmove.tried_subset a mem_cons_self
    refine ⟨hownerRest.trans hownerMove, fun b hb => ?_, fun b hb hnot => ?_⟩
    · rcases mem_cons.mp hb with rfl | hb
      · exact hgrows _ htaken
      · exact hmemRest b hb
    · by_cases hnew : b ∈ c'.tried
      · by_cases heq : b = a
        · exact ⟨other, heq ▸ howner, fun x hx => hgrows x (hmemMove x hx)⟩
        · obtain ⟨f, hf, hoptions⟩ := hblockedMove b hnew (by simp [heq, hnot])
          exact ⟨f, hf, fun x hx => hgrows x (hoptions x hx)⟩
      · obtain ⟨f, hf, hoptions⟩ := hblockedRest b hb hnew
        exact ⟨f, hownerMove ▸ hf, hoptions⟩

/-- A search never changes the choices within a blocked set, and it finds nothing there. -/
theorem Searches.keeps_blocked (h : Searches takes free rest c done c')
    (hD : Blocked takes c.owner D) :
    (∀ a ∈ D, c'.owner.get? a = c.owner.get? a) ∧ ((∀ a ∈ rest, a ∈ D) → done = false) := by
  induction h with
  | exhausted => exact ⟨fun _ _ => rfl, fun _ => rfl⟩
  | tried _ _ ih =>
    exact ⟨(ih hD).1, fun hrest => (ih hD).2 fun b hb => hrest b (mem_cons_of_mem _ hb)⟩
  | @vacant free a _ c _ howner =>
    have hout : a ∉ D := by
      intro ha
      obtain ⟨f, hf, -⟩ := hD a ha
      exact nomatch howner.symm.trans hf
    refine ⟨fun b hb => get?_set_of_ne _ ?_ _, fun hrest => ?_⟩
    · rintro rfl
      exact hout hb
    · exact absurd (hrest a mem_cons_self) hout
  | @moved free a other _ c c' _ howner _ ih =>
    have hout : a ∉ D := by
      intro ha
      obtain ⟨f, hf, hoptions⟩ := hD a ha
      cases howner.symm.trans hf
      exact nomatch (ih hD).2 hoptions
    refine ⟨fun b hb => ?_, fun hrest => absurd (hrest a mem_cons_self) hout⟩
    have hne : b ≠ a := fun heq => hout (heq ▸ hb)
    exact (get?_set_of_ne _ hne _).trans ((ih hD).1 b hb)
  | stuck _ _ hmove _ _ ihRest =>
    have howner := hmove.fails.owner_eq
    have hrest := ihRest (howner ▸ hD)
    rw [howner] at hrest
    exact ⟨hrest.1, fun hall => hrest.2 fun b hb => hall b (mem_cons_of_mem _ hb)⟩

theorem Blocked.of_eq (hD : Blocked takes owner D) (heq : ∀ a ∈ D, owner'.get? a = owner.get? a)
    : Blocked takes owner' D := by
  intro a ha
  rw [heq a ha]
  exact hD a ha

/-! #### A search that succeeds -/

/-- Some allocation outside of those tried has a release. -/
def HeldOutside (tried : List Int) (owner : Table Int Int) (f : Int) : Prop :=
  ∃ a, a ∉ tried ∧ owner.get? a = some f

/-- No release has two allocations outside of those tried. -/
def Exclusive (tried : List Int) (owner : Table Int Int) : Prop :=
  ∀ a b f, a ∉ tried → b ∉ tried → owner.get? a = some f → owner.get? b = some f → a = b

variable {tried : List Int}

theorem HeldOutside.mono {f : Int} (h : HeldOutside tried' owner f) (hsub : ∀ a ∈ tried, a ∈ tried')
    : HeldOutside tried owner f :=
  h.imp fun a ha => ⟨fun hmem => ha.1 (hsub a hmem), ha.2⟩

theorem Exclusive.mono (h : Exclusive tried owner) (hsub : ∀ a ∈ tried, a ∈ tried')
    : Exclusive tried' owner :=
  fun a b f ha hb => h a b f (fun hmem => ha (hsub a hmem)) fun hmem => hb (hsub b hmem)

/-- What is found of the choices after a release was placed, as far as allocations outside of those
tried are concerned: it is placed, the others stay placed, and no two allocations share one. -/
structure Placed (free : Int) (tried : List Int) (owner owner' : Table Int Int) : Prop where
  keeps : ∀ a ∈ tried, owner'.get? a = owner.get? a
  held : ∀ f, HeldOutside tried owner' f ↔ f = free ∨ HeldOutside tried owner f
  exclusive : Exclusive tried owner'

/-- Allocations that keep their releases can be counted among those outside. -/
theorem Placed.of_larger (h : Placed free tried' owner owner') (hsub : ∀ a ∈ tried, a ∈ tried')
    (hexclusive : Exclusive tried owner) (hfree : ¬ HeldOutside tried owner free) :
    Placed free tried owner owner' := by
  -- a release found outside the larger list was placed now or stands outside of it before
  have hbefore : ∀ a f, a ∉ tried → a ∈ tried' → owner'.get? a = some f →
      ¬ HeldOutside tried' owner' f := by
    intro a f ha ha' hf hheld
    have hf : owner.get? a = some f := h.keeps a ha' ▸ hf
    rcases (h.held f).mp hheld with rfl | ⟨b, hb, hbf⟩
    · exact hfree ⟨a, ha, hf⟩
    · cases hexclusive a b f ha (fun hmem => hb (hsub b hmem)) hf hbf
      exact hb ha'
  refine ⟨fun a ha => h.keeps a (hsub a ha), fun f => ⟨?_, ?_⟩, fun a b f ha hb hfa hfb => ?_⟩
  · rintro ⟨a, ha, hf⟩
    by_cases ha' : a ∈ tried'
    · exact .inr ⟨a, ha, h.keeps a ha' ▸ hf⟩
    · exact ((h.held f).mp ⟨a, ha', hf⟩).imp_right fun hheld => hheld.mono hsub
  · rintro (rfl | ⟨a, ha, hf⟩)
    · exact ((h.held f).mpr (.inl rfl)).mono hsub
    · by_cases ha' : a ∈ tried'
      · exact ⟨a, ha, (h.keeps a ha').trans hf⟩
      · exact ((h.held f).mpr (.inr ⟨a, ha', hf⟩)).mono hsub
  · by_cases ha' : a ∈ tried' <;> by_cases hb' : b ∈ tried'
    · exact hexclusive a b f ha hb (h.keeps a ha' ▸ hfa) (h.keeps b hb' ▸ hfb)
    · exact absurd ⟨b, hb', hfb⟩ (hbefore a f ha ha' hfa)
    · exact absurd ⟨a, ha', hfa⟩ (hbefore b f hb hb' hfb)
    · exact h.exclusive a b f ha' hb' hfa hfb

/-- A release takes an allocation that nobody outside needs any more. -/
theorem placed_set {a : Int} (ha : a ∉ tried) (hkeeps : ∀ b ∈ tried, owner'.get? b = owner.get? b)
    (hheld : ∀ f, HeldOutside (a :: tried) owner' f ↔ HeldOutside tried owner f)
    (hexclusive : Exclusive (a :: tried) owner') (hfree : ¬ HeldOutside tried owner free) :
    Placed free tried owner (owner'.set a free) := by
  have hother : ∀ b, b ∉ tried → b ≠ a → b ∉ a :: tried := fun b hb hne => by simp [hb, hne]
  refine ⟨fun b hb => ?_, fun f => ⟨?_, ?_⟩, fun b d f hb hd hfb hfd => ?_⟩
  · have hne : b ≠ a := fun heq => ha (heq ▸ hb)
    rw [get?_set_of_ne _ hne, hkeeps b hb]
  · rintro ⟨b, hb, hf⟩
    rw [get?_set] at hf
    split at hf
    · exact .inl (Option.some.inj hf).symm
    · rename_i hne
      exact .inr ((hheld f).mp ⟨b, hother b hb hne, hf⟩)
  · rintro (rfl | hf)
    · exact ⟨a, ha, get?_set_self ..⟩
    · obtain ⟨b, hb, hf⟩ := (hheld f).mpr hf
      rw [mem_cons, not_or] at hb
      exact ⟨b, hb.2, (get?_set_of_ne _ hb.1 _).trans hf⟩
  · have hnot : ∀ b, b ∉ tried → b ≠ a → owner'.get? b ≠ some free := fun b hb hne hf =>
      hfree ((hheld free).mp ⟨b, hother b hb hne, hf⟩)
    rw [get?_set] at hfb hfd
    split at hfb <;> split at hfd
    · rename_i hb hd
      exact hb.trans hd.symm
    · rename_i hne
      cases hfb
      exact absurd hfd (hnot d hd hne)
    · rename_i hne _
      cases hfd
      exact absurd hfb (hnot b hb hne)
    · rename_i hne hne'
      exact hexclusive b d f (hother b hb hne) (hother d hd hne') hfb hfd

/-- A search that succeeds places its release and keeps the others placed. -/
theorem Searches.placed (h : Searches takes free rest c true c')
    (hexclusive : Exclusive c.tried c.owner) (hfree : ¬ HeldOutside c.tried c.owner free) :
    Placed free c.tried c.owner c'.owner := by
  generalize hdone : true = done at h
  induction h with
  | exhausted => cases hdone
  | tried _ _ ih => exact ih hexclusive hfree hdone
  | @vacant free a _ c htried howner =>
    refine placed_set htried (fun _ _ => rfl) (fun f => ⟨?_, ?_⟩)
      (hexclusive.mono fun b hb => mem_cons_of_mem _ hb) hfree
    · exact fun hheld => hheld.mono fun b hb => mem_cons_of_mem _ hb
    · rintro ⟨b, hb, hf⟩
      refine ⟨b, ?_, hf⟩
      rintro (_ | ⟨_, hmem⟩)
      · exact nomatch howner.symm.trans hf
      · exact hb hmem
  | @moved free a other _ c c' htried howner _ ih =>
    have hexclusive' : Exclusive (a :: c.tried) c.owner :=
      hexclusive.mono fun b hb => mem_cons_of_mem _ hb
    have hother : ¬ HeldOutside (a :: c.tried) c.owner other := by
      rintro ⟨b, hb, hf⟩
      rw [mem_cons, not_or] at hb
      exact hb.1 (hexclusive b a other hb.2 htried hf howner)
    have hplaced := ih hexclusive' hother rfl
    refine placed_set htried (fun b hb => hplaced.keeps b (mem_cons_of_mem _ hb))
      (fun f => (hplaced.held f).trans ⟨?_, ?_⟩) hplaced.exclusive hfree
    · rintro (rfl | hheld)
      · exact ⟨a, htried, howner⟩
      · exact hheld.mono fun b hb => mem_cons_of_mem _ hb
    · rintro ⟨b, hb, hf⟩
      by_cases heq : b = a
      · exact .inl (Option.some.inj (hf.symm.trans (heq ▸ howner)))
      · exact .inr ⟨b, by simp [heq, hb], hf⟩
  | stuck _ _ hmove _ _ ihRest =>
    have hsub := fun a ha => hmove.tried_subset a (mem_cons_of_mem _ ha)
    have howner := hmove.fails.owner_eq
    have hplaced := ihRest (howner ▸ hexclusive.mono hsub)
      (howner ▸ fun hheld => hfree (hheld.mono hsub)) hdone
    exact (howner ▸ hplaced).of_larger hsub hexclusive hfree

/-- A search gives a release only allocations that it can take. -/
theorem Searches.linked (h : Searches takes free rest c done c')
    (hrest : ∀ a ∈ rest, a ∈ takes free) (hlinked : ∀ a f, c.owner.get? a = some f → a ∈ takes f) :
    ∀ a f, c'.owner.get? a = some f → a ∈ takes f := by
  have htake : ∀ {owner : Table Int Int} {a free : Int}, a ∈ takes free →
      (∀ b f, owner.get? b = some f → b ∈ takes f) →
      ∀ b f, (owner.set a free).get? b = some f → b ∈ takes f := by
    intro owner a free ha howner b f hf
    rw [get?_set] at hf
    split at hf
    · cases hf
      exact ‹b = a› ▸ ha
    · exact howner b f hf
  induction h with
  | exhausted => exact hlinked
  | tried _ _ ih => exact ih (fun b hb => hrest b (mem_cons_of_mem _ hb)) hlinked
  | vacant => exact htake (hrest _ mem_cons_self) hlinked
  | moved _ _ _ ih => exact htake (hrest _ mem_cons_self) (ih (fun _ hb => hb) hlinked)
  | stuck _ _ _ _ ihMove ihRest =>
    exact ihRest (fun b hb => hrest b (mem_cons_of_mem _ hb)) (ihMove (fun _ hb => hb) hlinked)

/-! ### All releases -/

/-- What holds of the choices once some releases have had their search. -/
structure Settled (takes : Int → List Int) (searched : List Int) (owner : Table Int Int) : Prop where
  exclusive : Exclusive [] owner
  linked : ∀ a f, owner.get? a = some f → a ∈ takes f
  mem_searched : ∀ f, HeldOutside [] owner f → f ∈ searched
  blocked : ∃ D, Blocked takes owner D ∧
    ∀ f ∈ searched, ¬ HeldOutside [] owner f → ∀ a ∈ takes f, a ∈ D

theorem settled_empty (takes : Int → List Int) : Settled takes [] .empty where
  exclusive _ _ _ _ _ h := nomatch h
  linked _ _ h := nomatch h
  mem_searched _ h := nomatch h.choose_spec.2
  blocked := ⟨∅, fun _ h => h.elim, fun _ h => (nomatch h)⟩

theorem Settled.search {searched : List Int} (hs : Settled takes searched owner)
    (hnew : free ∉ searched) (h : Searches takes free (takes free) ⟨[], owner⟩ done c') :
    Settled takes (searched ++ [free]) c'.owner := by
  obtain ⟨D, hD, hdead⟩ := hs.blocked
  have hfree : ¬ HeldOutside [] owner free := fun hheld => hnew (hs.mem_searched free hheld)
  have hlinked := h.linked (fun _ ha => ha) hs.linked
  cases done with
  | true =>
    have hplaced := h.placed hs.exclusive hfree
    refine ⟨hplaced.exclusive, hlinked, fun f hf => ?_, D,
      hD.of_eq (h.keeps_blocked hD).1, fun f hf hnot => ?_⟩
    · rcases (hplaced.held f).mp hf with rfl | hf
      · simp
      · exact mem_append_left _ (hs.mem_searched f hf)
    · rw [hplaced.held, not_or] at hnot
      rcases mem_append.mp hf with hf | hf
      · exact hdead f hf hnot.2
      · exact absurd (mem_singleton.mp hf) hnot.1
  | false =>
    obtain ⟨howner, hmem, hblocked⟩ := h.fails
    have hE : Blocked takes owner {a | a ∈ c'.tried} := fun a ha => hblocked a ha not_mem_nil
    rw [howner] at hlinked ⊢
    refine ⟨hs.exclusive, hlinked, fun f hf => mem_append_left _ (hs.mem_searched f hf),
      D ∪ {a | a ∈ c'.tried}, hD.union hE, fun f hf hnot a ha => ?_⟩
    rcases mem_append.mp hf with hf | hf
    · exact .inl (hdead f hf hnot a ha)
    · cases mem_singleton.mp hf
      exact .inr (hmem a ha)

theorem Settled.foldl {depth : Nat} (frees : List Int)
    (hends : ∀ f c, Searches takes f (takes f) c (augment takes depth f c).1
      (augment takes depth f c).2) :
    ∀ {searched : List Int} {owner : Table Int Int}, Settled takes searched owner →
      (searched ++ frees).Nodup →
      Settled takes (searched ++ frees)
        (frees.foldl (fun owner f => (augment takes depth f ⟨[], owner⟩).2.owner) owner) := by
  induction frees with
  | nil =>
    intro searched owner hs _
    rw [append_nil]
    exact hs
  | cons f rest ih =>
    intro searched owner hs hnodup
    have hnew : f ∉ searched := fun hmem =>
      (nodup_append.mp hnodup).2.2 f hmem f mem_cons_self rfl
    have hstep := ih (hs.search hnew (hends f _)) (by simpa using hnodup)
    simpa using hstep

/-! ### Largest matchings -/

/-- Pairs among the given ones that share no ends. -/
structure IsMatching (pairs m : List (Int × Int)) : Prop where
  subset : ∀ p ∈ m, p ∈ pairs
  nodup_fst : (m.map Prod.fst).Nodup
  nodup_snd : (m.map Prod.snd).Nodup

variable {pairs m : List (Int × Int)} {a f : Int}

theorem mem_options : a ∈ options pairs f ↔ (a, f) ∈ pairs := by
  unfold options
  rw [mem_filterMap]
  constructor
  · rintro ⟨p, hp, heq⟩
    split at heq
    · cases heq
      exact ‹p.2 = f› ▸ hp
    · cases heq
  · exact fun h => ⟨(a, f), h, if_pos rfl⟩

theorem mem_releases : f ∈ releases pairs ↔ ∃ a, (a, f) ∈ pairs := by
  unfold releases
  rw [mem_eraseDups, mem_mergeSort, mem_map]
  constructor
  · rintro ⟨p, hp, rfl⟩
    exact ⟨p.1, mem_orderedPairs.mp hp⟩
  · exact fun ⟨a, ha⟩ => ⟨(a, f), mem_orderedPairs.mpr ha, rfl⟩

/-- The search of every release ends within the depth it is given, whatever was chosen before. -/
theorem searches_options (pairs : List (Int × Int)) (free : Int) (c : Choice) :
    Searches (options pairs) free (options pairs free) c
      (augment (options pairs) (pairs.length + 1) free c).1
      (augment (options pairs) (pairs.length + 1) free c).2 := by
  refine searches_augment (pairs.map Prod.fst)
    (fun f a ha => mem_map.mpr ⟨(a, f), mem_options.mp ha, rfl⟩) _ free c ?_
  have hle : (untried (pairs.map Prod.fst) c).length ≤ (pairs.map Prod.fst).length :=
    length_filter_le ..
  rw [length_map] at hle
  omega

theorem settled_owners (pairs : List (Int × Int)) :
    Settled (options (orderedPairs pairs)) (releases pairs) (owners pairs) :=
  (settled_empty _).foldl (releases pairs) (searches_options (orderedPairs pairs))
    (nodup_eraseDups _)

/-- No matching has more pairs than were chosen: a pair has its allocation in the blocked set, or
its release is placed outside of it. -/
theorem length_le_of_isMatching (hs : Settled (options (orderedPairs pairs)) (releases pairs) owner)
    (hm : IsMatching pairs m) : m.length ≤ owner.keys.length := by
  classical
  obtain ⟨D, hD, hdead⟩ := hs.blocked
  have hoption : ∀ p ∈ m, p.1 ∈ options (orderedPairs pairs) p.2 := fun p hp =>
    mem_options.mpr (mem_orderedPairs.mpr (hm.subset p hp))
  -- the chosen allocation that stands for a pair
  have hstands : ∀ p ∈ m, ∃ a ∈ owner.keys, (p.1 ∈ D → a = p.1) ∧
      (p.1 ∉ D → a ∉ D ∧ owner.get? a = some p.2) := by
    intro p hp
    have hkey : ∀ {a f}, owner.get? a = some f → a ∈ owner.keys := fun h =>
      mem_map_of_mem (mem_entries_of_get? h)
    by_cases hmem : p.1 ∈ D
    · obtain ⟨f, hf, -⟩ := hD p.1 hmem
      exact ⟨p.1, hkey hf, fun _ => rfl, fun hnot => absurd hmem hnot⟩
    · have hheld : HeldOutside [] owner p.2 := by
        by_contra hnot
        exact hmem (hdead p.2 (mem_releases.mpr ⟨p.1, hm.subset p hp⟩) hnot p.1 (hoption p hp))
      obtain ⟨a, -, ha⟩ := hheld
      refine ⟨a, hkey ha, fun h => absurd h hmem, fun _ => ⟨fun haD => ?_, ha⟩⟩
      obtain ⟨f, hf, hoptions⟩ := hD a haD
      cases ha.symm.trans hf
      exact hmem (hoptions p.1 (hoption p hp))
  choose! stand hstand hinside houtside using hstands
  have hinjective : ∀ p ∈ m, ∀ q ∈ m, stand p = stand q → p = q := by
    intro p hp q hq heq
    by_cases hpD : p.1 ∈ D <;> by_cases hqD : q.1 ∈ D
    · rw [hinside p hp hpD, hinside q hq hqD] at heq
      exact inj_on_of_nodup_map hm.nodup_fst hp hq heq
    · exact absurd (hinside p hp hpD ▸ hpD) (heq ▸ (houtside q hq hqD).1)
    · exact absurd (hinside q hq hqD ▸ hqD) (heq ▸ (houtside p hp hpD).1)
    · have hvalue := (houtside p hp hpD).2.symm.trans (heq ▸ (houtside q hq hqD).2)
      exact inj_on_of_nodup_map hm.nodup_snd hp hq (Option.some.inj hvalue)
  have hnodup : (m.map stand).Nodup := hm.nodup_fst.of_map.map_on hinjective
  have hle := length_le_of_nodup hnodup fun a ha => by
    obtain ⟨p, hp, rfl⟩ := mem_map.mp ha
    exact hstand p hp
  rwa [length_map] at hle

/-! ### Partners -/

theorem mem_bothEnds {entries : List (Int × Int)} {x y : Int} :
    (x, y) ∈ bothEnds entries ↔ (x, y) ∈ entries ∨ (y, x) ∈ entries := by
  simp only [bothEnds, mem_flatMap, mem_cons, not_mem_nil, or_false]
  constructor
  · rintro ⟨p, hp, rfl | heq⟩
    · exact .inl hp
    · have hswap : (y, x) = p := congrArg Prod.swap heq
      exact .inr (hswap ▸ hp)
  · rintro (h | h)
    · exact ⟨_, h, .inl rfl⟩
    · exact ⟨_, h, .inr rfl⟩

theorem length_bothEnds (entries : List (Int × Int)) :
    (bothEnds entries).length = 2 * entries.length := by
  simp [bothEnds, Nat.mul_comm]

/-- The ends of chosen pairs are distinct. -/
theorem nodup_bothEnds {entries : List (Int × Int)} (hfst : (entries.map Prod.fst).Nodup)
    (hsnd : (entries.map Prod.snd).Nodup)
    (hends : ∀ p ∈ entries, ∀ q ∈ entries, p.1 ≠ q.2) :
    ((bothEnds entries).map Prod.fst).Nodup := by
  have hperm : ((bothEnds entries).map Prod.fst).Perm
      (entries.map Prod.fst ++ entries.map Prod.snd) := by
    clear hfst hsnd hends
    induction entries with
    | nil => exact .refl _
    | cons p rest ih =>
      exact .cons _ ((ih.cons _).trans perm_middle.symm)
  rw [hperm.nodup_iff, nodup_append]
  refine ⟨hfst, hsnd, fun x hx y hy => ?_⟩
  obtain ⟨p, hp, rfl⟩ := mem_map.mp hx
  obtain ⟨q, hq, rfl⟩ := mem_map.mp hy
  exact hends p hp q hq

/-- The chosen pairs are given pairs and share no ends. -/
theorem isMatching_owners (pairs : List (Int × Int)) : IsMatching pairs (owners pairs).entries := by
  have hs := settled_owners pairs
  have hget : ∀ p ∈ (owners pairs).entries, (owners pairs).get? p.1 = some p.2 := fun p hp =>
    Table.get?_of_mem hp
  refine ⟨fun p hp => mem_orderedPairs.mp (mem_options.mp (hs.linked _ _ (hget p hp))),
    (owners pairs).nodup, ?_⟩
  refine (owners pairs).nodup.of_map.map_on fun p hp q hq heq => ?_
  have hfst := hs.exclusive p.1 q.1 p.2 not_mem_nil not_mem_nil (hget p hp)
    (heq ▸ hget q hq)
  exact Prod.ext hfst heq

theorem entries_partners (hends : ∀ p ∈ pairs, ∀ q ∈ pairs, p.1 ≠ q.2) :
    (partners pairs).entries = bothEnds (owners pairs).entries := by
  have hm := isMatching_owners pairs
  have hnodup := nodup_bothEnds hm.nodup_fst hm.nodup_snd fun p hp q hq =>
    hends p (hm.subset p hp) q (hm.subset q hq)
  exact Table.entries_foldl_set _ .empty hnodup

/-- Matching allocations with releases: the search of every release ends, whatever was chosen before
it; the map has each index once, leads back from every index and links only the ends of given pairs;
and no one-to-one matching among the pairs has more links. -/
theorem partners_isMaximum (pairs : List (Int × Int))
    (hends : ∀ p ∈ pairs, ∀ q ∈ pairs, p.1 ≠ q.2) :
    (∀ free c, ∃ done c', Searches (options (orderedPairs pairs)) free
        (options (orderedPairs pairs) free) c done c' ∧
      augment (options (orderedPairs pairs)) ((orderedPairs pairs).length + 1) free c =
        (done, c')) ∧
    (partners pairs).keys.Nodup ∧
    (∀ x y, (partners pairs).get? x = some y →
      (partners pairs).get? y = some x ∧ ((x, y) ∈ pairs ∨ (y, x) ∈ pairs)) ∧
    (∀ a ∈ pairs.map Prod.fst, ∀ f, (partners pairs).get? a = some f → (a, f) ∈ pairs) ∧
    ∀ m, IsMatching pairs m → m.length ≤ (partners pairs).size / 2 := by
  have hentries := entries_partners hends
  have howners := isMatching_owners pairs
  have hlink : ∀ x y, (partners pairs).get? x = some y ↔
      (x, y) ∈ (owners pairs).entries ∨ (y, x) ∈ (owners pairs).entries := by
    intro x y
    rw [Table.get?_eq_some_iff, hentries, mem_bothEnds]
  refine ⟨fun free c => ⟨_, _, searches_options (orderedPairs pairs) free c, rfl⟩,
    (partners pairs).nodup,
    fun x y h => ⟨(hlink y x).mpr ((hlink x y).mp h).symm,
      ((hlink x y).mp h).imp (howners.subset _) (howners.subset _)⟩, fun a ha f h => ?_,
    fun m hm => ?_⟩
  · rcases (hlink a f).mp h with h | h
    · exact howners.subset _ h
    · -- an allocation is no release
      obtain ⟨p, hp, rfl⟩ := List.mem_map.mp ha
      exact absurd rfl (hends p hp _ (howners.subset _ h))
  · have hle := length_le_of_isMatching (settled_owners pairs) hm
    have hsize : (partners pairs).size = 2 * (owners pairs).keys.length := by
      rw [Table.size, hentries, length_bothEnds, Table.keys, List.length_map]
    omega

/-- Two releases that both can take the first allocation. -/
def contested : List (Int × Int) := [(1, 4), (1, 5), (2, 4)]

theorem contested_isMaximum :
    (∀ p ∈ contested, ∀ q ∈ contested, p.1 ≠ q.2) ∧ (partners contested).get? 1 = some 5 ∧
      (partners contested).get? 4 = some 2 ∧ (partners contested).get? 2 = some 4 ∧
      ∀ m, IsMatching contested m → m.length ≤ 2 := by
  have hends : ∀ p ∈ contested, ∀ q ∈ contested, p.1 ≠ q.2 := by decide
  have hfirst : (partners contested).get? 1 = some 5 := by cbv
  have hsecond : (partners contested).get? 4 = some 2 := by cbv
  have hsize : (partners contested).size / 2 = 2 := by cbv
  obtain ⟨-, -, hback, -, hlargest⟩ := partners_isMaximum contested hends
  exact ⟨hends, hfirst, hsecond, (hback 4 2 hsecond).1, fun m hm => hsize ▸ hlargest m hm⟩

end Lifetime
end Readiness
