import Readiness.Proofs.Inference.Rounds
import Readiness.Specialisation.Exploration

/-!
# What exploring a function does

Exploring a function goes on with the instances that it calls and that were not seen
before, each once (`Grown`); then its slots are concrete, all its calls are determined, and all that
it calls is seen (`Explored`).  Otherwise there is something in the way (`Obstructed`): an abstract
slot, a call that is not determined, or a new instance that has no graph or lies too deep.  There is
no third case (`exploreFunction_cases`).
-/

namespace Readiness.Specialisation

open Inference (Step Session run_bind run_tryCatch)
open List

variable {image : Image} {build : Target → Step Graph} {depth : Nat} {may : Bool} {s s' : Session}

theorem meet_run (place : String) (f : Frontier) (t : Target) :
    meet image build depth may place f t s =
      if f.seen.any t.same then (.ok (.going f), s)
      else if !may then (.error (.tooDeep depth place), s)
      else
        match build t s with
        | (.ok g, s') => (.ok (.going { f with seen := f.seen ++ [t], next := f.next ++ [g] }), s')
        | (.error (.unavailable _ _), s') => (.ok (.stopped f.labels), s')
        | (.error (.tooDeep reached _), s') =>
          ((Inference.labelOf image t).bind fun l => .error (.tooDeep reached l), s')
        | (.error (.defective d), s') => (.error (.defective d), s') := by
  unfold meet
  split
  · rfl
  · split
    · rfl
    · simp only [run_bind, run_tryCatch]
      rcases build t s with ⟨r, s'⟩
      cases r with
      | ok g => rfl
      | error e =>
        cases e with
        | tooDeep reached place => cases Inference.labelOf image t <;> rfl
        | _ => rfl

/-! ### Growth -/

def IsSeen (seen : List Target) (t : Target) : Prop := ∃ w ∈ seen, t.same w = true

def Built (build : Target → Step Graph) (t : Target) (g : Graph) : Prop :=
  ∃ s s', build t s = (.ok g, s')

def Refused (build : Target → Step Graph) (t : Target) : Prop := ∃ e s s', build t s = (.error e, s')

/-- New instances among the called ones go to the next level, each once. -/
structure Grown (build : Target → Step Graph) (may : Bool) (calls : Target → Prop)
    (f f' : Frontier) (new : List (Target × Graph)) : Prop where
  seen_eq : f'.seen = f.seen ++ new.map Prod.fst
  labels_eq : f'.labels = f.labels
  next_eq : f'.next = f.next ++ new.map Prod.snd
  called : ∀ v ∈ new, calls v.1
  built : ∀ v ∈ new, Built build v.1 v.2
  distinct : new.Pairwise fun v w => w.1.same v.1 = false
  fresh : ∀ v ∈ new, ¬ IsSeen f.seen v.1
  descends : new ≠ [] → may = true

/-- A called instance that was not seen before has no graph or lies too deep. -/
def Hindered (build : Target → Step Graph) (may : Bool) (calls : Target → Prop)
    (seen : List Target) : Prop :=
  ∃ t, calls t ∧ ¬ IsSeen seen t ∧ (may = false ∨ Refused build t)

variable {calls calls' : Target → Prop} {f f' f'' : Frontier} {new new' : List (Target × Graph)}

variable {seen : List Target} {t : Target}

theorem IsSeen.append {more : List Target} (h : IsSeen seen t) : IsSeen (seen ++ more) t :=
  h.imp fun _ hw => ⟨mem_append_left _ hw.1, hw.2⟩

theorem Grown.isSeen (h : Grown build may calls f f' new) (ht : IsSeen f.seen t) :
    IsSeen f'.seen t := by
  rw [h.seen_eq]
  exact ht.append

theorem Grown.refl (f : Frontier) : Grown build may calls f f [] where
  seen_eq := (append_nil _).symm
  labels_eq := rfl
  next_eq := (append_nil _).symm
  called _ hv := nomatch hv
  built _ hv := nomatch hv
  distinct := .nil
  fresh _ hv := nomatch hv
  descends h := absurd rfl h

theorem Grown.trans (h : Grown build may calls f f' new) (h' : Grown build may calls f' f'' new') :
    Grown build may calls f f'' (new ++ new') where
  seen_eq := by rw [h'.seen_eq, h.seen_eq, map_append, append_assoc]
  labels_eq := h'.labels_eq.trans h.labels_eq
  next_eq := by rw [h'.next_eq, h.next_eq, map_append, append_assoc]
  called v hv := (mem_append.mp hv).elim (h.called v) (h'.called v)
  built v hv := (mem_append.mp hv).elim (h.built v) (h'.built v)
  distinct := by
    refine pairwise_append.mpr ⟨h.distinct, h'.distinct, fun v hv w hw => ?_⟩
    -- the first ones are seen when the others are met
    refine Bool.eq_false_iff.mpr fun hsame => h'.fresh w hw ⟨v.1, ?_, hsame⟩
    rw [h.seen_eq]
    exact mem_append_right _ (mem_map_of_mem hv)
  fresh v hv := by
    rcases mem_append.mp hv with hv | hv
    · exact h.fresh v hv
    · exact fun hseen => h'.fresh v hv (h.isSeen hseen)
  descends hne := by
    by_cases hempty : new = []
    · exact h'.descends (by simpa [hempty] using hne)
    · exact h.descends hempty

theorem Grown.mono (h : Grown build may calls f f' new) (hcalls : ∀ t, calls t → calls' t) :
    Grown build may calls' f f' new :=
  { h with called := fun v hv => hcalls _ (h.called v hv) }

variable {seen' : List Target}

theorem Hindered.mono (h : Hindered build may calls seen')
    (hseen : ∀ t, IsSeen seen t → IsSeen seen' t) (hcalls : ∀ t, calls t → calls' t) :
    Hindered build may calls' seen :=
  h.imp fun t ht => ⟨hcalls t ht.1, fun h => ht.2.1 (hseen t h), ht.2.2⟩

/-! ### Instances, statements and functions -/

/-- Exploring goes on, or something is in the way. -/
def Proceeds (build : Target → Step Graph) (may : Bool) (calls : Target → Prop)
    (blocked : Prop) (f : Frontier) (done : Frontier → Prop) (r : Except Refusal Advance) : Prop :=
  (∃ f' new, r = .ok (.going f') ∧ Grown build may calls f f' new ∧ done f') ∨
    (∀ f', r ≠ .ok (.going f')) ∧ (blocked ∨ Hindered build may calls f.seen)

variable {r : Except Refusal Advance}

theorem meet_cases {place : String} (h : meet image build depth may place f t s = (r, s')) :
    Proceeds build may (· = t) False f (fun f' => IsSeen f'.seen t) r := by
  rw [meet_run] at h
  split at h
  · rename_i hseen
    cases h
    exact .inl ⟨f, [], rfl, .refl f, any_eq_true.mp hseen⟩
  · rename_i hseen
    have hnew : ¬ IsSeen f.seen t := fun hold => hseen (any_eq_true.mpr hold)
    have hblocked : ∀ {r : Except Refusal Advance}, (∀ f', r ≠ .ok (.going f')) →
        may = false ∨ Refused build t →
        Proceeds build may (· = t) False f (fun f' => IsSeen f'.seen t) r := fun hr hcause =>
      .inr ⟨hr, .inr ⟨t, rfl, hnew, hcause⟩⟩
    split at h
    · rename_i hmay
      cases h
      exact hblocked (fun _ h => (nomatch h)) (.inl (by simpa using hmay))
    · rename_i hmay
      have hmay : may = true := by simpa using hmay
      generalize hbuild : build t s = run at h
      rcases run with ⟨e | g, s₁⟩
      · have hrefused : may = false ∨ Refused build t := .inr ⟨e, s, s₁, hbuild⟩
        cases e with
        | tooDeep reached place =>
          cases hlabel : Inference.labelOf image t with
          | ok l | error e =>
            rw [hlabel] at h
            cases h
            exact hblocked (fun _ h => (nomatch h)) hrefused
        | unavailable | defective =>
          cases h
          exact hblocked (fun _ h => (nomatch h)) hrefused
      · cases h
        refine .inl ⟨_, [(t, g)], rfl, ⟨rfl, rfl, rfl, ?_, ?_, ?_, ?_, fun _ => hmay⟩, t, ?_⟩
        · exact fun v hv => mem_singleton.mp hv ▸ rfl
        · exact fun v hv => mem_singleton.mp hv ▸ ⟨s, _, hbuild⟩
        · exact pairwise_singleton _ _
        · exact fun v hv => mem_singleton.mp hv ▸ hnew
        · exact ⟨by simp, Target.same_equivalence.refl t⟩

/-- Once exploring has stopped nothing more happens. -/
theorem foldlM_stopped {α : Type} {step : Advance → α → Step Advance}
    (hstopped : ∀ labels x s, step (.stopped labels) x s = (.ok (.stopped labels), s)) (xs : List α)
    (labels : List String) (s : Session) :
    xs.foldlM step (.stopped labels) s = (.ok (.stopped labels), s) := by
  induction xs with
  | nil => rfl
  | cons x xs ih =>
    rw [foldlM_cons, run_bind, hstopped]
    exact ih

/-- What is done stays done, and what is in the way was so before. -/
theorem foldlM_cases {α : Type} {step : Advance → α → Step Advance} (called : α → Target → Prop)
    (blocked : α → Prop) (done : α → Frontier → Prop)
    (hstopped : ∀ labels x s, step (.stopped labels) x s = (.ok (.stopped labels), s))
    (hdone : ∀ {x f f' new}, Grown build may calls f f' new → done x f → done x f')
    (hstep : ∀ {x f s r s'}, step (.going f) x s = (r, s') →
      Proceeds build may (called x) (blocked x) f (done x) r) (xs : List α)
    (hcalls : ∀ x ∈ xs, ∀ t, called x t → calls t) :
    ∀ {f : Frontier} {s s' : Session} {r : Except Refusal Advance},
      xs.foldlM step (.going f) s = (r, s') →
      Proceeds build may calls (∃ x ∈ xs, blocked x) f (fun f' => ∀ x ∈ xs, done x f') r := by
  induction xs with
  | nil =>
    intro f s s' r h
    cases h
    exact .inl ⟨f, [], rfl, .refl f, fun _ hx => (nomatch hx)⟩
  | cons x xs ih =>
    intro f s s' r h
    have hfirst : ∀ t, called x t → calls t := hcalls x mem_cons_self
    rw [foldlM_cons, run_bind] at h
    generalize hrun : step (.going f) x s = run at h
    obtain ⟨r₁, s₁⟩ := run
    rcases hstep hrun with ⟨f₁, new, rfl, hgrown, hdone₁⟩ | ⟨hnot, hcause⟩
    · have hgrown := hgrown.mono hfirst
      rcases ih (fun y hy => hcalls y (mem_cons_of_mem _ hy)) h with
        ⟨f₂, new', rfl, hgrown', hrest⟩ | ⟨hnot, hcause⟩
      · refine .inl ⟨f₂, new ++ new', rfl, hgrown.trans hgrown', fun y hy => ?_⟩
        rcases mem_cons.mp hy with rfl | hy
        · exact hdone hgrown' hdone₁
        · exact hrest y hy
      · refine .inr ⟨hnot, hcause.imp ?_ fun h => h.mono (fun _ => hgrown.isSeen) fun _ => id⟩
        exact fun ⟨y, hy, hblocked⟩ => ⟨y, mem_cons_of_mem _ hy, hblocked⟩
    · have hcause' : (∃ y ∈ x :: xs, blocked y) ∨ Hindered build may calls f.seen :=
        hcause.imp (fun hblocked => ⟨x, mem_cons_self, hblocked⟩)
          fun h => h.mono (fun _ => id) hfirst
      rcases r₁ with e | labels | f₁
      · cases h
        exact .inr ⟨fun _ h => (nomatch h), hcause'⟩
      · cases (foldlM_stopped hstopped xs labels s₁).symm.trans h
        exact .inr ⟨fun _ h => (nomatch h), hcause'⟩
      · exact absurd rfl (hnot f₁)

def CalledAt (image : Image) (g : Graph) (st : Graph.Statement) (t : Target) : Prop :=
  ∃ ts, callees image g st = .ok ts ∧ t ∈ ts

def ExploredAt (image : Image) (g : Graph) (st : Graph.Statement) (seen : List Target) : Prop :=
  ∃ ts, callees image g st = .ok ts ∧ ∀ t ∈ ts, IsSeen seen t

variable {g : Graph}

theorem exploreStatement_cases {st : Graph.Statement}
    (h : exploreStatement image build depth may g (.going f) st s = (r, s')) :
    Proceeds build may (CalledAt image g st) (∃ e, callees image g st = .error e) f
      (fun f' => ExploredAt image g st f'.seen) r := by
  simp only [exploreStatement, Advance.andThen] at h
  cases hcallees : callees image g st with
  | error e =>
    rw [hcallees] at h
    cases h
    exact .inr ⟨fun _ h => (nomatch h), .inl ⟨e, rfl⟩⟩
  | ok ts =>
    rw [hcallees] at h
    have hcalls : ∀ t ∈ ts, ∀ u, u = t → CalledAt image g st u := fun t ht u hu =>
      ⟨ts, hcallees, hu ▸ ht⟩
    have hloop := foldlM_cases (fun t u => u = t) (fun _ => False) (fun t f => IsSeen f.seen t)
      (fun _ _ _ => rfl) (fun hgrown hseen => hgrown.isSeen hseen) meet_cases ts hcalls h
    rcases hloop with ⟨f', new, hr, hgrown, hseen⟩ | ⟨hnot, hcause⟩
    · exact .inl ⟨f', new, hr, hgrown, ts, hcallees, hseen⟩
    · exact .inr ⟨hnot, hcause.imp_left fun ⟨_, _, hfalse⟩ => hfalse.elim⟩

def CalledBy (image : Image) (g : Graph) (t : Target) : Prop :=
  ∃ st ∈ g.statements, CalledAt image g st t

/-- A function with concrete slots whose calls are determined and seen. -/
structure Explored (image : Image) (g : Graph) (seen : List Target) : Prop where
  concrete : isConcrete g = true
  calls : ∀ st ∈ g.statements, ExploredAt image g st seen

/-- What keeps a function from being specialised. -/
def Obstructed (image : Image) (build : Target → Step Graph) (may : Bool) (seen : List Target)
    (g : Graph) : Prop :=
  isConcrete g = false ∨ (∃ st ∈ g.statements, ∃ e, callees image g st = .error e) ∨
    Hindered build may (CalledBy image g) seen

theorem ExploredAt.mono {st : Graph.Statement} (h : ExploredAt image g st seen)
    (hseen : ∀ t, IsSeen seen t → IsSeen seen' t) : ExploredAt image g st seen' :=
  h.imp fun _ hts => ⟨hts.1, fun t ht => hseen t (hts.2 t ht)⟩

theorem Explored.mono (h : Explored image g seen) (hseen : ∀ t, IsSeen seen t → IsSeen seen' t) :
    Explored image g seen' :=
  ⟨h.concrete, fun st hst => (h.calls st hst).mono hseen⟩

/-- Exploring a function goes on with what it calls, or something is in the way. -/
theorem exploreFunction_cases (h : exploreFunction image build depth may (.going f) g s = (r, s')) :
    (∃ f' new, r = .ok (.going f') ∧
      Grown build may (CalledBy image g) { f with labels := f.labels ++ [g.label] } f' new ∧
      Explored image g f'.seen) ∨
    (∀ f', r ≠ .ok (.going f')) ∧ Obstructed image build may f.seen g := by
  simp only [exploreFunction, Advance.andThen] at h
  split at h
  · rename_i hconcrete
    have hcalls : ∀ st ∈ g.statements, ∀ t, CalledAt image g st t → CalledBy image g t :=
      fun st hst t ht => ⟨st, hst, ht⟩
    have hloop := foldlM_cases (CalledAt image g) (fun st => ∃ e, callees image g st = .error e)
      (fun st f => ExploredAt image g st f.seen) (fun _ _ _ => rfl)
      (fun hgrown hdone => hdone.mono fun _ => hgrown.isSeen) exploreStatement_cases g.statements
      hcalls h
    rcases hloop with ⟨f', new, hr, hgrown, hdone⟩ | ⟨hnot, hcause⟩
    · exact .inl ⟨f', new, hr, hgrown, hconcrete, hdone⟩
    · exact .inr ⟨hnot, .inr hcause⟩
  · rename_i hconcrete
    cases h
    exact .inr ⟨fun _ h => (nomatch h), .inl (Bool.eq_false_iff.mpr hconcrete)⟩

end Readiness.Specialisation
