import Readiness.Proofs.Inference.Standalone

/-!
# The books of a session

A target that is opened is closed again, whether it is typed or refused at any depth, and graphs are
only added (`Session.Tidy`).  Building would go the same way whatever was done in a session with a
target opened twice or too many of them opened (`books_are_kept`), so there is no such session.
-/

namespace Readiness.Inference

open List

/-- Two steps do the same in sessions with a property, and keep the property. -/
def Alike (I : Session → Prop) {α : Type} (m m' : Step α) : Prop :=
  ∀ s, I s → m s = m' s ∧ I (m s).2

theorem alike_stepwise {I : Session → Prop} : Stepwise (Alike I) where
  pure _ _ hs := ⟨rfl, hs⟩
  throw _ _ hs := ⟨rfl, hs⟩
  bind {_ _ m m' f f'} h hf s hs := by
    obtain ⟨heq, hm⟩ := h s hs
    rw [run_bind, run_bind, ← heq]
    rcases hrun : m s with ⟨e | a, s'⟩
    · rw [hrun] at hm
      exact ⟨rfl, hm⟩
    · rw [hrun] at hm
      exact hf a s' hm

def Different (targets : List Target) : Prop := targets.Pairwise fun t u => t.same u = false

/-- The graph is that of the target, sealed with types. -/
def BuiltFor (image : Image) (limits : Limits) (e : Target × Graph) : Prop :=
  ∃ w types returns, groundwork image limits e.1 = .ok w ∧ e.2 = w.graph types returns

/-- These targets are being typed, and to the graphs before were added graphs of other targets. -/
structure Session.Tidy (image : Image) (limits : Limits) (targets : List Target)
    (before : List (Target × Graph)) (s : Session) : Prop where
  pending : s.pending.map Prod.fst = targets
  built : ∃ new, s.built = before ++ new ∧
    ∀ e ∈ new, (∀ u ∈ targets, u.same e.1 = false) ∧ BuiltFor image limits e
  different : Different (s.built.map Prod.fst)

section Tidy

variable {image : Image} {limits : Limits} {targets : List Target}
  {before : List (Target × Graph)} {s s' : Session} {t : Target}

theorem same_comm_false {t u : Target} (h : t.same u = false) : u.same t = false :=
  Bool.eq_false_iff.mpr fun h' => by
    rw [Target.same_equivalence.symm h'] at h
    cases h

namespace Session.Tidy

section

variable (hs : s.Tidy image limits targets before)
include hs

theorem returning (ts : TypeSet) :
    (s.returning t ts).Tidy image limits targets before := by
  refine ⟨?_, hs.built, hs.different⟩
  rw [← hs.pending, Session.returning, map_map]
  refine map_congr_left fun b _ => ?_
  dsimp only [Function.comp]
  split <;> rfl

theorem opened (t : Target) :
    (s.opened t).Tidy image limits (t :: targets) s.built :=
  ⟨congrArg (t :: ·) hs.pending, ⟨[], (append_nil _).symm, nofun⟩, hs.different⟩

/-- What is opened is closed. -/
theorem closed (hs' : s'.Tidy image limits (t :: targets) s.built)
    (hfresh : ∀ u ∈ targets, u.same t = false) :
    (s'.closed t).Tidy image limits targets before := by
  obtain ⟨new, hnew, hall⟩ := hs.built
  obtain ⟨new', hnew', hall'⟩ := hs'.built
  refine ⟨?_, ⟨new ++ new', ?_, fun e he => ?_⟩, hs'.different⟩
  · have hself : t.same t = true := Target.same_equivalence.refl t
    have hfilter : (s'.closed t).pending.map Prod.fst =
        (s'.pending.map Prod.fst).filter fun u => !u.same t := by
      rw [filter_map]
      rfl
    rw [hfilter, hs'.pending, filter_cons_of_neg (by simp [hself])]
    exact filter_eq_self.mpr fun u hu => by simp [hfresh u hu]
  · rw [← append_assoc, ← hnew]
    exact hnew'
  · rcases mem_append.mp he with he | he
    · exact hall e he
    · exact ⟨fun u hu => (hall' e he).1 u (mem_cons_of_mem _ hu), (hall' e he).2⟩

theorem keeping {g : Graph}
    (hg : BuiltFor image limits (t, g)) (hfresh : ∀ u ∈ targets, u.same t = false)
    (hnew : ∀ b ∈ s.built, b.1.same t = false) :
    (s.keeping t g).Tidy image limits targets before := by
  obtain ⟨new, heq, hall⟩ := hs.built
  refine ⟨hs.pending, ⟨new ++ [(t, g)], ?_, fun e he => ?_⟩, ?_⟩
  · rw [Session.keeping, heq, append_assoc]
  · rcases mem_append.mp he with he | he
    · exact hall e he
    · cases mem_singleton.mp he
      exact ⟨hfresh, hg⟩
  · refine (map_append ..).symm ▸ pairwise_append.mpr ⟨hs.different, pairwise_singleton _ _, ?_⟩
    intro u hu v hv
    obtain ⟨b, hb, rfl⟩ := mem_map.mp hu
    cases mem_singleton.mp hv
    exact hnew b hb

theorem fresh_iff :
    s.returned? t = none ↔ ∀ u ∈ targets, u.same t = false := by
  rw [returned?_eq_none, ← hs.pending, forall_mem_map]

end

end Session.Tidy

/-- Building goes the same way when what is asked for does. -/
theorem alike_buildWith {ask ask' : Target → Step (Option TypeSet)}
    (hask : ∀ before u, Alike (Session.Tidy image limits (t :: targets) before) (ask u) (ask' u))
    (hfresh : ∀ u ∈ targets, u.same t = false) :
    Alike (Session.Tidy image limits targets before) (buildWith image limits ask t)
      (buildWith image limits ask' t) := by
  intro s hs
  rw [buildWith_eq, buildWith_eq]
  split
  · exact ⟨rfl, hs⟩
  · split
    · exact ⟨rfl, hs⟩
    · rename_i hfind
      rw [buildAnew_eq, buildAnew_eq]
      split
      · exact ⟨rfl, hs⟩
      · rename_i w hw
        obtain ⟨heq, hinfer⟩ := alike_stepwise.infer (hask s.built) (t := t)
          (fun ts s' hs' => ⟨rfl, hs'.returning ts⟩) w.params w.fixed w.lowered.graph.statements
          (s.opened t) (hs.opened t)
        rw [← heq]
        refine ⟨rfl, ?_⟩
        split
        · rename_i hrun
          rw [hrun] at hinfer
          exact hs.closed hinfer hfresh
        · rename_i types returns s' hrun
          rw [hrun] at hinfer
          refine (hs.closed hinfer hfresh).keeping ⟨w, types, returns, hw, rfl⟩ hfresh fun b hb => ?_
          obtain ⟨new, hnew, hall⟩ := hinfer.built
          rcases mem_append.mp (hnew ▸ hb : b ∈ s.built ++ new) with hb | hb
          · exact Bool.eq_false_iff.mpr
              (find?_eq_none.mp (Option.map_eq_none_iff.mp hfind) b hb)
          · exact same_comm_false ((hall b hb).1 t mem_cons_self)

theorem alike_answer {build build' : Target → Step Graph} (hbuild :
    (∀ v ∈ targets, v.same t = false) → Alike (Session.Tidy image limits targets before) (build t)
      (build' t)) :
    Alike (Session.Tidy image limits targets before) (answer (some build) t)
      (answer (some build') t) := by
  intro s hs
  rcases hreturned : s.returned? t with _ | ts
  · obtain ⟨heq, hafter⟩ := hbuild (hs.fresh_iff.mp hreturned) s hs
    rw [answer_fresh hreturned, answer_fresh hreturned, ← heq]
    refine ⟨rfl, ?_⟩
    split <;> rename_i hrun <;> rw [hrun] at hafter <;> exact hafter
  · rw [answer_returned hreturned, answer_returned hreturned]
    exact ⟨rfl, hs⟩

theorem alike_answer_none :
    Alike (Session.Tidy image limits targets before) (answer none t) (answer none t) := by
  refine fun s hs => ⟨rfl, ?_⟩
  rcases hreturned : s.returned? t with _ | ts
  · rw [answer_none hreturned]
    exact hs
  · rw [answer_returned hreturned]
    exact hs

end Tidy

/-! ### Sessions with targets opened -/

/-- The targets being typed are different, and no more than the bound. -/
def Session.Orderly (bound : Nat) (s : Session) : Prop :=
  Different (s.pending.map Prod.fst) ∧ s.pending.length ≤ bound

instance (bound : Nat) (s : Session) : Decidable (s.Orderly bound) := by
  unfold Session.Orderly Different
  infer_instance

/-- Goes on in a session where the target can be opened in order, and does something else in
others. -/
def guarded (bound : Nat) (other build : Target → Step Graph) (t : Target) : Step Graph := do
  if ((← get).opened t).Orderly bound then build t else other t

/-- Building as usual, but for sessions in which a target cannot be opened in order. -/
def supervised (image : Image) (limits : Limits) (bound : Nat) (other : Target → Step Graph) :
    Nat → Target → Step Graph
  | 0 => guarded bound other (buildWith image limits (answer none))
  | room + 1 => guarded bound other
    (buildWith image limits (answer (some (supervised image limits bound other room))))

section Supervised

variable {image : Image} {limits : Limits} {targets : List Target}
  {before : List (Target × Graph)} {bound : Nat} {t : Target}

theorem alike_guarded {build build' other : Target → Step Graph}
    (hbuild : Alike (Session.Tidy image limits targets before) (build t) (build' t))
    (htargets : Different (t :: targets)) (hbound : targets.length < bound) :
    Alike (Session.Tidy image limits targets before) (build t) (guarded bound other build' t) := by
  intro s hs
  have horderly : (s.opened t).Orderly bound := by
    refine ⟨?_, ?_⟩
    · rw [(hs.opened t).pending]
      exact htargets
    · rw [← length_map Prod.fst, (hs.opened t).pending]
      exact hbound
  have hrun : guarded bound other build' t s = build' t s := by
    unfold guarded
    rw [get_bind, if_pos horderly]
  rw [hrun]
  exact hbuild s hs

/-- No target is opened out of order. -/
theorem alike_supervised (other : Target → Step Graph) : ∀ (room : Nat) {targets : List Target}
    {before : List (Target × Graph)} {t : Target}, Different (t :: targets) →
    targets.length + room < bound →
    Alike (Session.Tidy image limits targets before)
      (buildWith image limits (resultOf image limits room) t)
      (supervised image limits bound other room t)
  | 0, _, _, _, htargets, hbound =>
    alike_guarded (alike_buildWith (fun _ _ => alike_answer_none)
      fun u hu => same_comm_false ((pairwise_cons.mp htargets).1 u hu)) htargets hbound
  | room + 1, targets, _, t, htargets, hbound => by
    refine alike_guarded (alike_buildWith (fun _ u => alike_answer fun hfresh => ?_)
      fun u hu => same_comm_false ((pairwise_cons.mp htargets).1 u hu)) htargets (by omega)
    have hroom : (t :: targets).length + room < bound := by
      rw [length_cons]
      omega
    exact alike_supervised other room
      (pairwise_cons.mpr ⟨fun v hv => same_comm_false (hfresh v hv), htargets⟩) hroom

end Supervised

/-! ### Sessions after requests -/

def Session.after (image : Image) (limits : Limits) (history : List Target) : Session :=
  history.foldl (fun s t => (build image limits t s).2) .empty

section History

variable (image : Image) (limits : Limits)

theorem alike_build (other : Target → Step Graph) (before : List (Target × Graph)) (t : Target) :
    Alike (Session.Tidy image limits [] before) (build image limits t)
      (supervised image limits (limits.calls.getD boundlessCalls + 1) other
        (limits.calls.getD boundlessCalls) t) :=
  alike_supervised other _ (pairwise_singleton _ t) (by rw [length_nil]; omega)

theorem Session.Tidy.after (history : List Target) :
    (Session.after image limits history).Tidy image limits [] [] :=
  foldlRecOn history _ ⟨rfl, ⟨[], rfl, nofun⟩, Pairwise.nil⟩ fun s hs t _ =>
    (alike_build image limits (build image limits) [] t s hs).2

/-- Whatever was built or refused before, a build goes the same way if anything else was done as
soon as a target is opened twice, or more are opened than calls are followed.  After it nothing is
being typed, what was built is still there, and what was added are sealed graphs of new targets. -/
theorem books_are_kept (history : List Target) (t : Target) :
    let s := Session.after image limits history
    let calls := limits.calls.getD boundlessCalls
    (∀ other, supervised image limits (calls + 1) other calls t s = build image limits t s) ∧
      (build image limits t s).2.pending = [] ∧
      (∃ new, (build image limits t s).2.built = s.built ++ new ∧
        ∀ e ∈ new, BuiltFor image limits e) ∧
      Different ((build image limits t s).2.built.map Prod.fst) := by
  intro s calls
  have hs : s.Tidy image limits [] s.built :=
    have h := Session.Tidy.after image limits history
    ⟨h.pending, ⟨[], (append_nil _).symm, nofun⟩, h.different⟩
  have hbuild := fun other => alike_build image limits other s.built t s hs
  obtain ⟨hpending, ⟨new, hnew, hall⟩, hdifferent⟩ := (hbuild (build image limits)).2
  exact ⟨fun other => (hbuild other).1.symm, map_eq_nil_iff.mp hpending,
    ⟨new, hnew, fun e he => (hall e he).2⟩, hdifferent⟩

end History

end Readiness.Inference
