import Readiness.Proofs.Inference.Preparation
import Readiness.Proofs.Inference.Rounds

/-!
# What asking for results does to a session

Asking adds graphs of functions that are not being typed and changes nothing else; it
fails for defects only (`asking_resultOf`).  A function that has been asked for gives the same
result again, as long as what it has returned so far is the same (`resultOf_again`).
-/

namespace Readiness.Inference

open Graph (Statement)
open List

def isDefect : Refusal → Bool
  | .defective _ => true
  | _ => false

/-! ### Building -/

section Building

variable {image : Image} {limits : Limits} {ask : Target → Step (Option TypeSet)}
  {t : Target} {s s' : Session}

theorem returning_opened (hfresh : s.returned? t = none) (ts : TypeSet) :
    (s.opened t).returning t ts = { s with pending := (t, ts) :: s.pending } := by
  have hself : t.same t = true := Target.same_equivalence.refl t
  have hrest : s.pending.map (fun b => if b.1.same t then (b.1, ts) else b) = s.pending := by
    refine (map_congr_left fun b hb => ?_).trans (map_id _)
    simp [returned?_eq_none.mp hfresh b hb]
  simp only [Session.opened, Session.returning, map_cons, hself, if_true, hrest]

theorem closed_of_pending (hfresh : s.returned? t = none) {ts : TypeSet}
    (h : s'.pending = (t, ts) :: s.pending) : s'.closed t = ⟨s'.built, s.pending⟩ := by
  have hself : t.same t = true := Target.same_equivalence.refl t
  have hrest : s.pending.filter (fun b => !b.1.same t) = s.pending :=
    filter_eq_self.mpr fun b hb => by simp [returned?_eq_none.mp hfresh b hb]
  simp [Session.closed, h, hself, hrest]

theorem pending_returning (hfresh : s.returned? t = none) (h : Grows image limits (s.opened t) s')
    (ts : TypeSet) : (s'.returning t ts).pending = (t, ts) :: s.pending := by
  rw [Session.returning, h.pending]
  exact congrArg Session.pending (returning_opened hfresh ts)

variable {statements : List Statement}

/-- Typing a function adds graphs, and what the function has returned is noted at the end. -/
theorem infer_grows (hask : Asking image limits ask) (hfresh : s.returned? t = none)
    {params fixed types : Types} {returns : TypeSet}
    (h : infer image ask params fixed t statements (s.opened t) = (.ok (types, returns), s')) :
    ∃ s₁, Grows image limits (s.opened t) s₁ ∧ s' = s₁.returning t returns := by
  obtain ⟨n, before, u, last, hrounds, hround, -, -, rfl⟩ := exists_last_round_of_infer h
  obtain ⟨s₁, hgrows, rfl⟩ := hrounds.grows hask (returning_opened hfresh [])
  obtain ⟨u₁, hgrows', rfl⟩ := typeRound_grows hask hround
  exact grows_returning hgrows hgrows' _

variable {e : Refusal}

theorem defective_of_labelOf (h : labelOf image t = .error e) : ∃ d, e = .defective d := by
  unfold labelOf at h
  split at h
  · cases h
  · cases h
    exact ⟨_, rfl⟩

theorem defective_of_infer (hask : Asking image limits ask) {params fixed : Types}
    (h : infer image ask params fixed t statements s = (.error e, s')) : ∃ d, e = .defective d :=
  @Stepwise.infer _ defective_stepwise image ask ask (fun _ => hask.defective) t
    (fun _ _ _ _ h => nomatch h) params fixed statements s e s' h

theorem buildAnew_eq : buildAnew image limits ask t s =
    match groundwork image limits t with
    | .error e => (.error e, s)
    | .ok w =>
      match infer image ask w.params w.fixed t w.lowered.graph.statements (s.opened t) with
      | (.error e, s') => (.error e, s'.closed t)
      | (.ok (types, returns), s') =>
        (.ok (w.graph types returns), (s'.closed t).keeping t (w.graph types returns)) := by
  unfold buildAnew
  rw [lift_bind]
  cases groundwork image limits t with
  | error e => rfl
  | ok w =>
    dsimp only
    rw [modify_bind, run_bind, run_tryCatch]
    rcases infer image ask w.params w.fixed t w.lowered.graph.statements (s.opened t) with
      ⟨e | ⟨types, returns⟩, s₁⟩ <;> rfl

theorem groundwork_ok {w : Groundwork} (h : groundwork image limits t = .ok w) :
    prepare image limits t w.label = .ok (w.lowered, w.params) := by
  obtain ⟨label, -, h⟩ := ok_of_bind h
  obtain ⟨⟨lowered, params⟩, hprepare, h⟩ := ok_of_bind h
  obtain ⟨fixed, -, h⟩ := ok_of_bind h
  cases h
  exact hprepare

/-- The groundwork fails for a defect, or because the target cannot be prepared. -/
theorem groundwork_error (h : groundwork image limits t = .error e) :
    (∃ d, e = .defective d) ∨ ∃ label, prepare image limits t label = .error e := by
  rcases error_of_bind h with h | ⟨label, -, h⟩
  · exact .inl (defective_of_labelOf h)
  rcases error_of_bind h with h | ⟨x, -, h⟩
  · exact .inr ⟨label, h⟩
  rcases error_of_bind h with h | ⟨fixed, -, h⟩
  · exact .inl (notRefused_expanded _ _ h)
  · cases h

theorem buildAnew_ok (hask : Asking image limits ask) (hfresh : s.returned? t = none)
    (hfind : s.find? t = none) {g : Graph} (h : buildAnew image limits ask t s = (.ok g, s')) :
    Grows image limits s s' ∧ s'.find? t = some g := by
  rw [buildAnew_eq] at h
  split at h
  · cases h
  · rename_i w hw
    split at h
    · cases h
    · rename_i types returns s₁ hinfer
      cases h
      obtain ⟨s₂, hgrows, rfl⟩ := infer_grows hask hfresh hinfer
      obtain ⟨new, hnew, hall⟩ := hgrows.built
      rw [closed_of_pending hfresh (pending_returning hfresh hgrows returns)]
      -- a graph that was added meanwhile is not one of the target, which was being typed
      have hnone : ∀ e ∈ new, s.returned? e.1 = none ∧ e.1.same t = false := by
        intro e he
        have hreturned := (hall e he).1
        rw [returned?_of_pending (s := s) rfl] at hreturned
        split at hreturned
        · cases hreturned
        · rename_i hsame
          refine ⟨hreturned, ?_⟩
          exact Bool.eq_false_iff.mpr fun h => hsame (Target.same_equivalence.symm h)
      generalize w.graph types returns = g
      have hbuilt : s₂.built ++ [(t, g)] = s.built ++ (new ++ [(t, g)]) := by
        rw [hnew, append_assoc]
        rfl
      refine ⟨⟨rfl, new ++ [(t, g)], hbuilt, ?_⟩, ?_⟩
      · intro e he
        rcases mem_append.mp he with he | he
        · exact ⟨(hnone e he).1, (hall e he).2⟩
        · cases mem_singleton.mp he
          exact ⟨hfresh, w.label, _, groundwork_ok hw⟩
      · have hself : t.same t = true := Target.same_equivalence.refl t
        have hold : s.built.find? (fun b => b.1.same t) = none := Option.map_eq_none_iff.mp hfind
        have hnew : new.find? (fun b => b.1.same t) = none :=
          find?_eq_none.mpr fun e he => by simp [(hnone e he).2]
        change ((s₂.built ++ [(t, g)]).find? fun b => b.1.same t).map Prod.snd = some g
        rw [hbuilt, find?_append, hold, find?_append, hnew]
        simp [hself]

theorem buildWith_eq : buildWith image limits ask t s =
    match admitted image t with
    | .error e => (.error e, s)
    | .ok _ =>
      match s.find? t with
      | some g => (.ok g, s)
      | none => buildAnew image limits ask t s := by
  unfold buildWith
  rw [lift_bind]
  cases admitted image t with
  | error e => rfl
  | ok _ =>
    dsimp only
    rw [get_bind]
    cases s.find? t <;> rfl

/-- A graph that was built is found again. -/
theorem buildWith_ok (hask : Asking image limits ask) (hfresh : s.returned? t = none) {g : Graph}
    (h : buildWith image limits ask t s = (.ok g, s')) :
    Grows image limits s s' ∧ s'.find? t = some g ∧
      ∀ s'', s''.find? t = some g → buildWith image limits ask t s'' = (.ok g, s'') := by
  rw [buildWith_eq] at h
  split at h
  · cases h
  · rename_i hadmitted
    have hagain : ∀ s'', s''.find? t = some g → buildWith image limits ask t s'' = (.ok g, s'') := by
      intro s'' hfind
      rw [buildWith_eq, hadmitted, hfind]
    split at h
    · rename_i hfind
      cases h
      exact ⟨.refl _, hfind, hagain⟩
    · rename_i hfind
      obtain ⟨hgrows, hfound⟩ := buildAnew_ok hask hfresh hfind h
      exact ⟨hgrows, hfound, hagain⟩

/-- A target for which there is no groundwork is the same as none that could be prepared. -/
theorem find?_of_groundwork_error (hwork : groundwork image limits t = .error e)
    (he : ∀ d, e ≠ .defective d)
    (hs : ∀ b ∈ s.built, b.1.same t = true → Preparable image limits b.1) : s.find? t = none := by
  refine Option.map_eq_none_iff.mpr (find?_eq_none.mpr fun b hb hsame => ?_)
  obtain ⟨label, hprepare⟩ := (groundwork_error hwork).resolve_left fun ⟨d, hd⟩ => he d hd
  obtain ⟨label', x, hprepared⟩ := hs b hb hsame
  obtain ⟨d, hd⟩ := prepare_of_same hsame hprepared label e hprepare
  exact he d hd

/-- A function that was refused is refused again, whatever has been built meanwhile. -/
theorem buildWith_error (hask : Asking image limits ask)
    (h : buildWith image limits ask t s = (.error e, s')) : (∃ d, e = .defective d) ∨
      s' = s ∧ ∀ s'', (∀ b ∈ s''.built, b ∈ s.built ∨ Preparable image limits b.1) →
        buildWith image limits ask t s'' = (.error e, s'') := by
  by_cases he : ∃ d, e = .defective d
  · exact .inl he
  · rw [buildWith_eq] at h
    split at h
    · rename_i hadmitted
      cases h
      exact .inr ⟨rfl, fun s'' _ => by rw [buildWith_eq, hadmitted]⟩
    · rename_i hadmitted
      split at h
      · cases h
      · rename_i hfind
        rw [buildAnew_eq] at h
        split at h
        · rename_i hwork
          cases h
          refine .inr ⟨rfl, fun s'' hbuilt => ?_⟩
          have hnone : s''.find? t = none :=
            find?_of_groundwork_error hwork (fun d hd => he ⟨d, hd⟩) fun b hb hsame =>
              (hbuilt b hb).resolve_left fun hb =>
                find?_eq_none.mp (Option.map_eq_none_iff.mp hfind) b hb hsame
          rw [buildWith_eq, hadmitted, hnone]
          dsimp only
          rw [buildAnew_eq, hwork]
        · split at h
          · rename_i hinfer
            cases h
            exact .inl (defective_of_infer hask hinfer)
          · cases h

end Building

variable {room : Nat}

/-! ### Asking -/

section Results

variable {image : Image} {limits : Limits} {t : Target} {s s' : Session}

theorem answer_returned {ts : TypeSet} (h : s.returned? t = some ts)
    (build : Option (Target → Step Graph)) :
    answer build t s = (.ok (if ts.isEmpty then none else some ts), s) := by
  unfold answer
  rw [get_bind, h]
  cases ts <;> rfl

theorem answer_none (h : s.returned? t = none) :
    answer none t s = (.ok (some TypeSet.unknown), s) := by
  unfold answer
  rw [get_bind, h]
  rfl

theorem answer_fresh (h : s.returned? t = none) (build : Target → Step Graph) :
    answer (some build) t s = match build t s with
      | (.ok g, s') => (.ok (some (shownResult g)), s')
      | (.error (.defective d), s') => (.error (.defective d), s')
      | (.error _, s') => (.ok (some TypeSet.unknown), s') := by
  unfold answer
  rw [get_bind, h]
  dsimp only
  rw [run_tryCatch, run_bind]
  rcases build t s with ⟨e | g, s'⟩
  · cases e <;> rfl
  · rfl

theorem resultOf_returned {ts : TypeSet} (h : s.returned? t = some ts) (room : Nat) :
    resultOf image limits room t s = (.ok (if ts.isEmpty then none else some ts), s) := by
  cases room <;> exact answer_returned h _

theorem resultOf_zero (h : s.returned? t = none) :
    resultOf image limits 0 t s = (.ok (some TypeSet.unknown), s) :=
  answer_none h

theorem resultOf_succ (h : s.returned? t = none) (room : Nat) :
    resultOf image limits (room + 1) t s =
      match buildWith image limits (resultOf image limits room) t s with
      | (.ok g, s') => (.ok (some (shownResult g)), s')
      | (.error (.defective d), s') => (.error (.defective d), s')
      | (.error _, s') => (.ok (some TypeSet.unknown), s') :=
  answer_fresh h _

/-- One call more: what is asked for is noted, unknown, or built by asking further. -/
theorem resultOf_cases {r : Except Refusal (Option TypeSet)}
    (hask : ∀ n, room = n + 1 → Asking image limits (resultOf image limits n))
    (h : resultOf image limits room t s = (r, s')) :
    (∃ a, r = .ok a) ∧ Grows image limits s s' ∨ ∃ d, r = .error (.defective d) := by
  rcases hreturned : s.returned? t with _ | ts
  · cases room with
    | zero =>
      rw [resultOf_zero hreturned] at h
      cases h
      exact .inl ⟨⟨_, rfl⟩, .refl s⟩
    | succ room =>
      have ih := hask room rfl
      rw [resultOf_succ hreturned] at h
      rcases hbuild : buildWith image limits (resultOf image limits room) t s with ⟨e | g, s₁⟩ <;>
        rw [hbuild] at h
      · rcases buildWith_error ih hbuild with ⟨d, rfl⟩ | ⟨rfl, -⟩
        · cases h
          exact .inr ⟨d, rfl⟩
        · cases e <;> cases h
          · exact .inl ⟨⟨_, rfl⟩, .refl _⟩
          · exact .inl ⟨⟨_, rfl⟩, .refl _⟩
          · exact .inr ⟨_, rfl⟩
      · cases h
        exact .inl ⟨⟨_, rfl⟩, (buildWith_ok ih hreturned hbuild).1⟩
  · rw [resultOf_returned hreturned] at h
    cases h
    exact .inl ⟨⟨_, rfl⟩, .refl s⟩

theorem asking_of_room (hask : ∀ n, room = n + 1 → Asking image limits (resultOf image limits n)) :
    Asking image limits (resultOf image limits room) := by
  refine ⟨fun h => ?_, fun h => ?_⟩
  · rcases resultOf_cases hask h with ⟨-, hgrows⟩ | ⟨d, hd⟩
    · exact hgrows
    · cases hd
  · rcases resultOf_cases hask h with ⟨⟨a, ha⟩, -⟩ | ⟨d, hd⟩
    · cases ha
    · cases hd
      exact ⟨d, rfl⟩

/-- Asking adds graphs and fails for defects only. -/
theorem asking_resultOf : ∀ room : Nat, Asking image limits (resultOf image limits room)
  | 0 => asking_of_room fun _ hn => by cases hn
  | room + 1 => asking_of_room fun n hn => by
    cases hn
    exact asking_resultOf room

/-- A function gives the same result again, as long as what it has returned so far is the same. -/
theorem resultOf_again {r : Option TypeSet} {s'' : Session}
    (h : resultOf image limits room t s = (.ok r, s')) (hreturned : s''.returned? t = s.returned? t)
    (hbuilt : ∃ new, s''.built = s'.built ++ new ∧ ∀ e ∈ new, Preparable image limits e.1) :
    resultOf image limits room t s'' = (.ok r, s'') := by
  obtain ⟨new, hnew, hall⟩ := hbuilt
  rcases hs : s.returned? t with _ | ts
  · rw [hs] at hreturned
    cases room with
    | zero =>
      rw [resultOf_zero hs] at h
      cases h
      exact resultOf_zero hreturned
    | succ room =>
      rw [resultOf_succ hs] at h
      rw [resultOf_succ hreturned]
      rcases hbuild : buildWith image limits (resultOf image limits room) t s with ⟨e | g, s₁⟩ <;>
        rw [hbuild] at h
      · rcases buildWith_error (asking_resultOf room) hbuild with ⟨d, rfl⟩ | ⟨rfl, hagain⟩
        · cases h
        · have hbuilt : ∀ b ∈ s''.built, b ∈ s₁.built ∨ Preparable image limits b.1 := by
            intro b hb
            have hs' : s'.built = s₁.built := by cases e <;> cases h <;> rfl
            rw [hnew, hs'] at hb
            exact (mem_append.mp hb).imp_right (hall b)
          rw [hagain s'' hbuilt]
          cases e <;> cases h <;> rfl
      · cases h
        obtain ⟨-, hfind, hagain⟩ := buildWith_ok (asking_resultOf room) hs hbuild
        have hfound : s''.find? t = some g := by
          unfold Session.find? at hfind ⊢
          obtain ⟨b, hb, rfl⟩ := Option.map_eq_some_iff.mp hfind
          rw [hnew, find?_append, hb]
          rfl
        rw [hagain s'' hfound]
  · rw [resultOf_returned hs] at h
    cases h
    exact resultOf_returned (hreturned.trans hs) room

end Results

end Readiness.Inference
