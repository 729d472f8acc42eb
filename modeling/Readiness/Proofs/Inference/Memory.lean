import Mathlib.Data.Nat.Find
import Readiness.Proofs.Inference.Bookkeeping

/-!
# Graphs that are kept

Errors, blocks, edges and names of a graph do not depend on what was asked before, nor
do declared types.  The types of names and of results do not either, as long as all targets are
typed on their own within the limit of calls (`build_after_history`).
-/

namespace Readiness.Inference

open Graph (Statement)
open List

/-! ### Targets that are refused -/

/-- Every graph of a session is that of its target, as far as the groundwork goes. -/
def Session.Grounded (image : Image) (limits : Limits) (s : Session) : Prop :=
  ∀ b ∈ s.built, BuiltFor image limits b

variable {e : Refusal}

section Grounding

variable {image : Image} {limits : Limits} {ask : Target → Step (Option TypeSet)} {t : Target}
  {s : Session}

theorem exists_of_find? {g : Graph} (h : s.find? t = some g) :
    ∃ u, (u, g) ∈ s.built ∧ u.same t = true := by
  obtain ⟨⟨u, g'⟩, hb, rfl⟩ := Option.map_eq_some_iff.mp h
  exact ⟨u, mem_of_find?_eq_some hb, by simpa using find?_some hb⟩

theorem refusal?_eq_some : refusal? image limits t = some e ↔ isDefect e = false ∧
    (admitted image t = .error e ∨
      admitted image t = .ok () ∧ groundwork image limits t = .error e) := by
  unfold refusal?
  cases admitted image t with
  | error e' =>
    simp only [bind, Except.bind]
    cases hdefect : isDefect e' <;> grind
  | ok x =>
    simp only [bind, Except.bind]
    cases groundwork image limits t with
    | error e' => cases hdefect : isDefect e' <;> grind
    | ok w => grind

/-- A target that is refused is the same as none for which there is a graph. -/
theorem find?_eq_none_of_refusal? (hs : s.Grounded image limits) (hdefect : isDefect e = false)
    (hwork : groundwork image limits t = .error e) : s.find? t = none := by
  refine find?_of_groundwork_error hwork ?_ fun b hb _ => ?_
  · rintro d rfl
    cases hdefect
  · obtain ⟨w, types, returns, hw, -⟩ := hs b hb
    exact ⟨w.label, _, groundwork_ok hw⟩

/-- Whether a target is refused does not depend on the session. -/
theorem buildWith_eq_error_iff (hask : Asking image limits ask) (hs : s.Grounded image limits)
    (hdefect : isDefect e = false) :
    (buildWith image limits ask t s).1 = .error e ↔ refusal? image limits t = some e := by
  rw [refusal?_eq_some, buildWith_eq]
  cases hadmitted : admitted image t with
  | error e' => simp [hdefect]
  | ok _ =>
    dsimp only
    constructor
    · intro h
      refine ⟨hdefect, .inr ⟨rfl, ?_⟩⟩
      split at h
      · cases h
      · rw [buildAnew_eq] at h
        split at h
        · rename_i e' hwork
          cases h
          exact hwork
        · split at h
          · rename_i e' s' hinfer
            cases h
            obtain ⟨d, rfl⟩ := defective_of_infer hask hinfer
            cases hdefect
          · cases h
    · rintro ⟨-, h | ⟨-, hwork⟩⟩
      · cases h
      · rw [find?_eq_none_of_refusal? hs hdefect hwork]
        rw [buildAnew_eq, hwork]

end Grounding

/-! ### Graphs of targets on their own -/

/-- Every graph of a session is the one that its target has on its own, within a depth. -/
def Session.Faithful (image : Image) (limits : Limits) (depth : Nat) (s : Session) : Prop :=
  ∀ b ∈ s.built, ∃ n ≤ depth, Standalone image limits n b.1 b.2

/-- What is being typed has no place among the calls of a target on its own that nest to a depth. -/
def Session.Clear (image : Image) (limits : Limits) (n : Nat) (s : Session) : Prop :=
  ∀ b ∈ s.pending, refusal? image limits b.1 = none ∧ ∀ g, ¬Standalone image limits n b.1 g

/-- A session in which only one target is being typed beside one where others are being typed. -/
def Alongside (image : Image) (limits : Limits) (depth : Nat) (t : Target)
    (others : List (Target × TypeSet)) (s s' : Session) : Prop :=
  ∃ ts, s.pending = [(t, ts)] ∧ s'.pending = (t, ts) :: others ∧ s'.Faithful image limits depth

/-- A target on its own gets its graph in every session that is faithful and clear. -/
def Rebuilds (image : Image) (limits : Limits) (depth n : Nat) : Prop :=
  ∀ {t g room s}, Standalone image limits n t g → Canonical t → n ≤ room → room ≤ depth →
    s.Faithful image limits depth → s.Clear image limits n →
    ∃ s', buildWith image limits (resultOf image limits room) t s = (.ok g, s') ∧
      s'.pending = s.pending ∧ s'.Faithful image limits depth

section Rebuilding

variable {image : Image} {limits : Limits} {depth n room : Nat} {t u : Target} {g : Graph}
  {s s' : Session}

theorem Session.Faithful.grounded (hs : s.Faithful image limits depth) :
    s.Grounded image limits := by
  intro b hb
  obtain ⟨n, -, ⟨known, height, -, -, -, -, hbuild⟩⟩ := hs b hb
  obtain ⟨-, w, types, returns, s', hwork, -, hg⟩ := exists_groundwork_of_build hbuild
  exact ⟨w, types, returns, hwork, hg⟩

theorem Session.Clear.mono (hs : s.Clear image limits n) {m : Nat} (hm : m ≤ n) :
    s.Clear image limits m :=
  fun b hb => ⟨(hs b hb).1, fun g hg => (hs b hb).2 g (hg.mono hm)⟩

/-- A canonical target that is refused or has a graph on its own is not being typed. -/
theorem Session.Clear.returned?_eq_none (hs : s.Clear image limits n) (hcanonical : Canonical u)
    (h : refusal? image limits u ≠ none ∨ ∃ g, Standalone image limits n u g) :
    s.returned? u = none := by
  refine Inference.returned?_eq_none.mpr fun b hb => Bool.eq_false_iff.mpr fun hsame => ?_
  obtain rfl := hcanonical b.1 hsame
  rcases h with h | ⟨g, h⟩
  · exact h (hs b hb).1
  · exact (hs b hb).2 g h

/-- Of a target that is refused nothing is known. -/
theorem resultOf_of_refusal? (hs : s.Grounded image limits) (hfresh : s.returned? u = none)
    (h : refusal? image limits u ≠ none) :
    resultOf image limits room u s = (.ok (some TypeSet.unknown), s) := by
  cases room with
  | zero => exact resultOf_zero hfresh
  | succ room =>
    obtain ⟨e, he⟩ := Option.ne_none_iff_exists'.mp h
    have hdefect := (refusal?_eq_some.mp he).1
    have hfirst := (buildWith_eq_error_iff (asking_resultOf room) hs hdefect).mpr he
    rcases hbuild : buildWith image limits (resultOf image limits room) u s with ⟨r, s'⟩
    rw [hbuild] at hfirst
    cases hfirst
    rw [resultOf_succ hfresh, hbuild]
    rcases buildWith_error (asking_resultOf room) hbuild with ⟨d, rfl⟩ | ⟨rfl, -⟩
    · cases hdefect
    · cases e with
      | defective d => cases hdefect
      | _ => rfl

theorem Alongside.returning {others : List (Target × TypeSet)}
    (hothers : ∀ b ∈ others, b.1.same t = false) (h : Alongside image limits depth t others s s')
    (ts : TypeSet) :
    Alongside image limits depth t others (s.returning t ts) (s'.returning t ts) := by
  obtain ⟨ts', hs, hs', hfaithful⟩ := h
  have hself : t.same t = true := Target.same_equivalence.refl t
  have hrest : others.map (fun b => if b.1.same t then (b.1, ts) else b) = others := by
    refine (map_congr_left fun b hb => ?_).trans (map_id _)
    simp [hothers b hb]
  refine ⟨ts, ?_, ?_, hfaithful⟩
  · simp [Session.returning, hs, hself]
  · simp only [Session.returning, hs', map_cons, hself, if_true, hrest]

/-- What a target on its own asks for is answered in every session that is faithful and clear. -/
theorem parallel_resultOf (ih : ∀ m < n, Rebuilds image limits depth m)
    (known : Target → Option (Option Graph)) (height : Target → Nat)
    (hcanonical : ∀ u, known u ≠ none → Canonical u)
    (hrefused : ∀ u, known u = some none → refusal? image limits u ≠ none)
    (hheight : ∀ u g', known u = some (some g') → height u < n)
    (hknown : ∀ u g', known u = some (some g') → Standalone image limits (height u) u g')
    (hroom : n ≤ room) (hdepth : room ≤ depth) (hself : refusal? image limits t = none)
    (hleast : ∀ m < n, ∀ g, ¬Standalone image limits m t g) (hclear : s.Clear image limits n) :
    Parallel (Alongside image limits depth t s.pending) False (answering known u)
      (resultOf image limits room u) := by
  rintro s₁ s₁' a v ⟨ts, hs₁, hs₁', hfaithful⟩ hrun
  have hreturned := returned?_of_pending (s := .empty) hs₁ u
  have hreturned' := returned?_of_pending (s := s) hs₁' u
  left
  cases hsame : t.same u with
  | true =>
    rw [hsame, if_pos rfl] at hreturned hreturned'
    rw [answering_returned hreturned] at hrun
    cases hrun
    exact ⟨s₁', resultOf_returned hreturned' room, ts, hs₁, hs₁', hfaithful⟩
  | false =>
    rw [hsame, if_neg Bool.false_ne_true] at hreturned hreturned'
    rw [answering_fresh hreturned] at hrun
    rcases hu : known u with _ | _ | g' <;> rw [hu] at hrun <;> cases hrun
    · have hrefusal := hrefused u hu
      have hfresh := hclear.returned?_eq_none (hcanonical u (by simp [hu])) (.inl hrefusal)
      exact ⟨s₁', resultOf_of_refusal? hfaithful.grounded (hreturned'.trans hfresh) hrefusal, ts,
        hs₁, hs₁', hfaithful⟩
    · have hlt := hheight u g' hu
      have hstandalone := hknown u g' hu
      have hfresh := hclear.returned?_eq_none (hcanonical u (by simp [hu]))
        (.inr ⟨g', hstandalone.mono (Nat.le_of_lt hlt)⟩)
      obtain ⟨room, rfl⟩ : ∃ r, room = r + 1 := ⟨room - 1, by omega⟩
      -- the target itself is being typed, and its calls nest more deeply
      have hclear' : s₁'.Clear image limits (height u) := by
        intro b hb
        rw [hs₁'] at hb
        rcases mem_cons.mp hb with rfl | hb
        · exact ⟨hself, hleast _ hlt⟩
        · exact hclear.mono (Nat.le_of_lt hlt) b hb
      obtain ⟨s₂, hbuild, hpending, hfaithful'⟩ := ih _ hlt hstandalone
        (hcanonical u (by simp [hu])) (show height u ≤ room by omega) (by omega) hfaithful hclear'
      refine ⟨s₂, ?_, ts, hs₁, hpending.trans hs₁', hfaithful'⟩
      rw [resultOf_succ (hreturned'.trans hfresh), hbuild]

/-- A target on its own that has no graph yet is built as if nothing else were there. -/
theorem buildWith_of_standalone (ih : ∀ m < n, Rebuilds image limits depth m)
    (h : Standalone image limits n t g) (hleast : ∀ m < n, ∀ g, ¬Standalone image limits m t g)
    (hroom : n ≤ room) (hdepth : room ≤ depth) (hs : s.Faithful image limits depth)
    (hclear : s.Clear image limits n) (hfresh : s.returned? t = none) (hfind : s.find? t = none) :
    ∃ s', buildWith image limits (resultOf image limits room) t s = (.ok g, s') ∧
      s'.pending = s.pending ∧ s'.Faithful image limits depth := by
  have hself := h.refusal?_eq_none
  have hstandalone := h
  obtain ⟨known, height, hcanonical, hrefused, hheight, hknown, hbuild⟩ := h
  obtain ⟨hadmitted, w, types, returns, v, hwork, hinfer, rfl⟩ := exists_groundwork_of_build hbuild
  have hothers := Inference.returned?_eq_none.mp hfresh
  have hstart : Alongside image limits depth t s.pending (Session.empty.opened t) (s.opened t) :=
    ⟨[], rfl, rfl, hs⟩
  rcases parallel_infer (fun u => parallel_resultOf ih known height hcanonical hrefused hheight hknown
    hroom hdepth hself hleast hclear) (fun ts _ _ h => h.returning hothers ts) w.params w.fixed
    w.lowered.graph.statements hstart hinfer with
    ⟨v', hinfer', ts, -, hpending, hfaithful⟩ | ⟨hfail, -⟩
  · refine ⟨(v'.closed t).keeping t (w.graph types returns), ?_, ?_, ?_⟩
    · rw [buildWith_eq, hadmitted, hfind]
      dsimp only
      rw [buildAnew_eq, hwork]
      dsimp only
      rw [hinfer']
    · rw [closed_of_pending hfresh hpending]
      rfl
    · intro b hb
      rcases mem_append.mp hb with hb | hb
      · exact hfaithful b hb
      · cases mem_singleton.mp hb
        exact ⟨n, Nat.le_trans hroom hdepth, hstandalone⟩
  · exact hfail.elim

theorem rebuilds (depth n : Nat) : Rebuilds image limits depth n := by
  induction n using Nat.strongRecOn with
  | _ n ih =>
    intro t g room s h hcanonical hroom hdepth hs hclear
    by_cases hleast : ∃ m < n, ∃ g', Standalone image limits m t g'
    · obtain ⟨m, hm, g', hg'⟩ := hleast
      cases h.unique hg'
      exact ih m hm hg' hcanonical (by omega) hdepth hs (hclear.mono (Nat.le_of_lt hm))
    · have hleast : ∀ m < n, ∀ g', ¬Standalone image limits m t g' := fun m hm g' hg' =>
        hleast ⟨m, hm, g', hg'⟩
      rcases hfind : s.find? t with _ | g'
      · exact buildWith_of_standalone ih h hleast hroom hdepth hs hclear
          (hclear.returned?_eq_none hcanonical (.inr ⟨g, h⟩)) hfind
      · obtain ⟨u, hu, hsame⟩ := exists_of_find? hfind
        obtain rfl := hcanonical u hsame
        obtain ⟨m, -, hm⟩ := hs _ hu
        cases h.unique hm
        obtain ⟨known, height, -, -, -, -, hbuild⟩ := h
        obtain ⟨hadmitted, -⟩ := exists_groundwork_of_build hbuild
        refine ⟨s, ?_, rfl, hs⟩
        rw [buildWith_eq, hadmitted, hfind]

end Rebuilding

/-! ### Sessions after requests -/

/-- Within the limit of calls a target is typed on its own, or it is refused. -/
def TypedAlone (image : Image) (limits : Limits) (t : Target) : Prop :=
  (∃ n ≤ limits.calls.getD boundlessCalls, ∃ g, Standalone image limits n t g) ∨
    refusal? image limits t ≠ none

/-- Between two requests nothing is being typed, and all graphs are those of targets on their own.
-/
def Session.Calm (image : Image) (limits : Limits) (s : Session) : Prop :=
  s.pending = [] ∧ s.Faithful image limits (limits.calls.getD boundlessCalls)

section History

variable {image : Image} {limits : Limits} {t : Target} {g : Graph} {s : Session}

theorem Session.Grounded.after (history : List Target) :
    (Session.after image limits history).Grounded image limits := by
  obtain ⟨new, hnew, hall⟩ := (Session.Tidy.after image limits history).built
  exact fun b hb => (hall b (hnew ▸ hb : b ∈ [] ++ new)).2

theorem Session.calm_empty : Session.empty.Calm image limits := ⟨rfl, fun _ hb => nomatch hb⟩

/-- A target on its own that has no graph yet gets its graph between two requests. -/
theorem Session.Calm.build_standalone (hs : s.Calm image limits) {n : Nat}
    (hn : n ≤ limits.calls.getD boundlessCalls) (h : Standalone image limits n t g)
    (hfind : s.find? t = none) : ∃ s', build image limits t s = (.ok g, s') ∧
      s'.Calm image limits := by
  classical
  have hexists : ∃ m, ∃ g', Standalone image limits m t g' := ⟨n, g, h⟩
  obtain ⟨g', hg'⟩ := Nat.find_spec hexists
  cases h.unique hg'
  have hle : Nat.find hexists ≤ n := Nat.find_min' hexists ⟨g, h⟩
  have hclear : s.Clear image limits (Nat.find hexists) := fun b hb => by
    rw [hs.1] at hb
    cases hb
  have hfresh : s.returned? t = none := by
    rw [Session.returned?, hs.1]
    rfl
  obtain ⟨s', hbuild, hpending, hfaithful⟩ := buildWith_of_standalone (fun m _ => rebuilds _ m) hg'
    (fun m hm g' hg' => Nat.find_min hexists hm ⟨g', hg'⟩) (Nat.le_trans hle hn) (Nat.le_refl _) hs.2
    hclear hfresh hfind
  exact ⟨s', hbuild, hpending.trans hs.1, hfaithful⟩

/-- Between two requests a target that is typed on its own, or refused, gets the answer that it or a
target which is the same gets in an empty session. -/
theorem Session.Calm.build_typedAlone (hs : s.Calm image limits) (h : TypedAlone image limits t) :
    (build image limits t s).2.Calm image limits ∧ ∃ u, u.same t = true ∧
      (build image limits t s).1 = (build image limits u .empty).1 := by
  have hself : t.same t = true := Target.same_equivalence.refl t
  rcases h with ⟨n, hn, g, hg⟩ | hrefused
  · rcases hfind : s.find? t with _ | g'
    · obtain ⟨s', hbuild, hcalm⟩ := hs.build_standalone hn hg hfind
      obtain ⟨s₀, hbuild₀, -⟩ := Session.calm_empty.build_standalone hn hg rfl
      exact ⟨hbuild ▸ hcalm, t, hself, by rw [hbuild, hbuild₀]⟩
    · obtain ⟨u, hu, hsame⟩ := exists_of_find? hfind
      obtain ⟨m, hm, hg'⟩ := hs.2 _ hu
      obtain ⟨s₀, hbuild₀, -⟩ := Session.calm_empty.build_standalone hm hg' rfl
      obtain ⟨known, height, -, -, -, -, hknown⟩ := hg
      have hbuild : build image limits t s = (.ok g', s) := by
        rw [build, buildWith_eq, (exists_groundwork_of_build hknown).1, hfind]
      exact ⟨hbuild ▸ hs, u, hsame, by rw [hbuild, hbuild₀]⟩
  · obtain ⟨e, he⟩ := Option.ne_none_iff_exists'.mp hrefused
    have hdefect := (refusal?_eq_some.mp he).1
    have hempty : Session.empty.Calm image limits := Session.calm_empty
    have hfirst : (build image limits t s).1 = .error e :=
      (buildWith_eq_error_iff (asking_resultOf _) hs.2.grounded hdefect).mpr he
    have hfirst₀ : (build image limits t .empty).1 = .error e :=
      (buildWith_eq_error_iff (asking_resultOf _) hempty.2.grounded hdefect).mpr he
    refine ⟨?_, t, hself, hfirst.trans hfirst₀.symm⟩
    rcases hbuild : build image limits t s with ⟨r, s'⟩
    cases (congrArg Prod.fst hbuild).symm.trans hfirst
    rcases buildWith_error (asking_resultOf _) hbuild with ⟨d, rfl⟩ | ⟨rfl, -⟩
    · cases hdefect
    · exact hs

theorem Session.Calm.after {history : List Target}
    (h : ∀ u ∈ history, TypedAlone image limits u) :
    (Session.after image limits history).Calm image limits :=
  foldlRecOn history _ Session.calm_empty fun _ hs t ht => (hs.build_typedAlone (h t ht)).1

/-- A graph that a request gets rests on the groundwork of a target which is the same. -/
theorem Session.Grounded.exists_of_build (hs : s.Grounded image limits)
    (h : (build image limits t s).1 = .ok g) :
    ∃ u w types returns, u.same t = true ∧ groundwork image limits u = .ok w ∧
      g = w.graph types returns := by
  rw [build, buildWith_eq] at h
  split at h
  · cases h
  · split at h
    · rename_i g' hfind
      cases h
      obtain ⟨u, hu, hsame⟩ := exists_of_find? hfind
      obtain ⟨w, types, returns, hw, rfl⟩ := hs _ hu
      exact ⟨u, w, types, returns, hsame, hw, rfl⟩
    · rw [buildAnew_eq] at h
      split at h
      · cases h
      · rename_i w hw
        split at h
        · cases h
        · cases h
          exact ⟨t, w, _, _, Target.same_equivalence.refl t, hw, rfl⟩

/-- Two graphs for one target have the same blocks, edges and names, and the same declared types
when no other target is the same. -/
theorem parts_of_builds {s' : Session} {g' : Graph} (hs : s.Grounded image limits)
    (hs' : s'.Grounded image limits) (h : (build image limits t s).1 = .ok g)
    (h' : (build image limits t s').1 = .ok g') :
    g.blocks = g'.blocks ∧ g.edges = g'.edges ∧ g.locals = g'.locals ∧
      (Canonical t → g.declared = g'.declared) := by
  obtain ⟨u, w, types, returns, hsame, hw, rfl⟩ := hs.exists_of_build h
  obtain ⟨u', w', types', returns', hsame', hw', rfl⟩ := hs'.exists_of_build h'
  have hu : u.same u' = true :=
    Target.same_equivalence.trans hsame (Target.same_equivalence.symm hsame')
  have hlowered : w.lowered = w'.lowered := prepare_lowered hu (groundwork_ok hw) (groundwork_ok hw')
  refine ⟨?_, ?_, ?_, fun hcanonical => ?_⟩
  · exact congrArg (fun l => l.graph.blocks) hlowered
  · exact congrArg (fun l => l.graph.edges) hlowered
  · exact congrArg Lowering.Lowered.locals hlowered
  · obtain rfl := hcanonical u hsame
    obtain rfl := hcanonical u' hsame'
    cases hw.symm.trans hw'
    rfl

end History

/-- After any requests a target is refused exactly when it is refused in an empty session, and for
the same cause, defects apart; its graph has the blocks, edges, names and declared types that it has
in an empty session.  When all targets so far are typed on their own or refused, then the whole
answer is that of an empty session. -/
theorem build_after_history (image : Image) (limits : Limits) (history : List Target) (t : Target) :
    (∀ e, isDefect e = false →
      ((build image limits t (Session.after image limits history)).1 = .error e ↔
        (build image limits t .empty).1 = .error e)) ∧
    (∀ g g₀, (build image limits t (Session.after image limits history)).1 = .ok g →
      (build image limits t .empty).1 = .ok g₀ →
      g.blocks = g₀.blocks ∧ g.edges = g₀.edges ∧ g.locals = g₀.locals ∧
        (Canonical t → g.declared = g₀.declared)) ∧
    ((∀ u ∈ history, TypedAlone image limits u) → TypedAlone image limits t →
      ∃ t', t'.same t = true ∧ (Canonical t → t' = t) ∧
        (build image limits t (Session.after image limits history)).1 =
          (build image limits t' .empty).1) := by
  have hafter : (Session.after image limits history).Grounded image limits :=
    Session.Grounded.after history
  have hempty : Session.empty.Grounded image limits := Session.Grounded.after []
  refine ⟨fun e hdefect => ?_, fun g g₀ h h₀ => parts_of_builds hafter hempty h h₀,
    fun hhistory ht => ?_⟩
  · exact (buildWith_eq_error_iff (asking_resultOf _) hafter hdefect).trans
      (buildWith_eq_error_iff (asking_resultOf _) hempty hdefect).symm
  · obtain ⟨-, u, hsame, hanswer⟩ := (Session.Calm.after hhistory).build_typedAlone ht
    exact ⟨u, hsame, fun hcanonical => hcanonical u hsame, hanswer⟩

/-! ### Two functions -/

def callOf (f : String) : Source.Expr :=
  .call ⟨1, 0, 1⟩ (.name ⟨1, 0, 1⟩ f .load) [.name ⟨1, 0, 1⟩ "n" .load] []

def functionOf (name : String) (body : List Source.Stmt) : Image.Function :=
  { (default : Image.Function) with
    name, qualname := name, signature := ⟨[⟨"n", .positional, none, none⟩], none⟩
    definition := .function 1 body }

def twoFunctions (f g : List Source.Stmt) : Image :=
  { Image.empty with
    globals := Table.ofList [("f", .function 0), ("g", .function 1)]
    functions := #[functionOf "f" f, functionOf "g" g] }

/-- Returns what a function gives for the parameter. -/
def relaying (f : String) : List Source.Stmt :=
  [.assign ⟨1, 0, 1⟩ [.name ⟨1, 0, 1⟩ "x" .store] (callOf f),
    .ret ⟨1, 0, 1⟩ (some (.name ⟨1, 0, 1⟩ "x" .load))]

def forNumber (id : Nat) : Target := ⟨.function id, [.cls (.builtin "int")]⟩

/-- The first function calls itself and the second one, which calls nothing. -/
def chained : Image :=
  twoFunctions (.discard ⟨1, 0, 1⟩ (callOf "f") :: relaying "g")
    [.ret ⟨1, 0, 1⟩ (some (.name ⟨1, 0, 1⟩ "n" .load))]

/-- Calls are followed to some depth. -/
def shallow : Limits := ⟨none, some 4, none⟩

def innermost : Option Graph :=
  (buildWith chained shallow (answering fun _ => none) (forNumber 1) .empty).1.toOption

/-- What the first function asks for. -/
def knownInnermost (u : Target) : Option (Option Graph) :=
  if u.same (forNumber 1) then some innermost else none

theorem canonical_forNumber (id : Nat) : Canonical (forNumber id) :=
  canonical_of_concrete fun b hb => by
    cases mem_singleton.mp hb
    rfl

theorem exists_of_isOk {image : Image} {limits : Limits} {ask : Target → Step (Option TypeSet)}
    {t : Target} (h : (buildWith image limits ask t .empty).1.isOk = true) :
    ∃ g s, buildWith image limits ask t .empty = (.ok g, s) := by
  rcases hbuild : buildWith image limits ask t .empty with ⟨e | g, s⟩
  · rw [hbuild] at h
    cases h
  · exact ⟨g, s, rfl⟩

theorem standalone_innermost : ∃ g, innermost = some g ∧
    Standalone chained shallow 0 (forNumber 1) g := by
  obtain ⟨g, s, hbuild⟩ := @exists_of_isOk chained shallow (answering fun _ => none) (forNumber 1)
    (by decide +kernel)
  refine ⟨g, ?_, ⟨fun _ => none, fun _ => 0, ?_, ?_, ?_, ?_, hbuild⟩⟩
  · rw [innermost, hbuild]
    rfl
  · exact fun u hu => (hu rfl).elim
  · exact fun u hu => nomatch hu
  · exact fun u g' hu => nomatch hu
  · exact fun u g' hu => nomatch hu

theorem standalone_outermost : ∃ g, Standalone chained shallow 1 (forNumber 0) g := by
  obtain ⟨g₁, hinnermost, hstandalone⟩ := standalone_innermost
  obtain ⟨g, s, hbuild⟩ := @exists_of_isOk chained shallow (answering knownInnermost) (forNumber 0)
    (by decide +kernel)
  have hknown : ∀ u r, knownInnermost u = some r → u = forNumber 1 ∧ r = some g₁ := by
    intro u r hu
    unfold knownInnermost at hu
    split at hu
    · rename_i hsame
      exact ⟨canonical_forNumber 1 u hsame, (Option.some.inj hu).symm.trans hinnermost⟩
    · cases hu
  refine ⟨g, ⟨knownInnermost, fun _ => 0, ?_, ?_, ?_, ?_, hbuild⟩⟩
  · intro u hu
    obtain ⟨r, hr⟩ := Option.ne_none_iff_exists'.mp hu
    rw [(hknown u r hr).1]
    exact canonical_forNumber 1
  · intro u hu
    cases (hknown u _ hu).2
  · exact fun u g' _ => Nat.one_pos
  · intro u g' hu
    obtain ⟨rfl, hg'⟩ := hknown u _ hu
    cases hg'
    exact hstandalone

theorem chained_build_after_history :
    (∀ u ∈ [forNumber 0, forNumber 7], TypedAlone chained shallow u) ∧
    TypedAlone chained shallow (forNumber 1) ∧
    (build chained shallow (forNumber 1)
      (Session.after chained shallow [forNumber 0, forNumber 7])).1 =
        (build chained shallow (forNumber 1) .empty).1 := by
  have hhistory : ∀ u ∈ [forNumber 0, forNumber 7], TypedAlone chained shallow u := by
    intro u hu
    rcases List.mem_pair.mp hu with rfl | rfl
    · obtain ⟨g, hg⟩ := standalone_outermost
      exact .inl ⟨1, by decide, g, hg⟩
    · exact .inr (by decide +kernel)
  have htarget : TypedAlone chained shallow (forNumber 1) := by
    obtain ⟨g, -, hg⟩ := standalone_innermost
    exact .inl ⟨0, by decide, g, hg⟩
  obtain ⟨u, -, hu, hanswer⟩ := (build_after_history chained shallow _ _).2.2 hhistory htarget
  rw [hu (canonical_forNumber 1)] at hanswer
  exact ⟨hhistory, htarget, hanswer⟩

def mutuals : Image :=
  twoFunctions
    [.discard ⟨1, 0, 1⟩ (callOf "g"), .ret ⟨1, 0, 1⟩ (some (.constant ⟨1, 0, 1⟩ (.int 1)))]
    (relaying "f")

def typedNames (s : Session) : Option (List String) :=
  (build mutuals shallow (forNumber 1) s).1.toOption.map fun g => g.types.keys

-- The second function was typed while the first one had returned nothing yet, and that is kept.
example : typedNames (Session.after mutuals shallow [forNumber 0]) = some ["n"] ∧
    typedNames .empty = some ["n", "x"] := by
  decide +kernel

end Readiness.Inference
