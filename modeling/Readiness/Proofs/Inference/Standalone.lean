import Readiness.Proofs.Inference.Session

/-!
# Targets that are typed on their own

`Standalone` says of a target and its graph that typing asks for nothing but the target
itself and what is typed on its own or refused, with a bound on how deeply the calls nest. There is
at most one such graph (`Standalone.unique`). Two runs that ask for answers which agree go on in
parallel (`parallel_infer`).
-/

namespace Readiness.Inference

open Graph (Statement)

/-! ### Targets that are refused -/

/-- Why a target is refused before it is typed, unless it is for a defect. -/
def refusal? (image : Image) (limits : Limits) (t : Target) : Option Refusal :=
  match admitted image t >>= fun _ => groundwork image limits t with
  | .ok _ => none
  | .error e => if isDefect e then none else some e

variable {u : Target}
variable {bs : List TypeExpr}

section Same

variable {image : Image} {limits : Limits}
variable {x y : Lowering.Lowered × Types}

theorem prepareFunction_lowered {id : Nat} {f : Image.Function} {as bs : List TypeExpr}
    (hlength : as.length = bs.length) {label label' : String}
    (hx : prepareFunction image limits id f as label = .ok x)
    (hy : prepareFunction image limits id f bs label' = .ok y) : x.1 = y.1 := by
  unfold prepareFunction at hx hy
  split at hx
  · cases hx
  · rename_i hasync
    rw [if_neg hasync] at hy
    obtain ⟨bound, hbound, hx⟩ := ok_of_bind hx
    obtain ⟨body, hbody, hx⟩ := ok_of_bind hx
    obtain ⟨lowered, hlowered, hx⟩ := ok_of_bind hx
    obtain ⟨bound₁, hbound₁, hy⟩ := ok_of_bind hy
    obtain ⟨body₁, hbody₁, hy⟩ := ok_of_bind hy
    obtain ⟨lowered₁, hlowered₁, hy⟩ := ok_of_bind hy
    obtain ⟨types, -, hx⟩ := ok_of_bind hx
    obtain ⟨types₁, -, hy⟩ := ok_of_bind hy
    cases hx
    cases hy
    obtain ⟨bound', hbound', hnames⟩ := boundTypes_of_length hlength (ok_of_mapError hbound)
    cases hbound'.symm.trans (ok_of_mapError hbound₁)
    cases (ok_of_mapError hbody).symm.trans (ok_of_mapError hbody₁)
    have hsecond := ok_of_mapError hlowered₁
    rw [hnames] at hsecond
    exact Except.ok.inj ((ok_of_mapError hlowered).symm.trans hsecond)

theorem prepare_lowered {b : Target} (h : b.same u = true) {label label' : String}
    (hx : prepare image limits b label = .ok x) (hy : prepare image limits u label' = .ok y) :
    x.1 = y.1 := by
  obtain ⟨hsame, hlength⟩ := plainTarget_of_same image h
  unfold prepare at hx hy
  dsimp only at hx hy
  split at hx
  · rename_i id hcallable
    rw [eq_function_of_same hsame hcallable] at hy
    dsimp only at hy
    split at hx
    · cases hx
    · rename_i f hf
      rw [hf] at hy
      exact prepareFunction_lowered hlength hx hy
  · split at hx <;> cases hx
  · cases hx

end Same

/-! ### Two runs -/

/-- When the first run succeeds, the second one gives the same result, from sessions that are
related to sessions that are related; or else it fails, if it may. -/
def Parallel (R : Session → Session → Prop) (mayFail : Prop) {α : Type} (m m' : Step α) : Prop :=
  ∀ ⦃s s' a u⦄, R s s' → m s = (.ok a, u) →
    (∃ u', m' s' = (.ok a, u') ∧ R u u') ∨ mayFail ∧ ∃ e u', m' s' = (.error e, u')

section Parallels

variable {R : Session → Session → Prop} {mayFail : Prop}

theorem parallel_stepwise : Stepwise (Parallel R mayFail) where
  pure a s s' b u hR h := by
    cases h
    exact .inl ⟨s', rfl, hR⟩
  throw e s s' b u _ h := by cases h
  bind h hf s s' b u hR hrun := by
    obtain ⟨a, s₁, hm, hrun⟩ := bind_eq_ok.mp hrun
    rcases h hR hm with ⟨s₁', hm', hR'⟩ | ⟨hfail, e, u', herror⟩
    · rcases hf a hR' hrun with ⟨u', hrun', hR''⟩ | ⟨hfail, e, u', herror⟩
      · exact .inl ⟨u', bind_eq_ok.mpr ⟨a, s₁', hm', hrun'⟩, hR''⟩
      · exact .inr ⟨hfail, e, u', bind_eq_error.mpr (.inr ⟨a, s₁', hm', herror⟩)⟩
    · exact .inr ⟨hfail, e, u', bind_eq_error.mpr (.inl herror)⟩

theorem parallel_modify {f : Session → Session} (hf : ∀ s s', R s s' → R (f s) (f s')) :
    Parallel R mayFail (modify f : Step Unit) (modify f) := by
  intro s s' a u hR h
  cases h
  exact .inl ⟨f s', rfl, hf s s' hR⟩

/-- Two runs that ask for answers which agree give the same types. -/
theorem parallel_infer {image : Image} {ask ask' : Target → Step (Option TypeSet)}
    (hask : ∀ u, Parallel R mayFail (ask u) (ask' u)) {t : Target}
    (hR : ∀ ts s s', R s s' → R (s.returning t ts) (s'.returning t ts)) (params fixed : Types)
    (statements : List Statement) : Parallel R mayFail (infer image ask params fixed t statements)
      (infer image ask' params fixed t statements) :=
  parallel_stepwise.infer hask (fun ts => parallel_modify (hR ts)) params fixed statements

end Parallels

/-! ### Targets on their own -/

def Canonical (t : Target) : Prop := ∀ u : Target, u.same t = true → u = t

theorem eq_of_forall₂ {as bs : List TypeExpr}
    (h : List.Forall₂ (fun a b => TypeExpr.same a b = true) as bs)
    (heq : ∀ b ∈ bs, ∀ a, TypeExpr.same a b = true → a = b) : as = bs := by
  induction h with
  | nil => rfl
  | @cons a b as bs hab _ ih =>
    rw [heq b List.mem_cons_self a hab, ih fun b hb => heq b (List.mem_cons_of_mem _ hb)]

theorem eq_ellipsis_or_isConcrete (h : TypeExpr.argsConcrete bs = true) {b : TypeExpr} (hb : b ∈ bs) :
    b = .ellipsis ∨ b.isConcrete = true := by
  induction bs with
  | nil => cases hb
  | cons y ys ih =>
    have hparts : (y = .ellipsis ∨ y.isConcrete = true) ∧ TypeExpr.argsConcrete ys = true := by
      cases y <;> simp_all [TypeExpr.argsConcrete]
    rcases List.mem_cons.mp hb with rfl | hb
    · exact hparts.1
    · exact ih hparts.2 hb

/-- Only a concrete type itself agrees with it. -/
theorem eq_of_same_of_isConcrete (b : TypeExpr) (hb : b.isConcrete = true) (a : TypeExpr)
    (h : TypeExpr.same a b = true) : a = b := by
  cases (TypeExpr.same_iff a b).mp h with
  | refl => rfl
  | @generic origin as bs hall =>
    rw [TypeExpr.isConcrete, Bool.and_eq_true] at hb
    rw [eq_of_forall₂ hall fun y hy x hxy => ?_]
    have hlt := List.sizeOf_lt_of_mem hy
    rcases eq_ellipsis_or_isConcrete hb.2 hy with rfl | hconcrete
    · cases (TypeExpr.same_iff x .ellipsis).mp hxy with
      | refl => rfl
      | union _ hmembers => cases hmembers
    · exact eq_of_same_of_isConcrete y hconcrete x hxy
  | union _ hmembers => cases b <;> cases hmembers <;> cases hb
  | _ => cases hb
termination_by sizeOf b
decreasing_by
  subst_vars
  simp only [TypeExpr.generic.sizeOf_spec]
  omega

theorem canonical_of_concrete {id : Nat} {args : List TypeExpr}
    (h : ∀ b ∈ args, b.isConcrete = true) : Canonical ⟨.function id, args⟩ := by
  rintro ⟨callable, as⟩ hsame
  obtain ⟨hcallable, hargs⟩ := Bool.and_eq_true_iff.mp hsame
  have hfunction : callable = .function id := by
    cases callable <;> simp_all [Entity.same]
  have hall := (TypeExpr.sameAll_iff as args).mp hargs
  rw [hfunction, eq_of_forall₂ hall fun b hb => eq_of_same_of_isConcrete b (h b hb)]

/-- Answers from graphs: a target that is being typed answers with what it has returned so far, and
one without a graph is taken for one that is refused. -/
def answering (known : Target → Option (Option Graph)) (u : Target) : Step (Option TypeSet) := do
  match (← get).returned? u with
  | some [] => return none
  | some ts => return some ts
  | none =>
    match known u with
    | some (some g) => return some (shownResult g)
    | some none => return some TypeSet.unknown
    | none => throw (.defective .unhashable)

variable {known : Target → Option (Option Graph)}

theorem answering_returned {s : Session} {ts : TypeSet} (h : s.returned? u = some ts) :
    answering known u s = (.ok (if ts.isEmpty then none else some ts), s) := by
  unfold answering
  rw [get_bind, h]
  cases ts <;> rfl

theorem answering_fresh {s : Session} (h : s.returned? u = none) :
    answering known u s = match known u with
      | some (some g) => (.ok (some (shownResult g)), s)
      | some none => (.ok (some TypeSet.unknown), s)
      | none => (.error (.defective .unhashable), s) := by
  unfold answering
  rw [get_bind, h]
  rcases known u with _ | _ | _ <;> rfl

/-- The graph of a target that asks for nothing but itself, targets that are refused, and targets of
the same kind whose calls nest less deeply. -/
inductive Standalone (image : Image) (limits : Limits) : Nat → Target → Graph → Prop
  | intro {n : Nat} {t : Target} {g : Graph} {s : Session} (known : Target → Option (Option Graph))
    (height : Target → Nat) (hcanonical : ∀ u, known u ≠ none → Canonical u)
    (hrefused : ∀ u, known u = some none → refusal? image limits u ≠ none)
    (hheight : ∀ u g', known u = some (some g') → height u < n)
    (hknown : ∀ u g', known u = some (some g') → Standalone image limits (height u) u g')
    (hbuild : buildWith image limits (answering known) t .empty = (.ok g, s)) :
    Standalone image limits n t g

section Standalone

variable {image : Image} {limits : Limits} {n : Nat} {t : Target} {g : Graph}

theorem Standalone.mono (h : Standalone image limits n t g) {m : Nat} (hm : n ≤ m) :
    Standalone image limits m t g := by
  obtain ⟨known, height, hcanonical, hrefused, hheight, hknown, hbuild⟩ := h
  exact ⟨known, height, hcanonical, hrefused, fun u g' hu => Nat.lt_of_lt_of_le (hheight u g' hu) hm,
    hknown, hbuild⟩

theorem exists_groundwork_of_build {ask : Target → Step (Option TypeSet)} {s : Session}
    (h : buildWith image limits ask t .empty = (.ok g, s)) :
    admitted image t = .ok () ∧ ∃ w types returns s', groundwork image limits t = .ok w ∧
      infer image ask w.params w.fixed t w.lowered.graph.statements (Session.empty.opened t) =
        (.ok (types, returns), s') ∧ g = w.graph types returns := by
  rw [buildWith_eq] at h
  split at h
  · cases h
  · rename_i hadmitted
    refine ⟨hadmitted, ?_⟩
    change buildAnew image limits ask t .empty = _ at h
    rw [buildAnew_eq] at h
    split at h
    · cases h
    · rename_i w hwork
      split at h
      · cases h
      · rename_i types returns s' hinfer
        cases h
        exact ⟨w, types, returns, s', hwork, hinfer, rfl⟩

theorem Standalone.refusal?_eq_none (h : Standalone image limits n t g) :
    refusal? image limits t = none := by
  obtain ⟨known, height, -, -, -, -, hbuild⟩ := h
  obtain ⟨hadmitted, w, types, returns, s', hwork, -⟩ := exists_groundwork_of_build hbuild
  simp [refusal?, hadmitted, hwork, bind, Except.bind]

/-- There is at most one graph that a target has on its own. -/
theorem Standalone.unique (h : Standalone image limits n t g) {m : Nat} {g' : Graph}
    (h' : Standalone image limits m t g') : g = g' := by
  induction h generalizing m g' with
  | @intro n t g s known height hcanonical hrefused hheight hknown hbuild ih =>
    obtain ⟨known', height', -, hrefused', -, hknown', hbuild'⟩ := h'
    obtain ⟨-, w, types, returns, u, hwork, hinfer, rfl⟩ := exists_groundwork_of_build hbuild
    obtain ⟨-, w', types', returns', u', hwork', hinfer', rfl⟩ := exists_groundwork_of_build hbuild'
    cases hwork.symm.trans hwork'
    have hask : ∀ v, Parallel Eq True (answering known v) (answering known' v) := by
      rintro v s _ a u rfl h
      rcases hreturned : s.returned? v with _ | ts
      · rw [answering_fresh hreturned] at h ⊢
        rcases hv : known v with _ | _ | g₁ <;> rcases hv' : known' v with _ | _ | g₂ <;>
          rw [hv] at h <;> cases h
        · exact .inr ⟨trivial, _, _, rfl⟩
        · exact .inl ⟨s, rfl, rfl⟩
        · exact absurd (hknown' v g₂ hv').refusal?_eq_none (hrefused v hv)
        · exact .inr ⟨trivial, _, _, rfl⟩
        · exact absurd (hknown v g₁ hv).refusal?_eq_none (hrefused' v hv')
        · cases ih v g₁ hv (hknown' v g₂ hv')
          exact .inl ⟨s, rfl, rfl⟩
      · rw [answering_returned hreturned] at h ⊢
        exact .inl ⟨u, h, rfl⟩
    rcases parallel_infer hask (fun ts s s' h => congrArg (·.returning t ts) h) w.params w.fixed
      w.lowered.graph.statements rfl hinfer with ⟨v, hsecond, -⟩ | ⟨-, e, v, hsecond⟩
    · cases hsecond.symm.trans hinfer'
      rfl
    · cases hsecond.symm.trans hinfer'

end Standalone

end Readiness.Inference
