import Readiness.Inference.Session
import Readiness.Proofs.Outcome
import Readiness.Proofs.Types.Sameness

/-!
# Which targets can be prepared

Two targets that are the same have the same plain function and equally many arguments
(`plainTarget_of_same`). Nothing else decides whether a function can be lowered, so that when one of
the targets can be prepared the other one is not refused but for a defect of its types
(`prepare_of_same`).
-/

namespace Readiness.Inference

section Preparing

variable {image : Image} {limits : Limits}

variable {a b : Entity}

theorem same_bare (h : Entity.same a b = true) : Entity.same (bare a) (bare b) = true := by
  fun_induction bare a generalizing b with
  | case1 f ih | case2 f ih | case3 f ih =>
    cases b with
    | cached g | classMethod g | staticMethod g => first | exact ih (b := g) h | cases h
    | _ => cases h
  | case4 e hcached hclass hstatic =>
    have hsame := h
    unfold Entity.same at h
    split at h
    case h_11 f g => exact absurd rfl (hstatic f)
    case h_12 f g => exact absurd rfl (hclass f)
    case h_14 f g => exact absurd rfl (hcached f)
    case h_20 => cases h
    all_goals exact hsame

theorem eq_function_of_same {id : Nat} (h : Entity.same a b = true) (ha : a = .function id) :
    b = .function id := by
  subst ha
  cases b with
  | function id' => exact congrArg _ (eq_of_beq h).symm
  | _ => cases h

theorem same_unwrapped (room : Nat) (h : Entity.same a b = true) :
    Entity.same (unwrapped image room a) (unwrapped image room b) = true := by
  induction room generalizing a b with
  | zero => exact same_bare h
  | succ room ih =>
    have hbare := same_bare h
    unfold unwrapped
    generalize bare a = a, bare b = b at hbare
    have hsame := hbare
    unfold Entity.same at hbare
    split at hbare
    case h_7 =>
      rw [eq_of_beq hbare]
      exact Entity.same_refl _
    case h_20 => cases hbare
    all_goals exact hsame

variable {as bs : List TypeExpr}

theorem length_eq_of_sameAll (h : TypeExpr.sameAll as bs = true) : as.length = bs.length :=
  ((TypeExpr.sameAll_iff as bs).mp h).length_eq

theorem same_staticFunction (h : Entity.same a b = true) :
    Entity.same (staticFunction a) (staticFunction b) = true := by
  have hsame := h
  unfold Entity.same at h
  split at h
  case h_11 => exact h
  case h_20 => cases h
  all_goals exact hsame

theorem plainCall_of_same (h : Entity.same a b = true) (hlength : as.length = bs.length) :
    Entity.same (plainCall image a as).1 (plainCall image b bs).1 = true ∧
      (plainCall image a as).2.length = (plainCall image b bs).2.length := by
  have hsame := h
  unfold Entity.same at h
  split at h
  case h_10 =>
    rw [Bool.and_eq_true] at h
    simp only [plainCall]
    exact ⟨same_unwrapped _ h.1, congrArg (· + 1) hlength⟩
  case h_20 => cases h
  all_goals
    simp only [plainCall]
    exact ⟨same_unwrapped _ hsame, hlength⟩

theorem plainTarget_of_same (image : Image) {b u : Target} (h : b.same u = true) :
    Entity.same (plainTarget image b).1 (plainTarget image u).1 = true ∧
      (plainTarget image b).2.length = (plainTarget image u).2.length := by
  rw [Target.same, Bool.and_eq_true] at h
  exact plainCall_of_same (same_staticFunction h.1) (length_eq_of_sameAll h.2)

theorem map_fst_bindPositional : ∀ (params : List Image.Parameter) (args : List TypeExpr),
    (Image.bindPositional params args).map Prod.fst = params.map Image.Parameter.name
  | [], _ => rfl
  | p :: ps, _ :: ts => congrArg (p.name :: ·) (map_fst_bindPositional ps ts)
  | p :: ps, [] => congrArg (p.name :: ·) (map_fst_bindPositional ps [])

/-- Only the number of arguments decides whether they can be bound. -/
theorem boundTypes_of_length {callee : Entity} (hlength : as.length = bs.length)
    {bound : List (String × TypeExpr)} (h : image.boundTypes callee as = .ok bound) :
    ∃ bound', image.boundTypes callee bs = .ok bound' ∧
      bound'.map Prod.fst = bound.map Prod.fst := by
  unfold Image.boundTypes at h ⊢
  split at h
  · cases h
  · split at h
    · cases h
    · dsimp only at h ⊢
      rw [hlength] at h
      split at h
      · cases h
      · rename_i harity
        rw [if_neg harity]
        cases hrest : Image.bindKeywordOnly (List.filter (fun p => p.kind == .keywordOnly) _) with
        | error e =>
          rw [hrest] at h
          cases h
        | ok rest =>
          rw [hrest] at h
          cases h
          exact ⟨_, rfl, by simp [map_fst_bindPositional]⟩

/-- Nothing is refused, though the program may have a defect. -/
abbrev NotRefused {α : Type} : Except Refusal α → Prop := Fails fun e => ∃ d, e = .defective d

theorem notRefused_expandedEntry (e : String × TypeExpr) : NotRefused (expandedEntry e) := by
  unfold expandedEntry
  dsimp only
  split
  · exact fails_ok
  · rintro _ ⟨⟩
    exact ⟨_, rfl⟩

theorem notRefused_expanded (types : List (String × TypeExpr)) : NotRefused (expanded types) :=
  (Fails.mapM notRefused_expandedEntry types).bind fun _ => fails_ok

variable {x : Lowering.Lowered × Types}
variable {x : Lowering.Lowered × Types}

theorem prepareFunction_of_length {id : Nat} {f : Image.Function} (hlength : as.length = bs.length)
    {label label' : String} (h : prepareFunction image limits id f as label = .ok x) :
    NotRefused (prepareFunction image limits id f bs label') := by
  unfold prepareFunction at h
  dsimp only at h
  split at h
  · cases h
  · rename_i hasync
    obtain ⟨bound, hbound, h⟩ := ok_of_bind h
    obtain ⟨body, hbody, h⟩ := ok_of_bind h
    obtain ⟨lowered, hlowered, -⟩ := ok_of_bind h
    obtain ⟨bound', hbound', hnames⟩ := boundTypes_of_length hlength (ok_of_mapError hbound)
    have hrest : prepareFunction image limits id f bs label' =
        (expanded bound' >>= fun types => pure (lowered, types)) := by
      unfold prepareFunction
      rw [if_neg hasync, hbound', ok_of_mapError hbody]
      change (Except.mapError _ (Lowering.lowerBody image f body (bound'.map Prod.fst) _ _) >>= _) = _
      rw [hnames, ok_of_mapError hlowered]
      rfl
    rw [hrest]
    exact (notRefused_expanded bound').bind fun _ => fails_ok

/-- Whether a function can be lowered for some arguments depends on the function and on the number
of the arguments. -/
theorem prepare_of_same {b u : Target} (h : b.same u = true) {label : String}
    (hb : prepare image limits b label = .ok x) (label' : String) :
    NotRefused (prepare image limits u label') := by
  obtain ⟨hsame, hlength⟩ := plainTarget_of_same image h
  unfold prepare at hb ⊢
  dsimp only at hb ⊢
  split at hb
  · rename_i id hcallable
    rw [eq_function_of_same hsame hcallable]
    dsimp only
    split at hb
    · cases hb
    · exact prepareFunction_of_length hlength hb
  · split at hb
    · cases hb
    · cases hb
  · cases hb

end Preparing
end Readiness.Inference
