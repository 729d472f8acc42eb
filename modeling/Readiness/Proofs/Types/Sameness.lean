import Mathlib.Data.List.Forall2
import Mathlib.Tactic.Common
import Readiness.Target

/-!
# Sameness of constants, types and targets

Sameness is an equivalence at each level, so targets are good keys
(`Target.same_equivalence`).
-/

namespace Readiness

open List

/-! ## Lists compared by a relation -/

section Lists

variable {α : Type} {R : α → α → Prop}

/-- Each member of either list is related to one of the other. -/
def Covers (R : α → α → Prop) (as bs : List α) : Prop :=
  (∀ a ∈ as, ∃ b ∈ bs, R a b) ∧ ∀ b ∈ bs, ∃ a ∈ as, R a b

theorem Covers.refl {as : List α} (h : ∀ a ∈ as, R a a) : Covers R as as :=
  ⟨fun a ha => ⟨a, ha, h a ha⟩, fun a ha => ⟨a, ha, h a ha⟩⟩

theorem Covers.euclid {as bs cs : List α} (hR : ∀ a ∈ as, ∀ b c, R a b → R a c → R b c)
    (h : Covers R as bs) (h' : Covers R as cs) : Covers R bs cs := by
  refine ⟨fun b hb => ?_, fun c hc => ?_⟩
  · obtain ⟨a, ha, hab⟩ := h.2 b hb
    obtain ⟨c, hc, hac⟩ := h'.1 a ha
    exact ⟨c, hc, hR a ha b c hab hac⟩
  · obtain ⟨a, ha, hac⟩ := h'.2 c hc
    obtain ⟨b, hb, hab⟩ := h.1 a ha
    exact ⟨b, hb, hR a ha b c hab hac⟩

theorem forall₂_euclid {as bs : List α} (hR : ∀ a ∈ as, ∀ b c, R a b → R a c → R b c)
    (h : List.Forall₂ R as bs) : ∀ cs, List.Forall₂ R as cs → List.Forall₂ R bs cs := by
  induction h with
  | nil => exact fun _ h' => h'
  | @cons a b as bs hab _ ih =>
    intro cs h'
    cases h' with
    | @cons _ c _ cs hac hrest =>
      exact .cons (hR a mem_cons_self b c hab hac)
        (ih (fun a' ha' => hR a' (mem_cons_of_mem a ha')) cs hrest)

/-- A relation is an equivalence if two that one is related to are related. -/
theorem equivalence_of_euclid (hrefl : ∀ a, R a a) (heuclid : ∀ a b c, R a b → R a c → R b c) :
    Equivalence R where
  refl := hrefl
  symm h := heuclid _ _ _ h (hrefl _)
  trans h := heuclid _ _ _ (heuclid _ _ _ h (hrefl _))

end Lists

/-! ## Constants -/

namespace Const

theorem sameItems_iff (as bs : List Const) :
    sameItems as bs = true ↔ List.Forall₂ (fun a b => same a b = true) as bs := by
  induction as generalizing bs with
  | nil => cases bs <;> simp [sameItems]
  | cons a as ih =>
    cases bs with
    | nil => simp [sameItems]
    | cons b bs => simp [sameItems, ih bs]

theorem same_refl (c : Const) : same c c = true := by
  cases c with
  | tuple items | list items =>
    rw [same, sameItems_iff, forall₂_same]
    exact fun c _ => same_refl c
  | _ => simp [same]

theorem same_euclid (a b c : Const) (h : same a b = true) (h' : same a c = true) :
    same b c = true := by
  unfold same at h
  split at h
  case h_10 as bs | h_11 as bs =>
    cases c <;> try cases h'
    rw [same, sameItems_iff] at h' ⊢
    exact forall₂_euclid (fun a _ b c => same_euclid a b c) ((sameItems_iff as bs).mp h) _ h'
  case h_5 | h_6 | h_7 =>
    simp only [Bool.and_eq_true, beq_iff_eq] at h
    cases c <;> first | cases h' | simpa [same, h] using h'
  case h_1 | h_2 => exact h'
  case h_13 => cases h
  all_goals
    -- nothing but equal parts is left, so both constants are one
    simp only [Bool.and_eq_true, beq_iff_eq] at h
    simp only [h] at h'
    exact h'

theorem alike_refl (c : Const) : alike c c = true := same_refl (plain c)

end Const

/-! ## Type expressions -/

namespace TypeExpr

/-- The members of a union in either spelling. -/
def members? : TypeExpr → Option (List TypeExpr)
  | bars as | union as => some as
  | _ => Option.none

/-- Agreement of two literal values. -/
def SameLiteral (a b : TypeExpr) : Prop := sameClass a b = true ∧ same a b = true

/-- Agreement of expressions whose parts are compared by a relation; literal values are compared by
a relation of their own. -/
inductive AgreesBy (R L : TypeExpr → TypeExpr → Prop) : TypeExpr → TypeExpr → Prop
  | refl (a : TypeExpr) : AgreesBy R L a a
  | generic (origin : ClassRef) {as bs : List TypeExpr} (h : List.Forall₂ R as bs) :
    AgreesBy R L (.generic origin as) (.generic origin bs)
  | named (name : String) (origin : ClassRef) {as bs : List TypeExpr} (h : List.Forall₂ R as bs) :
    AgreesBy R L (.named name origin as) (.named name origin bs)
  | literal {as bs : List TypeExpr} (h : Covers L as bs) :
    AgreesBy R L (.applied "Literal" as) (.applied "Literal" bs)
  | applied {name : String} (hname : name ≠ "Literal") {as bs : List TypeExpr}
    (h : List.Forall₂ R as bs) : AgreesBy R L (.applied name as) (.applied name bs)
  | annotated {a b : TypeExpr} {as bs : List TypeExpr} (hhead : R a b)
    (h : List.Forall₂ R as bs) : AgreesBy R L (.annotated a as) (.annotated b bs)
  | list {as bs : List TypeExpr} (h : List.Forall₂ R as bs) : AgreesBy R L (.list as) (.list bs)
  | union {a b : TypeExpr} {as bs : List TypeExpr} (ha : a.members? = some as)
    (hb : b.members? = some bs) (h : Covers R as bs) : AgreesBy R L a b
  | value {a b : Const} (h : Const.alike a b = true) : AgreesBy R L (.value a) (.value b)

theorem sameAll_iff : ∀ as bs : List TypeExpr,
    sameAll as bs = true ↔ List.Forall₂ (fun a b => same a b = true) as bs
  | [], [] | [], _ :: _ | _ :: _, [] => by simp [sameAll]
  | a :: as, b :: bs => by simp [sameAll, sameAll_iff as bs]

theorem someAgrees_iff (as : List TypeExpr) (b : TypeExpr) :
    someAgrees as b = true ↔ ∃ a ∈ as, same a b = true := by
  induction as with
  | nil => simp [someAgrees]
  | cons a as ih => simp [someAgrees, ih]

theorem within_iff (as bs : List TypeExpr) :
    within as bs = true ↔ ∀ a ∈ as, ∃ b ∈ bs, same a b = true := by
  induction as with
  | nil => simp [within]
  | cons a as ih => simp [within, ih]

theorem covers_iff (as bs : List TypeExpr) :
    (within as bs && bs.all (someAgrees as)) = true ↔
      Covers (fun a b => same a b = true) as bs := by
  simp only [Bool.and_eq_true, within_iff, all_eq_true, someAgrees_iff, Covers]

theorem someLiteral_iff (as : List TypeExpr) (b : TypeExpr) :
    someLiteral as b = true ↔ ∃ a ∈ as, SameLiteral a b := by
  induction as with
  | nil => simp [someLiteral]
  | cons a as ih => simp [someLiteral, ih, SameLiteral]

theorem literalsWithin_iff (as bs : List TypeExpr) :
    literalsWithin as bs = true ↔ ∀ a ∈ as, ∃ b ∈ bs, SameLiteral a b := by
  induction as with
  | nil => simp [literalsWithin]
  | cons a as ih => simp [literalsWithin, ih, SameLiteral]

theorem coversLiterals_iff (as bs : List TypeExpr) :
    (literalsWithin as bs && bs.all (someLiteral as)) = true ↔ Covers SameLiteral as bs := by
  simp only [Bool.and_eq_true, literalsWithin_iff, all_eq_true, someLiteral_iff, Covers]

theorem sameClass_iff (a b : TypeExpr) :
    sameClass a b = true ↔ valueClass a = valueClass b := beq_iff_eq

theorem same_refl (a : TypeExpr) : same a a = true := by
  cases a with
  | generic origin as =>
    rw [same, Bool.and_eq_true, sameAll_iff, forall₂_same]
    exact ⟨beq_self_eq_true origin, fun a _ => same_refl a⟩
  | named name origin as =>
    simp only [same, Bool.and_eq_true, sameAll_iff, forall₂_same]
    exact ⟨by simp, fun a _ => same_refl a⟩
  | bars as | union as =>
    rw [same, covers_iff]
    exact .refl fun a _ => same_refl a
  | applied name as =>
    rw [same, Bool.and_eq_true]
    refine ⟨beq_self_eq_true name, ?_⟩
    split
    · rw [coversLiterals_iff]
      exact .refl fun a _ => ⟨(sameClass_iff a a).mpr rfl, same_refl a⟩
    · rw [sameAll_iff, forall₂_same]
      exact fun a _ => same_refl a
  | annotated t as =>
    rw [same, Bool.and_eq_true, sameAll_iff, forall₂_same]
    exact ⟨same_refl t, fun a _ => same_refl a⟩
  | list as =>
    rw [same, sameAll_iff, forall₂_same]
    exact fun a _ => same_refl a
  | value c => exact Const.alike_refl c
  | _ => simp [same]

/-- Sameness compares the parts of two expressions by sameness. -/
theorem same_iff (a b : TypeExpr) :
    same a b = true ↔ AgreesBy (fun a b => same a b = true) SameLiteral a b := by
  constructor
  · intro h
    unfold same at h
    split at h
    case h_1 | h_2 => exact .refl _
    case h_4 =>
      simp only [Bool.and_eq_true, beq_iff_eq, sameAll_iff] at h
      exact h.1 ▸ .generic _ h.2
    case h_5 =>
      simp only [Bool.and_eq_true, beq_iff_eq, sameAll_iff] at h
      exact h.1.1 ▸ h.1.2 ▸ .named _ _ h.2
    case h_7 | h_8 | h_9 | h_10 => exact .union rfl rfl ((covers_iff _ _).mp h)
    case h_15 name as other bs =>
      simp only [Bool.and_eq_true, beq_iff_eq] at h
      obtain ⟨rfl, h⟩ := h
      by_cases hname : name = "Literal"
      · rw [if_pos hname, coversLiterals_iff] at h
        exact hname ▸ .literal h
      · rw [if_neg hname, sameAll_iff] at h
        exact .applied hname h
    case h_16 =>
      rw [Bool.and_eq_true, sameAll_iff] at h
      exact .annotated h.1 h.2
    case h_17 => exact .list ((sameAll_iff _ _).mp h)
    case h_18 => exact .value h
    case h_20 => cases h
    all_goals
      simp only [Bool.and_eq_true, beq_iff_eq] at h
      simp only [h]
      exact .refl _
  · intro h
    cases h with
    | refl => exact same_refl a
    | generic origin h | named name origin h => simp [same, sameAll_iff, h]
    | literal h =>
      rw [same]
      simpa using (coversLiterals_iff _ _).mpr h
    | applied hname h => simp [same, hname, sameAll_iff, h]
    | annotated hhead h => simp [same, hhead, sameAll_iff, h]
    | list h => simp [same, sameAll_iff, h]
    | union ha hb h =>
      rw [← covers_iff] at h
      cases a <;> cases ha <;> cases b <;> cases hb <;> exact h
    | value h => exact h

theorem SameLiteral.refl (a : TypeExpr) : SameLiteral a a :=
  ⟨(sameClass_iff a a).mpr rfl, same_refl a⟩

theorem SameLiteral.euclid {a b c : TypeExpr}
    (heuclid : same a b = true → same a c = true → same b c = true) (h : SameLiteral a b)
    (h' : SameLiteral a c) : SameLiteral b c :=
  ⟨(sameClass_iff b c).mpr (((sameClass_iff a b).mp h.1).symm.trans ((sameClass_iff a c).mp h'.1)),
    heuclid h.2 h'.2⟩

theorem sizeOf_lt_of_mem_members? {a x : TypeExpr} {as : List TypeExpr} (ha : a.members? = some as)
    (hx : x ∈ as) : sizeOf x < sizeOf a := by
  have hlt := sizeOf_lt_of_mem hx
  cases a <;> cases ha <;> simp only [bars.sizeOf_spec, union.sizeOf_spec] <;> omega

theorem same_euclid (a b c : TypeExpr) (h : same a b = true) (h' : same a c = true) :
    same b c = true := by
  have hself : ∀ as : List TypeExpr, List.Forall₂ (fun a b => same a b = true) as as := fun _ =>
    forall₂_same.mpr fun a _ => same_refl a
  rw [same_iff] at h h' ⊢
  cases h with
  | refl => exact h'
  | @generic origin as _ h =>
    have hlist := forall₂_euclid (fun a _ b c => same_euclid a b c) h
    cases h' with
    | refl => exact .generic origin (hlist _ (hself as))
    | generic _ h' => exact .generic origin (hlist _ h')
    | union hb => cases hb
  | @named name origin as _ h =>
    have hlist := forall₂_euclid (fun a _ b c => same_euclid a b c) h
    cases h' with
    | refl => exact .named name origin (hlist _ (hself as))
    | named _ _ h' => exact .named name origin (hlist _ h')
    | union hb => cases hb
  | @literal as _ h =>
    have hparts : ∀ a ∈ as, ∀ b c, SameLiteral a b → SameLiteral a c → SameLiteral b c :=
      fun a _ b c => SameLiteral.euclid (same_euclid a b c)
    cases h' with
    | refl => exact .literal (h.euclid hparts (.refl fun a _ => .refl a))
    | literal h' => exact .literal (h.euclid hparts h')
    | applied hname => exact absurd rfl hname
    | union hb => cases hb
  | @applied name hname as _ h =>
    have hlist := forall₂_euclid (fun a _ b c => same_euclid a b c) h
    cases h' with
    | refl => exact .applied hname (hlist _ (hself as))
    | literal => exact absurd rfl hname
    | applied _ h' => exact .applied hname (hlist _ h')
    | union hb => cases hb
  | @annotated a' b' as _ hhead h =>
    have hlist := forall₂_euclid (fun a _ b c => same_euclid a b c) h
    cases h' with
    | refl => exact .annotated (same_euclid a' b' a' hhead (same_refl a')) (hlist _ (hself as))
    | annotated hhead' h' => exact .annotated (same_euclid a' b' _ hhead hhead') (hlist _ h')
    | union hb => cases hb
  | @list as _ h =>
    have hlist := forall₂_euclid (fun a _ b c => same_euclid a b c) h
    cases h' with
    | refl => exact .list (hlist _ (hself as))
    | list h' => exact .list (hlist _ h')
    | union hb => cases hb
  | @union _ _ as bs ha hb h =>
    have hparts : ∀ x ∈ as, ∀ y z, same x y = true → same x z = true → same y z = true :=
      fun x hx y z =>
        have := sizeOf_lt_of_mem_members? ha hx
        same_euclid x y z
    cases h' with
    | refl => exact .union hb ha (h.euclid hparts (.refl fun a _ => same_refl a))
    | @union _ _ as' cs ha' hc h' =>
      cases ha.symm.trans ha'
      exact .union hb hc (h.euclid hparts h')
    | _ => cases ha
  | @value c d h =>
    cases h' with
    | refl => exact .value (Const.same_euclid _ _ _ h (Const.same_refl _))
    | value h' => exact .value (Const.same_euclid _ _ _ h h')
    | union hb => cases hb
termination_by a

theorem same_equivalence : Equivalence fun a b : TypeExpr => same a b = true :=
  equivalence_of_euclid same_refl same_euclid

end TypeExpr

/-! ## Entities and targets -/

namespace Entity

theorem sameAll_iff : ∀ as bs : List Entity,
    sameAll as bs = true ↔ List.Forall₂ (fun a b => same a b = true) as bs
  | [], [] | [], _ :: _ | _ :: _, [] => by simp [sameAll]
  | a :: as, b :: bs => by simp [sameAll, sameAll_iff as bs]

/-- Two entries of dictionaries have the same keys and values. -/
def SameEntry (a b : Entity × Entity) : Prop := same a.1 b.1 = true ∧ same a.2 b.2 = true

theorem sameEntries_iff : ∀ as bs : List (Entity × Entity),
    sameEntries as bs = true ↔ List.Forall₂ SameEntry as bs
  | [], [] | [], _ :: _ | _ :: _, [] => by simp [sameEntries]
  | a :: as, b :: bs => by simp [sameEntries, sameEntries_iff as bs, SameEntry]

theorem sizeOf_entry_lt {e : Entity × Entity} {es : List (Entity × Entity)} (h : e ∈ es) :
    sizeOf e.1 < sizeOf (dict es) ∧ sizeOf e.2 < sizeOf (dict es) := by
  have hlt := sizeOf_lt_of_mem h
  obtain ⟨k, v⟩ := e
  simp only [Prod.mk.sizeOf_spec, dict.sizeOf_spec] at hlt ⊢
  omega

theorem same_refl (a : Entity) : same a a = true := by
  cases a with
  | const c => exact Const.same_refl c
  | tuple as | list as =>
    exact (sameAll_iff as as).mpr (forall₂_same.mpr fun a _ => same_refl a)
  | dict es =>
    refine (sameEntries_iff es es).mpr (forall₂_same.mpr fun e he => ?_)
    have hlt := dict.sizeOf_spec es ▸ sizeOf_entry_lt he
    exact ⟨same_refl e.1, same_refl e.2⟩
  | type t => exact TypeExpr.same_refl t
  | method f owner => simp [same, same_refl f, same_refl owner]
  | staticMethod f | classMethod f | property f | cached f => exact same_refl f
  | _ => simp [same]
termination_by a

theorem same_euclid (a b c : Entity) (h : same a b = true) (h' : same a c = true) :
    same b c = true := by
  unfold same at h
  split at h
  case h_2 a b => cases c <;> first | exact Const.same_euclid a b _ h h' | cases h'
  case h_3 as bs | h_4 as bs =>
    cases c <;> try cases h'
    rw [same, sameAll_iff] at h' ⊢
    exact forall₂_euclid (fun a _ b c => same_euclid a b c) ((sameAll_iff as bs).mp h) _ h'
  case h_5 as bs =>
    cases c <;> try cases h'
    rw [same, sameEntries_iff] at h' ⊢
    refine forall₂_euclid (fun e he e' e'' h h' => ?_) ((sameEntries_iff as bs).mp h) _ h'
    have hlt := sizeOf_entry_lt he
    exact ⟨same_euclid e.1 e'.1 e''.1 h.1 h'.1, same_euclid e.2 e'.2 e''.2 h.2 h'.2⟩
  case h_6 a b => cases c <;> first | exact TypeExpr.same_euclid a b _ h h' | cases h'
  case h_10 f a g b =>
    cases c <;> try cases h'
    rw [same, Bool.and_eq_true] at h' ⊢
    rw [Bool.and_eq_true] at h
    exact ⟨same_euclid f g _ h.1 h'.1, same_euclid a b _ h.2 h'.2⟩
  case h_11 a b | h_12 a b | h_13 a b | h_14 a b =>
    cases c <;> first | exact same_euclid a b _ h h' | cases h'
  case h_17 =>
    simp only [Bool.and_eq_true, beq_iff_eq] at h
    cases c <;> first | cases h' | simpa [same, h] using h'
  case h_1 => exact h'
  case h_20 => cases h
  all_goals
    -- nothing but equal parts is left, so both entities are one
    simp only [Bool.and_eq_true, beq_iff_eq] at h
    simp only [h] at h'
    exact h'
termination_by a

end Entity

namespace Target

theorem same_equivalence : Equivalence fun a b : Target => a.same b = true := by
  refine equivalence_of_euclid (fun a => ?_) fun a b c h h' => ?_
  · rw [same, Bool.and_eq_true, TypeExpr.sameAll_iff, forall₂_same]
    exact ⟨Entity.same_refl a.callable, fun t _ => TypeExpr.same_refl t⟩
  · rw [same, Bool.and_eq_true, TypeExpr.sameAll_iff] at h h' ⊢
    exact ⟨Entity.same_euclid _ _ _ h.1 h'.1,
      forall₂_euclid (fun a _ b c => TypeExpr.same_euclid a b c) h.2 _ h'.2⟩

end Target
end Readiness
