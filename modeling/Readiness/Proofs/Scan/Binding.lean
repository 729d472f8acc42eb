import Readiness.Proofs.Cache.Serving

/-!
# Scanned targets can be bound

The types of such a target are those declared for the parameters without default,
after the class for a method.

The types of a scanned target are resolvable, and they bind unless the callable is a
method that cannot be given its receiver by position (`scanned_binds`).
-/

namespace Readiness

open Image (Parameter Signature)
open List

namespace Image

variable {ps : List Parameter} {hints : Table String TypeExpr} {types : List TypeExpr}

/-- The parameters that must be given, and can be given by position. -/
def required (ps : List Parameter) : List Parameter :=
  ps.filter fun p => p.default.isNone && p.isPositional

/-- Declared types ask for parameters of the kinds that binding accepts, one type for each that must
be given. -/
structure Asks (ps : List Parameter) (types : List TypeExpr) : Prop where
  resolvable : ∀ t ∈ types, t.isResolvable = true
  fixed : ∀ p ∈ ps, p.isVariadic = false
  optional : ∀ p ∈ ps, p.kind = .keywordOnly → p.default.isSome = true
  length : types.length = (required ps).length

theorem asks_of_requiredTypes (h : requiredTypes hints ps = some types) : Asks ps types := by
  induction ps generalizing types with
  | nil =>
    cases h
    exact ⟨nofun, nofun, nofun, rfl⟩
  | cons p ps ih =>
    rw [requiredTypes] at h
    split at h
    · cases h
    rename_i hfixed
    rw [Bool.not_eq_true] at hfixed
    split at h
    · rename_i hdefault
      obtain ⟨hresolvable, hfixed', hoptional, hlength⟩ := ih h
      refine ⟨hresolvable, forall_mem_cons.mpr ⟨hfixed, hfixed'⟩,
        forall_mem_cons.mpr ⟨fun _ => hdefault, hoptional⟩, ?_⟩
      have hnone : p.default.isNone = false := by simpa [← Option.not_isSome] using hdefault
      simp [hlength, required, hnone]
    · rename_i hdefault
      split at h
      · cases h
      rename_i hkind
      obtain ⟨t, -, h⟩ := Option.bind_eq_some_iff.mp h
      split at h
      · rename_i ht
        obtain ⟨rest, hrest, heq⟩ := Option.bind_eq_some_iff.mp h
        cases heq
        obtain ⟨hresolvable, hfixed', hoptional, hlength⟩ := ih hrest
        refine ⟨forall_mem_cons.mpr ⟨ht, hresolvable⟩, forall_mem_cons.mpr ⟨hfixed, hfixed'⟩,
          forall_mem_cons.mpr ⟨fun hk => absurd hk (by simpa using hkind), hoptional⟩, ?_⟩
        have hpositional : p.isPositional = true := by
          unfold Parameter.isPositional Parameter.isVariadic at *
          cases hk : p.kind <;> simp_all
        have hnone : p.default.isNone = true := by simpa using hdefault
        simp [hlength, required, hpositional, hnone]
      · cases h

theorem exists_bindKeywordOnly (h : ∀ p ∈ ps, p.default.isSome = true) :
    ∃ bound, bindKeywordOnly ps = .ok bound := by
  induction ps with
  | nil => exact ⟨[], rfl⟩
  | cons p ps ih =>
    obtain ⟨d, hd⟩ := Option.isSome_iff_exists.mp (h p mem_cons_self)
    obtain ⟨bound, hbound⟩ := ih fun q hq => h q (mem_cons_of_mem _ hq)
    refine ⟨(p.name, defaultType d) :: bound, ?_⟩
    rw [bindKeywordOnly, hd, hbound]
    rfl

variable {image : Image} {f : Entity} {s : Signature} {args : List TypeExpr}

theorem exists_boundTypes (hs : image.signature f = .ok s)
    (hfixed : ∀ p ∈ s.params, p.isVariadic = false)
    (hoptional : ∀ p ∈ s.params, p.kind = .keywordOnly → p.default.isSome = true)
    (hlow : (required s.params).length ≤ args.length)
    (hhigh : args.length ≤ (s.params.filter Parameter.isPositional).length) :
    ∃ bound, image.boundTypes f args = .ok bound := by
  have hfind : s.params.find? Parameter.isVariadic = none :=
    find?_eq_none.mpr fun p hp => by simp [hfixed p hp]
  obtain ⟨rest, hrest⟩ : ∃ bound,
      bindKeywordOnly (s.params.filter fun p => p.kind == .keywordOnly) = .ok bound := by
    refine exists_bindKeywordOnly fun p hp => ?_
    obtain ⟨hmem, hkind⟩ := mem_filter.mp hp
    exact hoptional p hmem (beq_iff_eq.mp hkind)
  refine ⟨bindPositional (s.params.filter Parameter.isPositional) args ++ rest, ?_⟩
  rw [required, ← filter_filter] at hlow
  simp only [boundTypes, hs, hfind]
  rw [if_neg (by omega), hrest]
  rfl

theorem length_le_of_boundTypes (hs : image.signature f = .ok s) {bound : List (String × TypeExpr)}
    (h : image.boundTypes f args = .ok bound) :
    args.length ≤ (s.params.filter Parameter.isPositional).length := by
  unfold boundTypes at h
  simp only [hs] at h
  split at h
  · cases h
  · split at h
    · cases h
    · omega

/-- Types that are declared for the last parameters bind after types for the first ones, if these
can be given by position. -/
theorem Asks.binds {rest : List Parameter} (h : Asks rest args) (first : List Parameter)
    (given : List TypeExpr) (hs : image.signature f = .ok s) (hparams : s.params = first ++ rest)
    (hfirst : ∀ p ∈ first, p.isPositional = true) (hgiven : given.length = first.length) :
    ∃ bound, image.boundTypes f (given ++ args) = .ok bound := by
  have hkinds : ∀ p ∈ first, p.isVariadic = false ∧ p.kind ≠ .keywordOnly := by
    intro p hp
    have := hfirst p hp
    unfold Parameter.isPositional at this
    unfold Parameter.isVariadic
    cases hk : p.kind <;> simp_all
  have hrest : (required rest).length ≤ (rest.filter Parameter.isPositional).length := by
    rw [required, ← filter_filter]
    exact length_filter_le ..
  have hlength := h.length
  refine exists_boundTypes hs ?_ ?_ ?_ ?_ <;> rw [hparams]
  · exact forall_mem_append.mpr ⟨fun p hp => (hkinds p hp).1, h.fixed⟩
  · exact forall_mem_append.mpr ⟨fun p hp hk => absurd hk (hkinds p hp).2, h.optional⟩
  · have := length_filter_le (fun p : Parameter => p.default.isNone && p.isPositional) first
    unfold required at hlength ⊢
    rw [filter_append, length_append, length_append]
    omega
  · rw [filter_append, filter_eq_self.mpr hfirst, length_append, length_append]
    omega

end Image

namespace Scan

variable {image : Image}

/-- A target has the declared types of its callable, after a class if it is a method. -/
def Declared (image : Image) (t : Target) : Prop :=
  image.declaredTypes? t.callable false = some t.args ∨
    ∃ c types, t.args = .cls c :: types ∧ image.declaredTypes? t.callable true = some types

theorem declared_of_mem_signatures {f : Entity} {skipFirst : Bool} {types : List TypeExpr}
    (h : types ∈ signatures image f skipFirst) (hplain : registered image f = []) :
    image.declaredTypes? f skipFirst = some types := by
  unfold signatures at h
  rw [hplain] at h
  exact Option.mem_toList.mp h

variable {t : Target}

theorem declared_of_mem_classTargets {c : ClassRef} (h : t ∈ classTargets image c)
    (hplain : registered image t.callable = []) : Declared image t := by
  unfold classTargets at h
  split at h
  · rename_i p
    cases hclass : image.class? p with
    | none => simp [hclass] at h
    | some info =>
      simp only [hclass, Option.map_some, Option.getD_some, mem_flatMap] at h
      obtain ⟨⟨name, e⟩, -, h⟩ := h
      unfold memberTargets at h
      split at h
      · cases h
      · split at h
        · obtain ⟨types, htypes, rfl⟩ := mem_map.mp h
          exact .inl (declared_of_mem_signatures htypes hplain)
        · split at h
          · obtain ⟨types, htypes, rfl⟩ := mem_map.mp h
            exact .inr ⟨_, types, rfl, declared_of_mem_signatures htypes hplain⟩
          · cases h
  · cases h

theorem declared_of_mem_namedTargets {name : String} {e : Entity}
    (h : t ∈ namedTargets image name e) (hplain : registered image t.callable = []) :
    Declared image t := by
  unfold namedTargets at h
  split at h
  · cases h
  · split at h
    · exact declared_of_mem_classTargets h hplain
    · split at h
      · obtain ⟨types, htypes, rfl⟩ := mem_map.mp h
        exact .inl (declared_of_mem_signatures htypes hplain)
      · cases h

theorem declared_of_mem_scan {ns : Namespace} {ts : List Target} (h : scan image ns = .ok ts)
    (ht : t ∈ ts) (hplain : registered image t.callable = []) : Declared image t := by
  unfold scan at h
  cases hfound : found image ns with
  | error fault =>
    rw [hfound] at h
    cases h
  | ok all =>
    have hmem : t ∈ all := by
      rw [hfound] at h
      change (if all.all Target.isHashable then _ else _) = _ at h
      split at h
      · cases h
        exact mem_of_mem_distinct ht
      · cases h
    cases ns with
    | cls c =>
      cases hfound
      exact declared_of_mem_classTargets hmem hplain
    | module | names entries =>
      cases hfound
      obtain ⟨⟨name, e⟩, -, hmem⟩ := mem_flatMap.mp hmem
      exact declared_of_mem_namedTargets hmem hplain
    | other kind => cases hfound

theorem exists_asks_of_declaredTypes? {f : Entity} {skipFirst : Bool} {types : List TypeExpr}
    (h : image.declaredTypes? f skipFirst = some types) :
    ∃ s, image.signature f = .ok s ∧
      Image.Asks (if skipFirst then s.params.drop 1 else s.params) types := by
  obtain ⟨s, hs, h⟩ := Option.bind_eq_some_iff.mp h
  obtain ⟨hints, -, h⟩ := Option.bind_eq_some_iff.mp h
  cases hsignature : image.signature f with
  | error fault =>
    rw [hsignature] at hs
    cases hs
  | ok s' =>
    rw [hsignature] at hs
    cases hs
    exact ⟨s, rfl, Image.asks_of_requiredTypes h⟩

/-- A target that is found by declared types has resolvable types, and they bind, unless it is a
method whose first parameter is missing or cannot be given by position; they do not bind if no
parameter can be given by position. -/
theorem scanned_binds {ns : Namespace} {ts : List Target} (hscan : scan image ns = .ok ts) {t : Target}
    (ht : t ∈ ts) (hplain : registered image t.callable = []) :
    (∀ a ∈ t.args, a.isResolvable = true) ∧ ∃ s, image.signature t.callable = .ok s ∧
      ((∃ bound, image.boundTypes t.callable t.args = .ok bound) ∨
        (∃ c types, t.args = .cls c :: types ∧ image.declaredTypes? t.callable true = some types) ∧
          (∀ p, s.params.head? = some p → p.isPositional = false) ∧
          ((∀ p ∈ s.params, p.isPositional = false) →
            ¬ ∃ bound, image.boundTypes t.callable t.args = .ok bound)) := by
  rcases declared_of_mem_scan hscan ht hplain with hall | ⟨c, types, hargs, hrest⟩
  · obtain ⟨s, hs, hasks⟩ := exists_asks_of_declaredTypes? hall
    exact ⟨hasks.resolvable, s, hs, .inl (hasks.binds [] [] hs rfl (List.forall_mem_nil _) rfl)⟩
  · obtain ⟨s, hs, hasks⟩ := exists_asks_of_declaredTypes? hrest
    refine ⟨hargs ▸ List.forall_mem_cons.mpr ⟨rfl, hasks.resolvable⟩, s, hs, ?_⟩
    by_cases hfirst : ∀ p, s.params.head? = some p → p.isPositional = false
    · refine .inr ⟨⟨c, types, hargs, hrest⟩, hfirst, fun hnone ⟨bound, hbound⟩ => ?_⟩
      have hle := Image.length_le_of_boundTypes hs hbound
      rw [List.filter_eq_nil_iff.mpr fun p hp => by simp [hnone p hp], hargs] at hle
      cases hle
    · left
      rw [hargs]
      cases hparams : s.params with
      | nil => exact absurd (by simp [hparams]) hfirst
      | cons p rest =>
        have hp : p.isPositional = true := by simpa [hparams] using hfirst
        rw [if_pos rfl, hparams] at hasks
        exact hasks.binds [p] [_] hs hparams (List.forall_mem_singleton.mpr hp) rfl

/-- A class with a method that has no parameter, and one with a receiver. -/
def methods : Image :=
  let signature (ps : List Parameter) := { (default : Image.Function) with signature := ⟨ps, none⟩ }
  { Image.empty with
    functions := #[signature [], signature [⟨"self", .positional, none, none⟩]]
    classes := #[{ (default : Image.Class) with
      members := Table.ofList [("m", .function 0), ("n", .function 1)] }] }

def method (id : Nat) : Target := ⟨.function id, [.cls (.program default)]⟩

theorem methods_binding :
    scan methods (.cls (.program default)) = .ok [method 0, method 1] ∧
      (¬ ∃ bound, methods.boundTypes (.function 0) (method 0).args = .ok bound) ∧
      ∃ bound, methods.boundTypes (.function 1) (method 1).args = .ok bound := by
  have hscan : scan methods (.cls (.program default)) = .ok [method 0, method 1] := by
    have hm : isHidden "m" = false := by decide +kernel
    have hn : isHidden "n" = false := by decide +kernel
    have : found methods (.cls (.program default)) = .ok [method 0, method 1] := by
      change Except.ok (memberTargets _ _ _ _ ++ (memberTargets _ _ _ _ ++ [])) = _
      unfold memberTargets
      rw [hm, hn]
      rfl
    rw [scan, this]
    rfl
  refine ⟨hscan, ?_, ?_⟩
  · rintro ⟨bound, hbound⟩
    cases hbound
  · obtain ⟨-, s, hs, hbinds | ⟨-, hfirst, -⟩⟩ := scanned_binds hscan (t := method 1) (by simp) rfl
    · exact hbinds
    · cases hs
      cases hfirst _ rfl

end Scan
end Readiness
