import Readiness.Proofs.Types.Absorption

/-!
# Expanding type expressions

`expand_normalises`: the members of an expansion are types that expansion leaves alone, and a union
stands for what its members stand for.
-/

namespace Readiness.TypeExpr

open List

/-! ### Expressions as they are formed -/

mutual

/-- Whether every union has members, every typing name stands for a class with the arguments that it
takes, and the class of any value has arguments where it is written as a generic. -/
def isFormed : TypeExpr → Bool
  | generic origin args => (origin != .any || !args.isEmpty) && allFormed args
  | named _ origin args => origin != .any && listsFirst origin args && allFormed args
  | bare _ origin => origin != .any
  | bars members | union members => !members.isEmpty && allFormed members
  | annotated t metadata => isFormed t && allFormed metadata
  | _ => true

/-- Whether arguments start with a list where the class takes parameter types. -/
def listsFirst (origin : ClassRef) : List TypeExpr → Bool
  | list _ :: _ => true
  | args => !listsParameters origin args

def allFormed : List TypeExpr → Bool
  | [] => true
  | t :: ts => isFormed t && allFormed ts

end

theorem allFormed_iff (ts : List TypeExpr) : allFormed ts = true ↔ ∀ t ∈ ts, t.isFormed = true := by
  induction ts with
  | nil => simp [allFormed]
  | cons t ts ih => simp [allFormed, ih]

theorem allResolvable_iff (ts : List TypeExpr) :
    allResolvable ts = true ↔ ∀ t ∈ ts, t.isResolvable = true := by
  induction ts with
  | nil => simp [allResolvable]
  | cons t ts ih => simp [allResolvable, ih]

theorem argsResolvable_iff (ts : List TypeExpr) :
    argsResolvable ts = true ↔ ∀ t ∈ ts, t = ellipsis ∨ t.isResolvable = true := by
  induction ts with
  | nil => simp [argsResolvable]
  | cons t ts ih => cases t <;> simp [argsResolvable, isResolvable, ih]

/-! ### Types that expansion leaves alone -/

/-- A type that stands for itself alone. -/
structure Settled (m : TypeExpr) : Prop where
  resolvable : m.isResolvable = true
  ne_none : m ≠ none
  ne_any : m ≠ any
  members : m.members? = Option.none
  expand : m.expand = .ok [m]

/-- An argument that normalising leaves alone. -/
def Normal (a : TypeExpr) : Prop := ∃ s, a.expand = .ok s ∧ normalise a s = a

variable {args ms : List TypeExpr} {t : TypeExpr}

theorem normalised_of_normal (h : ∀ a ∈ args, a.Normal) : normalised args = .ok args := by
  induction args with
  | nil => rfl
  | cons a args ih =>
    obtain ⟨⟨s, hs, ha⟩, hargs⟩ := forall_mem_cons.mp h
    rw [normalised, hs, ih hargs]
    exact congrArg (fun x => Except.ok (x :: args)) ha

theorem settled_cls {c : ClassRef} (h : c ≠ .any) : Settled (cls c) :=
  ⟨rfl, nofun, fun heq => h (cls.inj heq), rfl, by rw [expand, if_neg h]⟩

theorem settled_rebuilt {origin : ClassRef} (hany : origin ≠ .any ∨ args ≠ [])
    (hlists : listsParameters origin args = false) (hresolvable : argsResolvable args = true)
    (hnormal : ∀ a ∈ args, a.Normal) : Settled (rebuilt origin args) := by
  cases args with
  | nil => exact settled_cls (hany.resolve_right (absurd rfl ·))
  | cons a args =>
    have hexpand : expand (generic origin (a :: args)) = .ok [generic origin (a :: args)] := by
      rw [expand, if_neg (Bool.eq_false_iff.mp hlists), normalised_of_normal hnormal]
      rfl
    refine ⟨?_, nofun, nofun, rfl, hexpand⟩
    change isResolvable (generic origin (a :: args)) = true
    rw [isResolvable, hlists, hresolvable]
    rfl

/-- An expression stands for one or more types that expansion leaves alone. -/
def Expands (t : TypeExpr) (ts : TypeSet) : Prop :=
  t.expand = .ok ts ∧ ts ≠ [] ∧ ∀ m ∈ ts, Settled m

theorem Settled.expands {m : TypeExpr} (hm : Settled m) (h : t.expand = .ok [m]) : Expands t [m] :=
  ⟨h, cons_ne_nil _ _, fun _ hx => mem_singleton.mp hx ▸ hm⟩

theorem Expands.normalise {ts : TypeSet} (h : Expands t ts) (ht : t.isResolvable = true) :
    (normalise t ts).isResolvable = true ∧ (TypeExpr.normalise t ts).Normal := by
  obtain ⟨hexpand, hne, hsettled⟩ := h
  match ts, hne with
  | [m], _ =>
    have hm := hsettled m mem_cons_self
    exact ⟨hm.resolvable, _, hm.expand, rfl⟩
  | _ :: _ :: _, _ => exact ⟨ht, _, hexpand, rfl⟩

/-- Normalised arguments are resolvable and normal; what is left open stays open. -/
theorem exists_normalised
    (h : ∀ a ∈ args, a = ellipsis ∨ a.isResolvable = true ∧ ∃ ts, Expands a ts) :
    ∃ args', normalised args = .ok args' ∧ argsResolvable args' = true ∧ (∀ a ∈ args', a.Normal) ∧
      args'.length = args.length ∧ (args.head? = some ellipsis → args'.head? = some ellipsis) := by
  induction args with
  | nil => exact ⟨[], rfl, rfl, nofun, rfl, id⟩
  | cons a args ih =>
    obtain ⟨ha, hargs⟩ := forall_mem_cons.mp h
    obtain ⟨args', hnormalised, hresolvable, hnormal, hlength, -⟩ := ih hargs
    rw [argsResolvable_iff] at hresolvable
    simp only [argsResolvable_iff, normalised, hnormalised]
    rcases ha with rfl | ⟨hself, ts, hts⟩
    · exact ⟨ellipsis :: args', rfl, forall_mem_cons.mpr ⟨.inl rfl, hresolvable⟩,
        forall_mem_cons.mpr ⟨⟨_, rfl, rfl⟩, hnormal⟩, congrArg (· + 1) hlength, id⟩
    · rw [hts.1]
      obtain ⟨hbecomes, hkept⟩ := hts.normalise hself
      refine ⟨_ :: args', rfl, forall_mem_cons.mpr ⟨.inr hbecomes, hresolvable⟩,
        forall_mem_cons.mpr ⟨hkept, hnormal⟩, congrArg (· + 1) hlength, ?_⟩
      rintro ⟨⟩
      cases hself

/-- A generic expands to one type, made of its normalised arguments. -/
theorem exists_expands_rebuilt {origin : ClassRef} (hany : origin ≠ .any ∨ args ≠ [])
    (hlists : listsParameters origin args = false)
    (h : ∀ a ∈ args, a = ellipsis ∨ a.isResolvable = true ∧ ∃ ts, Expands a ts) :
    ∃ args', normalised args = .ok args' ∧ Settled (rebuilt origin args') := by
  obtain ⟨args', hnormalised, hresolvable, hnormal, hlength, hhead⟩ := exists_normalised h
  refine ⟨args', hnormalised, settled_rebuilt (hany.imp_right ?_) ?_ hresolvable hnormal⟩
  · rintro hne rfl
    exact hne (length_eq_zero_iff.mp hlength.symm)
  · unfold listsParameters at hlists
    split at hlists
    · match args', hlength, hhead rfl with
      | [_, _], _, rfl => rfl
    · unfold listsParameters
      split <;> trivial

/-! ### Unions -/

theorem mem_of_mem_union {a b : TypeSet} {x : TypeExpr} (h : x ∈ TypeSet.union a b) :
    x ∈ a ∨ x ∈ b := by
  induction b generalizing a with
  | nil => exact .inl h
  | cons t b ih =>
    rcases ih h with h | h
    · unfold TypeSet.insert at h
      split at h
      · exact .inl h
      · rcases mem_append.mp h with h | h
        · exact .inl h
        · exact .inr (mem_singleton.mp h ▸ mem_cons_self)
    · exact .inr (mem_cons_of_mem _ h)

/-- A type is among those that a member of a list stands for. -/
def Among (ms : List TypeExpr) (x : TypeExpr) : Prop :=
  ∃ m ∈ ms, ∃ s, m.expand = .ok s ∧ TypeSet.has s x = true

theorem exists_expandMembers (h : ∀ m ∈ ms, ∃ s, Expands m s) :
    ∃ ts, expandMembers ms = .ok ts ∧ (∀ x ∈ ts, Settled x) ∧
      ∀ x, ts.has x = true ↔ Among ms x := by
  induction ms with
  | nil => exact ⟨[], rfl, nofun, by simp [TypeSet.has, Among]⟩
  | cons m ms ih =>
    obtain ⟨⟨s, hs⟩, hms⟩ := forall_mem_cons.mp h
    obtain ⟨ts, hts, hsettled, hhas⟩ := ih hms
    refine ⟨TypeSet.union s ts, by rw [expandMembers, hs.1, hts]; rfl, fun x hx => ?_, fun x => ?_⟩
    · exact (mem_of_mem_union hx).elim (hs.2.2 x) (hsettled x)
    · rw [TypeSet.has_union, Bool.or_eq_true, hhas]
      simp [Among, hs.1]

theorem exists_expands_members (ht : t.members? = some ms) (hne : ms ≠ [])
    (h : ∀ m ∈ ms, ∃ s, Expands m s) : ∃ ts, Expands t ts ∧ ∀ x, ts.has x = true ↔ Among ms x := by
  obtain ⟨ts, hts, hsettled, hhas⟩ := exists_expandMembers h
  have hexpand : t.expand = .ok ts := by
    cases t <;> cases ht <;> exact hts
  refine ⟨ts, ⟨hexpand, ?_, hsettled⟩, hhas⟩
  rintro rfl
  obtain ⟨m, hm⟩ := exists_mem_of_ne_nil ms hne
  obtain ⟨s, hs, hsne, -⟩ := h m hm
  obtain ⟨x, hx⟩ := exists_mem_of_ne_nil s hsne
  cases (hhas x).mpr ⟨m, hm, s, hs, TypeSet.has_of_mem hx⟩

/-! ### Every expression -/

theorem forall_of_members? (ht : t.members? = some ms) (hr : t.isResolvable = true)
    (hf : t.isFormed = true) : ms ≠ [] ∧ ∀ m ∈ ms, m.isResolvable = true ∧ m.isFormed = true := by
  cases t <;> cases ht <;>
    · rw [isResolvable, allResolvable_iff] at hr
      rw [isFormed, Bool.and_eq_true, allFormed_iff] at hf
      exact ⟨by simpa using hf.1, fun m hm => ⟨hr m hm, hf.2 m hm⟩⟩

theorem exists_expands (t : TypeExpr) (hr : t.isResolvable = true) (hf : t.isFormed = true) :
    ∃ ts, Expands t ts := by
  cases t with
  | none => exact ⟨_, (settled_cls (by decide)).expands rfl⟩
  | cls c =>
    by_cases h : c = .any
    · subst h
      exact ⟨_, (settled_cls (by decide)).expands rfl⟩
    · exact ⟨_, (settled_cls h).expands (settled_cls h).expand⟩
  | bare name origin => exact ⟨_, (settled_cls (by simpa [isFormed] using hf)).expands rfl⟩
  | bars ms | union ms =>
    obtain ⟨hne, hms⟩ := forall_of_members? rfl hr hf
    obtain ⟨ts, hts, -⟩ := exists_expands_members (t := .union ms) rfl hne
      fun m hm => exists_expands m (hms m hm).1 (hms m hm).2
    exact ⟨ts, hts⟩
  | generic origin args =>
    rw [isResolvable, Bool.and_eq_true, argsResolvable_iff] at hr
    rw [isFormed, Bool.and_eq_true, allFormed_iff] at hf
    have hlists : listsParameters origin args = false := by simpa using hr.1
    obtain ⟨args', hnormalised, hsettled⟩ := exists_expands_rebuilt (by simpa using hf.1) hlists
      fun a ha => (hr.2 a ha).imp_right fun h => ⟨h, exists_expands a h (hf.2 a ha)⟩
    refine ⟨_, hsettled.expands ?_⟩
    rw [expand, if_neg (Bool.eq_false_iff.mp hlists), hnormalised]
    rfl
  | named name origin args =>
    rw [isResolvable, argsResolvable_iff] at hr
    rw [isFormed, Bool.and_eq_true, Bool.and_eq_true, allFormed_iff] at hf
    have hlists : listsParameters origin args = false := by
      have hfirst := hf.1.2
      unfold listsFirst at hfirst
      split at hfirst
      · cases hr _ mem_cons_self <;> contradiction
      · simpa using hfirst
    obtain ⟨args', hnormalised, hsettled⟩ := exists_expands_rebuilt
      (.inl (by simpa using hf.1.1)) hlists
      fun a ha => (hr a ha).imp_right fun h => ⟨h, exists_expands a h (hf.2 a ha)⟩
    refine ⟨_, hsettled.expands ?_⟩
    rw [expand, hnormalised]
    rfl
  | annotated t metadata =>
    rw [isResolvable, Bool.and_eq_true, argsResolvable_iff] at hr
    rw [isFormed, Bool.and_eq_true, allFormed_iff] at hf
    have hlists : listsParameters (.library "typing" "Annotated") (t :: metadata) = false := by
      unfold listsParameters
      split <;> rfl
    obtain ⟨args', hnormalised, hsettled⟩ := exists_expands_rebuilt (.inr (cons_ne_nil _ _)) hlists
      (forall_mem_cons.mpr ⟨.inr ⟨hr.1, exists_expands t hr.1 hf.1⟩,
        fun a ha => (hr.2 a ha).imp_right fun h => ⟨h, exists_expands a h (hf.2 a ha)⟩⟩)
    refine ⟨_, hsettled.expands ?_⟩
    have hexpand : expand (annotated t metadata) = (do
        return [rebuilt (.library "typing" "Annotated") (← normalised (t :: metadata))]) := by
      simp [expand, normalised]
    rw [hexpand, hnormalised]
    rfl
  | _ => cases hr

/-- A resolvable expression stands for one or more types, each of them resolvable, neither `None`
nor `Any` nor a union, and standing for itself alone; and a union stands for exactly the types that
its members stand for, so their order and nesting do not matter. -/
theorem expand_normalises {t : TypeExpr} (hr : t.isResolvable = true) (hf : t.isFormed = true) :
    ∃ ts, t.expand = .ok ts ∧ ts ≠ [] ∧
      (∀ m ∈ ts, m.isResolvable = true ∧ m ≠ none ∧ m ≠ any ∧ m.members? = Option.none ∧
        m.expand = .ok [m]) ∧
      ∀ ms, t.members? = some ms → ∀ x, ts.has x = true ↔
        ∃ m ∈ ms, ∃ s, m.expand = .ok s ∧ TypeSet.has s x = true := by
  obtain ⟨ts, hts⟩ := exists_expands t hr hf
  refine ⟨ts, hts.1, hts.2.1, fun m hm => ?_, fun ms hms => ?_⟩
  · have h := hts.2.2 m hm
    exact ⟨h.resolvable, h.ne_none, h.ne_any, h.members, h.expand⟩
  · obtain ⟨hne, hforall⟩ := forall_of_members? hms hr hf
    obtain ⟨ts', hts', hhas⟩ := exists_expands_members hms hne
      fun m hm => exists_expands m (hforall m hm).1 (hforall m hm).2
    cases hts.1.symm.trans hts'.1
    exact hhas

theorem expand_normalises_nested :
    let t := union [generic .list [union [any, object]], none, bare "List" .list]
    t.isResolvable = true ∧ t.isFormed = true ∧ ∃ ts, t.expand = .ok ts ∧ ts ≠ [] := by
  intro t
  obtain ⟨ts, hts, hne, -⟩ := expand_normalises (t := t) rfl rfl
  exact ⟨rfl, rfl, ts, hts, hne⟩

end Readiness.TypeExpr
