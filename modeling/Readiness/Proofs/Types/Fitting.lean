import Readiness.Inference.Session
import Readiness.Proofs.Outcome
import Readiness.Proofs.Types.Absorption

/-!
# Constants that fit types

What fits a type fits every type that is the same (`Fits.of_same`).  A type set admits a
constant that fits one of its members; a set that absorbs another one admits what that one admits
(`Admits.of_absorbs`).  The rules for members and items of collections admit what they are to type
(`admits_element`, `admits_subscript`).
-/

namespace Readiness

open List

/-! ### Types -/

namespace Const

inductive Fits : Const → TypeExpr → Prop
  | any (c : Const) : Fits c TypeExpr.object
  | kind (c : Const) : Fits c (.cls (.builtin c.kind))
  | truth (b : Bool) : Fits (.bool b) (.cls .int)
  | alternative {c : Const} {t m : TypeExpr} {ms : List TypeExpr} (hmembers : t.members? = some ms)
    (hm : m ∈ ms) (h : Fits c m) : Fits c t
  | list {items : List Const} {a : TypeExpr} (as : List TypeExpr) (h : ∀ c ∈ items, Fits c a) :
    Fits (.list items) (.generic .list (a :: as))
  | uniform {items : List Const} {a : TypeExpr} (h : ∀ c ∈ items, Fits c a) :
    Fits (.tuple items) (.generic .tuple [a, .ellipsis])
  | tuple {items : List Const} {args : List TypeExpr} (hargs : .ellipsis ∉ args)
    (hlength : args.length ∣ items.length)
    (h : ∀ i c a, items[i]? = some c → args[i % args.length]? = some a → Fits c a) :
    Fits (.tuple items) (.generic .tuple args)

end Const

variable {k : ClassRef}

section Types

variable {c : Const} {t u : TypeExpr}

open TypeExpr (same_iff)

theorem eq_cls_of_same (h : TypeExpr.same (.cls k) u = true) : u = .cls k := by
  cases (same_iff _ _).mp h with
  | refl => rfl
  | union hmembers => cases hmembers

theorem eq_ellipsis_of_same (h : TypeExpr.same u .ellipsis = true) : u = .ellipsis := by
  cases (same_iff _ _).mp h with
  | refl => rfl
  | union _ hmembers => cases hmembers

theorem exists_generic_of_same {as : List TypeExpr} (h : TypeExpr.same (.generic k as) u = true) :
    ∃ bs, u = .generic k bs ∧ List.Forall₂ (fun a b => TypeExpr.same a b = true) as bs := by
  cases (same_iff _ _).mp h with
  | refl => exact ⟨as, rfl, forall₂_same.mpr fun a _ => TypeExpr.same_refl a⟩
  | generic _ hall => exact ⟨_, rfl, hall⟩
  | union hmembers => cases hmembers

theorem exists_members_of_same {ms : List TypeExpr} (ht : t.members? = some ms)
    (h : TypeExpr.same t u = true) :
    ∃ ms', u.members? = some ms' ∧ ∀ m ∈ ms, ∃ m' ∈ ms', TypeExpr.same m m' = true := by
  cases (same_iff _ _).mp h with
  | refl => exact ⟨ms, ht, fun m hm => ⟨m, hm, TypeExpr.same_refl m⟩⟩
  | union ht' hu hcovers =>
    cases ht.symm.trans ht'
    exact ⟨_, hu, hcovers.1⟩
  | _ => cases ht

theorem exists_getElem?_of_forall₂ {α β : Type} {R : α → β → Prop} {as : List α} {bs : List β}
    (h : List.Forall₂ R as bs) {i : Nat} {b : β} (hb : bs[i]? = some b) :
    ∃ a, as[i]? = some a ∧ R a b := by
  obtain ⟨hi, rfl⟩ := List.getElem?_eq_some_iff.mp hb
  have hi' : i < as.length := h.length_eq ▸ hi
  exact ⟨as[i], getElem?_eq_getElem hi', (forall₂_iff_get.mp h).2 i hi' hi⟩

theorem Const.Fits.of_same (h : c.Fits t) (hsame : TypeExpr.same t u = true) : c.Fits u := by
  induction h generalizing u with
  | any c =>
    rw [eq_cls_of_same hsame]
    exact .any c
  | kind c =>
    rw [eq_cls_of_same hsame]
    exact .kind c
  | truth b =>
    rw [eq_cls_of_same hsame]
    exact .truth b
  | alternative hmembers hm _ ih =>
    obtain ⟨ms', hu, hcovered⟩ := exists_members_of_same hmembers hsame
    obtain ⟨m', hm', hsame'⟩ := hcovered _ hm
    exact .alternative hu hm' (ih hsame')
  | list as _ ih =>
    obtain ⟨bs, rfl, hall⟩ := exists_generic_of_same hsame
    cases hall with
    | cons hhead _ => exact .list _ fun c hc => ih c hc hhead
  | uniform _ ih =>
    obtain ⟨bs, rfl, hall⟩ := exists_generic_of_same hsame
    rcases hall with _ | ⟨hhead, _ | ⟨hlast, ⟨⟩⟩⟩
    rw [eq_ellipsis_of_same (TypeExpr.same_equivalence.symm hlast)]
    exact .uniform fun c hc => ih c hc hhead
  | @tuple items args hargs hlength _ ih =>
    obtain ⟨bs, rfl, hall⟩ := exists_generic_of_same hsame
    have hsize := hall.length_eq
    refine .tuple (fun hmem => hargs ?_) (hsize ▸ hlength) fun i c b hc hb => ?_
    · obtain ⟨i, hi⟩ := mem_iff_getElem?.mp hmem
      obtain ⟨a, ha, hab⟩ := exists_getElem?_of_forall₂ hall hi
      rw [eq_ellipsis_of_same hab] at ha
      exact mem_of_getElem? ha
    · rw [← hsize] at hb
      obtain ⟨a, ha, hab⟩ := exists_getElem?_of_forall₂ hall hb
      exact ih i c a hc ha hab

/-! #### Inversion -/

theorem Const.Fits.cls (h : c.Fits (.cls k)) :
    k = .object ∨ k = .builtin c.kind ∨ k = .int ∧ c.kind = "bool" := by
  generalize ht : TypeExpr.cls k = t at h
  cases h with
  | any => exact .inl (TypeExpr.cls.inj ht)
  | kind => exact .inr (.inl (TypeExpr.cls.inj ht))
  | truth b => exact .inr (.inr ⟨TypeExpr.cls.inj ht, rfl⟩)
  | alternative hmembers =>
    rw [← ht] at hmembers
    cases hmembers
  | _ => cases ht

theorem Const.Fits.generic {args : List TypeExpr} (h : c.Fits (.generic k args)) :
    (∃ items a as, k = .list ∧ c = .list items ∧ args = a :: as ∧ ∀ x ∈ items, x.Fits a) ∨
    (∃ items a, k = .tuple ∧ c = .tuple items ∧ args = [a, .ellipsis] ∧ ∀ x ∈ items, x.Fits a) ∨
    (∃ items, k = .tuple ∧ c = .tuple items ∧ .ellipsis ∉ args ∧ args.length ∣ items.length ∧
      ∀ i x a, items[i]? = some x → args[i % args.length]? = some a → x.Fits a) := by
  cases h with
  | alternative hmembers => cases hmembers
  | list as h => exact .inl ⟨_, _, as, rfl, rfl, rfl, h⟩
  | uniform h => exact .inr (.inl ⟨_, _, rfl, rfl, rfl, h⟩)
  | tuple hargs hlength h => exact .inr (.inr ⟨_, rfl, rfl, hargs, hlength, h⟩)

theorem Const.Fits.ne_ellipsis (h : c.Fits t) : t ≠ .ellipsis := by
  rintro rfl
  cases h with
  | alternative hmembers => cases hmembers

theorem Const.Fits.kind_of_origin {name : String} (h : c.Fits t)
    (ht : t.origin? = some (.builtin name)) (hobject : name ≠ "object") (hint : name ≠ "int") :
    c.kind = name := by
  cases t with
  | cls k =>
    cases ht
    rcases h.cls with hk | hk | ⟨hk, -⟩
    · exact absurd (ClassRef.builtin.inj hk) hobject
    · exact (ClassRef.builtin.inj hk).symm
    · exact absurd (ClassRef.builtin.inj hk) hint
  | generic k args =>
    cases ht
    rcases h.generic with ⟨items, -, -, hk, rfl, -⟩ | ⟨items, -, hk, rfl, -⟩ | ⟨items, hk, rfl, -⟩ <;>
      exact (ClassRef.builtin.inj hk).symm
  | _ => cases ht

abbrev Const.kinds : List String := ["NoneType", "ellipsis", "bool", "int", "float", "complex", "str",
  "bytes", "tuple", "list", "range"]

theorem Const.kind_mem (c : Const) : c.kind ∈ kinds := by
  cases c with
  | indefinite n birth => cases n <;> simp [Const.kind, Numeric.kind]
  | _ => simp [Const.kind]

theorem Const.Fits.mem_kinds {name : String} (h : c.Fits t) (ht : t.origin? = some (.builtin name))
    (hobject : name ≠ "object") (hint : name ≠ "int") : name ∈ kinds :=
  h.kind_of_origin ht hobject hint ▸ c.kind_mem

theorem Const.exists_str (h : c.kind = "str") : ∃ s, c = .str s := by
  cases c with
  | str s => exact ⟨s, rfl⟩
  | indefinite n birth => cases n <;> simp [Const.kind, Numeric.kind] at h
  | _ => simp [Const.kind] at h

theorem Const.exists_bytes (h : c.kind = "bytes") : ∃ bs, c = .bytes bs := by
  cases c with
  | bytes bs => exact ⟨bs, rfl⟩
  | indefinite n birth => cases n <;> simp [Const.kind, Numeric.kind] at h
  | _ => simp [Const.kind] at h

theorem Const.exists_range (h : c.kind = "range") : ∃ a b s, c = .range a b s := by
  cases c with
  | range a b s => exact ⟨a, b, s, rfl⟩
  | indefinite n birth => cases n <;> simp [Const.kind, Numeric.kind] at h
  | _ => simp [Const.kind] at h

end Types

variable {i : Int}

/-! ### Type sets -/

namespace TypeSet

def Admits (ts : TypeSet) (c : Const) : Prop := ∃ t ∈ ts, c.Fits t

variable {c : Const} {t : TypeExpr} {a b ts : TypeSet}

theorem admits_ofClass : (ofClass k).Admits c ↔ c.Fits (.cls k) := by
  simp [Admits, ofClass]

theorem admits_unknown (c : Const) : unknown.Admits c := ⟨_, mem_cons_self, .any c⟩

theorem admits_kind (c : Const) : (ofClass (.builtin c.kind)).Admits c := admits_ofClass.mpr (.kind c)

theorem Admits.ne_nil (h : ts.Admits c) : ts ≠ [] := by
  rintro rfl
  obtain ⟨t, ht, -⟩ := h
  cases ht

/-- Whether a set admits a constant is a matter of its members up to sameness. -/
theorem admits_iff : ts.Admits c ↔ ∃ t, ts.has t = true ∧ c.Fits t := by
  constructor
  · rintro ⟨t, ht, hfits⟩
    exact ⟨t, has_of_mem ht, hfits⟩
  · rintro ⟨t, ht, hfits⟩
    obtain ⟨x, hx, hsame⟩ := has_iff.mp ht
    exact ⟨x, hx, hfits.of_same hsame⟩

theorem admits_of_isUnknown (h : ts.isUnknown = true) (c : Const) : ts.Admits c :=
  admits_iff.mpr ⟨TypeExpr.object, (equal_iff.mp h _).trans has_object_unknown, .any c⟩

theorem Admits.of_absorbs (h : b.Admits c) (habsorbs : Absorbs a b) : a.Admits c := by
  rcases absorbs_iff.mp habsorbs with hunknown | ⟨-, hsubset⟩
  · exact admits_of_isUnknown hunknown c
  · obtain ⟨t, ht, hfits⟩ := admits_iff.mp h
    exact admits_iff.mpr ⟨t, subset_iff.mp hsubset t ht, hfits⟩

theorem admits_union : (union a b).Admits c ↔ a.Admits c ∨ b.Admits c := by
  simp only [admits_iff, has_union, Bool.or_eq_true]
  grind

theorem admits_ofList {l : List TypeExpr} : (ofList l).Admits c ↔ ∃ t ∈ l, c.Fits t :=
  admits_union.trans ⟨fun h => h.resolve_left fun ⟨_, ht, _⟩ => (nomatch ht), .inr⟩

theorem admits_join (h : a.Admits c ∨ b.Admits c) : (join a b).Admits c := by
  unfold join
  dsimp only
  split
  · exact admits_unknown c
  · exact admits_union.mpr h

theorem admits_joinAll {sets : List TypeSet} (hmem : ts ∈ sets) (h : ts.Admits c) :
    (joinAll sets).Admits c := by
  have hfold : ∀ (sets : List TypeSet) (a : TypeSet), (a.Admits c ∨ ts ∈ sets) →
      (sets.foldl join a).Admits c := by
    intro sets
    induction sets with
    | nil => exact fun a ha => ha.resolve_right not_mem_nil
    | cons s sets ih =>
      intro a ha
      refine ih _ ?_
      rcases ha with ha | ha
      · exact .inl (admits_join (.inl ha))
      · rcases mem_cons.mp ha with rfl | ha
        · exact .inl (admits_join (.inr h))
        · exact .inr ha
  exact hfold sets [] (.inr hmem)

theorem Admits.known (h : ts.Admits c) (ht : ts.known? = some t) : c.Fits t := by
  unfold known? at ht
  split at ht
  · cases ht
  · cases ht
    obtain ⟨x, hx, hfits⟩ := h
    exact mem_singleton.mp hx ▸ hfits
  · cases ht

/-! ### Members and items -/

section Parts

variable {s index : Const} {items : List Const} {args : List TypeExpr}

theorem admits_tupleMembers {x : TypeExpr} (hx : x ∈ args) (hne : x ≠ .ellipsis) (h : c.Fits x) :
    (ofList (tupleMembers args)).Admits c := by
  refine admits_ofList.mpr ⟨x, mem_filter.mpr ⟨hx, ?_⟩, h⟩
  cases x <;> first | rfl | exact absurd rfl hne

theorem exists_arg_of_fits (h : (Const.tuple items).Fits (.generic .tuple args)) (hc : c ∈ items) :
    ∃ x ∈ args, x ≠ .ellipsis ∧ c.Fits x := by
  rcases h.generic with ⟨_, _, _, hk, -⟩ | ⟨items', x, -, hitems, rfl, hall⟩ |
    ⟨items', -, hitems, hargs, hlength, hall⟩
  · exact absurd hk (by decide)
  · cases hitems
    exact ⟨x, mem_cons_self, (hall c hc).ne_ellipsis, hall c hc⟩
  · cases hitems
    obtain ⟨i, hi⟩ := mem_iff_getElem?.mp hc
    have hpos : 0 < args.length := by
      rcases Nat.eq_zero_or_pos args.length with hzero | hpos
      · rw [hzero, Nat.zero_dvd, length_eq_zero_iff] at hlength
        rw [hlength] at hc
        cases hc
      · exact hpos
    have hx := getElem?_eq_getElem (Nat.mod_lt i hpos)
    have hmem := mem_of_getElem? hx
    exact ⟨_, hmem, fun heq => hargs (heq ▸ hmem), hall i c _ hi hx⟩

theorem admits_element (h : ts.Admits s) (hitems : s.items = .ok items) (hc : c ∈ items) :
    (element ts).Admits c := by
  unfold element
  split
  · -- a range
    rename_i hknown
    obtain ⟨start, stop, step, rfl⟩ := Const.exists_range
      ((h.known hknown).kind_of_origin rfl (by decide) (by decide))
    cases hitems
    obtain ⟨i, -, rfl⟩ := mem_map.mp hc
    exact admits_kind (.int _)
  · -- a text
    rename_i hknown
    obtain ⟨t, rfl⟩ := Const.exists_str
      ((h.known hknown).kind_of_origin rfl (by decide) (by decide))
    cases hitems
    obtain ⟨p, -, rfl⟩ := mem_map.mp hc
    exact admits_kind (.str _)
  · -- bytes
    rename_i hknown
    obtain ⟨bs, rfl⟩ := Const.exists_bytes
      ((h.known hknown).kind_of_origin rfl (by decide) (by decide))
    cases hitems
    obtain ⟨p, -, rfl⟩ := mem_map.mp hc
    exact admits_kind (.int _)
  · -- no constant is a mutable byte string
    rename_i hknown
    exact absurd ((h.known hknown).mem_kinds rfl (by decide) (by decide)) (by decide)
  · rename_i origin args hknown
    have hfits := h.known hknown
    rcases hfits.generic with ⟨xs, x, rest, rfl, rfl, rfl, hall⟩ | ⟨xs, x, rfl, rfl, rfl, -⟩ |
      ⟨xs, rfl, rfl, -⟩
    · cases hitems
      exact ⟨x, mem_cons_self, hall c hc⟩
    all_goals
      cases hitems
      obtain ⟨y, hy, hne, hcy⟩ := exists_arg_of_fits hfits hc
      rw [if_pos rfl]
      split
      · exact admits_unknown c
      · exact admits_tupleMembers hy hne hcy
  · exact admits_unknown c

/-- The argument that stands for a position stands for the item there. -/
theorem mod_of_position {n len : Nat} (hlength : n ∣ len) {p : Nat}
    (hp : Const.position? i len = some p) (hlow : -(n : Int) ≤ i) (hhigh : i < n) :
    p % n = (if i < 0 then i + n else i).toNat := by
  obtain ⟨q, rfl⟩ := hlength
  unfold Const.position? at hp
  split at hp
  · split at hp
    · cases hp
      rw [if_neg (by omega), Nat.mod_eq_of_lt (by omega)]
    · cases hp
  · split at hp
    · cases hp
      rw [if_pos (by omega)]
      obtain ⟨q, rfl⟩ : ∃ r, q = r + 1 := by
        refine ⟨q - 1, (Nat.succ_pred_eq_of_pos (Nat.pos_of_ne_zero ?_)).symm⟩
        rintro rfl
        omega
      have hsplit : (i + ((n * (q + 1) : Nat) : Int)).toNat = (i + n).toNat + n * q := by
        rw [Nat.mul_succ]
        omega
      rw [hsplit, Nat.add_mul_mod_self_left, Nat.mod_eq_of_lt (by omega)]
    · cases hp

theorem memberAt_of_subscript (h : s.subscript index = .ok c) :
    ∃ i, index.integer? = some i ∧ s.memberAt i = .ok c := by
  unfold Const.subscript at h
  split at h
  · exact ⟨_, ‹_›, h⟩
  · cases h

theorem exists_str_of_subscript {t : Text} (h : (Const.str t).subscript index = .ok c) :
    ∃ u, c = .str u := by
  obtain ⟨i, -, h⟩ := memberAt_of_subscript h
  obtain ⟨p, -, h⟩ := ok_of_bind h
  cases h
  exact ⟨_, rfl⟩

theorem exists_int_of_subscript {bs : List UInt8} (h : (Const.bytes bs).subscript index = .ok c) :
    ∃ n, c = .int n := by
  obtain ⟨i, -, h⟩ := memberAt_of_subscript h
  obtain ⟨p, -, h⟩ := ok_of_bind h
  cases h
  exact ⟨_, rfl⟩

theorem exists_position_of_itemAt (h : Const.itemAt i items = .ok c) :
    ∃ p, Const.position? i items.length = some p ∧ items[p]? = some c := by
  unfold Const.itemAt at h
  split at h
  · rename_i p hp
    split at h
    · rename_i x hx
      cases h
      exact ⟨p, hp, hx⟩
    · cases h
  · cases h

theorem exists_position_of_subscript (h : (Const.tuple items).subscript index = .ok c) :
    ∃ i p, index.integer? = some i ∧ Const.position? i items.length = some p ∧
      items[p]? = some c := by
  obtain ⟨i, hi, h⟩ := memberAt_of_subscript h
  exact ⟨i, (exists_position_of_itemAt h).imp fun p hp => ⟨hi, hp⟩⟩

theorem mem_of_subscript (h : (Const.list items).subscript index = .ok c) : c ∈ items := by
  obtain ⟨i, -, h⟩ := memberAt_of_subscript h
  obtain ⟨p, -, hp⟩ := exists_position_of_itemAt h
  exact mem_of_getElem? hp

theorem fits_memberAt {p : Nat} {x : TypeExpr} (hlength : args.length ∣ items.length)
    (hall : ∀ i c a, items[i]? = some c → args[i % args.length]? = some a → c.Fits a)
    (hp : Const.position? i items.length = some p) (hitem : items[p]? = some c)
    (hx : memberAt? args i = some x) : c.Fits x := by
  unfold memberAt? at hx
  split at hx
  · rename_i hbounds
    rw [← mod_of_position hlength hp hbounds.1 hbounds.2] at hx
    exact hall p c x hitem hx
  · cases hx

/-- What indexing gives has the type that is found for it, unless the index is taken for a slice. -/
theorem admits_subscript (h : ts.Admits s) (hitem : s.subscript index = .ok c) {known : Index}
    (hslice : known ≠ .slice) (hconstant : ∀ k, known = .constant k → k = index) :
    (subscript ts known).Admits c := by
  have hkind : ∀ {t name}, ts.known? = some t → t.origin? = some (.builtin name) →
      name ≠ "object" → name ≠ "int" → s.kind = name := fun ht horigin hobject hint =>
    (h.known ht).kind_of_origin horigin hobject hint
  have hposition : ∀ {j}, known.position? = some j → index.integer? = some j := by
    intro j hj
    cases known with
    | constant k => exact hconstant k rfl ▸ hj
    | _ => cases hj
  unfold subscript
  split
  · exact admits_unknown c
  · exact absurd rfl hslice
  · rename_i hknown _
    obtain ⟨t, rfl⟩ := Const.exists_str (hkind hknown rfl (by decide) (by decide))
    obtain ⟨u, rfl⟩ := exists_str_of_subscript hitem
    exact admits_kind (.str u)
  · rename_i hknown _
    obtain ⟨bs, rfl⟩ := Const.exists_bytes (hkind hknown rfl (by decide) (by decide))
    obtain ⟨n, rfl⟩ := exists_int_of_subscript hitem
    exact admits_kind (.int n)
  · -- no constant is a mutable byte string
    rename_i hknown _
    exact absurd ((h.known hknown).mem_kinds rfl (by decide) (by decide)) (by decide)
  · rename_i a as hknown _
    rcases (h.known hknown).generic with ⟨items, x, xs, -, rfl, hargs, hall⟩ | ⟨_, _, hk, -⟩ |
      ⟨_, hk, -⟩
    · cases hargs
      exact ⟨a, mem_cons_self, hall c (mem_of_subscript hitem)⟩
    all_goals exact absurd hk (by decide)
  · -- no constant is a dictionary
    rename_i hknown _
    exact absurd ((h.known hknown).mem_kinds rfl (by decide) (by decide)) (by decide)
  · rename_i a hknown _
    rcases (h.known hknown).generic with ⟨_, _, _, hk, -⟩ | ⟨items, x, -, rfl, hargs, hall⟩ |
      ⟨_, -, -, hargs, -⟩
    · exact absurd hk (by decide)
    · cases hargs
      obtain ⟨i, p, -, -, hp⟩ := exists_position_of_subscript hitem
      exact ⟨a, mem_cons_self, hall c (mem_of_getElem? hp)⟩
    · exact absurd (mem_cons_of_mem _ mem_cons_self) hargs
  · rename_i a as hother hknown _
    have hfits := h.known hknown
    rcases hfits.generic with ⟨_, _, _, hk, -⟩ | ⟨items, x, -, rfl, hargs, hall⟩ |
      ⟨items, -, rfl, hargs, hlength, hall⟩
    · exact absurd hk (by decide)
    · cases hargs
      exact absurd rfl hother
    · obtain ⟨i, p, hi, hp, hx⟩ := exists_position_of_subscript hitem
      split
      · rename_i x hfound
        obtain ⟨j, hj, hmember⟩ := Option.bind_eq_some_iff.mp hfound
        cases (hposition hj).symm.trans hi
        exact ⟨x, mem_cons_self, fits_memberAt hlength hall hp hx hmember⟩
      · obtain ⟨y, hy, hne, hcy⟩ := exists_arg_of_fits hfits (mem_of_getElem? hx)
        exact admits_tupleMembers hy hne hcy
  · exact admits_unknown c

end Parts

end TypeSet

end Readiness
