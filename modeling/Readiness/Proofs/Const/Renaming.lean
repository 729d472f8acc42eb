import Mathlib.Data.Fintype.EquivFin
import Mathlib.Logic.Equiv.Basic
import Readiness.Const.Sequence
import Readiness.Const.Text

/-!
# Renaming the rounds of births

A number that differs from itself carries the moment of its evaluation.  Which round that was is a
name only: constants are compared by whether two births are the same.

`rename f` puts `f r` for every round `r` of a birth; `rounds` lists the rounds that
occur.

Under an injective renaming two constants stay the same, equal and ordered as before.
Kind, truth, length and text of a constant do not depend on its births at all.
-/

namespace Readiness

open List

def Moment.rename (f : Nat → Nat) (m : Moment) : Moment := ⟨f m.round, m.position⟩

def Birth.rename (f : Nat → Nat) : Birth → Birth
  | .evaluated m part => .evaluated (m.rename f) part
  | birth => birth

theorem Birth.rename_injective {f : Nat → Nat} (hf : Function.Injective f) :
    Function.Injective (Birth.rename f) := by
  intro a b hab
  cases a <;> cases b <;> simp_all [Birth.rename, Moment.rename]
  rename_i m _ n _
  cases m
  cases n
  simp_all [hf.eq_iff]

namespace Const

mutual

def rename (f : Nat → Nat) : Const → Const
  | indefinite n birth => indefinite n (birth.rename f)
  | tuple xs => tuple (renameItems f xs)
  | list xs => list (renameItems f xs)
  | c => c

def renameItems (f : Nat → Nat) : List Const → List Const
  | [] => []
  | x :: xs => rename f x :: renameItems f xs

end

mutual

def rounds : Const → List Nat
  | indefinite _ (.evaluated m _) => [m.round]
  | tuple xs | list xs => roundsOf xs
  | _ => []

def roundsOf : List Const → List Nat
  | [] => []
  | x :: xs => rounds x ++ roundsOf xs

end

section Renaming

variable (f : Nat → Nat)

theorem renameItems_eq_map (xs : List Const) : renameItems f xs = xs.map (rename f) := by
  induction xs with
  | nil => rfl
  | cons x xs ih => simp [renameItems, ih]

theorem length_renameItems (xs : List Const) : (renameItems f xs).length = xs.length := by
  rw [renameItems_eq_map, length_map]

@[simp]
theorem rename_tuple (xs : List Const) : rename f (tuple xs) = tuple (xs.map (rename f)) := by
  simp [rename, renameItems_eq_map]

@[simp]
theorem rename_list (xs : List Const) : rename f (list xs) = list (xs.map (rename f)) := by
  simp [rename, renameItems_eq_map]

@[simp]
theorem rename_ofNumeric (birth : Birth) (n : Numeric) :
    rename f (ofNumeric birth n) = ofNumeric (birth.rename f) n := by
  unfold ofNumeric
  split
  · rfl
  · cases n <;> rfl

@[simp]
theorem numeric?_rename (c : Const) : (rename f c).numeric? = c.numeric? := by
  cases c <;> rfl

@[simp]
theorem integer?_rename (c : Const) : (rename f c).integer? = c.integer? := by
  cases c <;> rfl

@[simp]
theorem truth_rename (c : Const) : (rename f c).truth = c.truth := by
  cases c <;> simp [rename, renameItems_eq_map, truth]

@[simp]
theorem isSequence_rename (c : Const) : (rename f c).isSequence = c.isSequence := by
  cases c <;> rfl

@[simp]
theorem length_rename (c : Const) : (rename f c).length = c.length := by
  cases c <;> simp [rename, renameItems_eq_map, length]

mutual

theorem text_rename (c : Const) : text (rename f c) = text c := by
  cases c <;> try rfl
  case tuple xs | list xs => simp only [rename, text, texts_rename xs]

theorem texts_rename (xs : List Const) :
    texts (renameItems f xs) = texts xs := by
  match xs with
  | [] => rfl
  | x :: xs => simp only [renameItems, texts, text_rename x, texts_rename xs]

end

theorem shown_rename (c : Const) : shown (rename f c) = shown c := by
  cases c with
  | str t => rfl
  | _ => exact congrArg Text.ofString (text_rename f _)

mutual

theorem isWritable_rename (c : Const) : isWritable (rename f c) = isWritable c := by
  cases c <;> try rfl
  case tuple xs | list xs => simp only [rename, isWritable, areWritable_rename xs]

theorem areWritable_rename (xs : List Const) :
    areWritable (renameItems f xs) = areWritable xs := by
  match xs with
  | [] => rfl
  | x :: xs => simp only [renameItems, areWritable, isWritable_rename x, areWritable_rename xs]

end

mutual

theorem briefAt_rename (level : Nat) (c : Const) :
    briefAt level (rename f c) = briefAt level c := by
  cases c <;> try rfl
  case tuple xs | list xs =>
    simp only [rename, briefAt, briefTexts_rename, length_renameItems]

theorem briefTexts_rename (level room : Nat) (xs : List Const) :
    briefTexts level room (renameItems f xs) = briefTexts level room xs := by
  match level, room, xs with
  | _, _, [] => rfl
  | 0, _, _ :: _ | _ + 1, 0, _ :: _ => rfl
  | level + 1, room + 1, x :: xs =>
    simp only [renameItems, briefTexts, briefAt_rename level x, briefTexts_rename (level + 1) room xs]

end

end Renaming

variable {f : Nat → Nat}

mutual

theorem same_rename (hf : Function.Injective f) (a b : Const) :
    same (rename f a) (rename f b) = same a b := by
  cases a <;> cases b <;> try rfl
  case indefinite.indefinite m x n y =>
    simp only [rename, same, (Birth.rename_injective hf).beq_eq]
  case tuple.tuple xs ys | list.list xs ys => exact sameItems_rename hf xs ys

theorem sameItems_rename (hf : Function.Injective f) (xs ys : List Const) :
    sameItems (renameItems f xs) (renameItems f ys) = sameItems xs ys := by
  match xs, ys with
  | [], [] | [], _ :: _ | _ :: _, [] => rfl
  | x :: xs, y :: ys =>
    simp only [renameItems, sameItems, same_rename hf x y, sameItems_rename hf xs ys]

end

mutual

theorem equals_rename (hf : Function.Injective f) (a b : Const) :
    equals (rename f a) (rename f b) = equals a b := by
  cases a <;> cases b <;> try rfl
  case tuple.tuple xs ys | list.list xs ys => exact equalItems_rename hf xs ys

theorem equalItems_rename (hf : Function.Injective f) (xs ys : List Const) :
    equalItems (renameItems f xs) (renameItems f ys) = equalItems xs ys := by
  match xs, ys with
  | [], [] | [], _ :: _ | _ :: _, [] => rfl
  | x :: xs, y :: ys =>
    simp only [renameItems, equalItems, same_rename hf x y, equals_rename hf x y,
      equalItems_rename hf xs ys]

end

mutual

theorem related_rename (hf : Function.Injective f) (r : Relation) (a b : Const) :
    related r (rename f a) (rename f b) = related r a b := by
  cases a <;> cases b <;> try rfl
  case tuple.tuple xs ys | list.list xs ys => exact relatedItems_rename hf r xs ys

theorem relatedItems_rename (hf : Function.Injective f) (r : Relation) (xs ys : List Const) :
    relatedItems r (renameItems f xs) (renameItems f ys) = relatedItems r xs ys := by
  match xs, ys with
  | [], [] | [], _ :: _ | _ :: _, [] => rfl
  | x :: xs, y :: ys =>
    simp only [renameItems, relatedItems, same_rename hf x y, equals_rename hf x y,
      related_rename hf r x y, relatedItems_rename hf r xs ys]

end

theorem holds_rename (hf : Function.Injective f) (x : Const) (xs : List Const) :
    holds (rename f x) (xs.map (rename f)) = holds x xs := by
  unfold holds
  rw [any_map]
  congr 1
  funext y
  simp only [Function.comp_apply, same_rename hf, equals_rename hf]

theorem memberOf_rename (hf : Function.Injective f) (x s : Const) :
    memberOf (rename f x) (rename f s) = memberOf x s := by
  cases s <;> try (cases x <;> rfl)
  case tuple xs | list xs =>
    simp only [rename_tuple, rename_list]
    exact congrArg Except.ok (holds_rename hf x xs)

/-! ### Sequences -/

section Sequences

variable (f : Nat → Nat)

theorem items_rename (c : Const) : (rename f c).items = c.items.map (List.map (rename f)) := by
  cases c <;> simp [rename, renameItems_eq_map, items, Except.map, rangeItems, ofByte]

theorem itemAt_map {α β : Type} (h : α → β) (i : Int) (xs : List α) :
    itemAt i (xs.map h) = (itemAt i xs).map h := by
  unfold itemAt
  rw [length_map]
  cases position? i xs.length with
  | none => rfl
  | some p =>
    simp only [getElem?_map]
    cases xs[p]? <;> rfl

theorem subscript_rename (s i : Const) :
    subscript (rename f s) (rename f i) = (subscript s i).map (rename f) := by
  unfold subscript
  rw [integer?_rename]
  cases i.integer? with
  | none => rfl
  | some n =>
    cases s <;> simp only [memberAt, rename, renameItems_eq_map, itemAt_map] <;> try rfl
    case str t => cases itemAt n t.points <;> rfl
    case bytes bs => cases itemAt n bs <;> rfl
    case range a b c => cases position? n (rangeLength a b c) <;> rfl

theorem joined?_rename (a b : Const) :
    joined? (rename f a) (rename f b) = (joined? a b).map (rename f) := by
  cases a <;> cases b <;> simp [rename, renameItems_eq_map, joined?]

theorem copies_map {α β : Type} (h : α → β) (count : Int) (xs : List α) :
    copies count (xs.map h) = (copies count xs).map h := by
  unfold copies
  cases xs with
  | nil => rfl
  | cons x xs => simp [map_flatten]

theorem repeated?_rename (s : Const) (count : Int) :
    repeated? (rename f s) count = (repeated? s count).map (rename f) := by
  cases s <;> simp [rename, renameItems_eq_map, repeated?, copies_map]

end Sequences

/-! ### The rounds that occur -/

mutual

theorem rename_congr {h : Nat → Nat} (c : Const) (hc : ∀ r ∈ rounds c, f r = h r) :
    rename f c = rename h c := by
  cases c <;> try rfl
  case indefinite n birth =>
    cases birth <;> try rfl
    case evaluated m part =>
      have hm : f m.round = h m.round := hc m.round (by simp [rounds])
      simp only [rename, Birth.rename, Moment.rename, hm]
  case tuple xs => exact congrArg tuple (renameItems_congr xs hc)
  case list xs => exact congrArg list (renameItems_congr xs hc)

theorem renameItems_congr {h : Nat → Nat} (xs : List Const) (hxs : ∀ r ∈ roundsOf xs, f r = h r)
    : renameItems f xs = renameItems h xs := by
  match xs with
  | [] => rfl
  | x :: xs =>
    simp only [roundsOf, mem_append] at hxs
    simp only [renameItems, rename_congr x (fun r hr => hxs r (.inl hr)),
      renameItems_congr xs (fun r hr => hxs r (.inr hr))]

end

mutual

theorem rename_id (c : Const) : rename id c = c := by
  cases c <;> try rfl
  case indefinite n birth => cases birth <;> rfl
  case tuple xs => exact congrArg tuple (renameItems_id xs)
  case list xs => exact congrArg list (renameItems_id xs)

theorem renameItems_id (xs : List Const) : renameItems id xs = xs := by
  match xs with
  | [] => rfl
  | x :: xs => simp only [renameItems, rename_id x, renameItems_id xs]

end

mutual

theorem rounds_rename (f : Nat → Nat) (c : Const) : rounds (rename f c) = (rounds c).map f := by
  cases c <;> try rfl
  case indefinite n birth => cases birth <;> rfl
  case tuple xs | list xs => exact roundsOf_renameItems f xs

theorem roundsOf_renameItems (f : Nat → Nat) (xs : List Const) :
    roundsOf (renameItems f xs) = (roundsOf xs).map f := by
  match xs with
  | [] => rfl
  | x :: xs =>
    simp only [renameItems, roundsOf, rounds_rename f x, roundsOf_renameItems f xs, map_append]

end

theorem rename_eq_self {c : Const} (hc : ∀ r ∈ rounds c, f r = r) : rename f c = c := by
  rw [rename_congr c hc]
  exact rename_id c

theorem map_rename_eq_self {xs : List Const} (hxs : ∀ r ∈ roundsOf xs, f r = r)
    : xs.map (rename f) = xs := by
  rw [← renameItems_eq_map, renameItems_congr xs hxs]
  exact renameItems_id xs

/-- A constant that no renaming of other rounds changes has births of the given rounds only: a
further round could be exchanged for one that does not occur. -/
theorem mem_of_mem_rounds {known : List Nat} {c : Const}
    (hc : ∀ f : Nat → Nat, Function.Injective f → (∀ r ∈ known, f r = r) → rename f c = c)
    {r : Nat} (hr : r ∈ rounds c) : r ∈ known := by
  by_contra hnot
  obtain ⟨fresh, hfresh⟩ := Infinite.exists_notMem_finset (known ++ rounds c).toFinset
  simp only [mem_toFinset, mem_append, not_or] at hfresh
  have hswap : rename (Equiv.swap r fresh) c = c := by
    refine hc _ (Equiv.injective _) fun k hk => Equiv.swap_apply_of_ne_of_ne ?_ ?_
    · exact fun h => hnot (h ▸ hk)
    · exact fun h => hfresh.1 (h ▸ hk)
  have hmem : fresh ∈ rounds (rename (Equiv.swap r fresh) c) := by
    rw [rounds_rename]
    exact mem_map.2 ⟨r, hr, Equiv.swap_apply_left r fresh⟩
  rw [hswap] at hmem
  exact hfresh.2 hmem

end Const
end Readiness
