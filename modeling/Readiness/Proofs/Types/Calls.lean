import Readiness.Folding.Expression
import Readiness.Proofs.Types.Arithmetic

/-!
# Types of calls of pure functions

The type of a call admits the value that the call gives (`admits_staticCall`).  Rounding
a double to places is excepted: it gives a double.
-/

namespace Readiness

open List TypeSet

variable {r : Const.Relation}

namespace Pure
variable {v : Const} {n : Numeric}

theorem rank_elementary {f : Float → Float} {infinite : Raised} (h : elementary f infinite v = .ok n) :
    n.rank = 2 := by
  obtain ⟨x, -, h⟩ := ok_of_bind h
  dsimp only at h
  repeat' split at h
  all_goals cases h <;> rfl

theorem rank_integerPart {part : Float → Option Int} (h : integerPart part v = .ok n) :
    n.rank = 1 := by
  unfold integerPart at h
  repeat' split at h
  all_goals cases h <;> rfl

theorem rank_roundWhole (h : roundWhole v = .ok n) : n.rank = 1 := by
  unfold roundWhole at h
  repeat' split at h
  all_goals cases h <;> rfl

theorem rank_readInteger {base : Nat} {cs : List Char} (h : readInteger base cs = .ok n) :
    n.rank = 1 := by
  unfold readInteger at h
  dsimp only at h
  repeat' split at h
  all_goals cases h <;> rfl

theorem rank_toInteger (h : toInteger v = .ok n) : n.rank = 1 := by
  unfold toInteger at h
  repeat' split at h
  all_goals first | exact rank_readInteger h | cases h <;> rfl

theorem rank_toIntegerIn {base : Const} (h : toIntegerIn v base = .ok n) : n.rank = 1 := by
  unfold toIntegerIn at h
  repeat' split at h
  all_goals first | exact rank_readInteger h | cases h

theorem rank_toDouble (h : toDouble v = .ok n) : n.rank = 2 := by
  unfold toDouble at h
  split at h
  · obtain ⟨x, -, h⟩ := ok_of_bind h
    cases h
    rfl
  all_goals try split at h
  all_goals cases h <;> rfl

theorem rank_codeOf (h : codeOf v = .ok n) : n.rank = 1 := by
  unfold codeOf at h
  repeat' split at h
  all_goals cases h <;> rfl

theorem rank_logarithmTo {base : Const} (h : logarithmTo v base = .ok n) : n.rank = 2 := by
  obtain ⟨x, -, h⟩ := ok_of_bind h
  obtain ⟨y, -, h⟩ := ok_of_bind h
  split at h <;> cases h
  rfl

/-- The place of the class of the numbers that a function gives, where its type says so. -/
def resultRank? (f : Pure) : Option Nat :=
  if f ∈ [.len, .round, .int, .ord, .floor, .ceil] then some 1
  else if f ∈ [.float, .sqrt, .exp, .log, .sin, .cos, .tan, .fabs] then some 2
  else none

def KeepsDouble (values : List Const) : Prop :=
  ∃ a b x i, values = [a, b] ∧ a.numeric? = some (.float x) ∧ b.integer? = some i

theorem rank_rounded {places : Const} (h : rounded v places = .ok n)
    (hkept : ¬KeepsDouble [v, places]) : n.rank = 1 := by
  unfold rounded at h
  split at h
  · exact rank_roundWhole h
  · unfold roundTo at h
    split at h
    · cases h
      rfl
    · rename_i x i hx hi
      exact absurd ⟨v, places, x, i, rfl, hx, hi⟩ hkept
    · cases h

theorem rank_of_number {f : Pure} {values : List Const} {r : Nat} (h : number f values = .ok n)
    (hr : f.resultRank? = some r) (hround : f = .round → ¬KeepsDouble values) : n.rank = r := by
  unfold number at h
  split at h <;> first | (cases h; done) | cases hr
  · obtain ⟨k, -, h⟩ := ok_of_bind h
    cases h
    rfl
  · exact rank_roundWhole h
  · exact rank_rounded h (hround rfl)
  · cases h
    rfl
  · exact rank_toInteger h
  · exact rank_toIntegerIn h
  · cases h
    rfl
  · exact rank_toDouble h
  · exact rank_codeOf h
  · exact rank_elementary h
  · exact rank_elementary h
  · obtain ⟨x, -, h⟩ := ok_of_bind h
    cases h
    rfl
  · exact rank_logarithmTo h
  · exact rank_elementary h
  · exact rank_elementary h
  · exact rank_elementary h
  · exact rank_integerPart h
  · exact rank_integerPart h
  · exact rank_elementary h

theorem mem_of_extreme {best c : Const} {xs : List Const} (h : extreme r best xs = .ok c) :
    c ∈ best :: xs := by
  induction xs generalizing best with
  | nil =>
    cases h
    exact mem_cons_self
  | cons x xs ih =>
    obtain ⟨better, -, h⟩ := ok_of_bind h
    split at h
    · exact mem_cons_of_mem _ (ih h)
    · rcases mem_cons.mp (ih h) with rfl | hc
      · exact mem_cons_self
      · exact mem_cons_of_mem _ (mem_cons_of_mem _ hc)

/-- The extreme is one of several arguments, or an item of a single one. -/
theorem extremeOf_cases {values : List Const} {c : Const} (h : extremeOf r values = .ok c) :
    (∃ s items, values = [s] ∧ s.items = .ok items ∧ c ∈ items) ∨
      c ∈ values ∧ 2 ≤ values.length := by
  unfold extremeOf at h
  split at h
  · cases h
  · obtain ⟨items, hitems, h⟩ := ok_of_bind h
    split at h
    · cases h
    · exact .inl ⟨_, _, rfl, hitems, mem_of_extreme h⟩
  · rename_i x xs hsingle
    cases xs with
    | nil => exact absurd rfl hsingle
    | cons y ys => exact .inr ⟨mem_of_extreme h, by simp⟩

theorem rank_magnitude {v : Const} {x : Numeric} (h : magnitude v = .ok n)
    (hx : v.numeric? = some x) : n.rank = if x.rank = 3 then 2 else x.rank := by
  unfold magnitude at h
  rw [hx] at h
  cases x with
  | complex a b =>
    dsimp only at h
    split at h <;> cases h
    rfl
  | _ =>
    cases h
    rfl

end Pure

namespace Image

open TypeSet (Admits)

variable {args : List TypeSet} {values : List Const} {c : Const} {moment : Moment} {f : Pure}

theorem exists_admits_of_mem (h : List.Forall₂ Admits args values) (hc : c ∈ values) :
    ∃ ts ∈ args, ts.Admits c := by
  obtain ⟨i, hi⟩ := mem_iff_getElem?.mp hc
  obtain ⟨ts, hts, hadmits⟩ := exists_getElem?_of_forall₂ h hi
  exact ⟨ts, mem_of_getElem? hts, hadmits⟩

/-- The class of the number that a function gives. -/
theorem fits_of_apply {r : Nat} (h : f.apply moment values = .ok c) (hr : f.resultRank? = some r)
    (hround : f = .round → ¬Pure.KeepsDouble values) : c.Fits (.cls (TypeSet.ofRank r)) := by
  have happly : f.apply moment values =
      (do return .ofNumeric (.evaluated moment 0) (← f.number values)) := by
    cases f <;> first | rfl | cases hr
  rw [happly] at h
  obtain ⟨n, hn, h⟩ := ok_of_bind h
  cases h
  exact Pure.rank_of_number hn hr hround ▸ Const.fits_ofNumeric _ n

theorem admits_extreme {ts : TypeSet} (h : Pure.extremeOf r values = .ok c)
    (hargs : List.Forall₂ Admits args values) (hone : ∀ a, args = [a] → ts = TypeSet.element a)
    (hmany : ∀ a b rest, args = a :: b :: rest → ts = TypeSet.joinAll args) : ts.Admits c := by
  rcases Pure.extremeOf_cases h with ⟨s, items, rfl, hitems, hc⟩ | ⟨hc, hlength⟩
  · rcases hargs with _ | ⟨ha, ⟨⟩⟩
    exact hone _ rfl ▸ admits_element ha hitems hc
  · obtain ⟨a, ha, hadmits⟩ := exists_admits_of_mem hargs hc
    rw [← hargs.length_eq] at hlength
    rcases args with _ | ⟨x, _ | ⟨y, rest⟩⟩
    · cases ha
    · exact absurd hlength (by simp)
    · exact hmany x y rest rfl ▸ admits_joinAll ha hadmits

theorem exists_str_of_charOf {v : Const} (h : Pure.charOf v = .ok c) : ∃ t, c = .str t := by
  unfold Pure.charOf at h
  repeat' split at h
  all_goals cases h
  exact ⟨_, rfl⟩

theorem admits_abs (h : Pure.apply moment .abs values = .ok c)
    (hargs : List.Forall₂ Admits args values) :
    ((builtinCall? (.builtin "abs") args).getD TypeSet.unknown).Admits c := by
  obtain ⟨n, hn, h⟩ := ok_of_bind h
  cases h
  rcases hargs with _ | ⟨ha, _ | ⟨_, _⟩⟩
  · cases hn
  rotate_left
  · cases hn
  rename_i a v
  change (((a.known?.bind TypeSet.rank?).map _).getD TypeSet.unknown).Admits _
  cases hrank : a.known?.bind TypeSet.rank? with
  | none => exact admits_unknown _
  | some r =>
    obtain ⟨t, ht, hr⟩ := Option.bind_eq_some_iff.mp hrank
    obtain ⟨x, hx, hxr⟩ := (ha.known ht).exists_numeric hr
    have hfits := Const.fits_ofNumeric (.evaluated moment 0) n
    rw [Pure.rank_magnitude hn hx, hxr] at hfits
    have hclass : TypeSet.ofRank (if max r 1 = 3 then 2 else max r 1) =
        if r = 3 then .float else TypeSet.ofRank (max r 1) := by
      by_cases hthree : r = 3
      · rw [hthree]
        rfl
      · rw [if_neg hthree, if_neg (by omega)]
    exact admits_ofClass.mpr (hclass ▸ hfits)

/-- The type set of a call of a pure function admits the value that the function gives. -/
theorem admits_builtin {name : String} (hname : Pure.ofName? name = some f)
    (hargs : List.Forall₂ Admits args values) (h : f.apply moment values = .ok c)
    (hround : f = .round → ¬Pure.KeepsDouble values) :
    ((builtinCall? (.builtin name) args).getD TypeSet.unknown).Admits c := by
  unfold Pure.ofName? at hname
  split at hname <;> cases hname
  all_goals first
    | exact admits_ofClass.mpr (fits_of_apply h rfl hround)
    | exact admits_unknown c
    | skip
  · exact admits_abs h hargs
  · exact admits_extreme h hargs (by rintro a rfl; rfl) (by rintro a b rest rfl; rfl)
  · exact admits_extreme h hargs (by rintro a rfl; rfl) (by rintro a b rest rfl; rfl)
  · rcases values with _ | ⟨v, _ | ⟨w, rest⟩⟩
    · cases h
    · obtain ⟨t, rfl⟩ := exists_str_of_charOf h
      exact admits_kind (.str t)
    · cases h

theorem fits_of_construction (args : List TypeSet) {name : String} (hname : Pure.ofName? name = some f)
    (hclass : builtinClasses.contains name = true) (h : f.apply moment values = .ok c) :
    builtinCall? (.type (.cls (.builtin name))) args = some (TypeSet.ofClass (.builtin name)) ∧
      c.Fits (.cls (.builtin name)) := by
  unfold Pure.ofName? at hname
  split at hname <;> cases hname
  all_goals first | exact absurd hclass (by decide) | refine ⟨rfl, ?_⟩
  · exact fits_of_apply h rfl (absurd · (by decide))
  · exact fits_of_apply h rfl (absurd · (by decide))
  · rcases values with _ | ⟨v, _ | ⟨w, rest⟩⟩ <;> cases h <;> exact .kind (.bool _)
  · have hrange : ∀ {start stop step : Const}, Pure.rangeOf start stop step = .ok c →
        c.Fits (.cls .range) := by
      intro start stop step h
      unfold Pure.rangeOf at h
      repeat' split at h
      all_goals cases h
      exact .kind (.range _ _ _)
    rcases values with _ | ⟨a, _ | ⟨b, _ | ⟨s, _ | ⟨_, _⟩⟩⟩⟩
    · cases h
    · exact hrange h
    · exact hrange h
    · exact hrange h
    · cases h

end Image

namespace Inference

open Graph (Statement)

theorem admits_staticCall {types : Types} {s : Statement} {callee : Entity} {f : Pure}
    {args : List TypeSet} {values : List Const} {c : Const} {moment : Moment}
    (hpure : Folding.pure? callee = some f)
    (hclass : ∀ name, callee = .type (.cls (.builtin name)) → Image.builtinClasses.contains name)
    (htyped : allTyped types s.positionalArgs = some args)
    (hargs : List.Forall₂ TypeSet.Admits args values) (h : f.apply moment values = .ok c)
    (hround : f = .round → ¬Pure.KeepsDouble values) :
    ∃ ts, staticCall types s callee = .known ts ∧ ts.Admits c := by
  unfold Folding.pure? at hpure
  split at hpure
  · rename_i name
    refine ⟨(Image.builtinCall? (.builtin name) args).getD TypeSet.unknown, ?_,
      Image.admits_builtin hpure hargs h hround⟩
    unfold staticCall
    simp only [Image.isBuiltinCallable, if_true, htyped]
    cases Image.builtinCall? (.builtin name) args <;> rfl
  · rename_i name
    have hname := hclass name rfl
    obtain ⟨hcall, hfits⟩ := Image.fits_of_construction args hpure hname h
    refine ⟨_, ?_, admits_ofClass.mpr hfits⟩
    unfold staticCall
    simp only [Image.isBuiltinCallable, hname, if_true, htyped, hcall]
  · cases hpure

end Inference
end Readiness
