import Readiness.Proofs.Folding.Matching
import Readiness.Proofs.Types.Calls

/-!
# Types of operators and choices

The type of an operator admits the value that the operator gives
(`admits_operatorType`).
-/

namespace Readiness.Inference

open Graph (Statement CallInfo)
open TypeSet (Admits)
open List TypeSet

variable {limit : Nat} {sign : String}

section Operators

variable {image : Image} {s : Statement} {call : CallInfo} {types : List TypeSet}
  {values : List Const} {a b c : Const} {x y : TypeSet}

def ownRules : List String := ["and", "or", "tuple", "slice", "select", "[]"]

def unarySigns : List String := ["neg", "pos", "~", "not"]

theorem operatorType_pair (x y : TypeSet) (rest : List TypeSet) (hown : s.op ∉ ownRules)
    (hunary : s.op ∉ unarySigns) :
    operatorType image s call (x :: y :: rest) = image.binary s.op x y := by
  simp only [ownRules, unarySigns, mem_cons, not_mem_nil, or_false, not_or] at hown hunary
  unfold operatorType
  simp only [hown, or_self, if_false]
  split
  · exact absurd ‹_› hown.2.2.2.2.1
  · exact absurd ‹_› hown.2.2.2.2.2
  · rename_i heq
    cases heq
  · rename_i heq _ _
    cases heq
    simp [hunary]
  · rename_i heq
    cases heq

theorem operatorType_first (x : TypeSet) (rest : List TypeSet) (hop : s.op ∈ unarySigns) :
    operatorType image s call (x :: rest) = image.unary s.op x := by
  unfold operatorType
  generalize s.op = op at hop
  simp only [unarySigns, mem_cons, not_mem_nil, or_false] at hop
  rcases hop with rfl | rfl | rfl | rfl <;> cases rest <;> rfl

/-- No class declares what an item of a constant is. -/
theorem admits_binary_item (hx : x.Admits a) (hy : y.Admits b) (h : a.subscript b = .ok c) :
    (image.binary "[]" x y).Admits c := by
  refine Image.admits_binary_of_numbers hx hy rfl (by decide) fun m n hm hn => ?_
  obtain ⟨i, -, h⟩ := memberAt_of_subscript h
  cases a <;> first | cases hm; done | cases h

theorem admits_itemType (hx : x.Admits a) (hy : y.Admits b) (h : a.subscript b = .ok c)
    (hconst : ∀ k, s.operands[1]? = some (.const k) → k = b) : (itemType image s x y).Admits c := by
  have hitem : ∀ known : TypeSet.Index, known ≠ .slice → (∀ k, known = .constant k → k = b) →
      (if (TypeSet.subscript x known).isUnknown then image.binary "[]" x y
        else TypeSet.subscript x known).Admits c := by
    intro known hslice hconstant
    split
    · exact admits_binary_item hx hy h
    · exact admits_subscript hx h hslice hconstant
  unfold itemType
  dsimp only
  split
  · rename_i k hk
    exact hitem (.constant k) (by simp) fun k' heq => TypeSet.Index.constant.inj heq ▸ hconst k hk
  · -- no constant is a slice
    have hslice : TypeSet.equal y (TypeSet.ofClass .slice) = false := by
      by_contra heq
      obtain ⟨t, ht, hfits⟩ := admits_iff.mp hy
      rw [Bool.not_eq_false] at heq
      have hclass := admits_ofClass.mp
        (admits_iff.mpr ⟨t, (equal_iff.mp heq t).symm.trans ht, hfits⟩)
      exact absurd (hclass.mem_kinds rfl (by decide) (by decide)) (by decide)
    rw [hslice]
    exact hitem .unknown (by simp) (by simp)

theorem mem_of_deciding (stop : Bool) (h : values ≠ []) : Const.deciding stop values ∈ values := by
  induction values with
  | nil => exact absurd rfl h
  | cons v vs ih =>
    cases vs with
    | nil => exact mem_cons_self
    | cons w ws =>
      unfold Const.deciding
      split
      · exact mem_cons_self
      · exact mem_cons_of_mem _ (ih (cons_ne_nil w ws))

theorem admits_decided {stop : Bool} (h : Const.decided stop values = .ok c)
    (hargs : List.Forall₂ Admits types values) : (TypeSet.joinAll types).Admits c := by
  unfold Const.decided at h
  split at h
  · cases h
  · rename_i hempty
    cases h
    obtain ⟨ts, hts, hc⟩ := Image.exists_admits_of_mem hargs
      (mem_of_deciding stop (by simpa using hempty))
    exact admits_joinAll hts hc

theorem fits_tuple_of_admits (hargs : List.Forall₂ Admits types values) :
    (Const.tuple values).Fits
      (.generic .tuple (types.map fun o => o.known?.getD TypeExpr.object)) := by
  have hfits : ∀ {ts : TypeSet} {v : Const}, ts.Admits v →
      v.Fits (ts.known?.getD TypeExpr.object) := by
    intro ts v h
    cases hknown : ts.known? with
    | none => exact .any v
    | some t => exact h.known hknown
  refine .tuple ?_ (by simp [hargs.length_eq]) ?_
  · intro hmem
    obtain ⟨ts, hts, heq⟩ := mem_map.mp hmem
    obtain ⟨i, hi⟩ := mem_iff_getElem?.mp hts
    obtain ⟨v, -, hv⟩ := exists_getElem?_of_forall₂ hargs.flip hi
    exact (hfits hv).ne_ellipsis heq
  · intro i v t hv ht
    obtain ⟨ts, hts, hadmits⟩ := exists_getElem?_of_forall₂ hargs hv
    have hi := (List.getElem?_eq_some_iff.mp hts).1
    rw [length_map, Nat.mod_eq_of_lt hi, getElem?_map, hts] at ht
    cases ht
    exact hfits hadmits

variable {f : Const → Const → Except Raised Const}

theorem exists_pair_of_onPair (h : Const.onPair values f = .ok c) :
    ∃ a b rest, values = a :: b :: rest ∧ f a b = .ok c := by
  unfold Const.onPair at h
  split at h
  · exact ⟨_, _, _, rfl, ok_of_mapError h⟩
  · cases h

theorem operate_cases {moment : Moment} {identical starred : Bool}
    (h : Const.operate limit identical moment sign starred values = .ok c) :
    (∃ f a b rest, Const.binary? limit (.evaluated moment 0) sign = some f ∧
        values = a :: b :: rest ∧ f a b = .ok c) ∨
      (∃ f a rest, Const.unary? (.evaluated moment 0) sign = some f ∧ values = a :: rest ∧
        f a = .ok c) ∨
      Const.special identical sign starred values = .ok c := by
  unfold Const.operate at h
  dsimp only at h
  split at h
  · rename_i f hf
    obtain ⟨a, b, rest, hvalues, hresult⟩ := exists_pair_of_onPair h
    exact .inl ⟨f, a, b, rest, hf, hvalues, hresult⟩
  · rename_i f _ hf
    unfold Const.onFirst at h
    split at h
    · exact .inr (.inl ⟨f, _, _, hf, rfl, ok_of_mapError h⟩)
    · cases h
  · exact .inr (.inr h)

theorem mem_unarySigns {birth : Birth} {f : Const → Except Raised Const}
    (h : Const.unary? birth sign = some f) : sign ∈ unarySigns := by
  unfold Const.unary? at h
  split at h <;> first | decide | cases h

theorem notMem_of_binary? {birth : Birth} (h : Const.binary? limit birth sign = some f) :
    sign ∉ ownRules ∧ sign ∉ unarySigns := by
  unfold Const.binary? at h
  split at h <;> first | decide | cases h

theorem exists_bool_of_bind {x : Except Raised Bool} {f : Bool → Bool}
    (h : (do return Const.bool (f (← x))) = Except.ok c) : ∃ v, c = .bool v := by
  obtain ⟨v, -, h⟩ := ok_of_bind h
  cases h
  exact ⟨_, rfl⟩

theorem admits_operatorType {moment : Moment} {identical : Bool}
    (h : Const.operate limit identical moment s.op call.starred values = .ok c)
    (hargs : List.Forall₂ Admits types values)
    (hconst : ∀ k, s.operands[1]? = some (.const k) → values[1]? = some k)
    (hpower : s.op = "**" → ∀ a b rest m n p, values = a :: b :: rest → a.numeric? = some m →
      b.numeric? = some n → Numeric.pair m n = .ok p → p.powerStays = true) :
    (operatorType image s call types).Admits c := by
  have hcompare : ∀ {f : Const → Const → Except Raised Const} {sign : String},
      Const.onPair values f = .ok c → s.op = sign →
      TypeSet.isComparison sign = true ∧ sign ∉ ownRules ∧ sign ∉ unarySigns →
      (∀ a b d, f a b = .ok d → ∃ v, d = .bool v) → (operatorType image s call types).Admits c := by
    rintro f _ hpair rfl ⟨hcompares, hown, hunary⟩ hbool
    obtain ⟨a, b, rest, rfl, hresult⟩ := exists_pair_of_onPair hpair
    obtain ⟨v, rfl⟩ := hbool a b c hresult
    rcases hargs with _ | ⟨hx, _ | ⟨hy, hrest⟩⟩
    rw [operatorType_pair _ _ _ hown hunary, Image.binary, if_pos hcompares]
    exact admits_kind (.bool v)
  rcases operate_cases h with ⟨f, a, b, rest, hf, rfl, hresult⟩ | ⟨f, a, rest, hf, rfl, hresult⟩ | h
  · rcases hargs with _ | ⟨hx, _ | ⟨hy, hrest⟩⟩
    obtain ⟨hown, hunary⟩ := notMem_of_binary? hf
    rw [operatorType_pair _ _ _ hown hunary]
    exact Image.admits_binary hf hresult hx hy fun hop m n p hm hn hp =>
      hpower hop a b rest m n p rfl hm hn hp
  · rcases hargs with _ | ⟨hx, hrest⟩
    rw [operatorType_first _ _ (mem_unarySigns hf)]
    exact Image.admits_unary hf hresult hx
  · unfold Const.special at h
    split at h
    · exact hcompare h ‹_› (by decide) (by rintro a b d ⟨⟩; exact ⟨_, rfl⟩)
    · exact hcompare h ‹_› (by decide) (by rintro a b d ⟨⟩; exact ⟨_, rfl⟩)
    · exact hcompare h ‹_› (by decide) fun a b d hd => exists_bool_of_bind hd
    · exact hcompare h ‹_› (by decide) fun a b d hd => exists_bool_of_bind hd
    · rename_i hop
      split at h
      · cases h
      · rename_i hstarred
        cases h
        unfold operatorType
        rw [if_neg (by rw [hop]; decide), if_pos hop]
        split
        · exact admits_kind (.tuple values)
        · exact ⟨_, mem_cons_self, fits_tuple_of_admits hargs⟩
    · rename_i hop
      obtain ⟨a, b, rest, rfl, hresult⟩ := exists_pair_of_onPair h
      rcases hargs with _ | ⟨hx, _ | ⟨hy, hrest⟩⟩
      unfold operatorType
      simp only [hop]
      cases hrest with
      | nil => exact admits_itemType hx hy hresult fun k hk => (Option.some.inj (hconst k hk)).symm
      | cons _ _ => exact admits_binary_item hx hy hresult
    · rename_i hop
      unfold operatorType
      rw [if_pos (.inl hop)]
      exact admits_decided h hargs
    · rename_i hop
      unfold operatorType
      rw [if_pos (.inr hop)]
      exact admits_decided h hargs
    · cases h

end Operators
end Readiness.Inference
