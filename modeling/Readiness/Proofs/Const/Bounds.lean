import Mathlib.Algebra.Order.Ring.Int
import Readiness.Proofs.Types.Arithmetic

/-!
# Results that the guards let through

`guards_bound_results`: operands that pass their check give an integer or a sequence of bounded
length.
-/

namespace Readiness

/-! ### Lengths of integers -/

namespace Numeric

variable {a b : Int} {n : Nat}

theorem bitLength_le_iff : bitLength a ≤ n ↔ a.natAbs < 2 ^ n := by
  unfold bitLength
  split
  · rename_i ha
    rw [ha]
    exact iff_of_true (Nat.zero_le n) (Nat.two_pow_pos n)
  · exact Nat.log2_lt (Int.natAbs_ne_zero.mpr ‹_›)

variable (a b)

theorem natAbs_lt : a.natAbs < 2 ^ bitLength a := bitLength_le_iff.mp (Nat.le_refl _)

variable {a b}

theorem bitLength_mono (h : a.natAbs ≤ b.natAbs) : bitLength a ≤ bitLength b :=
  bitLength_le_iff.mpr (h.trans_lt (natAbs_lt b))

/-- Two integers are below one power of two. -/
theorem natAbs_lt_max (a b : Int) : a.natAbs < 2 ^ max (bitLength a) (bitLength b) ∧
    b.natAbs < 2 ^ max (bitLength a) (bitLength b) :=
  ⟨bitLength_le_iff.mp (Nat.le_max_left _ _), bitLength_le_iff.mp (Nat.le_max_right _ _)⟩

/-- A sum or a difference is longer than its operands by one bit at most. -/
theorem bitLength_le_of_natAbs_le {c : Int} (h : c.natAbs ≤ a.natAbs + b.natAbs) :
    bitLength c ≤ max (bitLength a) (bitLength b) + 1 := by
  obtain ⟨ha, hb⟩ := natAbs_lt_max a b
  rw [bitLength_le_iff, pow_succ]
  omega

theorem bitLength_mul_le (a b : Int) : bitLength (a * b) ≤ bitLength a + bitLength b := by
  rw [bitLength_le_iff, Int.natAbs_mul, pow_add]
  exact Nat.mul_lt_mul'' (natAbs_lt a) (natAbs_lt b)

theorem bitLength_pow_le (a : Int) (n : Nat) : bitLength (a ^ n) ≤ max 1 (bitLength a * n) := by
  rcases Nat.eq_zero_or_pos n with rfl | hn
  · rw [pow_zero]
    exact Nat.le_max_left 1 _
  · refine le_max_of_le_right ?_
    rw [bitLength_le_iff, Int.natAbs_pow, pow_mul]
    exact Nat.pow_lt_pow_left (natAbs_lt a) hn.ne'

theorem bitLength_fmod_le (a : Int) (hb : b ≠ 0) : bitLength (a.fmod b) ≤ bitLength b := by
  have hnonneg := Int.emod_nonneg a hb
  have hlt := Int.emod_lt a hb
  refine bitLength_mono ?_
  rw [Int.fmod_eq_emod]
  split <;> omega

theorem powFloat_ne_int {x y : Float} : powFloat x y ≠ .ok (.int a) := by
  intro h
  unfold powFloat at h
  dsimp only at h
  repeat' split at h
  all_goals first | cases h | cases rank_powComplex h

/-- Powers of zero and of units are zero and units. -/
theorem natAbs_powNat_le (ha : a.natAbs ≤ 1) (n : Nat) : (powNat a n).natAbs ≤ 1 := by
  have hpow : ∀ k, (a.pow k).natAbs ≤ 1 := fun k =>
    (Int.natAbs_pow a k).trans_le ((Nat.pow_le_pow_left ha k).trans_eq (one_pow k))
  unfold powNat
  split <;> exact hpow _

end Numeric

namespace Const

open Numeric (bitLength bitLength_le_iff natAbs_lt_max)

/-- The highest digit of an integer in two's complement is its sign. -/
theorem testBit_fmod {a : Int} {n : Nat} (h : a.natAbs < 2 ^ n) :
    (a.fmod (2 ^ (n + 1) : Nat)).toNat < 2 ^ (n + 1) ∧
      (a.fmod (2 ^ (n + 1) : Nat)).toNat.testBit n = decide (a < 0) := by
  have hpow : 2 ^ (n + 1) = 2 ^ n + 2 ^ n := by rw [pow_succ]; omega
  rw [Int.fmod_eq_emod_of_nonneg _ (Int.natCast_nonneg _)]
  by_cases ha : a < 0
  · have heq : a % (2 ^ (n + 1) : Nat) = a + (2 ^ (n + 1) : Nat) := by
      rw [← Int.add_emod_right, Int.emod_eq_of_lt] <;> omega
    rw [heq, decide_eq_true ha]
    exact ⟨by omega, Nat.testBit_of_two_pow_le_and_two_pow_add_one_gt (by omega) (by omega)⟩
  · rw [Int.emod_eq_of_lt (by omega) (by omega), decide_eq_false ha]
    exact ⟨by omega, Nat.testBit_lt_two_pow (by omega)⟩

theorem bitLength_bitwise_le {op : Bool → Bool → Bool} (hop : op false false = false) (a b : Int) :
    bitLength (bitwise op a b) ≤ max (bitLength a) (bitLength b) + 1 := by
  obtain ⟨ha, hb⟩ := natAbs_lt_max a b
  generalize hn : max (bitLength a) (bitLength b) = n at ha hb ⊢
  obtain ⟨hx, hxs⟩ := testBit_fmod ha
  obtain ⟨hy, hys⟩ := testBit_fmod hb
  have hlt := Nat.bitwise_lt_two_pow (f := op) hx hy
  have hsign := Nat.testBit_bitwise hop (a.fmod (2 ^ (n + 1) : Nat)).toNat
    (b.fmod (2 ^ (n + 1) : Nat)).toNat n
  rw [hxs, hys] at hsign
  unfold bitwise
  simp only [hn, bitLength_le_iff, show Decimal.twoPow (n + 1) = 2 ^ (n + 1) from rfl]
  split
  · have hge := Nat.ge_two_pow_of_testBit (hsign.trans ‹_›)
    rw [pow_succ] at *
    omega
  · exact hlt

/-! ### Operators on two integers -/

section Integers

variable {left right result : Const} {l r v : Int} {birth : Birth}

theorem bitLength_truth_le (b : Bool) (h : (bool b).integer? = some v) : bitLength v ≤ 1 := by
  cases b <;> cases h <;> decide

theorem hasSmallPowers_iff (hl : left.integer? = some l) :
    hasSmallPowers left = true ↔ l.natAbs ≤ 1 := by
  have hequals : ∀ i : Int, equals left (int i) = true ↔ l = i := by
    intro i
    cases left <;> cases hl <;>
      simp [equals, numeric?, Numeric.equals, Numeric.compareReals]
  simp only [hasSmallPowers, hequals, Bool.or_eq_true]
  omega

theorem modulo_of_integer (hl : left.integer? = some l) {limit : Nat} :
    modulo limit birth left right = arithmetic birth Numeric.mod left right := by
  cases left <;> cases hl <;> rfl

variable (hl : left.integer? = some l) (hr : right.integer? = some r)
  (hv : result.integer? = some v)
include hl hr hv

theorem eq_int_of_arithmetic {op : Numeric → Numeric → Except Raised Numeric}
    (h : arithmetic birth op left right = .ok result) : op (.int l) (.int r) = .ok (.int v) := by
  obtain ⟨x, y, z, hx, hy, hz, rfl⟩ := arithmetic_eq_ok h
  cases (numeric?_of_integer? hl).symm.trans hx
  cases (numeric?_of_integer? hr).symm.trans hy
  cases z with
  | int i =>
    cases hv
    exact hz
  | _ =>
    unfold ofNumeric at hv
    split at hv <;> cases hv

theorem bitLength_bits_le {op : Bool → Bool → Bool} (hop : op false false = false)
    (h : bits op left right = .ok result) :
    bitLength v ≤ max (bitLength l) (bitLength r) + 1 := by
  unfold bits at h
  split at h
  · cases h
    exact (bitLength_truth_le _ hv).trans (Nat.le_add_left _ _)
  · rw [hl, hr] at h
    cases h
    cases hv
    exact bitLength_bitwise_le hop l r

variable {b : Bounds}

omit hv in
theorem mul_le_of_checkPower (h : checkPower b left right = .ok ()) (hl' : ¬l.natAbs ≤ 1)
    : bitLength l * r ≤ b.bits := by
  unfold checkPower at h
  rw [Bool.eq_false_iff.mpr (mt (hasSmallPowers_iff hl).mp hl'), isReal, numeric?_of_integer? hr,
    hl, hr, Bool.not_false, Bool.and_self, if_pos rfl] at h
  dsimp only at h
  split at h
  · cases h
  · split at h
    · cases h
    · exact not_lt.mp ‹_›

theorem bitLength_pow_le (hpos : 0 < b.bits) (hcheck : checkPower b left right = .ok ())
    (h : arithmetic birth Numeric.pow left right = .ok result) : bitLength v ≤ b.bits := by
  have hpow : Numeric.powInt l r = .ok (.int v) := eq_int_of_arithmetic hl hr hv h
  unfold Numeric.powInt at hpow
  split at hpow
  · rename_i hnonneg
    obtain ⟨n, rfl⟩ := Int.eq_ofNat_of_zero_le hnonneg
    cases hpow
    by_cases hsmall : l.natAbs ≤ 1
    · exact (Numeric.bitLength_mono (b := 1) (Numeric.natAbs_powNat_le hsmall _)).trans hpos
    · rw [Numeric.powNat, if_neg fun h => hsmall h.1, Int.toNat_natCast]
      refine (Numeric.bitLength_pow_le l n).trans (max_le hpos ?_)
      exact_mod_cast mul_le_of_checkPower hl hr hcheck hsmall
  · obtain ⟨x, -, hpow⟩ := ok_of_bind hpow
    obtain ⟨y, -, hpow⟩ := ok_of_bind hpow
    exact absurd hpow Numeric.powFloat_ne_int

theorem bitLength_shifted_le (hcheck : checkShift b right = .ok ()) {up : Bool}
    (h : shifted up left right = .ok result) : bitLength v ≤ bitLength l + b.shift + 1 := by
  have hle : r ≤ b.shift := by
    unfold checkShift at hcheck
    rw [hr] at hcheck
    dsimp only at hcheck
    split at hcheck
    · cases hcheck
    · exact not_lt.mp ‹_›
  unfold shifted at h
  rw [hl, hr] at h
  dsimp only at h
  split at h
  · cases h
  split at h <;> cases h <;> cases hv
  · have hpow : bitLength (Decimal.twoPow r.toNat) ≤ r.toNat + 1 :=
      bitLength_le_iff.mpr (Nat.pow_lt_pow_right (by decide) (Nat.lt_succ_self _))
    have hle := Numeric.bitLength_mul_le l (Decimal.twoPow r.toNat)
    omega
  · rw [Int.shiftRight_eq_div_pow]
    have hle := Numeric.bitLength_mono (Int.natAbs_ediv_le_natAbs l (2 ^ r.toNat : Nat))
    omega

end Integers

/-- What an operator yields on two integers that pass the check is longer than the left one by no
more than the right one, or the bound, and a carry. -/
theorem bounded_of_integers {sign : String} {left right : Const}
    (hcheck : checkOperands .standard sign left right = .ok ()) {l r : Int}
    (hl : left.integer? = some l) (hr : right.integer? = some r) {limit : Nat} {birth : Birth}
    {f : Const → Const → Except Raised Const} (hf : binary? limit birth sign = some f)
    {result : Const} (h : f left right = .ok result) {v : Int} (hv : result.integer? = some v) :
    bitLength v ≤ bitLength l + max (bitLength r) 4096 + 1 ∧
      (sign = "**" → bitLength v ≤ 4096) := by
  have hx := numeric?_of_integer? hl
  have hy := numeric?_of_integer? hr
  have htruth : ∀ b, result = bool b → bitLength v ≤ 1 := by
    rintro b rfl
    exact bitLength_truth_le b hv
  have harith : ∀ {op}, arithmetic birth op left right = .ok result →
      op (.int l) (.int r) = .ok (.int v) := eq_int_of_arithmetic hl hr hv
  unfold binary? at hf
  split at hf <;> cases hf
  case h_7 =>
    -- a power alone is bounded whatever its operands are
    have hle := bitLength_pow_le (b := .standard) hl hr hv (by decide) hcheck h
    exact ⟨hle.trans (by simp [Bounds.standard]; omega), fun _ => hle⟩
  all_goals refine ⟨?_, by simp⟩
  case h_1 =>
    rcases plus_eq_ok h with h | h
    · cases (numeric?_eq_none_of_isSequence (isSequence_of_joined h)).symm.trans hx
    · cases harith h
      have hle := Numeric.bitLength_le_of_natAbs_le (Int.natAbs_add_le l r)
      omega
  case h_2 =>
    cases harith h
    have hle := Numeric.bitLength_le_of_natAbs_le (Int.natAbs_sub_le l r)
    omega
  case h_3 =>
    rw [times_of_numeric hx hy] at h
    cases harith h
    have hle := Numeric.bitLength_mul_le l r
    omega
  case h_4 => cases Numeric.rank_div (harith h)
  case h_5 =>
    have h : (if r = 0 then _ else _) = _ := harith h
    split at h <;> cases h
    have hle := Numeric.bitLength_mono (Int.natAbs_fdiv_le_natAbs l r)
    omega
  case h_6 =>
    rw [modulo_of_integer hl] at h
    have h : (if r = 0 then _ else _) = _ := harith h
    split at h <;> cases h
    have hle := Numeric.bitLength_fmod_le l ‹_›
    omega
  case h_8 | h_9 =>
    have hle := bitLength_shifted_le hl hr hv hcheck h
    simp only [Bounds.standard] at hle
    omega
  case h_10 | h_11 | h_12 =>
    have hle := bitLength_bits_le hl hr hv rfl h
    omega
  case h_13 | h_14 =>
    cases h
    have hle := htruth _ rfl
    omega
  all_goals
    obtain ⟨b, -, h⟩ := ok_of_bind h
    cases h
    have hle := htruth _ rfl
    omega

/-! ### Repeated sequences -/

theorem length_copies {α : Type} (n : Int) (xs : List α) :
    (copies n xs).length = n.toNat * xs.length := by
  unfold copies
  split
  · simp_all
  · simp

section Sequences

variable {s count : Const} {n : Int} (hs : .builtin s.kind ∈ joinable)
include hs

theorem exists_repeated (n : Int) :
    ∃ c k, repeated? s n = some c ∧ s.length = .ok k ∧ c.length = .ok (n.toNat * k) := by
  cases s with
  | str t | bytes t | tuple t | list t =>
    exact ⟨_, _, rfl, rfl, congrArg Except.ok (length_copies n _)⟩
  | indefinite m birth => cases m <;> simp [joinable, kind, Numeric.kind] at hs
  | _ => simp [joinable, kind] at hs

variable (hn : count.integer? = some n)
include hn

theorem times_of_sequence (birth : Birth) :
    times birth s count = repetition s n ∧ times birth count s = repetition s n := by
  have hsequence := isSequence_of_kind hs
  have hcount : count.isSequence = false := by cases count <;> first | rfl | cases hn
  unfold times
  rw [numeric?_eq_none_of_isSequence hsequence, numeric?_of_integer? hn]
  simp [hsequence, hcount, hn]

theorem mul_le_of_checkRepetition {b : Bounds} {k : Nat} (hk : s.length = .ok k)
    (h : checkRepetition b s count = .ok ()) : n.toNat * k ≤ b.length := by
  unfold checkRepetition at h
  rw [if_pos (isSequence_of_kind hs), hn] at h
  dsimp only at h
  rw [hk] at h
  replace h : (if k * n > b.length then _ else _) = _ := h
  split at h
  · cases h
  · rename_i hle
    rcases le_total 0 n with hpos | hneg
    · obtain ⟨m, rfl⟩ := Int.eq_ofNat_of_zero_le hpos
      rw [Int.mul_comm] at hle
      exact_mod_cast not_lt.mp hle
    · rw [Int.toNat_of_nonpos hneg, Nat.zero_mul]
      exact Nat.zero_le _

end Sequences

/-- An integer that an operator yields on two integers that pass the check is longer than the left
one by `max (bitLength r) 4096 + 1` bits at most, and a power with an exponent that is not negative
has 4096 bits at most; and a sequence that passes the check with a count, on either side, is
repeated to 4096 items at most. -/
theorem guards_bound_results :
    (∀ {sign left right l r limit birth f result v},
      checkOperands .standard sign left right = .ok () → left.integer? = some l →
      right.integer? = some r → binary? limit birth sign = some f → f left right = .ok result →
      result.integer? = some v → bitLength v ≤ bitLength l + max (bitLength r) 4096 + 1 ∧
        (sign = "**" → 0 ≤ r → bitLength v ≤ 4096)) ∧
    ∀ {s count n}, .builtin s.kind ∈ joinable → count.integer? = some n →
      checkOperands .standard "*" s count = .ok () ∨ checkOperands .standard "*" count s = .ok () →
      ∃ c k, repeated? s n = some c ∧ c.length = .ok k ∧ k ≤ 4096 ∧ ∀ birth result,
        times birth s count = .ok result ∨ times birth count s = .ok result → result = c := by
  refine ⟨fun hcheck hl hr hf h hv => ?_, fun hs hn hcheck => ?_⟩
  · exact (bounded_of_integers hcheck hl hr hf h hv).imp_right fun h hsign _ => h hsign
  · obtain ⟨c, k, hc, hk, hlength⟩ := exists_repeated hs _
    refine ⟨c, _, hc, hlength, mul_le_of_checkRepetition (b := .standard) hs hn hk ?_,
      fun birth result h => ?_⟩
    · rcases hcheck with h | h <;> obtain ⟨_, h, h'⟩ := ok_of_bind h
      · exact h
      · exact h'
    obtain ⟨hleft, hright⟩ := times_of_sequence hs hn birth
    rw [hleft, hright, or_self] at h
    exact Option.some.inj ((repeated_of_repetition h).symm.trans hc)

theorem guards_bound_power :
    checkOperands .standard "**" (int (-3)) (int 5) = .ok () ∧ bitLength (-243) ≤ 4096 ∧
      checkOperands .standard "*" (int 2) (bytes [7, 8]) = .ok () ∧
      ∃ c k, repeated? (bytes [7, 8]) 2 = some c ∧ c.length = .ok k ∧ k ≤ 4096 := by
  have hpower : checkOperands .standard "**" (int (-3)) (int 5) = .ok () := rfl
  have htimes : checkOperands .standard "*" (int 2) (bytes [7, 8]) = .ok () := rfl
  refine ⟨hpower, ?_, htimes, ?_⟩
  · have hsign : binary? 0 .library "**" = some (arithmetic .library Numeric.pow) := rfl
    exact (guards_bound_results.1 hpower rfl rfl hsign rfl rfl).2 rfl (by decide)
  · obtain ⟨c, k, hc, hk, hle, -⟩ :=
      guards_bound_results.2 (s := bytes [7, 8]) (by decide) rfl (.inr htimes)
    exact ⟨c, k, hc, hk, hle⟩

end Const
end Readiness
