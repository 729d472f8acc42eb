import Readiness.Proofs.Types.Fitting

/-!
# Types of operators

The type set of a binary or unary operator admits the value that the operator gives
(`admits_binary`, `admits_unary`).  A power may leave the class of its operands, and is excepted
where it does.
-/

namespace Readiness

open List

/-! ### Number classes -/

namespace Numeric

/-- The place of a number among the number classes. -/
def rank : Numeric → Nat
  | int _ => 1
  | float _ => 2
  | complex _ _ => 3

/-- The place of two numbers that were brought to one class. -/
def Pair.rank : Pair → Nat
  | ints _ _ => 1
  | floats _ _ => 2
  | complexes _ _ _ _ => 3

/-- An operation gives the wider class of its operands. -/
def Widens (op : Numeric → Numeric → Except Raised Numeric) : Prop :=
  ∀ {x y z}, op x y = .ok z → z.rank = max x.rank y.rank

variable {x y z : Numeric}

theorem rank_pair {p : Pair} (h : pair x y = .ok p) : p.rank = max x.rank y.rank := by
  cases x <;> cases y
  case int.int | float.float =>
    cases h
    rfl
  case int.float | float.int =>
    obtain ⟨a, -, h⟩ := ok_of_bind h
    cases h
    rfl
  all_goals -- one of the operands is complex
    obtain ⟨a, -, h⟩ := ok_of_bind h
    obtain ⟨b, -, h⟩ := ok_of_bind h
    cases h
    rfl

/-- An operation that keeps the class its operands are brought to gives the wider class. -/
theorem rank_of_pair {f : Pair → Except Raised Numeric} (hf : ∀ {p z}, f p = .ok z → z.rank = p.rank)
    (h : (pair x y >>= f) = .ok z) : z.rank = max x.rank y.rank := by
  obtain ⟨p, hp, h⟩ := ok_of_bind h
  rw [← rank_pair hp]
  exact hf h

theorem widens_add : Widens add :=
  rank_of_pair (by rintro (_ | _ | _) z h <;> cases h <;> rfl)

theorem widens_sub : Widens sub :=
  rank_of_pair (by rintro (_ | _ | _) z h <;> cases h <;> rfl)

theorem widens_mul : Widens mul :=
  rank_of_pair (by rintro (_ | _ | _) z h <;> cases h <;> rfl)

/-- A quotient is a double at least. -/
theorem rank_div (h : div x y = .ok z) : z.rank = max (max x.rank y.rank) 2 := by
  obtain ⟨p, hp, h⟩ := ok_of_bind h
  rw [← rank_pair hp]
  cases p with
  | ints a b =>
    obtain ⟨q, -, h⟩ := ok_of_bind h
    cases h
    rfl
  | floats a b =>
    dsimp only at h
    split at h <;> cases h
    rfl
  | complexes a b c d =>
    obtain ⟨q, -, h⟩ := ok_of_bind h
    cases h
    rfl

theorem widens_divided (ints : Int → Int → Int) (floats : Float × Float → Float) :
    Widens (divided ints floats) := by
  intro x y z h
  unfold divided at h
  split at h
  · cases h
  · cases h
  · refine rank_of_pair ?_ h
    rintro (_ | _ | _) z h <;> dsimp only at h <;> (try split at h) <;> cases h <;> rfl

/-- A power of two numbers stays in their class: no negative power of an integer, and no fractional
power of a negative double. -/
def Pair.powerStays : Pair → Bool
  | ints _ b => decide (0 ≤ b)
  | floats a b => !(a < 0.0 && b != b.floor)
  | complexes _ _ _ _ => true

theorem rank_powFloat {a b : Float} (h : powFloat a b = .ok z)
    (hstays : (Pair.floats a b).powerStays = true) : z.rank = 2 := by
  have hreal : (a < 0.0 && b != b.floor) = false := Bool.not_eq_true' _ ▸ hstays
  unfold powFloat at h
  simp only [hreal, Bool.false_eq_true, if_false] at h
  repeat' split at h
  all_goals cases h <;> rfl

theorem rank_powComplex {a b c d : Float} (h : powComplex a b c d = .ok z) : z.rank = 3 := by
  have hend : ∀ re im : Float, (if isInfinite re || isInfinite im then
      Except.error Raised.overflow else .ok (complex re im)) = Except.ok z → z.rank = 3 := by
    intro re im hz
    split at hz <;> cases hz
    rfl
  unfold powComplex at h
  split at h
  · split at h
    · obtain ⟨⟨re, im⟩, -, h⟩ := ok_of_bind h
      exact hend re im h
    · exact hend _ _ h
  · obtain ⟨⟨re, im⟩, -, h⟩ := ok_of_bind h
    exact hend re im h

theorem rank_pow (h : pow x y = .ok z) (hstays : ∀ p, pair x y = .ok p → p.powerStays = true) :
    z.rank = max x.rank y.rank := by
  obtain ⟨p, hp, h⟩ := ok_of_bind h
  rw [← rank_pair hp]
  have hp := hstays p hp
  cases p with
  | ints a b =>
    dsimp only [powInt] at h
    rw [if_pos (of_decide_eq_true hp)] at h
    cases h
    rfl
  | floats a b => exact rank_powFloat h hp
  | complexes a b c d => exact rank_powComplex h

theorem rank_neg (x : Numeric) : x.neg.rank = x.rank := by cases x <;> rfl

end Numeric

namespace Const

variable {c : Const} {t : TypeExpr}

/-- A number fits the class at its place. -/
theorem fits_ofNumeric (birth : Birth) (n : Numeric) :
    (ofNumeric birth n).Fits (.cls (TypeSet.ofRank n.rank)) := by
  have hkind : (ofNumeric birth n).kind = n.kind := by
    unfold ofNumeric
    split
    · rfl
    · cases n <;> rfl
  have hclass : TypeSet.ofRank n.rank = .builtin n.kind := by cases n <;> rfl
  rw [hclass, ← hkind]
  exact .kind _

/-- A constant that is a number fits the class at its place. -/
theorem fits_of_numeric? {n : Numeric} (h : c.numeric? = some n) :
    c.Fits (.cls (TypeSet.ofRank n.rank)) := by
  cases c with
  | bool b =>
    cases h
    exact .truth b
  | int i =>
    cases h
    exact .kind (.int i)
  | float x =>
    cases h
    exact .kind (.float x)
  | complex x y =>
    cases h
    exact .kind (.complex x y)
  | indefinite m birth =>
    cases h
    cases n <;> exact .kind (.indefinite _ birth)
  | _ => cases h

/-- The places of the number classes by their names, where truth values count as integers. -/
def places : List (String × Nat) := [("bool", 1), ("int", 1), ("float", 2), ("complex", 3)]

theorem exists_numeric_of_kind {r : Nat} (h : (c.kind, r) ∈ places) :
    ∃ n, c.numeric? = some n ∧ n.rank = r := by
  cases c with
  | bool b | int i | float x | complex a b =>
    exact ⟨_, rfl, by simp_all [places, kind, Numeric.rank]⟩
  | indefinite n birth =>
    refine ⟨n, rfl, ?_⟩
    cases n <;> simp_all [places, kind, Numeric.kind, Numeric.rank]
  | _ => simp [places, kind] at h

/-- A constant of a number class is a number at the place of the class. -/
theorem Fits.exists_numeric (h : c.Fits t) {r : Nat} (hr : TypeSet.rank? t = some r) :
    ∃ n, c.numeric? = some n ∧ n.rank = max r 1 := by
  refine exists_numeric_of_kind ?_
  unfold TypeSet.rank? at hr
  split at hr <;> cases hr
  case h_2 => -- a truth value is an integer, too
    rcases h.cls with hk | hk | ⟨-, hk⟩
    · exact absurd hk (by decide)
    · rw [← ClassRef.builtin.inj hk]
      decide
    · rw [hk]
      decide
  all_goals
    rw [h.kind_of_origin rfl (by decide) (by decide)]
    decide

end Const

variable {n : Int}

/-! ### Joined and repeated sequences -/

namespace Const

variable {a b c : Const} {l r : TypeExpr} {k : ClassRef}

abbrev joinable : List ClassRef := [.str, .bytes, .list, .tuple]

theorem numeric?_eq_none_of_isSequence (h : c.isSequence = true) : c.numeric? = Option.none := by
  cases c <;> first | rfl | cases h

theorem isSequence_of_joined (h : joined? a b = some c) : a.isSequence = true := by
  unfold joined? at h
  split at h <;> first | rfl | cases h

theorem kind_of_joined (h : joined? a b = some c) : c.kind = a.kind := by
  unfold joined? at h
  split at h <;> cases h <;> rfl

theorem kind_of_repeated (h : repeated? a n = some c) : c.kind = a.kind := by
  unfold repeated? at h
  split at h <;> cases h <;> rfl

/-- A sequence under a class has that class. -/
theorem Fits.eq_kind_of_joinable (h : c.Fits l) (hl : l.origin? = some k) (hk : k ∈ joinable) :
    k = .builtin c.kind := by
  simp only [joinable, mem_cons, not_mem_nil, or_false] at hk
  rcases hk with rfl | rfl | rfl | rfl <;>
    exact congrArg ClassRef.builtin (h.kind_of_origin hl (by decide) (by decide)).symm

theorem isSequence_of_kind (h : ClassRef.builtin c.kind ∈ joinable) : c.isSequence = true := by
  cases c with
  | indefinite n birth => cases n <;> exact absurd h (by simp [joinable, kind, Numeric.kind])
  | _ => first | rfl | exact absurd h (by simp [joinable, kind])

theorem mem_of_mem_copies {α : Type} {x : α} {xs : List α} (h : x ∈ copies n xs) : x ∈ xs := by
  unfold copies at h
  split at h
  · cases h
  · obtain ⟨ys, hys, hx⟩ := mem_flatten.mp h
    exact eq_of_mem_replicate hys ▸ hx

/-- The members of two tuples that go through the arguments do so when the tuples are joined. -/
theorem fits_tuple_append {args : List TypeExpr} {xs ys : List Const} (hargs : .ellipsis ∉ args)
    (hx : args.length ∣ xs.length) (hy : args.length ∣ ys.length)
    (hxs : ∀ i c a, xs[i]? = some c → args[i % args.length]? = some a → c.Fits a)
    (hys : ∀ i c a, ys[i]? = some c → args[i % args.length]? = some a → c.Fits a) :
    (tuple (xs ++ ys)).Fits (.generic .tuple args) := by
  refine .tuple hargs (length_append ▸ Nat.dvd_add hx hy) fun i c a hc ha => ?_
  rcases Nat.lt_or_ge i xs.length with hi | hi
  · rw [getElem?_append_left hi] at hc
    exact hxs i c a hc ha
  · rw [getElem?_append_right hi] at hc
    -- the first tuple takes whole turns, so the second one starts anew
    obtain ⟨q, hq⟩ := hx
    have hturn : (i - xs.length) % args.length = i % args.length := by
      rw [hq, Nat.sub_mul_mod (hq ▸ hi)]
    exact hys _ c a hc (hturn ▸ ha)

/-- Two sequences of one type are joined to a sequence of that type. -/
theorem Fits.joined (ha : a.Fits l) (hb : b.Fits l) (hl : l.origin? = some k) (hk : k ∈ joinable)
    (h : joined? a b = some c) : c.Fits l := by
  cases l with
  | cls k' =>
    cases hl
    rw [ha.eq_kind_of_joinable rfl hk, ← kind_of_joined h]
    exact .kind c
  | generic k' args =>
    rcases ha.generic with ⟨xs, x, rest, rfl, rfl, rfl, hxs⟩ | ⟨xs, x, rfl, rfl, rfl, hxs⟩ |
      ⟨xs, rfl, rfl, hargs, hlength, hxs⟩
    · rcases hb.generic with ⟨ys, y, _, -, rfl, heq, hys⟩ | ⟨_, _, hother, -⟩ | ⟨_, hother, -⟩
      · cases heq
        cases h
        exact .list _ fun c hc => (mem_append.mp hc).elim (hxs c) (hys c)
      all_goals exact absurd hother (by decide)
    · rcases hb.generic with ⟨_, _, _, hother, -⟩ | ⟨ys, y, -, rfl, heq, hys⟩ | ⟨_, -, -, hother, -⟩
      · exact absurd hother (by decide)
      · cases heq
        cases h
        exact .uniform fun c hc => (mem_append.mp hc).elim (hxs c) (hys c)
      · exact absurd (mem_cons_of_mem _ mem_cons_self) hother
    · rcases hb.generic with ⟨_, _, _, hother, -⟩ | ⟨_, y, -, -, heq, -⟩ |
        ⟨ys, -, rfl, -, hlength', hys⟩
      · exact absurd hother (by decide)
      · rw [heq] at hargs
        exact absurd (mem_cons_of_mem _ mem_cons_self) hargs
      · cases h
        exact fits_tuple_append hargs hlength hlength' hxs hys
  | _ => cases hl

theorem Fits.repeated (ha : a.Fits l) (hl : l.origin? = some k) (hk : k ∈ joinable)
    (htuple : k ≠ .tuple) (h : repeated? a n = some c) : c.Fits l := by
  cases l with
  | cls k' =>
    cases hl
    rw [ha.eq_kind_of_joinable rfl hk, ← kind_of_repeated h]
    exact .kind c
  | generic k' args =>
    cases hl
    rcases ha.generic with ⟨xs, x, rest, rfl, rfl, rfl, hxs⟩ | ⟨_, _, hother, -⟩ | ⟨_, hother, -⟩
    · cases h
      exact .list _ fun c hc => hxs c (mem_of_mem_copies hc)
    all_goals exact absurd hother htuple
  | _ => cases hl

end Const

variable {name : String}

/-! ### Declared operators -/

namespace Image

variable {image : Image}

theorem exists_library_of_knownMember {owner kind : String}
    (h : (knownMember owner kind name).isFunction = true) :
    ∃ full, knownMember owner kind name = .library full := by
  unfold knownMember at h ⊢
  split at h
  case h_2 => exact ⟨_, rfl⟩
  case h_7 => split at h <;> cases h
  all_goals cases h

theorem exists_library_of_ownMember? {k : ClassRef} (hprogram : ∀ p, k ≠ .program p) {e : Entity}
    (h : image.ownMember? k name = some e) (hfunction : e.isFunction = true) :
    ∃ full, e = .library full := by
  unfold ownMember? at h
  split at h
  · exact absurd rfl (hprogram _)
  · split at h
    · cases h
      cases hfunction
    · split at h <;> cases h
      cases hfunction
  · obtain ⟨known, -, h⟩ := Option.bind_eq_some_iff.mp h
    obtain ⟨group, -, h⟩ := Option.bind_eq_some_iff.mp h
    cases h
    exact exists_library_of_knownMember hfunction

theorem ofKnownName_ne_program (name : String) (p : ProgramClass) : ofKnownName name ≠ .program p := by
  unfold ofKnownName
  dsimp only
  split <;> exact fun h => nomatch h

theorem ne_program_of_mem_ancestors {k : ClassRef} (h : k ∈ image.ancestors (.builtin name))
    (p : ProgramClass) : k ≠ .program p := by
  rintro rfl
  unfold ancestors at h
  dsimp only at h
  split at h
  · simp at h
  · cases hknown : knownClasses.find? fun k => k.1 == knownName (.builtin name) <;>
      simp [hknown, ofKnownName_ne_program] at h

/-- Nothing is declared of the operators of a class of the language. -/
theorem operatorReturn?_eq_none {c : Const} {t : TypeExpr} (h : c.Fits t) (sign : String) :
    image.operatorReturn? t sign = none := by
  rw [Option.eq_none_iff_forall_not_mem]
  intro ts hts
  obtain ⟨method, -, hlooked⟩ := Option.bind_eq_some_iff.mp hts
  obtain ⟨k, hk, hresolved⟩ := Option.bind_eq_some_iff.mp hlooked
  obtain ⟨found, hfound, hdeclared⟩ := Option.bind_eq_some_iff.mp hresolved
  have hbuiltin : ∃ name, k = .builtin name := by
    cases t with
    | cls k' =>
      cases hk
      rcases h.cls with rfl | rfl | ⟨rfl, -⟩ <;> exact ⟨_, rfl⟩
    | generic k' args =>
      cases hk
      rcases h.generic with ⟨_, _, _, rfl, -⟩ | ⟨_, _, rfl, -⟩ | ⟨_, rfl, -⟩ <;> exact ⟨_, rfl⟩
    | _ => cases hk
  obtain ⟨name, rfl⟩ := hbuiltin
  have hstored : image.stored? (.builtin name) method = some found := by
    unfold resolve? at hfound
    split at hfound
    · cases hfound
    · exact hfound
  obtain ⟨k, hmem, hown⟩ := exists_of_findSome?_eq_some hstored
  split at hdeclared
  · rename_i hfunction
    obtain ⟨full, rfl⟩ :=
      exists_library_of_ownMember? (ne_program_of_mem_ancestors hmem) hown hfunction
    cases hdeclared
  · cases hdeclared

end Image

/-! ### The rules for operators -/

namespace TypeSet

variable {sign : String} {l r : TypeExpr} {k : ClassRef} {ts : TypeSet}

/-- What the rule for numbers says: the wider class, where the quotient of integers is a double. -/
theorem numeric?_eq_some (h : numeric? sign l r = some k) :
    ∃ m n, rank? l = some m ∧ rank? r = some n ∧
      k = ofRank (if sign = "/" then max (max (max m 1) (max n 1)) 2
        else max (max m 1) (max n 1)) := by
  obtain ⟨m, hm, hrest⟩ := Option.bind_eq_some_iff.mp h
  obtain ⟨n, hn, hk⟩ := Option.bind_eq_some_iff.mp hrest
  refine ⟨m, n, hm, hn, ?_⟩
  have hwide : (if max m n = 0 then 1 else max m n) = max (max m 1) (max n 1) := by
    split <;> omega
  have hlow : 1 ≤ max (max m 1) (max n 1) := by omega
  dsimp only at hk
  rw [hwide] at hk
  generalize max (max m 1) (max n 1) = w at hk hlow
  split at hk
  · rename_i hquotient
    obtain ⟨rfl, rfl⟩ := hquotient
    cases hk
    rfl
  · rename_i hquotient
    split at hk
    · cases hk
    · split at hk
      · cases hk
      · cases hk
        split
        · rename_i hsign
          have hw : w ≠ 1 := fun hw => hquotient ⟨hsign, hw⟩
          rw [Nat.max_eq_left (by omega)]
        · rfl

/-- The cases of the rule for operators on numbers and built-in collections. -/
theorem arithmetic?_eq_some (h : arithmetic? sign l r = some ts) :
    (∃ k, numeric? sign l r = some k ∧ ts = ofClass k) ∨
    numeric? sign l r = none ∧ ∃ lo, l.origin? = some lo ∧
      (sign = "+" ∧ r.origin? = some lo ∧ lo ∈ [ClassRef.str, .bytes, .list, .tuple] ∧
          ts = agreed lo l r ∨
        sign = "*" ∧ lo ∈ [ClassRef.str, .bytes, .list] ∧ ts = [l] ∨
        sign = "%" ∧ lo = .str ∧ ts = ofClass .str ∨
        lo ∈ [ClassRef.set, .frozenset]) := by
  unfold arithmetic? at h
  split at h
  · cases h
    exact .inl ⟨_, ‹_›, rfl⟩
  · refine .inr ⟨‹_›, ?_⟩
    split at h
    · cases h
    · rename_i lo hlo
      refine ⟨lo, hlo, ?_⟩
      dsimp only at h
      split at h
      · rename_i hcase
        cases h
        exact .inl ⟨hcase.1, hcase.2.1, contains_iff_mem.mp hcase.2.2, rfl⟩
      · split at h
        · rename_i hcase
          cases h
          exact .inr (.inl ⟨hcase.1, contains_iff_mem.mp hcase.2.1, rfl⟩)
        · split at h
          · rename_i hcase
            cases h
            exact .inr (.inr (.inl ⟨hcase.1, hcase.2, rfl⟩))
          · split at h
            · rename_i hcase
              exact .inr (.inr (.inr (contains_iff_mem.mp hcase.2.1)))
            · cases h

end TypeSet

variable {i : Int} {limit : Nat}

/-! ### Values of operators -/

namespace Const

variable {birth : Birth} {op : Numeric → Numeric → Except Raised Numeric} {a b c : Const}

/-- The class of an operator on numbers with given places. -/
def resultRank (sign : String) (m n : Nat) : Nat := if sign = "/" then max (max m n) 2 else max m n

theorem arithmetic_eq_ok (h : arithmetic birth op a b = .ok c) :
    ∃ x y z, a.numeric? = some x ∧ b.numeric? = some y ∧ op x y = .ok z ∧ c = ofNumeric birth z := by
  unfold arithmetic at h
  split at h
  · rename_i x y hx hy
    obtain ⟨z, hz, h⟩ := ok_of_bind h
    cases h
    exact ⟨x, y, z, hx, hy, hz, rfl⟩
  · cases h

variable {x y : Numeric}

/-- Arithmetic gives a number of the class that its operation gives. -/
theorem fits_of_arithmetic (h : arithmetic birth op a b = .ok c) {r : Nat}
    (hx : a.numeric? = some x) (hy : b.numeric? = some y) (hop : ∀ z, op x y = .ok z → z.rank = r)
    : c.Fits (.cls (TypeSet.ofRank r)) := by
  obtain ⟨x', y', z, hx', hy', hz, rfl⟩ := arithmetic_eq_ok h
  cases hx.symm.trans hx'
  cases hy.symm.trans hy'
  exact hop z hz ▸ fits_ofNumeric birth z

theorem plus_eq_ok (h : plus birth a b = .ok c) :
    joined? a b = some c ∨ arithmetic birth Numeric.add a b = .ok c := by
  unfold plus at h
  split at h
  · cases h
    exact .inl ‹_›
  · exact .inr h

theorem repeated_of_repetition (h : repetition a n = .ok c) : repeated? a n = some c := by
  unfold repetition at h
  split at h
  · split at h <;> cases h
  · split at h
    · cases h
      assumption
    · cases h

theorem exists_repeated_of_times (hsequence : a.isSequence = true) (h : times birth a b = .ok c) :
    ∃ n, repeated? a n = some c := by
  unfold times at h
  rw [numeric?_eq_none_of_isSequence hsequence] at h
  dsimp only at h
  rw [if_pos hsequence] at h
  split at h
  · exact ⟨_, repeated_of_repetition h⟩
  · cases h

theorem times_of_numeric (hx : a.numeric? = some x) (hy : b.numeric? = some y) :
    times birth a b = arithmetic birth Numeric.mul a b := by
  unfold times
  rw [hx, hy]

theorem numeric?_of_integer? (h : a.integer? = some i) : a.numeric? = some (.int i) := by
  cases a <;> cases h <;> rfl

theorem fits_int_of_integer? (h : a.integer? = some i) : a.Fits (.cls .int) :=
  fits_of_numeric? (numeric?_of_integer? h)

theorem isInteger_of_shifted {left : Bool} (h : shifted left a b = .ok c) :
    ∃ i j k, a.integer? = some i ∧ b.integer? = some j ∧ c.integer? = some k := by
  unfold shifted at h
  split at h
  · rename_i i j hi hj
    refine ⟨i, j, ?_⟩
    split at h
    · cases h
    · split at h <;> cases h <;> exact ⟨_, hi, hj, rfl⟩
  · cases h

theorem isInteger_of_bits {op : Bool → Bool → Bool} (h : bits op a b = .ok c) :
    ∃ i j k, a.integer? = some i ∧ b.integer? = some j ∧ c.integer? = some k := by
  unfold bits at h
  split at h
  · cases h
    exact ⟨_, _, _, rfl, rfl, rfl⟩
  · split at h
    · rename_i i j hi hj
      cases h
      exact ⟨i, j, _, hi, hj, rfl⟩
    · cases h

theorem fits_of_plus (h : plus birth a b = .ok c) (hx : a.numeric? = some x)
    (hy : b.numeric? = some y) : c.Fits (.cls (TypeSet.ofRank (max x.rank y.rank))) := by
  rcases plus_eq_ok h with h | h
  · cases (numeric?_eq_none_of_isSequence (isSequence_of_joined h)).symm.trans hx
  · exact fits_of_arithmetic h hx hy fun _ => Numeric.widens_add

theorem joined_of_plus (hsequence : a.isSequence = true) (h : plus birth a b = .ok c) :
    joined? a b = some c := by
  rcases plus_eq_ok h with h | h
  · exact h
  · obtain ⟨x, -, -, hx, -⟩ := arithmetic_eq_ok h
    cases (numeric?_eq_none_of_isSequence hsequence).symm.trans hx

theorem fits_of_modulo (h : modulo limit birth a b = .ok c) (hx : a.numeric? = some x)
    (hy : b.numeric? = some y) : c.Fits (.cls (TypeSet.ofRank (max x.rank y.rank))) := by
  unfold modulo at h
  split at h
  · cases hx
  · cases hx
  · exact fits_of_arithmetic h hx hy fun _ => Numeric.widens_divided _ _

/-- A filled format text is a text. -/
theorem fits_of_modulo_str (ha : a.kind = "str") (h : modulo limit birth a b = .ok c) :
    c.Fits (.cls .str) := by
  obtain ⟨t, rfl⟩ := exists_str ha
  obtain ⟨u, -, h⟩ := ok_of_bind h
  cases h
  exact .kind (.str _)

theorem fits_of_integers {j k : Int} (hx : a.numeric? = some x) (hy : b.numeric? = some y)
    (hi : a.integer? = some i) (hj : b.integer? = some j) (hk : c.integer? = some k)
    : c.Fits (.cls (TypeSet.ofRank (max x.rank y.rank))) := by
  cases hx.symm.trans (numeric?_of_integer? hi)
  cases hy.symm.trans (numeric?_of_integer? hj)
  exact fits_int_of_integer? hk

end Const

/-! ### Types of operators -/

namespace Image

variable {image : Image} {sign : String} {a b c : Const} {left right : TypeSet}

open TypeSet

/-- An operator that does not compare is typed right when its values on numbers, on joined and
repeated sequences and on format texts are. -/
theorem admits_binary_of (hleft : left.Admits a) (hright : right.Admits b)
    (hcompares : isComparison sign = false)
    (hnumbers : ∀ x y, a.numeric? = some x → b.numeric? = some y →
      c.Fits (.cls (ofRank (Const.resultRank sign x.rank y.rank))))
    (hplus : sign = "+" → a.isSequence = true → Const.joined? a b = some c)
    (htimes : sign = "*" → a.isSequence = true → ∃ n, Const.repeated? a n = some c)
    (hmodulo : sign = "%" → a.kind = "str" → c.Fits (.cls .str)) :
    (image.binary sign left right).Admits c := by
  unfold binary
  rw [hcompares]
  simp only [Bool.false_eq_true, if_false]
  split
  · rename_i l r hl hr
    have ha := hleft.known hl
    have hb := hright.known hr
    split
    · rename_i ts hts
      rcases arithmetic?_eq_some hts with ⟨k, hk, rfl⟩ | ⟨-, lo, hlo, hcase⟩
      · obtain ⟨m, n, hm, hn, rfl⟩ := numeric?_eq_some hk
        obtain ⟨x, hx, hxrank⟩ := ha.exists_numeric hm
        obtain ⟨y, hy, hyrank⟩ := hb.exists_numeric hn
        refine admits_ofClass.mpr ?_
        rw [← hxrank, ← hyrank]
        exact hnumbers x y hx hy
      · rcases hcase with ⟨hsign, hro, hmem, rfl⟩ | ⟨hsign, hmem, rfl⟩ | ⟨hsign, rfl, rfl⟩ | hset
        · have hkind := ha.eq_kind_of_joinable hlo hmem
          have hc := hplus hsign (Const.isSequence_of_kind (hkind ▸ hmem))
          unfold agreed
          split
          · rename_i hsame
            exact ⟨l, mem_cons_self,
              ha.joined (hb.of_same (TypeExpr.same_equivalence.symm hsame)) hlo hmem hc⟩
          · rw [hkind, ← Const.kind_of_joined hc]
            exact admits_kind c
        · have hjoinable : lo ∈ Const.joinable := by
            simp only [mem_cons, not_mem_nil, or_false] at hmem ⊢
            tauto
          have hkind := ha.eq_kind_of_joinable hlo hjoinable
          obtain ⟨n, hn⟩ := htimes hsign (Const.isSequence_of_kind (hkind ▸ hjoinable))
          refine ⟨l, mem_cons_self, ha.repeated hlo hjoinable ?_ hn⟩
          rintro rfl
          exact absurd hmem (by decide)
        · exact admits_ofClass.mpr (hmodulo hsign (ha.kind_of_origin hlo (by decide) (by decide)))
        · -- no constant is a set
          simp only [mem_cons, not_mem_nil, or_false] at hset
          rcases hset with rfl | rfl <;>
            exact absurd (ha.mem_kinds hlo (by decide) (by decide)) (by decide)
    · rw [operatorReturn?_eq_none ha]
      exact admits_unknown c
  · exact admits_unknown c

/-- An operator on numbers alone is typed right when its values are. -/
theorem admits_binary_of_numbers (hleft : left.Admits a) (hright : right.Admits b)
    (hcompares : isComparison sign = false) (hsign : sign ∉ ["+", "*", "%"])
    (hnumbers : ∀ x y, a.numeric? = some x → b.numeric? = some y →
      c.Fits (.cls (ofRank (Const.resultRank sign x.rank y.rank)))) :
    (image.binary sign left right).Admits c := by
  simp only [mem_cons, not_mem_nil, or_false, not_or] at hsign
  exact admits_binary_of hleft hright hcompares hnumbers (fun hs => absurd hs hsign.1)
    (fun hs => absurd hs hsign.2.1) (fun hs => absurd hs hsign.2.2)

/-- The type of a binary operator admits its value, unless a power leaves the class of its
operands. -/
theorem admits_binary {birth : Birth} {f : Const → Const → Except Raised Const}
    (hf : Const.binary? limit birth sign = some f) (h : f a b = .ok c) (hleft : left.Admits a)
    (hright : right.Admits b)
    (hpower : sign = "**" → ∀ x y p, a.numeric? = some x → b.numeric? = some y →
      Numeric.pair x y = .ok p → p.powerStays = true) :
    (image.binary sign left right).Admits c := by
  unfold Const.binary? at hf
  split at hf <;> cases hf
  case h_1 => -- a sum
    exact admits_binary_of hleft hright rfl (fun x y => Const.fits_of_plus h)
      (fun _ hsequence => Const.joined_of_plus hsequence h) (fun hs => absurd hs (by decide))
      (fun hs => absurd hs (by decide))
  case h_2 => -- a difference
    exact admits_binary_of_numbers hleft hright rfl (by decide) fun x y hx hy =>
      Const.fits_of_arithmetic h hx hy fun _ => Numeric.widens_sub
  case h_3 => -- a product
    exact admits_binary_of hleft hright rfl
      (fun x y hx hy => Const.fits_of_arithmetic (Const.times_of_numeric hx hy ▸ h) hx hy
        fun _ => Numeric.widens_mul)
      (fun hs => absurd hs (by decide))
      (fun _ hsequence => Const.exists_repeated_of_times hsequence h)
      (fun hs => absurd hs (by decide))
  case h_4 => -- a quotient
    exact admits_binary_of_numbers hleft hright rfl (by decide) fun x y hx hy =>
      Const.fits_of_arithmetic h hx hy fun _ => Numeric.rank_div
  case h_5 => -- a floor quotient
    exact admits_binary_of_numbers hleft hright rfl (by decide) fun x y hx hy =>
      Const.fits_of_arithmetic h hx hy fun _ => Numeric.widens_divided _ _
  case h_6 => -- a remainder
    exact admits_binary_of hleft hright rfl (fun x y => Const.fits_of_modulo h)
      (fun hs => absurd hs (by decide)) (fun hs => absurd hs (by decide))
      (fun _ hkind => Const.fits_of_modulo_str hkind h)
  case h_7 => -- a power
    exact admits_binary_of_numbers hleft hright rfl (by decide) fun x y hx hy =>
      Const.fits_of_arithmetic h hx hy fun z hz =>
        Numeric.rank_pow hz fun p => hpower rfl x y p hx hy
  case h_8 | h_9 => -- shifts
    obtain ⟨i, j, k, hi, hj, hk⟩ := Const.isInteger_of_shifted h
    exact admits_binary_of_numbers hleft hright rfl (by decide) fun x y hx hy =>
      Const.fits_of_integers hx hy hi hj hk
  case h_10 | h_11 | h_12 => -- operations on bits
    obtain ⟨i, j, k, hi, hj, hk⟩ := Const.isInteger_of_bits h
    exact admits_binary_of_numbers hleft hright rfl (by decide) fun x y hx hy =>
      Const.fits_of_integers hx hy hi hj hk
  case h_13 | h_14 => -- equality
    cases h
    exact admits_kind (.bool _)
  all_goals -- orders
    obtain ⟨t, -, h⟩ := ok_of_bind h
    cases h
    exact admits_kind (.bool t)

theorem admits_unary {birth : Birth} {f : Const → Except Raised Const} {operand : TypeSet}
    (hf : Const.unary? birth sign = some f) (h : f a = .ok c) (hoperand : operand.Admits a) :
    (image.unary sign operand).Admits c := by
  have hrule : sign ≠ "not" →
      (∀ x, a.numeric? = some x → c.Fits (.cls (ofRank x.rank))) →
      (image.unary sign operand).Admits c := by
    intro hnot hnumber
    unfold unary
    rw [if_neg hnot]
    split
    · exact admits_unknown c
    · rename_i t ht
      have ha := hoperand.known ht
      split
      · rename_i rank hrank
        split
        · exact admits_unknown c
        · obtain ⟨x, hx, hxrank⟩ := ha.exists_numeric hrank
          exact admits_ofClass.mpr (hxrank ▸ hnumber x hx)
      · rw [operatorReturn?_eq_none ha]
        exact admits_unknown c
  unfold Const.unary? at hf
  split at hf <;> cases hf
  · -- the opposite number
    refine hrule (by decide) fun x hx => ?_
    unfold Const.negated at h
    rw [hx] at h
    cases h
    exact Numeric.rank_neg x ▸ Const.fits_ofNumeric birth x.neg
  · -- the number itself
    refine hrule (by decide) fun x hx => ?_
    unfold Const.positive at h
    rw [hx] at h
    cases hi : a.integer? with
    | some i =>
      rw [hi] at h
      cases h
      cases hx.symm.trans (Const.numeric?_of_integer? hi)
      exact .kind (.int i)
    | none =>
      rw [hi] at h
      cases h
      exact Const.fits_of_numeric? hx
  · -- the complement
    refine hrule (by decide) fun x hx => ?_
    dsimp only at h
    split at h <;> cases h
    rename_i i hi
    cases hx.symm.trans (Const.numeric?_of_integer? hi)
    exact .kind (.int _)
  · -- negation
    cases h
    exact admits_kind (.bool _)

end Image

end Readiness
