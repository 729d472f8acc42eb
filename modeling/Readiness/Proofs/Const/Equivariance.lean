import Readiness.Const.Operator
import Readiness.Proofs.Const.Renaming

/-!
# Evaluation under renamed rounds

Operators and pure functions commute with an injective renaming of rounds, applied to
their operands and to the moment of the evaluation.  A result therefore has no births but those of
its operands and of its moment.
-/

namespace Readiness

open List Readiness.Const
namespace Const

/-! ### Format texts -/

namespace Format

/-- Renames the values that a field still has to read. -/
def Rest.rename (f : Nat → Nat) (r : Rest) : Rest := ⟨r.chars, r.values.map (Const.rename f)⟩

variable (f : Nat → Nat)

theorem size_rename (most : Nat) (cs : List Char) (vs : List Const) :
    size most ⟨cs, vs.map (Const.rename f)⟩
      = (size most ⟨cs, vs⟩).map (Prod.map id (Rest.rename f)) := by
  simp only [size]
  split
  · cases vs with
    | nil => rfl
    | cons v vs =>
      simp only [map_cons, integer?_rename]
      cases v.integer? with
      | none => rfl
      | some i =>
        simp only
        split <;> rfl
  · split
    · rfl
    · split <;> rfl

theorem precision_rename (start : List Char) (o : Options) (r : Rest) :
    precision start o (r.rename f) = (precision start o r).map (Prod.map id (Rest.rename f)) := by
  obtain ⟨chars, values⟩ := r
  simp only [precision, Rest.rename]
  split
  · rw [size_rename]
    cases size maxPrecision ⟨_, values⟩ <;> rfl
  · rfl

theorem skipMark_rename (o : Options) (r : Rest) :
    skipMark o (r.rename f) = Prod.map id (Rest.rename f) (skipMark o r) := by
  obtain ⟨chars, values⟩ := r
  cases chars with
  | nil => rfl
  | cons c cs =>
    simp only [skipMark, Rest.rename]
    split <;> rfl

theorem options_rename (cs : List Char) (vs : List Const) :
    options ⟨cs, vs.map (Const.rename f)⟩
      = (options ⟨cs, vs⟩).map (Prod.map id (Rest.rename f)) := by
  unfold options
  simp only [size_rename]
  obtain ⟨o, rest⟩ := flags {} cs
  cases size maxWidth ⟨rest, vs⟩ with
  | error e => rfl
  | ok found =>
    obtain ⟨width, r⟩ := found
    simp only [Except.map, Prod.map, bind, Except.bind, id, precision_rename]
    cases precision rest ((width.map o.withWidth).getD o) r with
    | error e => rfl
    | ok p => exact congrArg Except.ok (skipMark_rename f p.1 p.2)

theorem shownPoints_rename (medium : Medium) (v : Const) :
    shownPoints medium (v.rename f) = shownPoints medium v := by
  cases medium with
  | text => simp only [shownPoints, written, shown_rename, isWritable_rename]
  | bytes => cases v <;> rfl

theorem wholeOf_rename (v : Const) : wholeOf (v.rename f) = wholeOf v := by
  simp only [wholeOf, numeric?_rename]

theorem realOf_rename (medium : Medium) (v : Const) :
    realOf medium (v.rename f) = realOf medium v := by
  simp only [realOf, numeric?_rename]

theorem pointOf_rename (medium : Medium) (v : Const) :
    pointOf medium (v.rename f) = pointOf medium v := by
  cases medium <;> cases v <;> rfl

theorem field_rename (limit : Nat) (medium : Medium) (o : Options) (code : Char) (v : Const) :
    field limit medium o code (v.rename f) = field limit medium o code v := by
  simp only [field, shownPoints_rename, written, text_rename, isWritable_rename, wholeOf_rename,
    integer?_rename,
    realOf_rename, pointOf_rename]

theorem fillFrom_rename (limit : Nat) (medium : Medium) (byKey : Bool) (room : Nat)
    (ps : List Point) (values : List Const) :
    fillFrom limit medium byKey room ps (values.map (Const.rename f))
      = (fillFrom limit medium byKey room ps values).map
          (Prod.map id (List.map (Const.rename f))) := by
  fun_induction fillFrom limit medium byKey room ps values with
  | case1 => rfl
  | case2 room values hroom =>
    cases room <;> rfl
  | case3 room ps values hroom =>
    cases room with
    | zero => exact absurd rfl hroom
    | succ room => rfl
  | case4 room ps values ih =>
    simp only [fillFrom, ih]
    cases fillFrom limit medium byKey room ps values <;> rfl
  | case5 room ps values hkey hmark ih =>
    rw [fillFrom, options_rename]
    · cases options ⟨ps.map Point.shown, values⟩ with
      | error e => rfl
      | ok found =>
        obtain ⟨o, chars, rest⟩ := found
        cases chars with
        | nil => rfl
        | cons code cs =>
          cases rest with
          | nil => rfl
          | cons v vs =>
            simp only [Except.map, Prod.map, bind, Except.bind, id, Rest.rename,
              map_cons, field_rename, ih cs vs]
            cases field limit medium o code v with
            | error e => rfl
            | ok piece =>
              cases fillFrom limit medium byKey room
                (ps.drop (ps.length - cs.length)) vs <;> rfl
    · exact hkey
    · exact hmark
  | case6 room p ps values hkey hmark hp ih =>
    rw [fillFrom, ih]
    · cases fillFrom limit medium byKey room ps values <;> rfl
    · exact hkey
    · exact hmark
    · exact hp

theorem passes_rename (medium : Medium) (v : Const) :
    passes medium (v.rename f) = passes medium v := by
  cases v <;> rfl

theorem valuesOf_rename (v : Const) :
    valuesOf (v.rename f) = (valuesOf v).map (Const.rename f) := by
  cases v <;> simp [Const.rename, renameItems_eq_map, valuesOf]

theorem fill_rename (limit : Nat) (medium : Medium) (format : List Point) (argument : Const) :
    fill limit medium format (argument.rename f) = fill limit medium format argument := by
  simp only [fill, passes_rename, valuesOf_rename, fillFrom_rename]
  cases fillFrom limit medium (passes medium argument) (format.length + 1) format
      (valuesOf argument) with
  | error e => rfl
  | ok found => simp [Except.map, bind, Except.bind]

end Format
end Const

/-! ### Pure functions -/

namespace Pure

open Const (rename)

section Numbers

variable (f : Nat → Nat)

theorem magnitude_rename (v : Const) : magnitude (rename f v) = magnitude v := by
  simp only [magnitude, numeric?_rename]

theorem roundWhole_rename (v : Const) : roundWhole (rename f v) = roundWhole v := by
  simp only [roundWhole, numeric?_rename]

theorem rounded_rename (v n : Const) : rounded (rename f v) (rename f n) = rounded v n := by
  cases n <;> simp only [rounded, rename, roundWhole_rename, roundTo, numeric?_rename] <;> rfl

theorem power_rename (a b : Const) : power (rename f a) (rename f b) = power a b := by
  simp only [power, numeric?_rename]

theorem powerThree_rename (a b c : Const) :
    powerThree (rename f a) (rename f b) (rename f c) = powerThree a b c := by
  cases c <;> simp only [powerThree, rename, power_rename, numeric?_rename] <;> rfl

theorem readable?_rename (v : Const) : readable? (rename f v) = readable? v := by
  cases v <;> rfl

theorem toInteger_rename (v : Const) : toInteger (rename f v) = toInteger v := by
  simp only [toInteger, numeric?_rename, readable?_rename]

theorem toIntegerIn_rename (v base : Const) :
    toIntegerIn (rename f v) (rename f base) = toIntegerIn v base := by
  simp only [toIntegerIn, integer?_rename, readable?_rename]

theorem toDouble_rename (v : Const) : toDouble (rename f v) = toDouble v := by
  simp only [toDouble, numeric?_rename, readable?_rename]

theorem codeOf_rename (v : Const) : codeOf (rename f v) = codeOf v := by
  cases v <;> rfl

theorem elementary_rename (h : Float → Float) (infinite : Raised) (v : Const) :
    elementary h infinite (rename f v) = elementary h infinite v := by
  simp only [elementary, real, numeric?_rename]

theorem logarithm_rename (v : Const) : logarithm (rename f v) = logarithm v := by
  simp only [logarithm, numeric?_rename]

theorem logarithmTo_rename (v base : Const) :
    logarithmTo (rename f v) (rename f base) = logarithmTo v base := by
  simp only [logarithmTo, logarithm_rename]

theorem integerPart_rename (part : Float → Option Int) (v : Const) :
    integerPart part (rename f v) = integerPart part v := by
  simp only [integerPart, numeric?_rename]

theorem charOf_rename (v : Const) : charOf (rename f v) = (charOf v).map (rename f) := by
  simp only [charOf, integer?_rename]
  cases v.integer? with
  | none => rfl
  | some i =>
    simp only
    split
    · rfl
    · split <;> rfl

theorem rangeOf_rename (start stop step : Const) :
    rangeOf (rename f start) (rename f stop) (rename f step)
      = (rangeOf start stop step).map (rename f) := by
  simp only [rangeOf, integer?_rename]
  split
  · split <;> rfl
  · rfl

theorem number_rename (p : Pure) (vs : List Const) :
    number p (vs.map (rename f)) = number p vs := by
  match vs with
  | [] => rfl
  | [v] =>
    cases p <;> simp only [List.map, number, magnitude_rename, length_rename,
      roundWhole_rename, toInteger_rename, toDouble_rename, codeOf_rename, elementary_rename,
      logarithm_rename, integerPart_rename]
  | [a, b] =>
    cases p <;> simp only [List.map, number, rounded_rename, power_rename, toIntegerIn_rename,
      logarithmTo_rename]
  | [a, b, c] => cases p <;> simp only [List.map, number, powerThree_rename]
  | _ :: _ :: _ :: _ :: _ => cases p <;> rfl

theorem born_rename (moment : Moment) (p : Pure) (vs : List Const) :
    (do return .ofNumeric (.evaluated (moment.rename f) 0) (← number p (vs.map (rename f))))
      = Except.map (rename f) (do return .ofNumeric (.evaluated moment 0) (← number p vs)) := by
  rw [number_rename]
  cases number p vs with
  | error e => rfl
  | ok n => simp [bind, Except.bind, pure, Except.pure, Except.map, Birth.rename]

theorem quotientAndRemainder_rename (moment : Moment) (a b : Const) :
    quotientAndRemainder (moment.rename f) (rename f a) (rename f b)
      = (quotientAndRemainder moment a b).map (rename f) := by
  simp only [quotientAndRemainder, numeric?_rename]
  split
  · rename_i x y _ _
    cases x.floorDiv y with
    | error e => rfl
    | ok q =>
      cases x.mod y with
      | error e => rfl
      | ok r => simp [bind, Except.bind, Except.map, Birth.rename]
  · rfl

end Numbers

section Extremes

variable {f : Nat → Nat} (hf : Function.Injective f)

include hf

theorem extreme_rename (r : Const.Relation) (best : Const) (xs : List Const) :
    extreme r (rename f best) (xs.map (rename f)) = (extreme r best xs).map (rename f) := by
  induction xs generalizing best with
  | nil => rfl
  | cons x xs ih =>
    simp only [map_cons, extreme, related_rename hf]
    cases Const.related r x best with
    | error e => rfl
    | ok wins => cases wins <;> exact ih _

theorem extremeOf_rename (r : Const.Relation) (vs : List Const) :
    extremeOf r (vs.map (rename f)) = (extremeOf r vs).map (rename f) := by
  match vs with
  | [] => rfl
  | [s] =>
    simp only [List.map, extremeOf, items_rename]
    cases s.items with
    | error e => rfl
    | ok xs =>
      cases xs with
      | nil => rfl
      | cons x xs => exact extreme_rename hf r x xs
  | a :: b :: vs => exact extreme_rename hf r a (b :: vs)

theorem apply_rename (moment : Moment) (p : Pure) (vs : List Const) :
    apply (moment.rename f) p (vs.map (rename f)) = (apply moment p vs).map (rename f) := by
  cases p with
  | min => exact extremeOf_rename hf .lt vs
  | max => exact extremeOf_rename hf .gt vs
  | divmod =>
    match vs with
    | [] | [_] => rfl
    | [a, b] => exact quotientAndRemainder_rename f moment a b
    | _ :: _ :: _ :: _ => rfl
  | bool =>
    match vs with
    | [] => rfl
    | [v] => simp only [List.map, apply, truth_rename, Except.map, rename]
    | _ :: _ :: _ => rfl
  | chr =>
    match vs with
    | [] => rfl
    | [v] => exact charOf_rename f v
    | _ :: _ :: _ => rfl
  | range =>
    match vs with
    | [] => rfl
    | [b] => exact rangeOf_rename f (.int 0) b (.int 1)
    | [a, b] => exact rangeOf_rename f a b (.int 1)
    | [a, b, c] => exact rangeOf_rename f a b c
    | _ :: _ :: _ :: _ :: _ => rfl
  | _ => exact born_rename f moment _ vs

end Extremes

end Pure

variable {vs : List Const}

/-! ### Operators -/

namespace Const

theorem raising_map {α β : Type} (h : α → β) (result : Except Raised α) :
    raising (result.map h) = (raising result).map h := by
  cases result <;> rfl

section Arithmetic

variable (f : Nat → Nat)

theorem arithmetic_rename (birth : Birth) (op : Numeric → Numeric → Except Raised Numeric)
    (a b : Const) :
    arithmetic (birth.rename f) op (rename f a) (rename f b)
      = (arithmetic birth op a b).map (rename f) := by
  simp only [arithmetic, numeric?_rename]
  split
  · rename_i x y _ _
    cases op x y with
    | error e => rfl
    | ok n => simp [bind, Except.bind, pure, Except.pure, Except.map]
  · rfl

theorem plus_rename (birth : Birth) (a b : Const) :
    plus (birth.rename f) (rename f a) (rename f b) = (plus birth a b).map (rename f) := by
  simp only [plus, joined?_rename]
  cases joined? a b with
  | none => exact arithmetic_rename f birth Numeric.add a b
  | some c => rfl

theorem repetition_rename (s : Const) (count : Int) :
    repetition (rename f s) count = (repetition s count).map (rename f) := by
  simp only [repetition, repeated?_rename]
  split
  · cases s <;> rfl
  · cases repeated? s count <;> rfl

theorem times_rename (birth : Birth) (a b : Const) :
    times (birth.rename f) (rename f a) (rename f b) = (times birth a b).map (rename f) := by
  simp only [times, numeric?_rename, integer?_rename, isSequence_rename, repetition_rename,
    arithmetic_rename]
  split
  · rfl
  · split
    · cases b.integer? <;> rfl
    · split
      · cases a.integer? <;> rfl
      · rfl

theorem modulo_rename (limit : Nat) (birth : Birth) (a b : Const) :
    modulo limit (birth.rename f) (rename f a) (rename f b)
      = (modulo limit birth a b).map (rename f) := by
  have hnumbers := arithmetic_rename f birth Numeric.mod a b
  cases a with
  | str t =>
    simp only [modulo, rename, Format.fill_rename]
    cases Format.fill limit .text t.points b <;> rfl
  | bytes bs =>
    simp only [modulo, rename, Format.fill_rename]
    cases Format.fill limit .bytes (Format.pointsOfBytes bs) b <;> rfl
  | _ => exact hnumbers

theorem shifted_rename (left : Bool) (a b : Const) :
    shifted left (rename f a) (rename f b) = (shifted left a b).map (rename f) := by
  simp only [shifted, integer?_rename]
  split
  · split
    · rfl
    · split <;> rfl
  · rfl

theorem bits_rename (op : Bool → Bool → Bool) (a b : Const) :
    bits op (rename f a) (rename f b) = (bits op a b).map (rename f) := by
  cases a <;> cases b <;> rfl

theorem negated_rename (birth : Birth) (v : Const) :
    negated (birth.rename f) (rename f v) = (negated birth v).map (rename f) := by
  simp only [negated, numeric?_rename]
  cases v.numeric? <;> simp [Except.map]

theorem positive_rename (v : Const) :
    positive (rename f v) = (positive v).map (rename f) := by
  cases v <;> rfl

theorem deciding_rename (stop : Bool) (vs : List Const) :
    deciding stop (vs.map (rename f)) = rename f (deciding stop vs) := by
  induction vs with
  | nil => rfl
  | cons v vs ih =>
    cases vs with
    | nil => rfl
    | cons w vs =>
      simp only [map_cons, deciding, truth_rename] at ih ⊢
      split
      · rfl
      · exact ih

theorem onPair_rename {g h : Const → Const → Except Raised Const}
    (hop : ∀ a b, g (rename f a) (rename f b) = (h a b).map (rename f)) :
    onPair (vs.map (rename f)) g = (onPair vs h).map (rename f) := by
  match vs with
  | [] | [_] => rfl
  | a :: b :: _ =>
    simp only [map_cons, onPair, hop]
    exact raising_map (rename f) (h a b)

theorem onFirst_rename {g h : Const → Except Raised Const}
    (hop : ∀ v, g (rename f v) = (h v).map (rename f)) :
    onFirst (vs.map (rename f)) g = (onFirst vs h).map (rename f) := by
  cases vs with
  | nil => rfl
  | cons v _ =>
    simp only [map_cons, onFirst, hop]
    exact raising_map (rename f) (h v)

theorem unary?_rename (birth : Birth) (sign : String) :
    Option.Rel (fun g h => ∀ v, g (rename f v) = (h v).map (rename f))
      (unary? (birth.rename f) sign) (unary? birth sign) := by
  unfold unary?
  split
  · exact .some (negated_rename f birth)
  · exact .some (positive_rename f)
  · refine .some fun v => ?_
    simp only [integer?_rename]
    cases v.integer? <;> rfl
  · exact .some fun v => by simp only [truth_rename, Except.map, rename]
  · exact .none

end Arithmetic

section Comparison

variable {f : Nat → Nat} (hf : Function.Injective f)

include hf

theorem ordered_rename (r : Relation) (a b : Const) :
    ordered r (rename f a) (rename f b) = (ordered r a b).map (rename f) := by
  simp only [ordered, related_rename hf]
  cases related r a b <;> rfl

theorem binary?_rename (limit : Nat) (birth : Birth) (sign : String) :
    Option.Rel (fun g h => ∀ a b, g (rename f a) (rename f b) = (h a b).map (rename f))
      (binary? limit (birth.rename f) sign) (binary? limit birth sign) := by
  unfold binary?
  split
  · exact .some (plus_rename f birth)
  · exact .some (arithmetic_rename f birth Numeric.sub)
  · exact .some (times_rename f birth)
  · exact .some (arithmetic_rename f birth Numeric.div)
  · exact .some (arithmetic_rename f birth Numeric.floorDiv)
  · exact .some (modulo_rename f limit birth)
  · exact .some (arithmetic_rename f birth Numeric.pow)
  · exact .some (shifted_rename f true)
  · exact .some (shifted_rename f false)
  · exact .some (bits_rename f (· && ·))
  · exact .some (bits_rename f (· || ·))
  · exact .some (bits_rename f (· != ·))
  · exact .some fun a b => by simp only [equals_rename hf, Except.map, rename]
  · exact .some fun a b => by simp only [equals_rename hf, Except.map, rename]
  · exact .some (ordered_rename hf .lt)
  · exact .some (ordered_rename hf .le)
  · exact .some (ordered_rename hf .gt)
  · exact .some (ordered_rename hf .ge)
  · exact .none

theorem isOne_rename (identical : Bool) (a b : Const) :
    isOne identical (rename f a) (rename f b) = isOne identical a b := by
  have hunique : isUnique (rename f a) = isUnique a := by
    cases a <;> try rfl
    case tuple xs => cases xs <;> rfl
  rw [isOne, same_rename hf, hunique, isOne]

theorem special_rename (identical : Bool) (sign : String) (starred : Bool) (vs : List Const) :
    special identical sign starred (vs.map (rename f))
      = (special identical sign starred vs).map (rename f) := by
  unfold special
  split
  · exact onPair_rename f fun a b => by simp only [isOne_rename hf, Except.map, rename]
  · exact onPair_rename f fun a b => by simp only [isOne_rename hf, Except.map, rename]
  · refine onPair_rename f fun a b => ?_
    rw [memberOf_rename hf]
    cases memberOf a b <;> rfl
  · refine onPair_rename f fun a b => ?_
    rw [memberOf_rename hf]
    cases memberOf a b <;> rfl
  · cases starred with
    | true => rfl
    | false => exact congrArg Except.ok (rename_tuple f vs).symm
  · exact onPair_rename f (subscript_rename f)
  · simp only [decided, isEmpty_map, deciding_rename]
    split <;> rfl
  · simp only [decided, isEmpty_map, deciding_rename]
    split <;> rfl
  · rfl

theorem operate_rename (limit : Nat) (identical : Bool) (moment : Moment) (sign : String)
    (starred : Bool) (vs : List Const) :
    operate limit identical (moment.rename f) sign starred (vs.map (rename f))
      = (operate limit identical moment sign starred vs).map (rename f) := by
  have hbinary := binary?_rename hf limit (.evaluated moment 0) sign
  have hunary := unary?_rename f (.evaluated moment 0) sign
  simp only [Birth.rename] at hbinary hunary
  simp only [operate]
  generalize binary? limit (.evaluated (moment.rename f) 0) sign = g,
    binary? limit (.evaluated moment 0) sign = h at hbinary ⊢
  cases hbinary with
  | some hop => exact onPair_rename f hop
  | none =>
    generalize unary? (.evaluated (moment.rename f) 0) sign = g,
      unary? (.evaluated moment 0) sign = h at hunary ⊢
    cases hunary with
    | some hop => exact onFirst_rename f hop
    | none => exact special_rename hf identical sign starred vs

end Comparison

/-! ### Births of results -/

/-- The rounds of a result are among those of its operands and of its moment, if the operation
commutes with renaming. -/
theorem mem_rounds_result {ε : Type} (op : Moment → List Const → Except ε Const)
    (hop : ∀ f : Nat → Nat, Function.Injective f → ∀ m vs,
      op (m.rename f) (vs.map (rename f)) = (op m vs).map (rename f)) {moment : Moment} {c : Const}
    (hc : op moment vs = .ok c) {r : Nat} (hr : r ∈ rounds c) :
    r = moment.round ∨ r ∈ roundsOf vs := by
  have hknown : r ∈ moment.round :: roundsOf vs := by
    refine mem_of_mem_rounds (fun f hf hfix => ?_) hr
    have hmoment : moment.rename f = moment := by
      simp only [Moment.rename, hfix moment.round mem_cons_self]
    have hvs : vs.map (rename f) = vs :=
      map_rename_eq_self fun k hk => hfix k (mem_cons_of_mem _ hk)
    have hsame := hop f hf moment vs
    rw [hmoment, hvs, hc] at hsame
    exact (Except.ok.inj hsame).symm
  exact mem_cons.1 hknown

end Const
end Readiness
