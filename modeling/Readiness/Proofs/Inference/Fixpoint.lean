import Readiness.Proofs.Inference.Session

/-!
# Types at a fixpoint

Typing a statement again at the end gives nothing that its target does not absorb, and
the result absorbs every operand that is returned (`infer_settles`).  Two kinds of statements are
excepted, since a round takes no notice of what they read: those that read a name that was given up,
and calls of the function itself when the last round added to what it returns.
-/

namespace Readiness.Inference

open Graph (Statement Operand)

/-! ### The types at the end -/

theorem get?_giveUp (names : List String) (types : Types) (x : String) :
    (names.foldl (fun t n => t.set n TypeSet.unknown) types).get? x =
      if x ∈ names then some TypeSet.unknown else types.get? x := by
  induction names generalizing types with
  | nil => rfl
  | cons n names ih =>
    rw [List.foldl_cons, ih]
    by_cases hx : x ∈ names
    · simp [hx]
    · by_cases hn : x = n
      · simp [hn, Table.get?_set_self]
      · simp [hx, hn, Table.get?_set_of_ne]

/-- Leaving out names without types changes the types of no operand. -/
theorem operandType_filter (types : Types) (o : Operand) :
    operandType (types.filter fun e => !e.2.isEmpty) o = operandType types o := by
  cases o with
  | var x =>
    have hfilter := Table.get?_filter types (fun ts => !ts.isEmpty) x
    simp only [operandType, hfilter]
    rcases types.get? x with _ | _ | _ <;> rfl
  | const c | global n e => rfl

theorem Progress.operandType_result_of_mem {p : Progress} {x : String} (hx : x ∈ p.changed) :
    operandType p.result (.var x) = TypeSet.unknown := by
  rw [Progress.result, operandType_filter]
  simp [operandType, Progress.widened, get?_giveUp, hx]

theorem Progress.operandType_result {p : Progress} {o : Operand}
    (ho : ∀ x ∈ p.changed, o ≠ .var x) : operandType p.result o = operandType p.types o := by
  rw [Progress.result, operandType_filter]
  cases o with
  | var x =>
    have hx : x ∉ p.changed := fun hx => ho x hx rfl
    simp [operandType, Progress.widened, get?_giveUp, hx]
  | const c | global n e => rfl

/-! ### The last round -/

/-- What holds when typing ends with some types of names and of the result, where `givenUp` are the
names that were given up, and `earlier` is what the function had returned before the last round. -/
structure Settled (image : Image) (ask : Target → Step (Option TypeSet)) (fixed : List String)
    (t : Target) (statements : List Statement) (givenUp : List String) (earlier : TypeSet)
    (types : Types) (returns : TypeSet) (s : Session) : Prop where
  noted : s.returned? t = some returns
  unknown : ∀ x ∈ givenUp, operandType types (.var x) = TypeSet.unknown
  returned : ∀ st ∈ statements, st.kind = .return_ → ∀ o, st.operands.head? = some o →
    (∀ x ∈ givenUp, o ≠ .var x) → operandType types o ≠ [] →
    TypeSet.Absorbs returns (operandType types o)
  assigned : ∀ st ∈ statements, st.kind ≠ .return_ → ∀ x, st.target = some x → x ∉ fixed →
    (∀ y ∈ givenUp, .var y ∉ st.operands) →
    (∀ u, plan image types st = .error (.inl u) → t.same u = true → earlier = returns) →
    ∃ r, statementType image ask types st s = (.ok r, s) ∧
      (r.getD [] ≠ [] → TypeSet.Absorbs (operandType types (.var x)) (r.getD []))
  recursive : ∀ st ∈ statements, st.kind ≠ .return_ → ∀ x, st.target = some x → x ∉ fixed →
    (∀ y ∈ givenUp, .var y ∉ st.operands) →
    ∀ u, plan image types st = .error (.inl u) → t.same u = true → earlier ≠ [] →
    TypeSet.Absorbs (operandType types (.var x)) earlier

section LastRound

variable {image : Image} {limits : Limits} {room : Nat} {t : Target} {s : Session}

/-- Typing a statement again gives the same result, when the types of its operands are the same and
the function it asks for has returned the same so far. -/
theorem statementType_again {types types' : Types} {st : Statement} {s₁ s₂ s₃ : Session}
    {r : Option TypeSet}
    (h : statementType image (resultOf image limits room) types st s₁ = (.ok r, s₂))
    (hplan : plan image types st = plan image types' st)
    (hreturned : ∀ u, plan image types' st = .error (.inl u) → s₃.returned? u = s₁.returned? u)
    (hbuilt : ∃ new, s₃.built = s₂.built ++ new ∧ ∀ e ∈ new, Preparable image limits e.1) :
    statementType image (resultOf image limits room) types' st s₃ = (.ok r, s₃) := by
  rw [statementType, hplan] at h
  rw [statementType]
  rcases hask : plan image types' st with (u | d) | r'
  · rw [hask] at h
    exact resultOf_again h (hreturned u hask) hbuilt
  · rw [hask] at h
    cases h
  · rw [hask] at h
    cases h
    rfl

variable {fixed : List String} {statements : List Statement} {st : Statement} {p last : Progress}
  {u u₁ : Session}

section Pass

variable (hst : st ∈ statements)
  (hpass : statements.foldlM (typeStatement image (resultOf image limits room) fixed) p u =
    (.ok last, u₁))
include hst hpass

/-- The result absorbs every operand that was returned in the last round. -/
theorem absorbs_returned (hkind : st.kind = .return_) {o : Operand}
    (ho : st.operands.head? = some o) (hkept : ∀ x ∈ last.changed, o ≠ .var x)
    (htyped : operandType last.result o ≠ []) :
    TypeSet.Absorbs last.returns (operandType last.result o) := by
  obtain ⟨p₁, s₁, p₂, s₂, -, -, hst, hafter, -⟩ :=
    exists_typed_of_mem (asking_resultOf room) hpass hst
  have htypes : operandType last.result o = operandType p₁.types o :=
    (last.operandType_result hkept).trans ((hst.advances.trans hafter).operandType_eq hkept)
  rw [htypes] at htyped ⊢
  cases hst with
  | untyped _ hnone => exact absurd (hnone o ho) htyped
  | returned _ o' ho' =>
    cases ho.symm.trans ho'
    exact hafter.returns _ (TypeSet.absorbs_join p₁.returns _)
  | skipped hkind' | kept hkind' | changed hkind' => exact absurd hkind hkind'

/-- The rule of a statement was applied in the last round, and its target absorbs at the end what
the rule gave. -/
theorem exists_rule_of_mem (hkind : st.kind ≠ .return_) {x : String} (hx : st.target = some x)
    (hfixed : x ∉ fixed) : ∃ p₁ s₁ r s₂, Advances p₁ last ∧ Grows image limits u s₁ ∧
      statementType image (resultOf image limits room) p₁.types st
        s₁ = (.ok r, s₂) ∧
      Grows image limits s₂ u₁ ∧
      (r.getD [] ≠ [] → TypeSet.Absorbs (operandType last.result (.var x)) (r.getD [])) := by
  obtain ⟨p₁, s₁, p₂, s₂, -, hgrows, hst, hafter, hgrows'⟩ :=
    exists_typed_of_mem (asking_resultOf room) hpass hst
  have hadvances := hst.advances.trans hafter
  have hunknown : x ∈ last.changed → ∀ ts,
      TypeSet.Absorbs (operandType last.result (.var x)) ts := by
    intro hchanged ts
    rw [last.operandType_result_of_mem hchanged]
    exact TypeSet.absorbs_unknown ts
  cases hst with
  | untyped hkind' | returned hkind' => exact absurd hkind' hkind
  | skipped _ htarget => exact absurd (htarget x hx) hfixed
  | kept _ x' hx' _ r _ hrule habsorbed =>
    cases hx.symm.trans hx'
    refine ⟨p₁, s₁, r, s₂, hadvances, hgrows, hrule, hgrows', fun hne => ?_⟩
    by_cases hchanged : x ∈ last.changed
    · exact hunknown hchanged _
    · have hkept : ∀ y ∈ last.changed, Operand.var x ≠ .var y := by
        rintro y hy ⟨⟩
        exact hchanged hy
      rw [last.operandType_result hkept, hafter.operandType_eq hkept]
      exact habsorbed hne
  | changed _ x' hx' _ ts _ hrule =>
    cases hx.symm.trans hx'
    refine ⟨p₁, s₁, some ts, s₂, hadvances, hgrows, hrule, hgrows', fun _ => hunknown ?_ _⟩
    refine hafter.changed x ?_
    by_cases hmem : x ∈ p₁.changed <;> simp [hmem]

end Pass

/-- A rule reads at the end what it read in the last round. -/
theorem plan_result {p₁ : Progress} (h : Advances p₁ last)
    (hkept : ∀ y ∈ last.changed, .var y ∉ st.operands) :
    plan image p₁.types st = plan image last.result st := by
  refine plan_congr (fun o ho => ?_) image
  have hne : ∀ y ∈ last.changed, o ≠ .var y := fun y hy h => hkept y hy (h ▸ ho)
  exact ((last.operandType_result hne).trans (h.operandType_eq hne)).symm

theorem settled_of_typeRound {before : Progress} {s' : Session}
    (hpending : u.pending = (t, before.returns) :: s.pending)
    (hround : typeRound image (resultOf image limits room) fixed t statements before u =
      (.ok last, s'))
    (hnoted : s'.pending = (t, last.returns) :: s.pending) :
    Settled image (resultOf image limits room) fixed t statements last.changed before.returns
      last.result last.returns s' := by
  obtain ⟨next, u₁, hpass, h⟩ := bind_eq_ok.mp hround
  cases h
  refine ⟨?_, fun x => last.operandType_result_of_mem,
    fun st hst hkind o => absorbs_returned hst hpass hkind, ?_, ?_⟩
  · rw [returned?_of_pending hnoted, if_pos (Target.same_equivalence.refl t)]
  · intro st hst hkind x hx hfixed hkept hself
    obtain ⟨p₁, s₁, r, s₂, hadvances, hgrows, hrule, hgrows', habsorbed⟩ :=
      exists_rule_of_mem hst hpass hkind hx hfixed
    have hreturned : ∀ v, plan image last.result st = .error (.inl v) →
        (u₁.returning t last.returns).returned? v = s₁.returned? v := by
      intro v hv
      rw [returned?_of_pending hnoted, returned?_congr hgrows.pending,
        returned?_of_pending hpending]
      split
      · rename_i hsame
        rw [hself v hv hsame]
      · rfl
    have hbuilt : ∃ new, (u₁.returning t last.returns).built = s₂.built ++ new ∧
        ∀ e ∈ new, Preparable image limits e.1 := by
      obtain ⟨new, hnew, hall⟩ := hgrows'.built
      exact ⟨new, hnew, fun e he => (hall e he).2⟩
    exact ⟨r, statementType_again hrule (plan_result hadvances hkept) hreturned hbuilt,
      habsorbed⟩
  · intro st hst hkind x hx hfixed hkept v hv hsame hne
    obtain ⟨p₁, s₁, r, s₂, hadvances, hgrows, hrule, -, habsorbed⟩ :=
      exists_rule_of_mem hst hpass hkind hx hfixed
    have hreturned : s₁.returned? v = some before.returns := by
      rw [returned?_congr hgrows.pending, returned?_of_pending hpending, if_pos hsame]
    rw [statementType, plan_result hadvances hkept, hv] at hrule
    dsimp only at hrule
    rw [resultOf_returned hreturned, if_neg (by simpa using hne)] at hrule
    cases hrule
    exact habsorbed hne

end LastRound

/-! ### The whole run -/

section Run

variable {image : Image} {limits : Limits} {room : Nat} {t : Target} {s s' : Session}
  {seeds : List (String × TypeSet)} {fixed types : Types} {returns : TypeSet}
  {statements : List Statement}

/-- Typing a function settles its types: after `n` rounds that all changed the types of a name, from
the types of the parameters and of the declared names on, a last round changes nothing or is the
last one allowed, and gives the types up to the names that are given up. -/
theorem infer_settles (hfresh : s.returned? t = none)
    (h : infer image (resultOf image limits room) (Table.ofList seeds) fixed t statements
      (s.opened t) = (.ok (types, returns), s')) :
    ∃ n before u last,
      Rounds image (resultOf image limits room) fixed.keys t statements
        ⟨(Table.ofList seeds).update fixed, [], []⟩ (s.opened t) n before u ∧
      typeRound image (resultOf image limits room) fixed.keys t statements before u =
        (.ok last, s') ∧
      (last.changed = [] ∨ n + 1 = maxRounds) ∧
      Settled image (resultOf image limits room) fixed.keys t statements last.changed
        before.returns types returns s' := by
  have hask : Asking image limits (resultOf image limits room) := asking_resultOf room
  obtain ⟨n, before, u, last, hrounds, hround, hend, rfl, rfl⟩ := exists_last_round_of_infer h
  refine ⟨n, before, u, last, hrounds, hround, hend, ?_⟩
  obtain ⟨s₁, hgrows, rfl⟩ := hrounds.grows hask (returning_opened hfresh [])
  obtain ⟨s₂, hgrows', rfl⟩ := infer_grows hask hfresh h
  exact settled_of_typeRound (pending_returning hfresh hgrows _) hround
    (pending_returning hfresh hgrows' _)

end Run

/-! ### A function that calls itself -/

/-- A program with one function of one parameter. -/
def lone : Image :=
  { Image.empty with
    functions := #[{ (default : Image.Function) with
      name := "f", qualname := "f", signature := ⟨[⟨"n", .positional, none, none⟩], none⟩ }] }

def loneTarget : Target := ⟨.function 0, [.cls (.builtin "int")]⟩

/-- Calls the function with a name and assigns the result. -/
def selfCall (x arg : String) : Statement :=
  { kind := .call, op := "f", location := default, index := 1, target := some x,
    operands := [.var arg],
    call := some { dispatch := .static, calleeName := "f", callee := .function 0 } }

def numberReturned : Statement :=
  { kind := .return_, op := "return", location := default, index := 2,
    operands := [.const (.int 1)] }

/-- Copies the parameter, calls the function with the copy and returns a number. -/
def countdown : List Statement :=
  [{ kind := .assignment, op := "copy", location := default, index := 0, target := some "m",
     operands := [.var "n"] }, selfCall "x" "m", numberReturned]

def loneResult : Target → Step (Option TypeSet) := resultOf lone ⟨none, none, none⟩ 3

def typedLone (statements : List Statement) : Except Refusal (Types × TypeSet) × Session :=
  infer lone loneResult (Table.ofList [("n", TypeSet.ofClass (.builtin "int"))]) .empty loneTarget
    statements (Session.empty.opened loneTarget)

/-- Whether a name absorbs at the end the type of a number. -/
def typedNumber (x : String) : Except Refusal (Types × TypeSet) × Session → Bool
  | (.ok (types, _), _) =>
    decide (TypeSet.Absorbs (operandType types (.var x)) (TypeSet.ofClass (.builtin "int")))
  | _ => false

theorem countdown_settles : Session.empty.returned? loneTarget = none ∧ ∃ types returns s',
    typedLone countdown = (.ok (types, returns), s') ∧
    TypeSet.Absorbs (operandType types (.var "x")) (TypeSet.ofClass (.builtin "int")) ∧
    ∃ n before u last,
      Rounds lone loneResult [] loneTarget countdown
        ⟨Table.ofList [("n", TypeSet.ofClass (.builtin "int"))], [], []⟩
        (Session.empty.opened loneTarget) n before u ∧
      typeRound lone loneResult [] loneTarget countdown before u = (.ok last, s') ∧
      (last.changed = [] ∨ n + 1 = maxRounds) ∧
      Settled lone loneResult [] loneTarget countdown last.changed before.returns types returns
        s' := by
  have hnumber : typedNumber "x" (typedLone countdown) = true := by decide +kernel
  refine ⟨rfl, ?_⟩
  rcases htyped : typedLone countdown with ⟨e | ⟨types, returns⟩, s'⟩
  · rw [htyped] at hnumber
    cases hnumber
  · rw [htyped] at hnumber
    exact ⟨types, returns, s', rfl, of_decide_eq_true hnumber, infer_settles rfl htyped⟩

-- When the function is called with its parameter no name changes in the first round, and the call
-- is not typed again with the number that was returned in that round.
example : typedNumber "x" (typedLone [selfCall "x" "n", numberReturned]) = false := by
  decide +kernel

end Readiness.Inference
