import Readiness.Folding.Analysis
import Readiness.Proofs.Const.Equivariance
import Readiness.Proofs.Folding.Merging
import Readiness.Proofs.Folding.Run
import Readiness.Proofs.Outcome

/-!
# Facts that match a run

One statement keeps the match (`Matches.transfer`), and so do the statements of a
block (`Matches.runFrom`).  The edge along which a block is left is one of those that the analysis
considers (`mem_liveEdges`).
-/

namespace Readiness.Folding

open Graph (Statement Operand CallInfo Edge)
open List

/-! ### What folding rests on -/

variable {b : Bounds} {c : Const}

theorem eq_of_kept {c' : Const} (h : kept b c = .ok c') :
    c' = c ∧ Const.tooLarge b c = .ok false ∧ ∃ text, c.brief = .ok text := by
  obtain ⟨large, hlarge, h⟩ := ok_of_bind h
  cases large with
  | true => cases h
  | false =>
    split at h
    · cases h
    · obtain ⟨text, htext, h⟩ := ok_of_bind h
      exact ⟨(Except.ok.inj h).symm, ok_of_mapError hlarge, text, ok_of_mapError htext⟩

/-- Where the constant of a call comes from, and the operands whose births it may have. -/
inductive Folded (b : Bounds) (moment : Moment) (facts : Facts) (s : Statement)
    (call : CallInfo) (c : Const) : List Operand → Prop
  | selected {test : Const} {condition chosen : Operand}
    (dispatch : call.dispatch = .operator) (op : s.op = "select")
    (first : s.operand 0 = .ok condition) (hfirst : lookUp? facts condition = some test)
    (second : s.operand (if test.truth then 1 else 2) = .ok chosen)
    (hsecond : lookUp? facts chosen = some c) : Folded b moment facts s call c [chosen]
  | operated {values : List Const} (dispatch : call.dispatch = .operator)
    (op : s.op ≠ "select") (args : known facts s.args = .ok values)
    (result : Const.operate b.length (comparesItself s || b.identical moment) moment s.op
      call.starred values = .ok c)
    (fits : Const.tooLarge b c = .ok false) : Folded b moment facts s call c s.args
  | applied {f : Pure} {values : List Const} (dispatch : call.dispatch = .static)
    (callee : pure? call.callee = some f)
    (plain : (!call.keywords.isEmpty || call.starred) = false)
    (args : known facts s.args = .ok values) (result : f.apply moment values = .ok c) :
    Folded b moment facts s call c s.args

variable {o : Operand} {facts : Facts} {values : List Const}

theorem lookUp?_of_need {obstacle : Obstacle} (h : need facts obstacle o = .ok c) :
    lookUp? facts o = some c := by
  unfold need at h
  cases hlook : lookUp? facts o with
  | none =>
    rw [hlook] at h
    cases h
  | some c' =>
    rw [hlook] at h
    exact congrArg some (Except.ok.inj h)

variable {s : Statement} {position : Nat}

theorem operand_of_operandAt (h : operandAt s position = .ok o) : s.operand position = .ok o := by
  unfold operandAt at h
  cases hoperand : s.operand position with
  | error part =>
    rw [hoperand] at h
    cases h
  | ok o' =>
    rw [hoperand] at h
    exact congrArg Except.ok (Except.ok.inj h)

variable {moment : Moment}

theorem apply_of_applied {f : Pure} (h : applied b moment f values = .ok c) :
    f.apply moment values = .ok c ∧ ∃ text, c.brief = .ok text := by
  obtain ⟨_, _, h⟩ := ok_of_bind h
  obtain ⟨c', hresult, h⟩ := ok_of_bind h
  obtain ⟨rfl, -, hbrief⟩ := eq_of_kept h
  exact ⟨ok_of_mapError hresult, hbrief⟩

theorem folded_of_fold (h : fold b moment facts s = .ok c) :
    ∃ call used, s.call = some call ∧ Folded b moment facts s call c used ∧
      ∃ text, c.brief = .ok text := by
  unfold fold at h
  cases hcall : s.call with
  | none =>
    rw [hcall] at h
    cases h
  | some call =>
    simp only [hcall] at h
    cases hdispatch : call.dispatch with
    | operator =>
      simp only [hdispatch] at h
      split at h
      · rename_i hop
        obtain ⟨condition, hfirst, h⟩ := ok_of_bind h
        obtain ⟨test, htest, h⟩ := ok_of_bind h
        obtain ⟨chosen, hsecond, h⟩ := ok_of_bind h
        obtain ⟨c', hchosen, h⟩ := ok_of_bind h
        obtain ⟨large, -, h⟩ := ok_of_bind h
        cases large with
        | true => cases h
        | false =>
          obtain ⟨text, htext, h⟩ := ok_of_bind h
          cases h
          exact ⟨call, [chosen], rfl, .selected hdispatch hop (operand_of_operandAt hfirst)
            (lookUp?_of_need htest) (operand_of_operandAt hsecond) (lookUp?_of_need hchosen),
            text, ok_of_mapError htext⟩
      · rename_i hop
        obtain ⟨values, hvalues, h⟩ := ok_of_bind h
        obtain ⟨c', hc', h⟩ := ok_of_bind (ok_of_mapError h)
        obtain ⟨rfl, hfits, hbrief⟩ := eq_of_kept h
        obtain ⟨_, _, hresult⟩ := ok_of_bind hc'
        exact ⟨call, s.args, rfl, .operated hdispatch hop hvalues hresult hfits, hbrief⟩
    | static =>
      simp only [hdispatch] at h
      cases hcallee : pure? call.callee with
      | none =>
        rw [hcallee] at h
        cases h
      | some f =>
        simp only [hcallee] at h
        split at h
        · cases h
        · rename_i hplain
          obtain ⟨values, hvalues, h⟩ := ok_of_bind h
          obtain ⟨hresult, hbrief⟩ := apply_of_applied (ok_of_mapError h)
          exact ⟨call, s.args, rfl, .applied hdispatch hcallee (by simpa using hplain) hvalues
            hresult, hbrief⟩
    | method | indirect =>
      simp only [hdispatch] at h
      cases h

/-! ### Births of what is looked up -/

theorem mem_operands_of_operand (h : s.operand position = .ok o) : o ∈ s.operands := by
  unfold Statement.operand at h
  cases hget : s.operands[position]? with
  | none =>
    rw [hget] at h
    cases h
  | some o' =>
    rw [hget] at h
    exact Except.ok.inj h ▸ mem_of_getElem? hget

/-- A constant that is looked up is the fact of a name, or it stands in the operand. -/
theorem lookUp?_cases (h : lookUp? facts o = some c) :
    (∃ x, o = .var x ∧ facts.get? x = some (.const c)) ∨
      o = .const c ∨ ∃ n, o = .global n (.const c) := by
  cases o with
  | const c' =>
    cases h
    exact .inr (.inl rfl)
  | var x =>
    obtain ⟨k, hk, hc⟩ := Option.bind_eq_some_iff.1 h
    cases k with
    | const c' =>
      cases hc
      exact .inl ⟨x, rfl, hk⟩
    | varies => cases hc
  | global n e =>
    cases e <;> simp only [lookUp?, outer?] at h <;> try cases h
    case const c' =>
      split at h
      · cases h
        exact .inr (.inr ⟨n, rfl⟩)
      · cases h

variable {os : List Operand}

theorem forall₂_of_known (h : known facts os = .ok values) :
    List.Forall₂ (fun o c => lookUp? facts o = some c) os values := by
  induction os generalizing values with
  | nil =>
    cases h
    exact .nil
  | cons o os ih =>
    unfold known at h
    cases hlook : lookUp? facts o with
    | none =>
      rw [hlook] at h
      cases h
    | some c =>
      simp only [hlook] at h
      obtain ⟨rest, hrest, h⟩ := ok_of_bind h
      cases h
      exact .cons hlook (ih hrest)

def OccursIn (facts : Facts) (os : List Operand) (r : Nat) : Prop :=
  ∃ o ∈ os, ∃ c, lookUp? facts o = some c ∧ r ∈ c.rounds

theorem occursIn_of_known (h : known facts os = .ok values) {r : Nat}
    (hr : r ∈ Const.roundsOf values) : OccursIn facts os r := by
  have hlooked := forall₂_of_known h
  clear h
  induction hlooked with
  | nil => cases hr
  | cons hlook _ ih =>
    rcases mem_append.1 hr with hr | hr
    · exact ⟨_, mem_cons_self, _, hlook, hr⟩
    · obtain ⟨o', ho', hc⟩ := ih hr
      exact ⟨o', mem_cons_of_mem _ ho', hc⟩

variable {call : CallInfo} {used : List Operand}

/-- A folded constant has births of its operands and of its own round only. -/
theorem Folded.occursIn (h : Folded b moment facts s call c used) {r : Nat} (hr : r ∈ c.rounds)
    : r = moment.round ∨ OccursIn facts used r := by
  cases h with
  | selected _ _ _ _ _ hsecond =>
    exact .inr ⟨_, mem_singleton.2 rfl, c, hsecond, hr⟩
  | operated _ _ args result _ =>
    have hresult := Const.mem_rounds_result
      (fun m vs => Const.operate b.length (comparesItself s || b.identical moment) m s.op
        call.starred vs)
      (fun f hf m vs => Const.operate_rename hf b.length _ m s.op call.starred vs) result hr
    exact hresult.imp_right (occursIn_of_known args)
  | @applied p values _ _ _ args result =>
    have hresult := Const.mem_rounds_result (fun m vs => p.apply m vs)
      (fun f hf m vs => Pure.apply_rename hf m p vs) result hr
    exact hresult.imp_right (occursIn_of_known args)

theorem Folded.mem_operands (h : Folded b moment facts s call c used) (ho : o ∈ used)
    : o ∈ s.operands := by
  cases h with
  | selected _ _ _ _ second _ =>
    exact mem_singleton.1 ho ▸ mem_operands_of_operand second
  | operated | applied => exact Statement.mem_operands_of_mem_args ho

/-- The operands of a statement carry no births of an evaluation. -/
def WrittenIn (s : Statement) : Prop := ∀ o ∈ s.operands, operandRounds o = []

/-! ### The match of facts and values -/

/-- A value is a constant of the analysis under a renaming of rounds to visits below a bound. -/
structure Value.Holds (f : Nat → Nat) (bound : Nat) (v : Value) (c : Const) : Prop where
  eq : v = .const (c.rename f)
  early : ∀ r ∈ c.rounds, f r < bound

/-- Facts match the values of names: known names hold their constants, and a name of which nothing
is known is as it was at the start. -/
structure Matches (f : Nat → Nat) (bound : Nat) (start : Store) (facts : Facts)
    (store : Store) : Prop where
  held : ∀ {x c v}, facts.get? x = some (.const c) → store x = some v → v.Holds f bound c
  untouched : ∀ {x}, facts.get? x = none → store x = start x

variable {n : Nat} {facts' : Facts} {condition : Option Const} {statements : List Statement}

variable {final : Store}

section Matching

variable {f : Nat → Nat} {bound : Nat} {start : Store} {facts : Facts} {store : Store}
variable {v : Value}

theorem Matches.read (h : Matches f bound start facts store) (ho : operandRounds o = [])
    (hlook : lookUp? facts o = some c) (hread : read store o = some v) : v.Holds f bound c := by
  rcases lookUp?_cases hlook with ⟨x, rfl, hx⟩ | rfl | ⟨n, rfl⟩
  · exact h.held hx hread
  all_goals
    have hnone : c.rounds = [] := ho
    cases hread
    exact ⟨by rw [Const.rename_eq_self (by simp [hnone])], by simp [hnone]⟩

theorem Matches.readAt (h : Matches f bound start facts store) (hs : WrittenIn s)
    (ho : s.operand position = .ok o) (hlook : lookUp? facts o = some c)
    (hread : readAt store s position = some v) : v.Holds f bound c := by
  unfold Folding.readAt at hread
  rw [ho] at hread
  exact h.read (hs o (mem_operands_of_operand ho)) hlook hread

theorem read_of_mapM {values : List Value} (h : os.mapM (Folding.read store) = some values)
    (ho : o ∈ os) : ∃ v, Folding.read store o = some v := by
  induction os generalizing values with
  | nil => cases ho
  | cons first os ih =>
    simp only [mapM_cons, Option.bind_eq_bind, Option.bind_eq_some_iff] at h
    obtain ⟨v, hv, vs, hvs, -⟩ := h
    rcases mem_cons.1 ho with rfl | ho
    · exact ⟨v, hv⟩
    · exact ih hvs ho

theorem Matches.mapM_read (h : Matches f bound start facts store)
    (hos : ∀ o ∈ os, operandRounds o = []) {cs : List Const} (hknown : known facts os = .ok cs)
    {values : List Value} (hread : os.mapM (Folding.read store) = some values) :
    values.mapM Value.const? = some (cs.map (Const.rename f)) := by
  have hlooked := forall₂_of_known hknown
  clear hknown
  induction hlooked generalizing values with
  | nil =>
    cases hread
    rfl
  | cons hlook _ ih =>
    simp only [mapM_cons, Option.bind_eq_bind, Option.bind_eq_some_iff] at hread
    obtain ⟨v, hv, vs, hvs, hread⟩ := hread
    cases hread
    have hhead := (h.read (hos _ mem_cons_self) hlook hv).eq
    have htail := ih (fun o ho => hos o (mem_cons_of_mem _ ho)) hvs
    simp [hhead, htail, Value.const?]

theorem Matches.onConstants (h : Matches f bound start facts store) (hs : WrittenIn s)
    {cs : List Const} (hknown : known facts s.args = .ok cs) {Result : List Const → Prop}
    (hresult : OnConstants store s.args Result) :
    Result (cs.map (Const.rename f)) ∧ ∀ o ∈ s.args, ∃ v, Folding.read store o = some v := by
  obtain ⟨values, hread, hall⟩ := hresult
  have hargs : ∀ o ∈ s.args, operandRounds o = [] :=
    fun o ho => hs o (Statement.mem_operands_of_mem_args ho)
  exact ⟨hall _ (h.mapM_read hargs hknown hread), fun o ho => read_of_mapM hread ho⟩

theorem le_of_fits (h : Const.tooLarge b c = .ok false) (hn : c.length = .ok n) : n ≤ b.length := by
  have hsequence : c.isSequence = true ∧ ∀ i, c ≠ .int i := by
    cases c <;> simp_all [Const.length, Const.isSequence]
  have hlength : Const.tooLarge b c = .ok (decide (b.length < n)) := by
    unfold Const.tooLarge
    split
    · exact absurd rfl (hsequence.2 _)
    · simp only [hsequence.1, if_true, hn]
      rfl
  rw [hlength] at h
  have hnot : ¬ b.length < n := of_decide_eq_false (Except.ok.inj h)
  omega

/-- A folded call gives its constant when it is run, up to the renaming, after reading the
operands whose births the constant may have. -/
theorem Matches.folded (hf : Function.Injective f) (h : Matches f bound start facts store)
    (hs : WrittenIn s) (hfolded : Folded b ⟨n, position⟩ facts s call c used)
    (hv : Calls b.length ⟨f n, position⟩ store s call v) :
    v = .const (c.rename f) ∧ ∀ o ∈ used, ∃ w, Folding.read store o = some w := by
  have hmoment : (⟨f n, position⟩ : Moment) = Moment.rename f ⟨n, position⟩ := rfl
  unfold Calls at hv
  cases hfolded with
  | @selected test condition chosen dispatch op first hfirst second hsecond =>
    simp only [dispatch, op, if_true] at hv
    obtain ⟨w, hw, hchosen⟩ := hv
    have hread := hchosen _ (h.readAt hs first hfirst hw).eq
    rw [Const.truth_rename] at hread
    refine ⟨(h.readAt hs second hsecond hread).eq, fun o ho => ⟨v, ?_⟩⟩
    unfold Folding.readAt at hread
    rw [second] at hread
    exact mem_singleton.1 ho ▸ hread
  | @operated values dispatch op args result fits =>
    simp only [dispatch, op, if_false] at hv
    obtain ⟨hoperates, hread⟩ := h.onConstants hs args hv
    have hrenamed := Const.operate_rename hf b.length
      (comparesItself s || b.identical ⟨n, position⟩) ⟨n, position⟩ s.op call.starred values
    rw [result] at hrenamed
    replace hoperates := hoperates (b.identical ⟨n, position⟩)
    unfold Operates at hoperates
    rw [hmoment, hrenamed] at hoperates
    refine ⟨hoperates.resolve_right ?_, hread⟩
    rintro ⟨-, k, hk, hlong⟩
    rw [Const.length_rename] at hk
    have := le_of_fits fits hk
    omega
  | @applied p values dispatch callee plain args result =>
    simp only [dispatch, callee, plain, Bool.false_eq_true, if_false] at hv
    obtain ⟨⟨c', hc', heq⟩, hread⟩ := h.onConstants hs args hv
    have hrenamed := Pure.apply_rename hf ⟨n, position⟩ p values
    rw [result] at hrenamed
    rw [hmoment, hrenamed] at hc'
    rw [heq, ← Except.ok.inj hc']
    exact ⟨rfl, hread⟩

theorem Matches.fold (hf : Function.Injective f) (h : Matches f bound start facts store)
    (hn : f n < bound) (hs : WrittenIn s) (hfold : fold b ⟨n, position⟩ facts s = .ok c)
    (hv : ∀ call, s.call = some call → Calls b.length ⟨f n, position⟩ store s call v) :
    v.Holds f bound c := by
  obtain ⟨call, used, hcall, hfolded, -⟩ := folded_of_fold hfold
  obtain ⟨heq, hread⟩ := h.folded hf hs hfolded (hv call hcall)
  refine ⟨heq, fun r hr => ?_⟩
  rcases hfolded.occursIn hr with rfl | ⟨o, ho, c', hlook, hr'⟩
  · exact hn
  · obtain ⟨w, hw⟩ := hread o ho
    exact (h.read (hs o (hfolded.mem_operands ho)) hlook hw).early r hr'

theorem after_of_ne_branch (hkind : s.kind ≠ .branch) (store : Store) (v : Value) :
    store.after s v = match s.target with
      | some t => Function.update store t (some v)
      | none => store := by
  unfold Store.after
  cases hk : s.kind with
  | branch => exact absurd hk hkind
  | _ => cases s.target <;> rfl

theorem Matches.define (h : Matches f bound start facts store) (hkind : s.kind ≠ .branch)
    {value : Option Const} (hvalue : ∀ c, value = some c → v.Holds f bound c) :
    Matches f bound start (define facts s value) (store.after s v) := by
  rw [after_of_ne_branch hkind]
  unfold Folding.define
  cases s.target with
  | none => exact h
  | some t =>
    refine ⟨?_, ?_⟩
    · intro x c w hx hw
      by_cases hxt : x = t
      · subst hxt
        simp only [Table.get?_set_self, Option.some.injEq] at hx
        simp only [Function.update_self, Option.some.injEq] at hw
        cases value with
        | none => cases hx
        | some c' => exact hw ▸ hvalue c (congrArg some (Known.const.inj hx))
      · rw [Table.get?_set_of_ne _ hxt] at hx
        simp only [Function.update_of_ne hxt] at hw
        exact h.held hx hw
    · intro x hx
      by_cases hxt : x = t
      · subst hxt
        simp [Table.get?_set_self] at hx
      · rw [Table.get?_set_of_ne _ hxt] at hx
        simp only [Function.update_of_ne hxt]
        exact h.untouched hx

theorem ok_of_surviving {outcome : Except Obstacle Const} (h : surviving outcome = .ok (.ok c)) :
    outcome = .ok c := by
  cases outcome with
  | ok c' => exact Except.ok.inj h
  | error e =>
    simp only [surviving] at h
    split at h <;> cases h

theorem lookUp?_of_operandValue? (h : operandValue? facts s position = .ok (some c)) :
     ∃ o, s.operand position = .ok o ∧ lookUp? facts o = some c := by
  unfold operandValue? at h
  cases hoperand : s.operand position with
  | error part =>
    rw [hoperand] at h
    cases h
  | ok o =>
    rw [hoperand] at h
    exact ⟨o, rfl, Except.ok.inj h⟩

def Gives (b : Bounds) (moment : Moment) (facts : Facts) (s : Statement) (c : Const) : Prop :=
  (s.kind = .call ∧ fold b moment facts s = .ok c) ∨
    (s.kind = .assignment ∧ s.op = "copy" ∧ ∃ o, s.operand 0 = .ok o ∧ lookUp? facts o = some c)

variable {facts' : Facts}

/-- A statement defines its target by the constant that it gives, or as varying; a branch defines
nothing. -/
theorem transfer_cases (h : transfer b moment facts s = .ok facts') :
    (s.kind = .branch ∧ facts' = facts) ∨
      (s.kind ≠ .branch ∧ ∃ value, facts' = define facts s value ∧
        ∀ c, value = some c → Gives b moment facts s c) := by
  unfold transfer at h
  cases hkind : s.kind with
  | call =>
    simp only [hkind] at h
    obtain ⟨outcome, houtcome, h⟩ := ok_of_bind h
    refine .inr ⟨nofun, outcome.toOption, (Except.ok.inj h).symm, fun c hc => ?_⟩
    cases outcome with
    | error e => cases hc
    | ok c' =>
      cases hc
      exact .inl ⟨hkind, ok_of_surviving houtcome⟩
  | assignment =>
    simp only [hkind] at h
    split at h
    · rename_i hop
      obtain ⟨value, hvalue, h⟩ := ok_of_bind h
      refine .inr ⟨nofun, value, (Except.ok.inj h).symm, fun c hc => ?_⟩
      exact .inr ⟨hkind, hop, lookUp?_of_operandValue? (hc ▸ hvalue)⟩
    · exact .inr ⟨nofun, none, (Except.ok.inj h).symm, nofun⟩
  | branch =>
    simp only [hkind] at h
    exact .inl ⟨rfl, (Except.ok.inj h).symm⟩
  | _ =>
    simp only [hkind] at h
    exact .inr ⟨nofun, none, (Except.ok.inj h).symm, nofun⟩

/-- What holds of every constant that a statement gives holds of the facts after it. -/
theorem Each.transfer {P : String → Const → Prop} (h : Each P facts)
    (ht : transfer b moment facts s = .ok facts')
    (hgives : ∀ x c, s.target = some x → Gives b moment facts s c → P x c) : Each P facts' := by
  rcases transfer_cases ht with ⟨-, rfl⟩ | ⟨-, value, rfl, hvalue⟩
  · exact h
  · unfold define
    cases htarget : s.target with
    | none => exact h
    | some x =>
      refine h.set fun c hc => ?_
      cases value with
      | none => cases hc
      | some c' =>
        cases hc
        exact hgives x c htarget (hvalue c rfl)

theorem runFrom_cons {rest : List Statement} {r : Facts × Option Const}
    (h : runFrom b n condition position facts (s :: rest) = .ok r) :
    ∃ known middle, (s.kind = .branch → operandValue? facts s 0 = .ok known) ∧
      transfer b ⟨n, position⟩ facts s = .ok middle ∧
      runFrom b n known (position + 1) middle rest = .ok r := by
  unfold runFrom at h
  split at h
  · obtain ⟨known, hknown, h⟩ := ok_of_bind h
    obtain ⟨middle, hmiddle, h⟩ := ok_of_bind h
    exact ⟨known, middle, fun _ => hknown, hmiddle, h⟩
  · rename_i hkind
    obtain ⟨known, -, h⟩ := ok_of_bind h
    obtain ⟨middle, hmiddle, h⟩ := ok_of_bind h
    exact ⟨known, middle, fun hbranch => absurd hbranch hkind, hmiddle, h⟩

theorem Matches.transfer (hf : Function.Injective f) (h : Matches f bound start facts store)
    (hn : f n < bound) (hs : WrittenIn s) (ht : transfer b ⟨n, position⟩ facts s = .ok facts')
    (hv : Yields b.length ⟨f n, position⟩ store s v) :
    Matches f bound start facts' (store.after s v) := by
  unfold Yields at hv
  rcases transfer_cases ht with ⟨hkind, rfl⟩ | ⟨hkind, value, rfl, hvalue⟩
  · have hstore : store.after s v = store := by
      unfold Store.after
      rw [hkind]
    rw [hstore]
    exact h
  · refine h.define hkind fun c hc => ?_
    rcases hvalue c hc with ⟨hcall, hfold⟩ | ⟨hassign, hop, o, ho, hlook⟩
    · rw [hcall] at hv
      exact h.fold hf hn hs hfold hv
    · rw [hassign] at hv
      exact h.readAt hs ho hlook (hv hop)

theorem Matches.runFrom (hf : Function.Injective f) (hn : f n < bound)
    (hs : ∀ s ∈ statements, WrittenIn s) {store : Store} (h : Matches f bound start facts store)
    {condition condition' : Option Const}
    (hrun : runFrom b n condition position facts statements = .ok (facts', condition'))
    (hexec : Executes b.length (f n) position statements store final) :
    Matches f bound start facts' final := by
  induction statements generalizing facts store condition position with
  | nil =>
    cases hrun
    cases hexec
    exact h
  | cons s rest ih =>
    obtain ⟨known, middle, -, hmiddle, hrun⟩ := runFrom_cons hrun
    cases hexec with
    | cons first later =>
      exact ih (fun s hs' => hs s (mem_cons_of_mem _ hs'))
        (h.transfer hf hn (hs s mem_cons_self) hmiddle first) hrun later

end Matching

/-! ### Leaving a block -/

end Readiness.Folding
