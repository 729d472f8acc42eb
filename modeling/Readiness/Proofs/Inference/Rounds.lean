import Readiness.Inference.Session
import Readiness.Proofs.Inference.Rules
import Readiness.Proofs.Types.Absorption

/-!
# Typing in rounds

What typing one statement does is said once (`Typed`).  From it follows that a round
goes on from what was typed before (`Advances`), and that the session only gains graphs of functions
that are not being typed (`Grows`), provided that asking for the results of other functions does so
(`Asking`).  The rounds end with one that changes nothing or with the last one
(`exists_last_round`).
-/

namespace Readiness.Inference

open Graph (Statement Operand)
open List

variable {e : Refusal}

/-! ### Runs -/

section Runs

variable {α β : Type} {s s'' : Session}

theorem run_bind (x : Step α) (f : α → Step β) : (x >>= f) s =
    match x s with
    | (.ok a, s') => f a s'
    | (.error e, s') => (.error e, s') := by
  change (match x s with | (r, s') => (ExceptT.bindCont f r : StateM Session _) s') = _
  cases x s with
  | mk r s' => cases r <;> rfl

theorem bind_eq_ok {x : Step α} {f : α → Step β} {r : β} :
    (x >>= f) s = (.ok r, s'') ↔ ∃ a s', x s = (.ok a, s') ∧ f a s' = (.ok r, s'') := by
  rw [run_bind]
  rcases x s with ⟨e | a, s'⟩
  · exact ⟨fun h => (nomatch h), fun ⟨_, _, h, _⟩ => (nomatch h)⟩
  · constructor
    · exact fun h => ⟨a, s', rfl, h⟩
    · rintro ⟨_, _, ⟨⟩, h⟩
      exact h

theorem bind_eq_error {x : Step α} {f : α → Step β} :
    (x >>= f) s = (.error e, s'') ↔
      x s = (.error e, s'') ∨ ∃ a s', x s = (.ok a, s') ∧ f a s' = (.error e, s'') := by
  rw [run_bind]
  rcases x s with ⟨e' | a, s'⟩
  · constructor
    · rintro ⟨⟩
      exact .inl rfl
    · rintro (⟨⟨⟩⟩ | ⟨_, _, h, _⟩)
      · rfl
      · cases h
  · constructor
    · exact fun h => .inr ⟨a, s', rfl, h⟩
    · rintro (h | ⟨_, _, ⟨⟩, h⟩)
      · cases h
      · exact h

theorem lift_bind (x : Except Refusal α) (f : α → Step β) :
    ((liftM x : Step α) >>= f) s = match x with
      | .ok a => f a s
      | .error e => (.error e, s) := by
  cases x <;> rfl

theorem modify_bind (g : Session → Session) (f : Unit → Step β) :
    ((modify g : Step Unit) >>= f) s = f () (g s) := rfl

theorem get_bind (f : Session → Step β) : ((get : Step Session) >>= f) s = f s s := rfl

theorem run_tryCatch (x : Step α) (h : Refusal → Step α) : (tryCatch x h) s =
    match x s with
    | (.ok a, s') => (.ok a, s')
    | (.error e, s') => h e s' := by
  simp only [tryCatch, tryCatchThe, MonadExceptOf.tryCatch, ExceptT.tryCatch, ExceptT.mk, bind,
    StateT.bind]
  cases x s with
  | mk r s' => cases r <;> rfl

end Runs

/-! ### What a session keeps -/

def Preparable (image : Image) (limits : Limits) (t : Target) : Prop :=
  ∃ label x, prepare image limits t label = .ok x

/-- Graphs have been added, all of them of functions that were not being typed. -/
structure Grows (image : Image) (limits : Limits) (s s' : Session) : Prop where
  pending : s'.pending = s.pending
  built : ∃ new, s'.built = s.built ++ new ∧
    ∀ e ∈ new, s.returned? e.1 = none ∧ Preparable image limits e.1

/-- Asking adds graphs and fails for defects only. -/
structure Asking (image : Image) (limits : Limits) (ask : Target → Step (Option TypeSet)) :
    Prop where
  grows : ∀ {t s r s'}, ask t s = (.ok r, s') → Grows image limits s s'
  defective : ∀ {t s e s'}, ask t s = (.error e, s') → ∃ d, e = .defective d

section Growing

variable {image : Image} {limits : Limits} {s s' s'' : Session} {t u : Target}

theorem returned?_congr (h : s'.pending = s.pending) (t : Target) :
    s'.returned? t = s.returned? t := by
  unfold Session.returned?
  rw [h]

theorem Grows.refl (s : Session) : Grows image limits s s := ⟨rfl, [], by simp, nofun⟩

theorem Grows.trans (h : Grows image limits s s') (h' : Grows image limits s' s'') :
    Grows image limits s s'' := by
  obtain ⟨new, hnew, hall⟩ := h.built
  obtain ⟨new', hnew', hall'⟩ := h'.built
  refine ⟨h'.pending.trans h.pending, new ++ new', by rw [hnew', hnew, append_assoc], ?_⟩
  intro e he
  rcases mem_append.mp he with he | he
  · exact hall e he
  · exact ⟨returned?_congr h.pending e.1 ▸ (hall' e he).1, (hall' e he).2⟩

theorem returned?_eq_none : s.returned? t = none ↔ ∀ b ∈ s.pending, b.1.same t = false := by
  simp [Session.returned?]

theorem returned?_of_pending {ts : TypeSet} (h : s'.pending = (t, ts) :: s.pending) (u : Target) :
    s'.returned? u = if t.same u = true then some ts else s.returned? u := by
  unfold Session.returned?
  split <;> simp_all

theorem returned?_returning (ts : TypeSet) : (s.returning t ts).returned? u = none ↔
    s.returned? u = none := by
  rw [returned?_eq_none, returned?_eq_none]
  unfold Session.returning
  simp only [mem_map]
  constructor
  · intro h b hb
    have hmapped := h _ ⟨b, hb, rfl⟩
    split at hmapped <;> exact hmapped
  · rintro h _ ⟨b, hb, rfl⟩
    split <;> exact h b hb

/-- What a function has returned is noted once more. -/
theorem returning_returning (ts ts' : TypeSet) :
    (s.returning t ts).returning t ts' = s.returning t ts' := by
  unfold Session.returning
  simp only [map_map, Session.mk.injEq, true_and]
  refine map_congr_left fun b _ => ?_
  by_cases hb : b.1.same t = true
  · simp [hb]
  · simp [hb]

end Growing

/-! ### Runs part by part -/

/-- A relation between steps that holds of the parts of two runs holds of the runs. -/
structure Stepwise (P : ∀ {α : Type}, Step α → Step α → Prop) : Prop where
  pure : ∀ {α : Type} (a : α), P (pure a) (pure a)
  throw : ∀ {α : Type} (d : Defect), P (throw (.defective d) : Step α) (throw (.defective d))
  bind : ∀ {α β : Type} {m m' : Step α} {f f' : α → Step β}, P m m' → (∀ a, P (f a) (f' a)) →
    P (m >>= f) (m' >>= f')

namespace Stepwise

variable {P : ∀ {α : Type}, Step α → Step α → Prop} (hP : Stepwise P)
include hP

theorem foldlM {α β : Type} {f f' : β → α → Step β} (hf : ∀ b a, P (f b a) (f' b a)) :
    ∀ (l : List α) (b : β), P (l.foldlM f b) (l.foldlM f' b)
  | [], b => hP.pure b
  | a :: l, b => by
    exact hP.bind (hf b a) (foldlM hf l)

variable {image : Image} {ask ask' : Target → Step (Option TypeSet)}
  (hask : ∀ u, P (ask u) (ask' u))
include hask

theorem typeStatement (fixed : List String) (p : Progress) (st : Statement) :
    P (typeStatement image ask fixed p st) (typeStatement image ask' fixed p st) := by
  unfold Inference.typeStatement
  split
  · split <;> exact hP.pure _
  · split
    · exact hP.pure _
    · split
      · exact hP.pure _
      · refine hP.bind ?_ fun r => ?_
        · unfold statementType
          split
          · exact hP.pure _
          · exact hask _
          · exact hP.throw _
        · split
          · exact hP.pure _
          · exact hP.pure _
          · dsimp only
            split <;> exact hP.pure _

variable {t : Target}
  (hnote : ∀ ts, P (modify (·.returning t ts) : Step Unit) (modify (·.returning t ts)))
include hnote

theorem typeRounds (fixed : List String) (statements : List Statement) : ∀ (k : Nat) (p : Progress),
    P (typeRounds image ask fixed t statements k p) (typeRounds image ask' fixed t statements k p)
  | 0, p => hP.pure _
  | k + 1, p => by
    refine hP.bind (hP.bind (hP.foldlM (hP.typeStatement hask fixed) statements _) fun next => ?_)
      fun next => ?_
    · exact hP.bind (hnote next.returns) fun _ => hP.pure _
    · split
      · exact hP.pure _
      · exact typeRounds fixed statements k next

theorem infer (params fixed : Types) (statements : List Statement) :
    P (infer image ask params fixed t statements) (infer image ask' params fixed t statements) :=
  hP.bind (hP.typeRounds hask hnote fixed.keys statements maxRounds _) fun _ => hP.pure _

end Stepwise

theorem grows_stepwise {image : Image} {limits : Limits} :
    Stepwise fun m _ => ∀ {s r s'}, m s = (.ok r, s') → Grows image limits s s' where
  pure _ s _ _ h := by
    cases h
    exact .refl s
  throw _ _ _ _ h := by cases h
  bind h hf _ _ _ hrun := by
    obtain ⟨a, s₁, hm, hrun⟩ := bind_eq_ok.mp hrun
    exact (h hm).trans (hf a hrun)

theorem defective_stepwise :
    Stepwise fun m _ => ∀ {s e s'}, m s = (.error e, s') → ∃ d, e = .defective d where
  pure _ _ _ _ h := by cases h
  throw d _ _ _ h := by
    cases h
    exact ⟨d, rfl⟩
  bind h hf _ _ _ hrun := by
    rcases bind_eq_error.mp hrun with hrun | ⟨a, _, -, hrun⟩
    · exact h hrun
    · exact hf a hrun

/-! ### One statement -/

/-- What typing one statement does when it succeeds. -/
inductive Typed (image : Image) (ask : Target → Step (Option TypeSet)) (fixed : List String)
    (st : Statement) (p : Progress) (s : Session) : Progress → Session → Prop
  | untyped (hkind : st.kind = .return_)
    (hoperand : ∀ o, st.operands.head? = some o → operandType p.types o = []) :
    Typed image ask fixed st p s p s
  | returned (hkind : st.kind = .return_) (o : Operand) (hoperand : st.operands.head? = some o) :
    Typed image ask fixed st p s
      { p with returns := TypeSet.join p.returns (operandType p.types o) } s
  | skipped (hkind : st.kind ≠ .return_) (htarget : ∀ x, st.target = some x → x ∈ fixed) :
    Typed image ask fixed st p s p s
  | kept (hkind : st.kind ≠ .return_) (x : String) (htarget : st.target = some x)
    (hfixed : x ∉ fixed) (r : Option TypeSet) (s' : Session)
    (hrule : statementType image ask p.types st s = (.ok r, s'))
    (habsorbed : r.getD [] ≠ [] → TypeSet.Absorbs (operandType p.types (.var x)) (r.getD [])) :
    Typed image ask fixed st p s p s'
  | changed (hkind : st.kind ≠ .return_) (x : String) (htarget : st.target = some x)
    (hfixed : x ∉ fixed) (ts : TypeSet) (s' : Session)
    (hrule : statementType image ask p.types st s =
      (.ok (some ts), s')) :
    Typed image ask fixed st p s
      { p with
        types := p.types.set x (TypeSet.join (operandType p.types (.var x)) ts)
        changed := if p.changed.contains x then p.changed else p.changed ++ [x] } s'

section Statements

variable {image : Image} {limits : Limits} {ask : Target → Step (Option TypeSet)}
  {fixed : List String} {st : Statement} {p q : Progress} {s s' : Session}

theorem typed_of_typeStatement (h : typeStatement image ask fixed p st s = (.ok q, s')) :
    Typed image ask fixed st p s q s' := by
  unfold typeStatement at h
  split at h
  · rename_i hkind
    cases ho : st.operands.head? with
    | none =>
      rw [ho] at h
      cases h
      exact .untyped hkind fun o ho' => by cases ho.symm.trans ho'
    | some o =>
      rw [ho, Option.map_some] at h
      cases hts : operandType p.types o with
      | nil =>
        rw [hts] at h
        cases h
        exact .untyped hkind fun o' ho' => by
          cases ho.symm.trans ho'
          exact hts
      | cons t ts =>
        rw [hts] at h
        cases h
        exact hts ▸ .returned hkind o ho
  · rename_i hkind
    cases htarget : st.target with
    | none =>
      rw [htarget] at h
      cases h
      exact .skipped hkind fun x hx => by cases htarget.symm.trans hx
    | some x =>
      rw [htarget] at h
      dsimp only at h
      split at h
      · rename_i hfixed
        cases h
        refine .skipped hkind fun y hy => ?_
        cases htarget.symm.trans hy
        exact contains_iff_mem.mp hfixed
      · rename_i hfixed
        have hfixed : x ∉ fixed := fun hx => hfixed (contains_iff_mem.mpr hx)
        obtain ⟨r, s₁, hrule, h⟩ := bind_eq_ok.mp h
        cases r with
        | none =>
          cases h
          exact .kept hkind x htarget hfixed none _ hrule fun hne => (hne rfl).elim
        | some ts =>
          cases ts with
          | nil =>
            cases h
            exact .kept hkind x htarget hfixed (some []) _ hrule fun hne => (hne rfl).elim
          | cons t ts =>
            dsimp only at h
            split at h
            · rename_i hequal
              cases h
              exact .kept hkind x htarget hfixed (some (t :: ts)) _ hrule fun _ => hequal
            · cases h
              exact .changed hkind x htarget hfixed _ _ hrule

end Statements

/-! ### One pass -/

/-- More has been typed: names that did not change keep their types, and what the function has
returned so far goes on to be absorbed. -/
structure Advances (p q : Progress) : Prop where
  changed : ∀ x ∈ p.changed, x ∈ q.changed
  types : ∀ x, x ∉ q.changed → operandType q.types (.var x) = operandType p.types (.var x)
  returns : ∀ ts, TypeSet.Absorbs p.returns ts → TypeSet.Absorbs q.returns ts

namespace Advances

variable {p q r : Progress}

theorem refl (p : Progress) : Advances p p := ⟨fun _ => id, fun _ _ => rfl, fun _ => id⟩

theorem trans (h : Advances p q) (h' : Advances q r) : Advances p r where
  changed x hx := h'.changed x (h.changed x hx)
  types x hx := (h'.types x hx).trans (h.types x fun hq => hx (h'.changed x hq))
  returns ts hts := h'.returns ts (h.returns ts hts)

theorem operandType_eq (h : Advances p q) {o : Operand} (ho : ∀ x ∈ q.changed, o ≠ .var x) :
    operandType q.types o = operandType p.types o := by
  cases o with
  | var x => exact h.types x fun hx => ho x hx rfl
  | const c | global n e => rfl

end Advances

theorem Typed.advances {image : Image} {ask : Target → Step (Option TypeSet)} {fixed : List String}
    {st : Statement} {p q : Progress} {s s' : Session} (h : Typed image ask fixed st p s q s') :
    Advances p q := by
  cases h with
  | untyped => exact .refl p
  | returned => exact ⟨fun _ => id, fun _ _ => rfl, fun _ hts => hts.join _⟩
  | skipped | kept => exact .refl p
  | changed _ x _ _ ts =>
    have hmem : ∀ y, y ∈ (if p.changed.contains x then p.changed else p.changed ++ [x]) ↔
        y ∈ p.changed ∨ y = x := by
      intro y
      by_cases hx : x ∈ p.changed
      · simp only [contains_iff_mem.mpr hx, if_true]
        exact ⟨.inl, fun h => h.elim id fun h => h ▸ hx⟩
      · simp [hx]
    refine ⟨fun y hy => (hmem y).mpr (.inl hy), fun y hy => ?_, fun _ => id⟩
    have hne : y ≠ x := fun hyx => hy ((hmem y).mpr (.inr hyx))
    simp only [operandType, Table.get?_set_of_ne _ hne]

section Passes

variable {image : Image} {limits : Limits} {ask : Target → Step (Option TypeSet)}
  (hask : Asking image limits ask) {fixed : List String}
include hask

theorem grows_of_foldlM (statements : List Statement) {p q : Progress} {s s' : Session}
    (h : statements.foldlM (typeStatement image ask fixed) p s = (.ok q, s')) :
    Grows image limits s s' :=
  have hstatement := @Stepwise.typeStatement _ grows_stepwise image ask ask (fun _ => hask.grows) fixed
  let f := typeStatement image ask fixed
  @Stepwise.foldlM _ grows_stepwise _ _ f f hstatement statements p s q s' h

omit hask in
theorem advances_of_foldlM : ∀ (statements : List Statement) {p q : Progress} {s s' : Session},
    statements.foldlM (typeStatement image ask fixed) p s = (.ok q, s') → Advances p q
  | [], p, q, s, s', h => by
    cases h
    exact .refl p
  | st :: rest, p, q, s, s', h => by
    rw [foldlM_cons] at h
    obtain ⟨p₁, s₁, hst, hrest⟩ := bind_eq_ok.mp h
    exact (typed_of_typeStatement hst).advances.trans (advances_of_foldlM rest hrest)

/-- A pass types each of its statements somewhere on its way. -/
theorem exists_typed_of_mem {statements : List Statement} {p q : Progress} {s s' : Session}
    (h : statements.foldlM (typeStatement image ask fixed) p s = (.ok q, s')) {st : Statement}
    (hst : st ∈ statements) : ∃ p₁ s₁ p₂ s₂, Advances p p₁ ∧ Grows image limits s s₁ ∧
      Typed image ask fixed st p₁ s₁ p₂ s₂ ∧ Advances p₂ q ∧ Grows image limits s₂ s' := by
  obtain ⟨front, rest, rfl⟩ := append_of_mem hst
  rw [foldlM_append] at h
  obtain ⟨p₁, s₁, hfront, h⟩ := bind_eq_ok.mp h
  rw [foldlM_cons] at h
  obtain ⟨p₂, s₂, htyped, hrest⟩ := bind_eq_ok.mp h
  exact ⟨p₁, s₁, p₂, s₂, advances_of_foldlM front hfront, grows_of_foldlM hask front hfront,
    typed_of_typeStatement htyped, advances_of_foldlM rest hrest, grows_of_foldlM hask rest hrest⟩

end Passes

/-! ### Rounds -/

inductive Rounds (image : Image) (ask : Target → Step (Option TypeSet)) (fixed : List String)
    (t : Target) (statements : List Statement) (p : Progress) (s : Session) :
    Nat → Progress → Session → Prop
  | none : Rounds image ask fixed t statements p s 0 p s
  | next {n : Nat} {q q' : Progress} {u u' : Session} :
    Rounds image ask fixed t statements p s n q u →
    typeRound image ask fixed t statements q u = (.ok q', u') → q'.changed ≠ [] →
    Rounds image ask fixed t statements p s (n + 1) q' u'

/-- The names that still change are given up. -/
def Progress.widened (p : Progress) : Progress :=
  { p with types := p.changed.foldl (fun t n => t.set n TypeSet.unknown) p.types }

theorem Progress.widened_eq_self {p : Progress} (h : p.changed = []) : p.widened = p := by
  obtain ⟨types, returns, changed⟩ := p
  cases h
  rfl

section Rounds

variable {image : Image} {limits : Limits} {ask : Target → Step (Option TypeSet)}
  {fixed : List String} {t : Target} {statements : List Statement} {p : Progress} {s : Session}

/-- Typing in rounds ends with a round that changes nothing, or after the last round. -/
theorem exists_last_round {bound : Nat} (hbound : 0 < bound) : ∀ (k : Nat) {n : Nat}
    {q r : Progress} {u u' : Session}, Rounds image ask fixed t statements p s n q u →
    n + k = bound → typeRounds image ask fixed t statements k q u = (.ok r, u') →
    ∃ m before v last, Rounds image ask fixed t statements p s m before v ∧
      typeRound image ask fixed t statements before v = (.ok last, u') ∧
      (last.changed = [] ∨ m + 1 = bound) ∧ r = last.widened
  | 0, n, q, r, u, u', hrounds, hn, h => by
    cases h
    cases hrounds with
    | none => omega
    | next hrounds hround _ => exact ⟨_, _, _, q, hrounds, hround, .inr hn, rfl⟩
  | k + 1, n, q, r, u, u', hrounds, hn, h => by
    obtain ⟨next, v, hround, h⟩ := bind_eq_ok.mp h
    split at h
    · rename_i hempty
      cases h
      have hnil : r.changed = [] := isEmpty_iff.mp hempty
      exact ⟨n, q, u, r, hrounds, hround, .inl hnil, (Progress.widened_eq_self hnil).symm⟩
    · rename_i hempty
      refine exists_last_round hbound k (hrounds.next hround ?_) (by omega) h
      exact fun hnil => hempty (isEmpty_iff.mpr hnil)

def Progress.result (p : Progress) : Types := p.widened.types.filter fun e => !e.2.isEmpty

theorem exists_last_round_of_infer {params fixed types : Types} {returns : TypeSet} {s' : Session}
    (h : infer image ask params fixed t statements s = (.ok (types, returns), s')) :
    ∃ n before u last,
      Rounds image ask fixed.keys t statements ⟨params.update fixed, [], []⟩ s n before u ∧
      typeRound image ask fixed.keys t statements before u = (.ok last, s') ∧
      (last.changed = [] ∨ n + 1 = maxRounds) ∧ types = last.result ∧ returns = last.returns := by
  obtain ⟨typed, u, hrounds, h⟩ := bind_eq_ok.mp h
  cases h
  obtain ⟨n, before, v, last, hbefore, hlast, hend, rfl⟩ :=
    exists_last_round (by decide) maxRounds .none (Nat.zero_add _) hrounds
  exact ⟨n, before, v, last, hbefore, hlast, hend, rfl, rfl⟩

variable {q : Progress} {u : Session}

/-- A round adds graphs and notes what the function has returned. -/
theorem typeRound_grows (hask : Asking image limits ask) {q' : Progress} {u' : Session}
    (h : typeRound image ask fixed t statements q u = (.ok q', u')) :
    ∃ u₁, Grows image limits u u₁ ∧ u' = u₁.returning t q'.returns := by
  obtain ⟨next, u₁, hfold, h⟩ := bind_eq_ok.mp h
  cases h
  exact ⟨u₁, grows_of_foldlM hask statements hfold, rfl⟩

theorem grows_returning {s₁ s₂ : Session} {ts : TypeSet} (h : Grows image limits s s₁)
    (h' : Grows image limits (s₁.returning t ts) s₂) (ts' : TypeSet) :
    ∃ s₃, Grows image limits s s₃ ∧ s₂.returning t ts' = s₃.returning t ts' := by
  obtain ⟨new, hnew, hall⟩ := h.built
  obtain ⟨new', hnew', hall'⟩ := h'.built
  refine ⟨⟨s₂.built, s.pending⟩, ⟨rfl, new ++ new', ?_, ?_⟩, ?_⟩
  · rw [← append_assoc, ← hnew]
    exact hnew'
  · intro e he
    rcases mem_append.mp he with he | he
    · exact hall e he
    · obtain ⟨hreturned, hprepared⟩ := hall' e he
      rw [returned?_returning, returned?_congr h.pending] at hreturned
      exact ⟨hreturned, hprepared⟩
  · have hpending : s₂.pending = (s.returning t ts).pending := by
      rw [h'.pending, Session.returning, Session.returning, h.pending]
    calc s₂.returning t ts'
      _ = (Session.mk s₂.built (s.returning t ts).pending).returning t ts' := by rw [← hpending]
      _ = (Session.mk s₂.built s.pending).returning t ts' :=
        returning_returning (s := ⟨s₂.built, s.pending⟩) ts ts'

/-- Rounds add graphs and note what the function has returned. -/
theorem Rounds.grows (hask : Asking image limits ask) (hnoted : s.returning t p.returns = s)
    {n : Nat} (h : Rounds image ask fixed t statements p s n q u) :
    ∃ s₁, Grows image limits s s₁ ∧ u = s₁.returning t q.returns := by
  induction h with
  | none => exact ⟨s, .refl s, hnoted.symm⟩
  | next _ hround _ ih =>
    obtain ⟨s₁, hgrows, rfl⟩ := ih
    obtain ⟨u₁, hgrows', rfl⟩ := typeRound_grows hask hround
    exact grows_returning hgrows hgrows' _

end Rounds

end Readiness.Inference
