import Readiness.Proofs.Lowering.Meaning

/-!
# Operands with values

`Makes` says that lowering has added statements for fresh intermediate values after
which an operand has a value.  `Completes.part` and `completes_operator` compose it: parts are
lowered from left to right, and an operator is applied to their operands.  `Makes.storeLocal` says
that a local name which takes the value over has it in the end, whether the last statement is
renamed or its value is copied.
-/

namespace Readiness

open Graph (Statement Operand Location)
open List Meaning

namespace Lowering

variable {V : Type} {m : Meaning V} {n n' : Nat} {env env' : Env V} {o : Operand}

/-! ### Operands that stay -/

/-- An operand that is none of the intermediate values after the first `n`. -/
def Steady (n : Nat) (o : Operand) : Prop := ∀ k, n < k → o ≠ .var (temporaryName k)

/-- Everything but the intermediate values after the first `n` has the same value. -/
def Keeps (n : Nat) (env env' : Env V) : Prop :=
  ∀ x, (∀ k, n < k → x ≠ temporaryName k) → env' x = env x

theorem steady_of_isNamed (h : ∀ x, o = .var x → IsNamed x) : Steady n o :=
  fun k _ ho => (h _ ho).ne_temporaryName k rfl

theorem steady_temporary (n : Nat) : Steady n (.var (temporaryName n)) := by
  intro k hk h
  exact Nat.ne_of_lt hk (temporaryName_injective (Operand.var.inj h))

theorem Steady.mono (h : Steady n o) (hn : n ≤ n') : Steady n' o :=
  fun k hk => h k (Nat.lt_of_le_of_lt hn hk)

theorem Keeps.read_eq (h : Keeps n env env') (ho : Steady n o) :
    m.read env' o = m.read env o := by
  cases o with
  | var x => exact h x fun k hk hx => ho k hk (congrArg Operand.var hx)
  | const c | global x e => rfl

theorem Keeps.map_read_eq (h : Keeps n env env') {os : List Operand}
    (hos : ∀ o ∈ os, Steady n o) : os.map (m.read env') = os.map (m.read env) :=
  map_congr_left fun o ho => h.read_eq (hos o ho)

/-! ### Statements for fresh intermediate values -/

/-- Statements that make the intermediate values after the first `n` one by one, each from operands
that are there before it. -/
def Fresh : Nat → List Statement → Prop
  | _, [] => True
  | n, s :: ss =>
    s.target = some (temporaryName (n + 1)) ∧ (∀ o ∈ s.operands, Steady n o) ∧ Fresh (n + 1) ss

variable {ss : List Statement}

theorem fresh_append {ss ts : List Statement} :
    Fresh n (ss ++ ts) ↔ Fresh n ss ∧ Fresh (n + ss.length) ts := by
  induction ss generalizing n with
  | nil => simp [Fresh]
  | cons s ss ih => simp [Fresh, ih, and_assoc, Nat.add_assoc, Nat.add_comm 1]

theorem Fresh.target (h : Fresh n ss) {s : Statement} (hs : s ∈ ss) :
    ∃ k, n < k ∧ k ≤ n + ss.length ∧ s.target = some (temporaryName k) ∧
      ∀ o ∈ s.operands, Steady (n + ss.length) o := by
  induction ss generalizing n with
  | nil => cases hs
  | cons t ss ih =>
    obtain ⟨htarget, hsteady, hrest⟩ := h
    have hlength : n + (t :: ss).length = n + 1 + ss.length := by
      rw [length_cons]
      omega
    rw [hlength]
    rcases mem_cons.1 hs with rfl | hs
    · exact ⟨n + 1, Nat.lt_succ_self n, Nat.le_add_right _ _, htarget,
        fun o ho => (hsteady o ho).mono (by omega)⟩
    · obtain ⟨k, hk, hle, htarget, hsteady⟩ := ih hrest hs
      exact ⟨k, Nat.lt_of_succ_lt hk, hle, htarget, hsteady⟩

theorem Fresh.keeps (h : Fresh n ss) (m : Meaning V) (env : Env V) :
    Keeps n env (m.run env ss) := by
  intro x hx
  refine run_of_target_ne fun s hs htarget => ?_
  obtain ⟨k, hk, -, hname, -⟩ := h.target hs
  exact hx k hk (Option.some.inj (htarget.symm.trans hname))

/-- Lowering has added statements for fresh intermediate values; `P` relates the values before and
after them. -/
def Adds (b b' : Builder) (P : (V : Type) → Meaning V → Env V → Env V → Prop) : Prop :=
  ∃ ss, b' = b.plus ss ∧ Fresh b.temporaries ss ∧ ∀ V m env, P V m env (m.run env ss)

/-- Local names are not those of intermediate values. -/
def LocalsNamed (c : Context) (b : Builder) : Prop :=
  ∀ id x, localName? c b id = some x → IsNamed x

def scopeOf (m : Meaning V) (c : Context) (b : Builder) (env : Env V) : String → V :=
  fun id => m.read env (resolve c b id)

variable {b : Builder}

theorem LocalsNamed.resolve {c : Context} (h : LocalsNamed c b) (id x : String)
    (hx : resolve c b id = .var x) : IsNamed x := by
  unfold Lowering.resolve at hx
  split at hx
  · next y hy => exact Operand.var.inj hx ▸ h id y hy
  · cases hx

section Adds

variable {c : Context} {b b₁ b₂ : Builder}
variable {P Q R : (V : Type) → Meaning V → Env V → Env V → Prop}

theorem Adds.nil (h : ∀ V m env, P V m env env) : Adds b b P := ⟨[], rfl, trivial, h⟩

theorem Adds.le (h : Adds b b₁ P) : b.temporaries ≤ b₁.temporaries := by
  obtain ⟨ss, rfl, -⟩ := h
  exact Nat.le_add_right _ _

theorem Adds.localsNamed (h : Adds b b₁ P) (hb : LocalsNamed c b) : LocalsNamed c b₁ := by
  obtain ⟨ss, rfl, -⟩ := h
  exact hb

/-- Names have the values that they had before. -/
theorem Adds.scopeOf_eq (h : Adds b b₁ P) (hb : LocalsNamed c b) (hkeeps : Keeps n env env') :
    scopeOf m c b₁ env' = scopeOf m c b env := by
  obtain ⟨ss, rfl, -⟩ := h
  funext id
  exact hkeeps.read_eq (steady_of_isNamed (hb.resolve id))

theorem Adds.mono (h : Adds b b₁ P) (hQ : ∀ V m env now, P V m env now → Q V m env now) :
    Adds b b₁ Q := by
  obtain ⟨ss, hb, hss, hP⟩ := h
  exact ⟨ss, hb, hss, fun V m env => hQ V m _ _ (hP V m env)⟩

/-- Statements that are added after others run after them and leave what was there alone. -/
theorem Adds.append (h : Adds b b₁ P) (h' : Adds b₁ b₂ Q)
    (hR : ∀ V m env mid now, Keeps b.temporaries env mid → Keeps b₁.temporaries mid now →
      P V m env mid → Q V m mid now → R V m env now) : Adds b b₂ R := by
  obtain ⟨ss, rfl, hss, hP⟩ := h
  obtain ⟨ts, rfl, hts, hQ⟩ := h'
  refine ⟨ss ++ ts, (plus_append b ss ts).symm, fresh_append.2 ⟨hss, hts⟩, fun V m env => ?_⟩
  rw [run_append]
  exact hR V m _ _ _ (hss.keeps m env) (hts.keeps m _) (hP V m env) (hQ V m _)

end Adds

/-! ### Operands with values -/

/-- The value of something in every interpretation, given the values of names. -/
abbrev Valuation := (V : Type) → Meaning V → (String → V) → V

/-- The values of several things in every interpretation. -/
abbrev Valuations := (V : Type) → Meaning V → (String → V) → List V

/-- Lowering has made an operand with a value: the last intermediate value, or one that was there
before and needed no statement. -/
structure Makes (c : Context) (b b' : Builder) (o : Operand) (f : Valuation) : Prop where
  adds : Adds b b' fun _ m env now => m.read now o = f _ m (scopeOf m c b env)
  last : (b.temporaries < b'.temporaries ∧ o = .var (temporaryName b'.temporaries)) ∨
    (b' = b ∧ ∀ x, o = .var x → IsNamed x)

structure MakesAll (c : Context) (b b' : Builder) (os : List Operand) (fs : Valuations) :
    Prop where
  adds : Adds b b' fun _ m env now => os.map (m.read now) = fs _ m (scopeOf m c b env)
  steady : ∀ o ∈ os, Steady b'.temporaries o

/-- Lowering that makes a value, and that succeeds when the expression fits. -/
structure Yields (c : Context) (fits : Prop) (x : Lower Operand) (f : Valuation) : Prop where
  makes : ∀ {b o b'}, LocalsNamed c b → x c b = .ok (o, b') → Makes c b b' o f
  succeeds : fits → ∀ b, ∃ r, x c b = .ok r

/-- Lowering that makes a value once operands have been made since `b`. -/
structure Completes (c : Context) (b : Builder) (os : List Operand) (fs : Valuations) (fits : Prop)
    (x : Lower Operand) (f : Valuation) : Prop where
  makes : ∀ {b₁ o b'}, LocalsNamed c b → MakesAll c b b₁ os fs → x c b₁ = .ok (o, b') →
    Makes c b b' o f
  succeeds : fits → ∀ b, ∃ r, x c b = .ok r

theorem exists_ok_bind {α β : Type} {c : Context} {x : Lower α} {rest : α → Lower β}
    (hx : ∃ r, x c b = .ok r) (hrest : ∀ a b', ∃ r, rest a c b' = .ok r) :
    ∃ r, (x >>= rest) c b = .ok r := by
  obtain ⟨⟨a, b'⟩, ha⟩ := hx
  obtain ⟨r, hr⟩ := hrest a b'
  exact ⟨r, bind_eq_ok.2 ⟨a, b', ha, hr⟩⟩

section Makes

variable {c : Context} {b b₁ b₂ : Builder} {os : List Operand} {f g : Valuation} {fs : Valuations}
  {fits : Prop}

theorem Makes.steady (h : Makes c b b₁ o f) : Steady b₁.temporaries o := by
  rcases h.last with ⟨-, rfl⟩ | ⟨-, hnamed⟩
  · exact steady_temporary _
  · exact steady_of_isNamed hnamed

theorem makes_self (hnamed : ∀ x, o = .var x → IsNamed x)
    (hread : ∀ V (m : Meaning V) env, m.read env o = f V m (scopeOf m c b env)) :
    Makes c b b o f :=
  ⟨.nil hread, .inr ⟨rfl, hnamed⟩⟩

theorem makesAll_nil : MakesAll c b b [] fun _ _ _ => [] := ⟨.nil fun _ _ _ => rfl, nofun⟩

/-- Operands keep their values while one more is made. -/
theorem MakesAll.concat (h : MakesAll c b b₁ os fs) (hb : LocalsNamed c b)
    (h' : Makes c b₁ b₂ o f) :
    MakesAll c b b₂ (os ++ [o]) fun V m scope => fs V m scope ++ [f V m scope] := by
  refine ⟨h.adds.append h'.adds fun V m env mid now hmid hnow hos ho => ?_, ?_⟩
  · rw [h.adds.scopeOf_eq hb hmid] at ho
    rw [map_append, hnow.map_read_eq h.steady, hos, map_singleton, ho]
  · intro o ho
    rcases mem_append.1 ho with ho | ho
    · exact (h.steady o ho).mono h'.adds.le
    · exact mem_singleton.1 ho ▸ h'.steady

variable {place : Location}

/-- The statement of an operator makes the value of the operator at the values of its operands. -/
theorem adds_operator {op : Operator} (hos : ∀ o ∈ os, Steady b.temporaries o)
    (hrun : operator op.sign place os false c b = .ok (o, b₁)) :
    Adds b b₁ (fun _ m env now =>
        ∀ v, m.apply op (os.map (m.read env)) = some v → m.read now o = v) ∧
      b.temporaries < b₁.temporaries ∧ o = .var (temporaryName b₁.temporaries) := by
  rw [operator_eq] at hrun
  cases hrun
  refine ⟨⟨_, rfl, ⟨rfl, hos, trivial⟩, fun V m env v hv => ?_⟩, Nat.lt_succ_self _, rfl⟩
  exact (Function.update_self _ _ _).trans (result_operation hv)

theorem MakesAll.operator (h : MakesAll c b b₁ os fs) (op : Operator)
    (happly : ∀ V (m : Meaning V) scope, m.apply op (fs V m scope) = some (f V m scope))
    (hrun : operator op.sign place os false c b₁ = .ok (o, b₂)) : Makes c b b₂ o f := by
  obtain ⟨hadds, hlt, ho⟩ := adds_operator h.steady hrun
  refine ⟨h.adds.append hadds fun V m env mid now _ _ hos hv => ?_,
    .inl ⟨Nat.lt_of_le_of_lt h.adds.le hlt, ho⟩⟩
  exact hv _ (hos.symm ▸ happly V m _)

theorem completes_operator (op : Operator)
    (happly : ∀ V (m : Meaning V) scope, m.apply op (fs V m scope) = some (f V m scope)) :
    Completes c b os fs fits (operator op.sign place os false) f :=
  ⟨fun _ h => h.operator op happly, fun _ _ => ⟨_, rfl⟩⟩

theorem Completes.part {part : Prop} {x : Lower Operand} {rest : Operand → Lower Operand}
    (hx : Yields c part x f) (hfits : fits → part)
    (hrest : ∀ o, Completes c b (os ++ [o]) (fun V m scope => fs V m scope ++ [f V m scope]) fits
      (rest o) g) :
    Completes c b os fs fits (x >>= rest) g := by
  refine ⟨fun hb h hrun => ?_, fun hf b => exists_ok_bind (hx.succeeds (hfits hf) b) fun o =>
    (hrest o).succeeds hf⟩
  obtain ⟨v, b', hv, hrun⟩ := bind_eq_ok.1 hrun
  exact (hrest v).makes hb (h.concat hb (hx.makes (h.adds.localsNamed hb) hv)) hrun

theorem Yields.of_completes {x : Lower Operand}
    (h : ∀ b, Completes c b [] (fun _ _ _ => []) fits x f) : Yields c fits x f :=
  ⟨fun hb hrun => (h _).makes hb makesAll_nil hrun, fun hf b => (h b).succeeds hf b⟩

end Makes

/-! ### Names in use -/

/-- A statement makes or uses a name. -/
def Mentions (s : Statement) (x : String) : Prop := s.target = some x ∨ .var x ∈ s.operands

/-- A name occurs in a statement that has been added. -/
def Occurs (b : Builder) (x : String) : Prop :=
  ∃ block, ∃ s ∈ b.graph.statementsOf block, Mentions s x

/-- All intermediate values that occur have been counted. -/
def Counted (b : Builder) : Prop := ∀ k, b.temporaries < k → ¬ Occurs b (temporaryName k)

theorem Fresh.not_mentions (h : Fresh n ss) {s : Statement} (hs : s ∈ ss) {k : Nat}
    (hk : n + ss.length < k) : ¬ Mentions s (temporaryName k) := by
  obtain ⟨j, -, hj, htarget, hsteady⟩ := h.target hs
  rintro (hmade | hused)
  · have hjk : j = k := temporaryName_injective (Option.some.inj (htarget.symm.trans hmade))
    omega
  · exact hsteady _ hused k hk rfl

theorem Counted.adding (h : Counted b) (hn : b.temporaries ≤ n)
    (hss : ∀ s ∈ ss, ∀ k, n < k → ¬ Mentions s (temporaryName k)) : Counted (b.adding n ss) := by
  rintro k hk ⟨block, s, hs, hmentions⟩
  rcases mem_statementsOf_adding b hs with hs | hs
  · exact h k (Nat.lt_of_le_of_lt hn hk) ⟨block, s, hs, hmentions⟩
  · exact hss s hs k hk hmentions

theorem Counted.plus (h : Counted b) (hss : Fresh b.temporaries ss) : Counted (b.plus ss) :=
  h.adding (Nat.le_add_right _ _) fun _ hs _ hk => hss.not_mentions hs hk

/-! ### Storing -/

theorem isLastValue_of_isNamed (statements : Array Statement)
    (h : ∀ x, o = .var x → IsNamed x) : isLastValue statements o = false := by
  unfold isLastValue
  split
  · next x s _ => rw [h x rfl, Bool.false_and]
  · rfl

/-- Statements after which an operand has a value.  They make fresh intermediate values, and
everything else of the builder is as before. -/
structure Computes (c : Context) (b b' : Builder) (o : Operand) (f : Valuation)
    (ss : List Statement) : Prop where
  builder : b' = b.plus ss
  fresh : Fresh b.temporaries ss
  unused : Counted b → ∀ s ∈ ss, ∀ x, s.target = some x → ¬ Occurs b x
  counted : Counted b → Counted b'
  value : ∀ V (m : Meaning V) env, m.read (m.run env ss) o = f V m (scopeOf m c b env)

/-- Statements after which a local name has a value, while the other names and the intermediate
values counted before have theirs.  They follow the statements that were there, which stay as they
are. -/
structure Assigns (c : Context) (b b' : Builder) (x : String) (f : Valuation)
    (ss : List Statement) : Prop where
  builder : b' = b.adding b'.temporaries ss
  counted : Counted b → Counted b'
  value : ∀ V (m : Meaning V) env, m.run env ss x = f V m (scopeOf m c b env)
  others : ∀ V (m : Meaning V) env y, y ≠ x → (∀ k, b.temporaries < k → y ≠ temporaryName k) →
    m.run env ss y = env y

section Storing

variable {c : Context} {b b₁ b' : Builder} {f : Valuation} {x : String} {place : Location}

theorem Makes.exists_computes (h : Makes c b b₁ o f) : ∃ ss, Computes c b b₁ o f ss := by
  obtain ⟨ss, rfl, hfresh, hvalue⟩ := h.adds
  refine ⟨ss, rfl, hfresh, fun hcounted s hs x hx => ?_, fun hcounted => hcounted.plus hfresh,
    hvalue⟩
  obtain ⟨k, hk, -, htarget, -⟩ := hfresh.target hs
  obtain rfl := Option.some.inj (hx.symm.trans htarget)
  exact hcounted k hk

theorem Makes.assigns_copy (h : Makes c b b₁ o f) (hx : IsNamed x) :
    ∃ ss, Assigns c b (b₁.adding b₁.temporaries [copy place b₁.index x o]) x f ss := by
  have hsteady := h.steady
  obtain ⟨ss, rfl, hfresh, hvalue⟩ := h.adds
  refine ⟨ss ++ [copy place (b.plus ss).index x o], ?_, fun hcounted => ?_, fun V m env => ?_,
    fun V m env y hyx hy => ?_⟩
  · exact (adding_append b _ _ ss _).symm
  · refine (hcounted.plus hfresh).adding (Nat.le_refl _) fun s hs k hk => ?_
    obtain rfl := mem_singleton.1 hs
    rintro (hmade | hused)
    · exact hx.ne_temporaryName k (Option.some.inj hmade)
    · exact hsteady k hk (mem_singleton.1 hused).symm
  · rw [run_concat, step_of_target rfl, Function.update_self, result_copy]
    exact hvalue V m env
  · rw [run_concat, step_of_target_ne fun hxy => hyx (Option.some.inj hxy).symm]
    exact hfresh.keeps m env y hy

/-- The last statement makes the value under the name instead of an intermediate one. -/
theorem Makes.assigns_retarget (h : Makes c b b₁ o f) (hx : IsNamed x)
    (hlt : b.temporaries < b₁.temporaries) (ho : o = .var (temporaryName b₁.temporaries)) :
    ∃ ss, Assigns c b (b₁.retargeted x) x f ss := by
  obtain ⟨ss, rfl, hfresh, hvalue⟩ := h.adds
  rcases eq_nil_or_concat' ss with rfl | ⟨ss, s, rfl⟩
  · exact absurd hlt (Nat.lt_irrefl _)
  obtain ⟨hinit, hlast⟩ := fresh_append.1 hfresh
  obtain ⟨htarget, hsteady, -⟩ := hlast
  have hcount : (b.plus (ss ++ [s])).temporaries = b.temporaries + ss.length + 1 := by
    simp [Builder.plus, Builder.adding, Nat.add_assoc]
  have hbuilder : (b.plus (ss ++ [s])).retargeted x =
      b.adding (b.plus (ss ++ [s])).temporaries (ss ++ [{ s with target := some x }]) :=
    retargeted_adding b _ ss s x
  refine ⟨ss ++ [{ s with target := some x }], ?_, fun hcounted => ?_, fun V m env => ?_,
    fun V m env y hyx hy => ?_⟩
  · exact hbuilder
  · rw [hbuilder]
    refine hcounted.adding (Nat.le_add_right _ _) fun t ht k hk => ?_
    rcases mem_append.1 ht with ht | ht
    · exact hfresh.not_mentions (mem_append_left _ ht) hk
    · obtain rfl := mem_singleton.1 ht
      rintro (hmade | hused)
      · exact hx.ne_temporaryName k (Option.some.inj hmade)
      · exact hsteady _ hused k (by omega) rfl
  · have hmade := hvalue V m env
    rw [ho, hcount, run_concat, step_of_target htarget, Meaning.read, Function.update_self] at hmade
    rw [run_concat, step_of_target rfl, Function.update_self]
    exact hmade
  · rw [run_concat, step_of_target_ne fun hxy => hyx (Option.some.inj hxy).symm]
    exact hinit.keeps m env y hy

/-- Storing a value that has just been made gives the name that value. -/
theorem Makes.storeLocal (h : Makes c b b₁ o f) (hx : IsNamed x) {u : Unit}
    (hrun : storeLocal x o place true c b₁ = .ok (u, b')) : ∃ ss, Assigns c b b' x f ss := by
  rw [storeLocal_eq] at hrun
  split at hrun
  · next hlast =>
      cases hrun
      rcases h.last with ⟨hlt, ho⟩ | ⟨-, hnamed⟩
      · exact h.assigns_retarget hx hlt ho
      · -- an operand that was there before is no intermediate value
        have hno := isLastValue_of_isNamed (b₁.graph.block b₁.block).statements hnamed
        rw [hno] at hlast
        cases hlast
  · cases hrun
    exact h.assigns_copy hx

end Storing

end Lowering
end Readiness
