import Readiness.Lowering.Body
import Readiness.Proofs.Lowering.Operands

/-!
# Lowering keeps values

Lowering a simple expression makes its value, and it succeeds when the expression nests
no deeper than allowed (`yields_lowerExpr`).  `lowering_keeps_values` adds that an assignment to one
local name gives it that value.  From the opening of a body on, assignments leave all intermediate
values counted (`counted_opening`, `counted_of_assignments`), so that the new ones are not in use.
-/

namespace Readiness

open Source (Expr Stmt ComparisonOperator)
open Graph (Operand Location)
open List

/-! ### Simple expressions -/

namespace Source

mutual

/-- Whether an expression is made of constants, names and operators. -/
def Expr.isSimple : Expr → Bool
  | .constant _ _ | .name _ _ _ => true
  | .binary _ l _ r => l.isSimple && r.isSimple
  | .unary _ _ e => e.isSimple
  | .boolean _ _ es => areSimple es
  | .compare _ l rest => l.isSimple && areSimpleLinks rest
  | .conditional _ t y n => t.isSimple && y.isSimple && n.isSimple
  | .subscript _ e i => e.isSimple && i.isSimple
  | .slice _ lo hi step => isSimpleOption lo && isSimpleOption hi && isSimpleOption step
  | .tuple _ es => areSimple es
  | _ => false

def areSimple : List Expr → Bool
  | [] => true
  | e :: es => e.isSimple && areSimple es

def areSimpleLinks : List (ComparisonOperator × Expr) → Bool
  | [] => true
  | (_, e) :: rest => e.isSimple && areSimpleLinks rest

/-- Whether a part that may be absent is simple. -/
def isSimpleOption : Option Expr → Bool
  | none => true
  | some e => e.isSimple

end

mutual

/-- How deep a simple expression nests. -/
def Expr.height : Expr → Nat
  | .binary _ l _ r => max l.height r.height + 1
  | .unary _ _ e => e.height + 1
  | .boolean _ _ es => heights es + 1
  | .compare _ l rest => max l.height (linkHeights rest) + 1
  | .conditional _ t y n => max t.height (max y.height n.height) + 1
  | .subscript _ e i => max e.height i.height + 1
  | .slice _ lo hi step => max (optionHeight lo) (max (optionHeight hi) (optionHeight step)) + 1
  | .tuple _ es => heights es + 1
  | _ => 1

/-- How deep the deepest expression nests. -/
def heights : List Expr → Nat
  | [] => 0
  | e :: es => max e.height (heights es)

/-- How deep the deepest right side of a comparison nests. -/
def linkHeights : List (ComparisonOperator × Expr) → Nat
  | [] => 0
  | (_, e) :: rest => max e.height (linkHeights rest)

/-- How deep a part that may be absent nests. -/
def optionHeight : Option Expr → Nat
  | none => 0
  | some e => e.height

end

end Source

open Source (areSimple areSimpleLinks isSimpleOption heights linkHeights optionHeight)

namespace Meaning

variable {V : Type} (m : Meaning V) (scope : String → V)

mutual

/-- The value of a simple expression, given those of the names. -/
def value : Expr → V
  | .constant _ c => m.constant c
  | .name _ id _ => scope id
  | .binary _ l op r => m.binary op (value l) (value r)
  | .unary _ op e => m.unary op (value e)
  | .boolean _ isOr es => if isOr then m.disjunction (values es) else m.conjunction (values es)
  | .compare _ l rest => m.conjunction (linkValues (value l) rest)
  | .conditional _ t y n => if m.holds (value t) then value y else value n
  | .subscript _ e i => m.item (value e) (value i)
  | .slice _ lo hi step => m.slice (optionValue lo) (optionValue hi) (optionValue step)
  | .tuple _ es => m.tuple (values es)
  | _ => m.constant .none

def values : List Expr → List V
  | [] => []
  | e :: es => value e :: values es

/-- The results of the links of a comparison, each between neighbours. -/
def linkValues (left : V) : List (ComparisonOperator × Expr) → List V
  | [] => []
  | (op, e) :: rest => m.comparison op left (value e) :: linkValues (value e) rest

/-- The value of a part that may be absent. -/
def optionValue : Option Expr → V
  | none => m.constant .none
  | some e => value e

end

end Meaning

namespace Lowering

variable {n : Nat}

/-! ### Expressions -/

variable {es : List Expr}

theorem any_isStarred_of_areSimple (hes : areSimple es = true) : es.any isStarred = false := by
  induction es with
  | nil => rfl
  | cons e es ih =>
    simp only [areSimple, Bool.and_eq_true] at hes
    rw [any_cons, ih hes.2]
    cases e with
    | starred p v => exact absurd hes.1 (by simp [Expr.isSimple])
    | _ => rfl

theorem yields_placeOf {c : Context} {p : Source.Place} {rest : Location → Lower Operand}
    {fits : Prop} {f : Valuation} (h : ∀ place, Yields c fits (rest place) f) :
    Yields c fits (placeOf p >>= rest) f :=
  ⟨fun hb hrun => (h _).makes hb hrun, fun hf b => (h _).succeeds hf b⟩

variable {rest : List (ComparisonOperator × Expr)} {place : Location}

section Rules

variable {c : Context} {lower : Expr → Lower Operand}
variable (hlower : ∀ {e : Expr}, e.isSimple = true →
  Yields c (e.height ≤ n) (lower e) fun _ m scope => m.value scope e)

include hlower

theorem yields_optional {e : Option Expr} (he : isSimpleOption e = true) :
    Yields c (optionHeight e ≤ n) (optional lower e) fun _ m scope => m.optionValue scope e := by
  cases e with
  | none =>
    refine ⟨fun _ hrun => ?_, fun _ _ => ⟨_, rfl⟩⟩
    obtain ⟨rfl, rfl⟩ := pure_eq_ok.1 hrun
    exact makes_self nofun fun _ _ _ => rfl
  | some e => exact hlower he

/-- Expressions are lowered one by one before the rest. -/
theorem completes_mapM {b : Builder} (hes : areSimple es = true) {fits : Prop}
    (hfits : fits → heights es ≤ n) {os : List Operand} {fs : Valuations}
    {rest : List Operand → Lower Operand} {g : Valuation}
    (hrest : ∀ more, Completes c b (os ++ more)
      (fun V m scope => fs V m scope ++ m.values scope es) fits (rest more) g) :
    Completes c b os fs fits (es.mapM lower >>= rest) g := by
  induction es generalizing os fs rest with
  | nil => simpa [Meaning.values] using hrest []
  | cons e es ih =>
    simp only [areSimple, Bool.and_eq_true] at hes
    simp only [heights, Nat.max_le] at hfits
    rw [mapM_cons, bind_assoc]
    refine .part (hlower hes.1) (fun hf => (hfits hf).1) fun o => ?_
    rw [bind_assoc]
    refine ih hes.2 (fun hf => (hfits hf).2) fun more => ?_
    simpa [Meaning.values] using hrest (o :: more)

/-- The links of a comparison share their operands: the right side of one is the left side of the
next, and is not lowered again. -/
theorem links_makes {left : Operand} {b b' : Builder} {results : List Operand}
    (hrest : areSimpleLinks rest = true) (hb : LocalsNamed c b) (hleft : Steady b.temporaries left)
    (hrun : links lower place left rest c b = .ok (results, b')) :
    Adds b b' (fun _ m env now => results.map (m.read now) =
        m.linkValues (scopeOf m c b env) (m.read env left) rest) ∧
      (∀ o ∈ results, Steady b'.temporaries o) ∧ (results = [] → b' = b) ∧
      ∀ o, results = [o] →
        b.temporaries < b'.temporaries ∧ o = .var (temporaryName b'.temporaries) := by
  induction rest generalizing left b results with
  | nil =>
    obtain ⟨rfl, rfl⟩ := pure_eq_ok.1 hrun
    exact ⟨.nil fun _ _ _ => rfl, nofun, fun _ => rfl, nofun⟩
  | cons link rest ih =>
    obtain ⟨op, e⟩ := link
    obtain ⟨right, b₁, hright, hrun⟩ := bind_eq_ok.1 hrun
    obtain ⟨result, b₂, hresult, hrun⟩ := bind_eq_ok.1 hrun
    obtain ⟨more, b₃, hmore, hrun⟩ := bind_eq_ok.1 hrun
    obtain ⟨rfl, rfl⟩ := pure_eq_ok.1 hrun
    simp only [areSimpleLinks, Bool.and_eq_true] at hrest
    have hmakes := (hlower hrest.1).makes hb hright
    have hsteady : ∀ o ∈ [left, right], Steady b₁.temporaries o := by
      simpa using ⟨hleft.mono hmakes.adds.le, hmakes.steady⟩
    have hoperator : operator (Operator.comparison op).sign place [left, right] false c b₁ =
        .ok (result, b₂) := hresult
    obtain ⟨hadds, hlt, hlast⟩ := adds_operator hsteady hoperator
    -- after the link, its result is known and the right side is still there for the next one
    have hlink : Adds b b₂ fun _ m env now =>
        m.read now result =
            m.comparison op (m.read env left) (m.value (scopeOf m c b env) e) ∧
          m.read now right = m.value (scopeOf m c b env) e := by
      refine hmakes.adds.append hadds fun V m env mid now hmid hnow hvalue happly => ⟨?_, ?_⟩
      · refine happly _ ?_
        rw [map_cons, map_cons, map_nil, hvalue, hmid.read_eq hleft]
        rfl
      · rw [hnow.read_eq hmakes.steady, hvalue]
    have hright₂ : Steady b₂.temporaries right := hmakes.steady.mono hadds.le
    obtain ⟨hrest, hsteady, hnil, -⟩ :=
      ih hrest.2 (hlink.localsNamed hb) hright₂ hmore
    have hresult₂ : Steady b₂.temporaries result := hlast ▸ steady_temporary _
    refine ⟨hlink.append hrest fun V m env mid now hmid hnow hvalue hvalues => ?_, ?_, nofun, ?_⟩
    · rw [hlink.scopeOf_eq hb hmid, hvalue.2] at hvalues
      rw [map_cons, hnow.read_eq hresult₂, hvalue.1, hvalues]
      rfl
    · exact forall_mem_cons.2 ⟨hresult₂.mono hrest.le, hsteady⟩
    · intro o ho
      obtain ⟨rfl, rfl⟩ := List.cons.inj ho
      obtain rfl := hnil rfl
      exact ⟨Nat.lt_of_le_of_lt hmakes.adds.le hlt, hlast⟩

theorem links_succeed (hrest : areSimpleLinks rest = true) (hn : linkHeights rest ≤ n)
    (left : Operand) (b : Builder) : ∃ r, links lower place left rest c b = .ok r := by
  induction rest generalizing left b with
  | nil => exact ⟨_, rfl⟩
  | cons link rest ih =>
    obtain ⟨op, e⟩ := link
    simp only [areSimpleLinks, Bool.and_eq_true] at hrest
    simp only [linkHeights, Nat.max_le] at hn
    exact exists_ok_bind ((hlower hrest.1).succeeds hn.1 b) fun right _ =>
      exists_ok_bind ⟨_, rfl⟩ fun _ b' => exists_ok_bind (ih hrest.2 hn.2 right b')
        fun _ _ => ⟨_, rfl⟩

theorem yields_compare {l : Expr} (hl : l.isSimple = true) (hrest : areSimpleLinks rest = true) :
    Yields c (l.height ≤ n ∧ linkHeights rest ≤ n) (do
        let left ← lower l
        match ← links lower place left rest with
        | [result] => return result
        | results => operator "and" place results false)
      fun _ m scope => m.conjunction (m.linkValues scope (m.value scope l) rest) := by
  refine ⟨fun {b o b'} hb hrun => ?_, fun hn b => exists_ok_bind ((hlower hl).succeeds hn.1 b)
    fun left b' => exists_ok_bind (links_succeed hlower hrest hn.2 left b') fun results b' => ?_⟩
  swap
  · split
    · exact ⟨_, rfl⟩
    · exact ⟨_, rfl⟩
  obtain ⟨left, b₁, hleft, hrun⟩ := bind_eq_ok.1 hrun
  obtain ⟨results, b₂, hlinks, hrun⟩ := bind_eq_ok.1 hrun
  have hmakes := (hlower hl).makes hb hleft
  obtain ⟨hadds, hsteady, -, hone⟩ :=
    links_makes hlower hrest (hmakes.adds.localsNamed hb) hmakes.steady hlinks
  have hall : MakesAll c b b₂ results fun _ m scope =>
      m.linkValues scope (m.value scope l) rest := by
    refine ⟨hmakes.adds.append hadds fun V m env mid now hmid _ hvalue hvalues => ?_, hsteady⟩
    rw [hvalues, hmakes.adds.scopeOf_eq hb hmid, hvalue]
  split at hrun
  · next result =>
      obtain ⟨rfl, rfl⟩ := pure_eq_ok.1 hrun
      obtain ⟨hlt, hlast⟩ := hone _ rfl
      refine ⟨hall.adds.mono fun V m env now hvalues => ?_,
        .inl ⟨Nat.lt_of_le_of_lt hmakes.adds.le hlt, hlast⟩⟩
      rw [← hvalues]
      rfl
  · exact hall.operator .conjunction (fun _ _ _ => rfl) hrun

/-- The rules for simple expressions make their values when the lowering of the parts does. -/
theorem yields_exprRule {e : Expr} (he : e.isSimple = true) :
    Yields c (e.height ≤ n + 1) (exprRule lower e) fun _ m scope => m.value scope e := by
  refine yields_placeOf fun place => ?_
  cases e with
  | constant p v =>
    refine ⟨fun _ hrun => ?_, fun _ _ => ⟨_, rfl⟩⟩
    obtain ⟨rfl, rfl⟩ := pure_eq_ok.1 hrun
    exact makes_self nofun fun _ _ _ => rfl
  | name p id context =>
    refine ⟨fun {b o b'} hb hrun => ?_, fun _ b => ⟨_, load_eq c b id⟩⟩
    have hload : load id c b = .ok (o, b') := hrun
    rw [load_eq] at hload
    cases hload
    exact makes_self (hb.resolve id) fun _ _ _ => rfl
  | binary p l op r =>
    simp only [Expr.isSimple, Bool.and_eq_true] at he
    simp only [Expr.height, Nat.add_le_add_iff_right, Nat.max_le]
    have hparts : Yields c (l.height ≤ n ∧ r.height ≤ n) (lower l >>= fun v => lower r >>= fun w =>
        operator op.sign place [v, w] false) fun _ m scope =>
          m.binary op (m.value scope l) (m.value scope r) :=
      .of_completes fun b => .part (hlower he.1) And.left fun v => .part (hlower he.2) And.right
        fun w => completes_operator (.binary op) fun _ _ _ => rfl
    -- a repeated list display, which has a rule of its own, is not simple
    cases l with
    | list q es => exact absurd he.1 (by simp [Expr.isSimple])
    | _ => exact hparts
  | unary p op e =>
    have hpart : e.isSimple = true := he
    exact .of_completes fun b => .part (hlower hpart) Nat.le_of_succ_le_succ fun v =>
      completes_operator (.unary op) fun _ _ _ => rfl
  | boolean p isOr es =>
    refine .of_completes fun b => completes_mapM hlower he Nat.le_of_succ_le_succ fun vs => ?_
    cases isOr with
    | true => exact completes_operator .disjunction fun _ _ _ => rfl
    | false => exact completes_operator .conjunction fun _ _ _ => rfl
  | compare p l rest =>
    simp only [Expr.isSimple, Bool.and_eq_true] at he
    simp only [Expr.height, Nat.add_le_add_iff_right, Nat.max_le]
    exact yields_compare hlower he.1 he.2
  | conditional p t y n =>
    simp only [Expr.isSimple, Bool.and_eq_true] at he
    simp only [Expr.height, Nat.add_le_add_iff_right, Nat.max_le]
    exact .of_completes fun b => .part (hlower he.1.1) And.left fun u =>
      .part (hlower he.1.2) (·.2.1) fun v => .part (hlower he.2) (·.2.2) fun w =>
        completes_operator .select fun _ _ _ => rfl
  | subscript p e i =>
    simp only [Expr.isSimple, Bool.and_eq_true] at he
    simp only [Expr.height, Nat.add_le_add_iff_right, Nat.max_le]
    exact .of_completes fun b => .part (hlower he.1) And.left fun v =>
      .part (hlower he.2) And.right fun w => completes_operator .item fun _ _ _ => rfl
  | slice p lo hi step =>
    simp only [Expr.isSimple, Bool.and_eq_true] at he
    simp only [Expr.height, Nat.add_le_add_iff_right, Nat.max_le]
    exact .of_completes fun b => .part (yields_optional hlower he.1.1) And.left fun u =>
      .part (yields_optional hlower he.1.2) (·.2.1) fun v =>
        .part (yields_optional hlower he.2) (·.2.2) fun w =>
          completes_operator .slice fun _ _ _ => rfl
  | tuple p es =>
    have hitem {e : Expr} (he : e.isSimple = true) :
        Yields c (e.height ≤ n) (item lower place e) fun _ m scope => m.value scope e := by
      cases e with
      | starred q v => exact absurd he (by simp [Expr.isSimple])
      | _ => exact hlower he
    dsimp only
    rw [any_isStarred_of_areSimple he]
    exact .of_completes fun b => completes_mapM hitem he Nat.le_of_succ_le_succ fun vs =>
      completes_operator .tuple fun _ _ _ => rfl
  | _ => exact absurd he (by simp [Expr.isSimple])

end Rules

/-- A simple expression that nests no deeper than allowed is lowered, and its value is made. -/
theorem yields_lowerExpr (c : Context) (room : Nat) {e : Expr} (he : e.isSimple = true) :
    Yields c (e.height ≤ room) (lowerExpr room e) fun _ m scope => m.value scope e := by
  induction room generalizing e with
  | zero =>
    refine ⟨fun _ hrun => ?_, fun hroom => ?_⟩
    · obtain ⟨place, b₀, -, hrun⟩ := bind_eq_ok.1 hrun
      cases hkind : unsupported? e with
      | some kind | none =>
        rw [hkind] at hrun
        cases hrun
    · cases e <;> exact absurd hroom (by simp [Expr.height])
  | succ room ih => exact yields_exprRule ih he

/-! ### Assignments -/

theorem lowerStmt_assign_name (c : Context) (b : Builder) (room : Nat) (p q : Source.Place)
    (id : String) (context : Source.Context) (e : Expr) :
    lowerStmt (room + 1) (.assign p [.name q id context] e) c b =
      (lowerExpr room e >>= fun o =>
        store id o ⟨c.file, p.line + c.shift, p.column⟩ true) c b := by
  refine (bind_of_eq_ok (placeOf_eq c b p)).trans ?_
  change (lowerExpr room e >>= fun o => store id o _ true >>= fun _ => pure ()) c b = _
  simp only [bind_pure_unit]

section Assigning

variable {c : Context} {b b' : Builder} {e : Expr}

theorem assigns_lowerStmt (hb : LocalsNamed c b) (he : e.isSimple = true) {room : Nat} {id x : String}
    (hx : localName? c b id = some x) {p q : Source.Place} {context : Source.Context} {u : Unit}
    (hrun : lowerStmt (room + 1) (.assign p [.name q id context] e) c b = .ok (u, b')) :
    ∃ ss, Assigns c b b' x (fun _ m scope => m.value scope e) ss := by
  rw [lowerStmt_assign_name] at hrun
  obtain ⟨o, b₁, hvalue, hrun⟩ := bind_eq_ok.1 hrun
  have hmakes := (yields_lowerExpr c room he).makes hb hvalue
  obtain ⟨ss, rfl, -⟩ := hmakes.adds
  rw [store_eq (show localName? c (b.plus ss) id = some x from hx)] at hrun
  exact hmakes.storeLocal (hb id x hx) hrun

/-- A simple value is assigned to a local name. -/
def IsAssignment (c : Context) (b : Builder) (st : Stmt) : Prop :=
  ∃ p q id context e, st = .assign p [.name q id context] e ∧ e.isSimple = true ∧
    (localName? c b id).isSome = true

theorem counted_opening (name : String) (params : List String) : Counted (.opening name params) := by
  rintro k - ⟨block, s, hs, -⟩
  match block, hs with
  | 0, hs | 1, hs | 2, hs | _ + 3, hs => cases hs

/-- Every part of a body of assignments leaves all intermediate values counted. -/
theorem counted_of_assignments {room : Nat} {body : List Stmt} {u : Unit} (hb : LocalsNamed c b)
    (hcounted : Counted b) (hbody : ∀ st ∈ body, IsAssignment c b st)
    (hrun : body.forM (lowerStmt (room + 1)) c b = .ok (u, b')) : Counted b' := by
  induction body generalizing b with
  | nil =>
    cases hrun
    exact hcounted
  | cons st rest ih =>
    obtain ⟨⟨p, q, id, context, e, rfl, he, hid⟩, hrest⟩ := forall_mem_cons.1 hbody
    obtain ⟨x, hx⟩ := Option.isSome_iff_exists.1 hid
    obtain ⟨v, b₁, hfirst, hrun⟩ := bind_eq_ok.1 hrun
    obtain ⟨ss, h⟩ := assigns_lowerStmt hb he hx hfirst
    -- the names mean what they did, since only statements have been added
    have hbuilder := h.builder
    generalize b₁.temporaries = n at hbuilder
    subst hbuilder
    exact ih (b := b.adding n ss) hb (h.counted hcounted) hrest hrun

end Assigning

/-- Lowering keeps values.  A simple expression that nests no deeper than allowed is lowered; when
it is, the statements added make fresh intermediate values, none of which was in use, and after them
the operand has the value of the expression in the values before.  An assignment of it to a local
name gives the name that value and leaves every other name alone. -/
theorem lowering_keeps_values {c : Context} {b : Builder} {e : Expr} (hb : LocalsNamed c b)
    (he : e.isSimple = true) (room : Nat) :
    (e.height ≤ room → ∃ r, lowerExpr room e c b = .ok r) ∧
    (∀ o b', lowerExpr room e c b = .ok (o, b') →
      ∃ ss, Computes c b b' o (fun _ m scope => m.value scope e) ss) ∧
    ∀ p q id context x, localName? c b id = some x →
      (e.height ≤ room →
        ∃ r, lowerStmt (room + 1) (.assign p [.name q id context] e) c b = .ok r) ∧
      ∀ u b', lowerStmt (room + 1) (.assign p [.name q id context] e) c b = .ok (u, b') →
        ∃ ss, Assigns c b b' x (fun _ m scope => m.value scope e) ss := by
  have hyields := yields_lowerExpr c room he
  refine ⟨fun hroom => hyields.succeeds hroom b,
    fun o b' hrun => (hyields.makes hb hrun).exists_computes, ?_⟩
  intro p q id context x hx
  refine ⟨fun hroom => ?_, fun u b' hrun => assigns_lowerStmt hb he hx hrun⟩
  obtain ⟨⟨o, b₁⟩, hvalue⟩ := hyields.succeeds hroom b
  obtain ⟨ss, rfl, -⟩ := (hyields.makes hb hvalue).adds
  rw [lowerStmt_assign_name, bind_of_eq_ok hvalue,
    store_eq (show localName? c (b.plus ss) id = some x from hx), storeLocal_eq]
  split <;> exact ⟨_, rfl⟩

/-- The comparison `0 < x - y < x`, whose links share the difference. -/
def between : Expr :=
  let name (id : String) : Expr := .name ⟨1, 0, 0⟩ id .load
  .compare ⟨1, 0, 0⟩ (.constant ⟨1, 0, 0⟩ (.int 0))
    [(.lt, .binary ⟨1, 0, 0⟩ (name "x") .sub (name "y")), (.lt, name "x")]

theorem between_keeps_values :
    ∃ b' ss, lowerStmt 4 (.assign ⟨1, 0, 1⟩ [.name ⟨1, 0, 0⟩ "y" .store] between)
        (.ofLocals ["x", "y"]) (.opening "" ["x", "y"]) = .ok ((), b') ∧
      b' = (Builder.opening "" ["x", "y"]).adding b'.temporaries ss ∧ Counted b' ∧
      ∀ V (m : Meaning V) env, m.run env ss "x" = env "x" ∧
        m.run env ss "y" =
          m.conjunction
            [m.comparison .lt (m.constant (.int 0)) (m.binary .sub (env "x") (env "y")),
              m.comparison .lt (m.binary .sub (env "x") (env "y")) (env "x")] := by
  have hlocals : LocalsNamed (.ofLocals ["x", "y"]) (.opening "" ["x", "y"]) := by
    intro id x hx
    change (if ["x", "y"].contains id then some id else none) = some x at hx
    split at hx
    · next hid =>
        obtain rfl := Option.some.inj hx
        have hcases : id = "x" ∨ id = "y" := by simpa using hid
        rcases hcases with rfl | rfl <;> decide +kernel
    · cases hx
  obtain ⟨-, -, hassign⟩ := lowering_keeps_values hlocals (e := between) (by decide) 3
  obtain ⟨hsucceeds, hassigns⟩ := hassign ⟨1, 0, 1⟩ ⟨1, 0, 0⟩ "y" .store "y" (by decide)
  obtain ⟨⟨u, b'⟩, hrun⟩ := hsucceeds (by decide)
  obtain ⟨ss, h⟩ := hassigns u b' hrun
  have hx : IsNamed "x" := by decide +kernel
  exact ⟨b', ss, hrun, h.builder, h.counted (counted_opening _ _), fun V m env =>
    ⟨h.others V m env "x" (by decide) fun k _ => hx.ne_temporaryName k, h.value V m env⟩⟩

end Lowering
end Readiness
