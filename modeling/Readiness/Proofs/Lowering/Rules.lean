import Readiness.Lowering.Body
import Readiness.Proofs.Lowering.Follows

/-!
# Properties that the rules of lowering keep

A property that holds of the steps of the builder and of sequences holds of every step without
control flow (`Elementary`).  Two runs of lowering, of which one has more room than the other, are
related on every expression (`Compositional.lowerExpr`) and on every statement
(`Structural.lowerStmt`) when they are on the constructs that cut the current block.
-/

/-! ### Which parts are lowered one level deeper -/

namespace Readiness.Source

open Lowering (formatted? parallel? repeated?)

def Expr.unstarred : Expr → Expr
  | .starred _ v => v
  | e => e

/-- The parts of a target that says where a value is kept. -/
def Expr.holders : Expr → List Expr
  | .member _ base _ => [base]
  | .subscript _ base index => [base, index]
  | _ => []

mutual

/-- The parts that are lowered when a target is given a value. -/
def Expr.assigned : Expr → List Expr
  | .tuple _ elements | .list _ elements => assignedEach elements
  | e => e.holders

def assignedEach : List Expr → List Expr
  | [] => []
  | .starred _ inner :: rest => inner.assigned ++ assignedEach rest
  | e :: rest => e.assigned ++ assignedEach rest

end

def Clause.dispatched : Clause → List Expr
  | .mk target iter tests => iter :: target.assigned ++ tests

def Expr.dispatched : Expr → List Expr
  | .constant .. | .name .. | .await .. => []
  | .binary _ left op right => (repeated? left op).getD [left] ++ [right]
  | .unary _ _ v | .named _ _ _ v | .member _ v _ | .formatted _ v _ | .starred _ v
  | .yieldFrom _ v => [v]
  | .boolean _ _ values => values
  | .compare _ left rest => left :: rest.map Prod.snd
  | .conditional _ test yes no => [test, yes, no]
  | .subscript _ v index => [v, index]
  | .slice _ lo hi step => lo.toList ++ hi.toList ++ step.toList
  | .tuple _ elements | .list _ elements | .set _ elements => elements.map unstarred
  | .dict _ es => es.flatMap fun e => e.1.toList ++ [e.2]
  | .joined _ values => values.filterMap formatted?
  | .lambda _ params _ => params.allDefaults
  | .yield _ v => v.toList
  | .listComp _ item clauses | .setComp _ item clauses | .generator _ item clauses =>
    clauses.flatMap Clause.dispatched ++ [item]
  | .dictComp _ key v clauses => clauses.flatMap Clause.dispatched ++ [key, v]
  -- the member that is called is not looked up before the call
  | .call _ (.member _ v _) args keywords => v :: args.map unstarred ++ keywords.map Keyword.value
  | .call _ f args keywords => f :: args.map unstarred ++ keywords.map Keyword.value

def Stmt.dispatched : Stmt → List Expr
  | .discard _ e => [e]
  | .assign _ targets v =>
    match parallel? targets v with
    | some (ts, vs) => vs ++ ts.flatMap Expr.assigned
    | none => v :: targets.flatMap Expr.assigned
  | .annAssign _ target _ (some v) => v :: target.assigned
  | .augAssign _ target _ v => v :: target.holders
  | .ret _ v => v.toList
  | .branch _ test _ _ | .loop _ test _ _ => [test]
  | .each _ target iter _ _ => iter :: target.assigned
  | .check _ test message => test :: message.toList
  | .raise _ exception cause => exception.toList ++ cause.toList
  | .delete _ targets => targets.flatMap Expr.holders
  | .manage _ entries _ => entries.flatMap fun e => e.1 :: e.2.toList.flatMap Expr.assigned
  | .guarded _ _ _ handlers _ _ => handlers.filterMap fun | .mk _ type _ _ => type
  | .function _ _ _ params _ _ _ => params.allDefaults
  | _ => []

def Stmt.suites : Stmt → List (List Stmt)
  | .branch _ _ body orelse | .loop _ _ body orelse | .each _ _ _ body orelse => [body, orelse]
  | .manage _ _ body => [body]
  | .guarded _ _ body handlers orelse finalbody =>
    body :: orelse :: finalbody :: handlers.map fun h => match h with | .mk _ _ _ suite => suite
  | _ => []

/-- Whether control flow splits inside a statement. -/
def Stmt.isCompound : Stmt → Bool
  | .branch .. | .loop .. | .each .. | .guarded .. => true
  | _ => false

inductive Construct
  | expr (e : Expr)
  | stmt (s : Stmt)

namespace Construct

/-- What is lowered one level deeper than a construct. -/
def dispatched : Construct → List Construct
  | expr e => e.dispatched.map expr
  | stmt s => s.dispatched.map expr ++ s.suites.flatten.map stmt

/-- Inside a construct stand as many others, each lowered one level deeper than the one around it.
-/
def Nests (n : Nat) (x : Construct) : Prop :=
  ∃ chain, (x :: chain).IsChain (fun x y => y ∈ x.dispatched) ∧ n ≤ chain.length

theorem nests_zero (x : Construct) : x.Nests 0 := ⟨[], .singleton x, Nat.zero_le _⟩

theorem nests_succ {x y : Construct} {n : Nat} (h : y ∈ x.dispatched) : y.Nests n → x.Nests (n + 1)
  | ⟨chain, hchain, hlen⟩ => ⟨y :: chain, .cons_cons h hchain, Nat.succ_le_succ hlen⟩

end Construct

end Readiness.Source

namespace Readiness.Lowering

open List

open Graph (StatementKind EdgeKind Operand CallInfo AllocationInfo Location IsDescribed
  IsSize)
open Source (Expr Clause Keyword Stmt Handler Construct)

/-- The graph, and where in it lowering is. -/
abbrev Builder.stand (b : Builder) : Graph × Nat × Nat × List Loop × List (List Nat) :=
  (b.graph, b.block, b.index, b.around)

structure Sequential (P : ∀ {α : Type}, Lower α → Prop) : Prop where
  pure : ∀ {α : Type} {a : α}, P (pure a : Lower α)
  throw : ∀ {α : Type} {e : Refusal}, (∀ depth place, e ≠ .tooDeep depth place) → P (throw e : Lower α)
  bind : ∀ {α β : Type} {m : Lower α} {f : α → Lower β}, P m → (∀ a, P (f a)) → P (m >>= f)
  read : P (read : Lower Context)
  get : P (get : Lower Builder)
  /-- Steps that change neither the graph nor what is open. -/
  modify : ∀ {f : Builder → Builder}, (∀ b, (f b).stand = b.stand) → P (modify f : Lower Unit)

namespace Sequential

variable {P : ∀ {α : Type}, Lower α → Prop} (hP : Sequential P) {α β : Type}
include hP

/-! ### Sequences -/

theorem forM {f : α → Lower Unit} (hf : ∀ a, P (f a)) : ∀ l : List α, P (l.forM f)
  | [] => hP.pure
  | a :: rest => hP.bind (hf a) fun _ => forM hf rest

theorem mapM {f : α → Lower β} (hf : ∀ a, P (f a)) (l : List α) : P (l.mapM f) := by
  induction l with
  | nil => exact hP.pure
  | cons a rest ih =>
    rw [mapM_cons]
    exact hP.bind (hf a) fun _ => hP.bind ih fun _ => hP.pure

theorem filterAuxM {p : α → Lower Bool} (hp : ∀ a, P (p a)) :
    ∀ (l acc : List α), P (l.filterAuxM p acc)
  | [], _ => hP.pure
  | a :: rest, _ => hP.bind (hp a) fun _ => filterAuxM hp rest _

/-! ### Steps that change no graph -/

theorem placeOf (p : Source.Place) : P (placeOf p) := hP.bind hP.read fun _ => hP.pure

theorem temporary : P temporary :=
  hP.bind hP.get fun _ => hP.bind (hP.modify fun _ => rfl) fun _ => hP.pure

theorem outside (name : String) : P (outside name) := hP.bind hP.read fun _ => hP.pure

theorem storedName? (name : String) : P (storedName? name) :=
  hP.bind hP.read fun _ => hP.bind hP.get fun _ => hP.pure

theorem isLocal (name : String) : P (isLocal name) := hP.bind (hP.storedName? name) fun _ => hP.pure

theorem load (name : String) : P (load name) :=
  hP.bind hP.read fun _ => hP.bind hP.get fun _ => hP.pure

theorem capturedIn (o : Source.Outline) : P (capturedIn o) :=
  hP.bind (hP.bind (hP.filterAuxM hP.isLocal _ _) fun _ => hP.pure) fun _ => hP.mapM hP.load _

theorem rangeCount (start stop step : Int) : P (rangeCount start stop step) := by
  unfold Lowering.rangeCount
  dsimp only
  split
  · exact hP.throw nofun
  · exact hP.pure

theorem tripCount (e : Expr) : P (tripCount e) := by
  unfold Lowering.tripCount
  split
  all_goals try exact hP.pure
  split
  · exact hP.pure
  refine hP.bind (hP.isLocal _) fun isLocal => ?_
  split
  · exact hP.pure
  refine hP.bind (hP.outside _) fun o => ?_
  split
  · split
    · exact hP.rangeCount ..
    · exact hP.rangeCount ..
    · split
      · exact hP.pure
      · exact hP.rangeCount ..
    · exact hP.pure
  · exact hP.pure

theorem staticMember? (base : Operand) (attr : String) : P (staticMember? base attr) := by
  unfold Lowering.staticMember?
  split
  · split
    · exact hP.bind hP.read fun _ => hP.pure
    · exact hP.pure
  · exact hP.pure

end Sequential

variable {op : String} {operands : List Operand}

theorem isDescribed_call {info : CallInfo} (h : info.dispatch ≠ .operator) :
    IsDescribed .call op operands (some info) :=
  ⟨fun _ => ⟨info, rfl, (absurd · h)⟩, nofun, nofun⟩

@[simp]
theorem binary_sign_ne_select (op : Source.BinaryOperator) : op.sign ≠ "select" := by
  cases op <;> decide

@[simp]
theorem unary_sign_ne_select (op : Source.UnaryOperator) : op.sign ≠ "select" := by
  cases op <;> decide

@[simp]
theorem comparison_sign_ne_select (op : Source.ComparisonOperator) : op.sign ≠ "select" := by
  cases op <;> decide

section IsSize

variable {allocator : String} {manual : Bool}

theorem isSize_none : IsSize operands allocator manual none := .inl nofun

theorem isSize_map {α : Type} {f : α → Int} (hf : ∀ a, 0 ≤ f a) (o : Option α) :
    IsSize operands allocator manual (o.map f) := by
  refine .inl fun n hn => ?_
  obtain ⟨a, -, rfl⟩ := Option.map_eq_some_iff.mp hn
  exact hf a

theorem isSize_some (n : Nat) : IsSize operands allocator manual (some (n : Int)) :=
  isSize_map Int.natCast_nonneg (some n)

theorem isSize_manual {args : List Expr} (h : AreGiven args operands) :
    IsSize operands allocator true (manualSize? allocator args) := .inr ⟨rfl, args, h, rfl⟩

theorem volume_nonneg (dims : List Int) : 0 ≤ volume dims :=
  List.foldlRecOn dims _ (motive := fun n => 0 ≤ n) (by decide) fun _ hn d _ =>
    Int.mul_nonneg hn (Int.le_max_right d 0)

theorem isSize_array (args : List Expr) : IsSize operands allocator manual (arraySize? args) := by
  unfold arraySize?
  split
  · exact isSize_none
  · split
    · exact isSize_none
    · exact isSize_map volume_nonneg (some _)
    · exact isSize_none
  · exact isSize_map (fun n => volume_nonneg [n]) _

end IsSize

theorem areGiven_of_arguments {n : Nat} {args : List Expr} {keywords : List Keyword}
    {place : Location} {given : List Operand × List String × Bool}
    (h : Gives (arguments (lowerExpr n) args keywords place) given) : AreGiven args given.1 := by
  obtain ⟨c, b, b', hrun⟩ := h
  obtain ⟨positional, b₁, hpositional, hrun⟩ := bind_eq_ok.mp hrun
  obtain ⟨named, b₂, -, hrun⟩ := bind_eq_ok.mp hrun
  obtain ⟨rfl, -⟩ := pure_eq_ok.mp hrun
  exact ⟨n, place, positional, named, rfl, c, b, b₁, hpositional⟩

/-- A property of lowering steps that steps without control flow keep. -/
structure Elementary (P : ∀ {α : Type}, Lower α → Prop) : Prop extends Sequential P where
  emit : ∀ {kind op place target operands attr call allocation}, IsPlain kind op →
    kind ≠ .allocation → IsDescribed kind op operands call →
    P (emit kind op place target operands attr call allocation)
  allocate : ∀ {op allocator place operands size manual hint},
    IsSize operands allocator manual size → P (allocate op allocator place operands size manual hint)
  storeLocal : ∀ {target v place retarget}, P (storeLocal target v place retarget)

namespace Elementary

variable {P : ∀ {α : Type}, Lower α → Prop} (hP : Elementary P) {place : Location} {name : String}
  {attr : Option String} {args : List Expr} {keywords : List String} {starred : Bool}
include hP

/-! ### Steps of the builder -/

theorem value {kind : StatementKind} (h : IsPlain kind op) (hkind : kind ≠ .allocation)
    {call : Option CallInfo} (hcall : IsDescribed kind op operands call) :
    P (value kind op place operands attr call none) :=
  hP.bind hP.temporary fun _ =>
    hP.bind (hP.emit h hkind hcall) fun _ => hP.pure

theorem assignment (hop : op ≠ "copy" := by decide) :
    P (Lowering.value .assignment op place operands attr none none) :=
  hP.value (isPlain_assignment op) (by decide) ⟨nofun, fun _ => (absurd · hop), nofun⟩

theorem take (hop : op ≠ "copy" := by decide) : P (take op place operands) := hP.assignment hop

theorem calls {info : CallInfo} (h : info.dispatch ≠ .operator) :
    P (Lowering.value .call op place operands none (some info) none) :=
  hP.value (isPlain_call op) (by decide) (isDescribed_call h)

theorem operator {sign : String} (h : sign = "select" → operands.length = 3) :
    P (operator sign place operands starred) := by
  refine hP.value (isPlain_call sign) (by decide) ?_
  exact ⟨fun _ => ⟨_, rfl, fun _ => ⟨rfl, h⟩⟩, nofun, nofun⟩

theorem perform (h : op ≠ "raise") : P (perform .other op place operands) :=
  hP.emit (isPlain_other h) (by decide) ⟨nofun, nofun, nofun⟩

theorem storeInto (hop : op ≠ "copy" := by decide) : P (storeInto op place operands attr) :=
  hP.emit (isPlain_assignment op) (by decide) ⟨nofun, fun _ => (absurd · hop), nofun⟩

theorem store {v : Operand} {retarget : Bool} : P (store name v place retarget) := by
  refine hP.bind (hP.storedName? name) fun found => ?_
  cases found with
  | none => exact hP.bind (hP.outside name) fun _ => hP.storeInto
  | some target => exact hP.storeLocal

theorem containerCall {c : ClassRef} {base : Nat} {hasKeywords : Bool} :
    P (containerCall c base place args hasKeywords operands) := by
  refine hP.allocate ?_
  split
  · exact isSize_some base
  · split
    · split
      · refine isSize_map (fun n => ?_) _
        omega
      · exact isSize_none
    · exact isSize_none

theorem namedCall (h : AreGiven args operands) {callee : Entity} :
    P (namedCall name callee place args operands keywords starred) := by
  unfold Lowering.namedCall
  dsimp only
  split
  · exact hP.allocate (isSize_manual h)
  · split
    · exact hP.allocate (isSize_array args)
    · split
      · exact hP.calls (by simp)
      · split
        · exact hP.containerCall
        · split
          · exact hP.calls (by simp)
          · exact hP.allocate (isSize_some _)

theorem methodCall (h : AreGiven args operands) {receiver : Operand} :
    P (methodCall receiver name place args operands keywords starred) := by
  unfold Lowering.methodCall
  split
  · exact hP.allocate (isSize_manual h)
  · exact hP.calls (by simp)

theorem callWith (h : AreGiven args operands) {callee : Called} :
    P (callWith place args operands keywords starred callee) := by
  unfold Lowering.callWith
  split
  · exact hP.methodCall h
  · exact hP.namedCall h
  · exact hP.calls (by simp)

theorem declareHint (target hint : Expr) : P (declareHint target hint) := by
  unfold Lowering.declareHint
  split
  · refine hP.bind hP.read fun c => ?_
    split
    · refine hP.bind ?_ fun found => ?_
      · refine hP.bind hP.read fun c => ?_
        dsimp only
        split
        all_goals exact hP.pure
      · cases found with
        | some type => exact hP.modify fun _ => rfl
        | none => exact hP.pure
    · exact hP.pure
  · exact hP.pure

theorem other (hop : op ≠ "raise" := by decide) :
    P (Lowering.value .other op place operands none none none) :=
  hP.value (isPlain_other hop) (by decide) ⟨nofun, nofun, nofun⟩

end Elementary

/-- Relates two runs of lowering; the proposition is what follows when the first runs out of room.
-/
structure Paired (P : ∀ {α : Type}, Lower α → Prop)
    (R : ∀ {α : Type}, Prop → Lower α → Lower α → Prop) : Prop extends Elementary P where
  refl : ∀ {A : Prop} {α : Type} {m : Lower α}, P m → R A m m
  given : ∀ {A : Prop} {α β : Type} {m m' : Lower α} {k k' : α → Lower β}, R A m m' →
    (∀ a, Gives m a → R A (k a) (k' a)) → R A (m >>= k) (m' >>= k')
  mono : ∀ {A B : Prop} {α : Type} {m m' : Lower α}, (A → B) → R A m m' → R B m m'
  cut : ∀ {A : Prop} {α : Type}, A → ∀ (place : Location) (m : Lower α), R A (tooDeep place) m

namespace Paired

variable {P : ∀ {α : Type}, Lower α → Prop} {R : ∀ {α : Type}, Prop → Lower α → Lower α → Prop}
  (hP : Paired P R) {A : Prop} {α β : Type}
include hP

theorem seq {m m' : Lower α} {k k' : α → Lower β} (hm : R A m m') (hk : ∀ a, R A (k a) (k' a)) :
    R A (m >>= k) (m' >>= k') := hP.given hm fun a _ => hk a

theorem starts {m : Lower α} {k k' : α → Lower β} (hm : P m) (hk : ∀ a, R A (k a) (k' a)) :
    R A (m >>= k) (m >>= k') := hP.seq (hP.refl hm) hk

theorem ends {m m' : Lower α} {k : α → Lower β} (hm : R A m m') (hk : ∀ a, P (k a)) :
    R A (m >>= k) (m' >>= k) := hP.seq hm fun a => hP.refl (hk a)

theorem forM {k k' : α → Lower Unit} : ∀ {l : List α}, (∀ a ∈ l, R A (k a) (k' a)) →
    R A (l.forM k) (l.forM k')
  | [], _ => hP.refl hP.pure
  | a :: _, h => hP.seq (h a (.head _)) fun _ =>
    forM fun x hx => h x (.tail _ hx)

theorem mapM {k k' : α → Lower β} {l : List α} (h : ∀ a ∈ l, R A (k a) (k' a)) :
    R A (l.mapM k) (l.mapM k') := by
  induction l with
  | nil => exact hP.refl hP.pure
  | cons a rest ih =>
    rw [forall_mem_cons] at h
    rw [mapM_cons, mapM_cons]
    exact hP.seq h.1 fun _ => hP.ends (ih h.2) fun _ => hP.pure

variable {f g : Expr → Lower Operand} {place : Location}

theorem items {elements : List Expr}
    (h : ∀ e ∈ elements.map Expr.unstarred, R A (f e) (g e)) :
    R A (elements.mapM (item f place)) (elements.mapM (item g place)) := by
  refine hP.mapM fun e he => ?_
  have hpart := h _ (mem_map_of_mem he)
  cases e with
  | starred p v => exact hP.ends hpart fun _ => hP.take
  | _ => exact hpart

theorem optional {e : Option Expr} (h : ∀ x ∈ e.toList, R A (f x) (g x)) :
    R A (optional f e) (optional g e) := by
  cases e with
  | none => exact hP.refl hP.pure
  | some e => exact h e (by simp)

theorem links :
    ∀ {rest : List (Source.ComparisonOperator × Expr)} (left : Operand),
      (∀ e ∈ rest.map Prod.snd, R A (f e) (g e)) →
      R A (links f place left rest) (links g place left rest)
  | [], _, _ => hP.refl hP.pure
  | (_, e) :: rest, _, h => hP.seq (h e (by simp)) fun right =>
    hP.starts (hP.operator (by simp)) fun _ =>
      hP.ends (links right fun x hx => h x (.tail _ hx)) fun _ => hP.pure

theorem closure {op allocator : String} {defaults : List Expr}
    (h : ∀ e ∈ defaults, R A (f e) (g e)) {outline : Source.Outline} {hint : ClassRef}
    {size : Option Int} (hsize : ∀ operands, IsSize operands allocator false size) :
    R A (closure f op allocator place defaults outline hint size)
      (closure g op allocator place defaults outline hint size) :=
  hP.ends (hP.mapM h) fun _ => hP.bind (hP.capturedIn outline) fun _ => hP.allocate (hsize _)

theorem call (p : Source.Place) {callee : Expr} {args : List Expr}
    {keywords : List Keyword} {n : Nat}
    (h : ∀ e ∈ (Expr.call p callee args keywords).dispatched, R A (lowerExpr n e) (g e)) :
    R A (call (lowerExpr n) place callee args keywords) (call g place callee args keywords) := by
  have hcallee : R A (called (lowerExpr n) callee) (called g callee) := by
    cases callee with
    | member _ v attr =>
      refine hP.ends (h v (.head _)) fun base =>
        hP.bind (hP.staticMember? base attr) fun found => ?_
      cases found <;> exact hP.pure
    | _ => exact hP.ends (h _ (.head _)) fun _ => hP.pure
  have hargs : ∀ e ∈ args.map Expr.unstarred ++ keywords.map Keyword.value,
      R A (lowerExpr n e) (g e) := by
    intro e he
    cases callee <;> exact h e (.tail _ he)
  rw [forall_mem_append] at hargs
  refine hP.seq hcallee fun callee => hP.given (hP.seq (hP.items hargs.1) fun _ =>
    hP.ends (hP.mapM hargs.2) fun _ => hP.pure) fun found hfound => hP.refl ?_
  exact hP.callWith (areGiven_of_arguments hfound)

mutual

theorem assign (retarget : Bool) (e : Expr) (v : Operand)
    (h : ∀ x ∈ e.assigned, R A (f x) (g x)) :
    R A (assign f place retarget e v) (assign g place retarget e v) := by
  cases e with
  | name => exact hP.refl hP.store
  | member p base attr =>
    exact hP.ends (h _ (by simp [Expr.assigned, Expr.holders])) fun _ => hP.storeInto
  | subscript p base index =>
    simp only [Expr.assigned, Expr.holders, forall_mem_cons] at h
    exact hP.seq h.1 fun _ => hP.ends h.2.1 fun _ => hP.storeInto
  | tuple p elements | list p elements => exact assignEach v elements 0 h
  | _ => exact hP.refl (hP.throw nofun)

theorem assignEach (v : Operand) (elements : List Expr) (i : Nat)
    (h : ∀ x ∈ Source.assignedEach elements, R A (f x) (g x)) :
    R A (assign.assignEach f place v i elements) (assign.assignEach g place v i elements) := by
  unfold Lowering.assign.assignEach
  split
  · exact hP.refl hP.pure
  · rw [Source.assignedEach, forall_mem_append] at h
    exact hP.starts hP.take fun _ => hP.seq (assign true _ _ h.1) fun _ =>
      assignEach v _ _ h.2
  next e rest hplain =>
    rw [Source.assignedEach.eq_3 _ _ hplain, forall_mem_append] at h
    exact hP.starts hP.take fun _ => hP.seq (assign true _ _ h.1) fun _ =>
      assignEach v _ _ h.2

end

/-! ### Parts of statements -/

theorem augmented {sign : String} (hsign : sign ≠ "select") {v target : Expr}
    (h : ∀ x ∈ v :: target.holders, R A (f x) (g x)) :
    R A (augmented f place sign v target) (augmented g place sign v target) := by
  rw [forall_mem_cons] at h
  cases target with
  | name p id context =>
    exact hP.starts (hP.load id) fun _ => hP.ends h.1 fun _ =>
      hP.bind (hP.operator (absurd · hsign)) fun _ => hP.store
  | member p base attr =>
    exact hP.seq (h.2 base (by simp [Expr.holders])) fun _ => hP.starts hP.assignment fun _ =>
      hP.ends h.1 fun _ => hP.bind (hP.operator (absurd · hsign)) fun _ => hP.storeInto
  | subscript p base index =>
    simp only [Expr.holders, forall_mem_cons] at h
    exact hP.seq h.2.1 fun _ => hP.seq h.2.2.1 fun _ => hP.starts (hP.operator (by simp)) fun _ =>
      hP.ends h.1 fun _ => hP.bind (hP.operator (absurd · hsign)) fun _ => hP.storeInto
  | _ => exact hP.refl (hP.throw nofun)

theorem delete {target : Expr} (h : ∀ x ∈ target.holders, R A (f x) (g x)) :
    R A (delete f place target) (delete g place target) := by
  cases target with
  | name p id context =>
    exact hP.refl (hP.bind (hP.load id) fun _ => hP.perform (by decide))
  | subscript p base index =>
    simp only [Expr.holders, forall_mem_cons] at h
    exact hP.seq h.1 fun _ => hP.ends h.2.1 fun _ => hP.perform (by decide)
  | member p base attr =>
    exact hP.ends (h base (by simp [Expr.holders])) fun _ =>
      hP.emit (isPlain_other (by decide)) (by decide) ⟨nofun, nofun, nofun⟩
  | _ => exact hP.refl (hP.throw nofun)

theorem managers : ∀ {entries : List (Expr × Option Expr)},
    (∀ x ∈ entries.flatMap fun e => e.1 :: e.2.toList.flatMap Expr.assigned, R A (f x) (g x)) →
    R A (managers f place entries) (managers g place entries)
  | [], _ => hP.refl hP.pure
  | (e, bound) :: rest, h => by
    rw [flatMap_cons, forall_mem_append, forall_mem_cons] at h
    unfold Lowering.managers
    refine hP.seq h.1.1 fun manager => ?_
    have hrest : R A (do return manager :: (← Lowering.managers f place rest))
        (do return manager :: (← Lowering.managers g place rest)) :=
      hP.ends (managers h.2) fun _ => hP.pure
    cases bound with
    | some target =>
      exact hP.starts hP.take fun _ => hP.seq (hP.assign true target _ fun x hx =>
        h.1.2 x (by simpa using hx)) fun _ => hrest
    | none => exact hP.starts (hP.perform (by decide)) fun _ => hrest

theorem caught (p : Source.Place) {type : Option Expr} (h : ∀ x ∈ type.toList, R A (f x) (g x))
    (name : Option String) : R A (caught f p type name) (caught g p type name) := by
  cases type with
  | none => exact hP.refl hP.pure
  | some t =>
    refine hP.ends (h t (by simp)) fun exception => ?_
    split
    · exact hP.pure
    · split
      · exact hP.pure
      · exact hP.bind (hP.placeOf p) fun _ => hP.bind hP.take fun _ => hP.store

end Paired

/-- Relates two runs of the rules for expressions. -/
structure Compositional (P : ∀ {α : Type}, Lower α → Prop)
    (R : ∀ {α : Type}, Prop → Lower α → Lower α → Prop) : Prop extends Paired P R where
  /-- The loop of a clause, around what is lowered in it. -/
  clause : ∀ {A : Prop} {n n' : Nat} {α : Type} {inner inner' : Lower α} {target : Expr}
      {tests : List Expr},
    (∀ e, R True (lowerExpr n e) (lowerExpr n' e)) → R A inner inner' →
    (∀ x ∈ target.assigned ++ tests, R A (lowerExpr n x) (lowerExpr n' x)) →
    ∀ (suffix : String) (iter : Expr) (iterable : Operand),
      R A (clause (lowerExpr n) suffix target iter tests iterable inner)
        (clause (lowerExpr n') suffix target iter tests iterable inner')

namespace Compositional

variable {P : ∀ {α : Type}, Lower α → Prop} {R : ∀ {α : Type}, Prop → Lower α → Lower α → Prop}
  (hP : Compositional P R) {A : Prop} {α : Type}
include hP

section Rules

variable {n n' : Nat} (hall : ∀ e, R True (lowerExpr n e) (lowerExpr n' e))
include hall

/-! ### Comprehensions -/

theorem nest {inner inner' : Lower α} (hinner : R A inner inner') (suffix : String)
    (first : Operand) : ∀ (clauses : List Clause) (isFirst : Bool),
      (∀ x ∈ clauses.flatMap Clause.dispatched, R A (lowerExpr n x) (lowerExpr n' x)) →
      R A (nest (lowerExpr n) suffix first inner isFirst clauses)
        (nest (lowerExpr n') suffix first inner' isFirst clauses)
  | [], _, _ => hP.ends hinner fun _ => hP.pure
  | .mk target iter tests :: rest, isFirst, h => by
    rw [flatMap_cons, forall_mem_append] at h
    have hiter : R A (if isFirst then pure first else lowerExpr n iter)
        (if isFirst then pure first else lowerExpr n' iter) := by
      cases isFirst
      · exact h.1 iter (.head _)
      · exact hP.refl hP.pure
    exact hP.seq hiter fun iterable => hP.ends (hP.clause hall
      (nest hinner suffix first rest false h.2) (fun x hx => h.1 x (.tail _ hx))
      suffix iter iterable) fun _ => hP.pure

theorem comprehension {op : String} {hint : ClassRef} {place : Location} {clauses : List Clause}
    {elements : List Expr}
    (h : ∀ x ∈ clauses.flatMap Clause.dispatched ++ elements, R A (lowerExpr n x) (lowerExpr n' x)) :
    R A (comprehension (lowerExpr n) op hint place clauses elements)
      (comprehension (lowerExpr n') op hint place clauses elements) := by
  refine hP.starts (hP.modify fun _ => rfl) fun _ => hP.starts hP.get fun b => ?_
  cases clauses with
  | nil => exact hP.refl (hP.allocate isSize_none)
  | cons c rest =>
    obtain ⟨target, iter, tests⟩ := c
    rw [forall_mem_append] at h
    have hinner : R A (do
        let collected ← elements.mapM (lowerExpr n)
        modify fun b => { b with renames := b.renames.drop 1 }
        return collected : Lower (List Operand)) (do
        let collected ← elements.mapM (lowerExpr n')
        modify fun b => { b with renames := b.renames.drop 1 }
        return collected) :=
      hP.ends (hP.mapM h.2) fun _ => hP.bind (hP.modify fun _ => rfl) fun _ => hP.pure
    have hsize : ∀ (collected : List Operand) (trips : Option Nat), IsSize collected op false
        (if op = "listcomp" then
          trips.map fun n => ((sizes.list + sizes.word * n : Nat) : Int) else none) := by
      intro collected trips
      split
      · exact isSize_map (fun _ => Int.natCast_nonneg _) trips
      · exact isSize_none
    exact hP.seq (h.1 iter (.head _)) fun first => hP.starts (hP.modify fun _ => rfl) fun _ =>
      hP.ends (hP.nest hall hinner _ first _ true h.1) fun found => hP.allocate (hsize _ found.1)

/-! ### Expressions -/

theorem exprRule {e : Expr} (h : ∀ x ∈ e.dispatched, R A (lowerExpr n x) (lowerExpr n' x)) :
    R A (exprRule (lowerExpr n) e) (exprRule (lowerExpr n') e) := by
  refine hP.starts (hP.placeOf e.place) fun place => ?_
  cases e with
  | constant p v => exact hP.refl hP.pure
  | name p id context => exact hP.refl (hP.load id)
  | binary p left op right =>
    revert h
    unfold Expr.dispatched
    dsimp only
    cases repeated? left op with
    | some elements =>
      intro h
      rw [Option.getD_some, forall_mem_append] at h
      refine hP.seq (hP.mapM h.1) fun parts => hP.ends (h.2 right (by simp)) fun _ =>
        hP.allocate (isSize_map (fun n => ?_) _)
      have := Int.mul_nonneg (Int.natCast_nonneg (sizes.word * parts.length)) (Int.le_max_right n 0)
      rw [Int.natCast_mul] at this
      omega
    | none =>
      intro h
      exact hP.seq (h left (by simp)) fun _ => hP.ends (h right (by simp)) fun _ =>
        hP.operator (by simp)
  | unary p op v => exact hP.ends (h v (.head _)) fun _ => hP.operator (by simp)
  | boolean p isOr values => exact hP.ends (hP.mapM h) fun _ => hP.operator (by split <;> simp)
  | compare p left rest =>
    refine hP.seq (h left (.head _)) fun l => hP.ends
      (hP.links l fun x hx => h x (.tail _ hx)) fun results => ?_
    split
    · exact hP.pure
    · exact hP.operator (by simp)
  | conditional p test yes no =>
    exact hP.seq (h test (.head _)) fun _ => hP.seq (h yes (.tail _ (.head _))) fun _ =>
      hP.ends (h no (.tail _ (.tail _ (.head _)))) fun _ => hP.operator (by simp)
  | named p target q v =>
    exact hP.ends (h v (.head _)) fun _ => hP.bind hP.store fun _ => hP.load _
  | member p v attr =>
    refine hP.ends (h v (.head _)) fun base =>
      hP.bind (hP.staticMember? base attr) fun found => ?_
    cases found with
    | some o => exact hP.pure
    | none => exact hP.assignment
  | subscript p v index =>
    exact hP.seq (h v (.head _)) fun _ => hP.ends (h index (.tail _ (.head _))) fun _ =>
      hP.operator (by simp)
  | slice p lo hi step =>
    rw [Expr.dispatched, forall_mem_append, forall_mem_append] at h
    exact hP.seq (hP.optional h.1.1) fun _ => hP.seq (hP.optional h.1.2) fun _ =>
      hP.ends (hP.optional h.2) fun _ => hP.operator (by simp)
  | tuple p elements => exact hP.ends (hP.items h) fun _ => hP.operator (by simp)
  | list p elements | set p elements =>
    refine hP.ends (hP.items h) fun _ => hP.allocate ?_
    unfold displaySize?
    split
    · exact isSize_none
    · exact isSize_some _
  | dict p es =>
    refine hP.ends (hP.mapM h) fun _ => ?_
    split
    · exact hP.allocate isSize_none
    · exact hP.allocate (isSize_some _)
  | joined p values => exact hP.ends (hP.mapM h) fun _ => hP.allocate isSize_none
  | formatted p v spec | starred p v => exact h v (.head _)
  | lambda p params body => exact hP.closure h fun _ => isSize_some _
  | yield p v =>
    exact hP.starts (hP.modify fun _ => rfl) fun _ => hP.ends (hP.optional h) fun _ => hP.other
  | yieldFrom p v =>
    exact hP.starts (hP.modify fun _ => rfl) fun _ => hP.ends (h v (.head _)) fun _ => hP.other
  | listComp p item clauses | setComp p item clauses | generator p item clauses
  | dictComp p key v clauses => exact hP.comprehension hall h
  | call p callee args keywords => exact hP.call p h
  | await p v => exact hP.refl (hP.throw nofun)

end Rules

theorem lowerExpr : ∀ {n n' : Nat}, n ≤ n' → ∀ e : Expr,
    R ((Construct.expr e).Nests n) (lowerExpr n e) (lowerExpr n' e)
  | 0, n', _, e => by
    cases e with
    | await p v => cases n' <;> exact hP.refl (hP.bind (hP.placeOf p) fun _ => hP.throw nofun)
    | _ =>
      cases n' <;> exact hP.starts (hP.placeOf _) fun place => hP.cut (Construct.nests_zero _) place _
  | n + 1, n' + 1, hle, e => by
    have ih := lowerExpr (Nat.le_of_succ_le_succ hle)
    exact hP.exprRule (fun x => hP.mono (fun _ => trivial) (ih x)) fun x hx =>
      hP.mono (Construct.nests_succ (mem_map_of_mem hx)) (ih x)

end Compositional

/-- What two runs give on the parts of a statement. -/
structure Parts (R : ∀ {α : Type}, Prop → Lower α → Lower α → Prop) (A : Prop) (n n' : Nat)
    (s : Stmt) : Prop where
  all : ∀ t, R True (lowerStmt n t) (lowerStmt n' t)
  exprs : ∀ e ∈ s.dispatched, R A (lowerExpr n e) (lowerExpr n' e)
  suites : ∀ suite ∈ s.suites, ∀ t ∈ suite, R A (lowerStmt n t) (lowerStmt n' t)

/-- Relates two runs of the rules for statements. -/
structure Structural (P : ∀ {α : Type}, Lower α → Prop)
    (R : ∀ {α : Type}, Prop → Lower α → Lower α → Prop) : Prop extends Compositional P R where
  ret : ∀ (place : Location) (o : Operand), P (returnStep place o)
  leave : ∀ place : Location, P (jumpStep "break" Loop.exit .leave place)
  proceed : ∀ place : Location, P (jumpStep "continue" Loop.header .proceed place)
  raise : ∀ (place : Location) (operands : List Operand), P (raiseStep place operands)
  compound : ∀ {A : Prop} {n n' : Nat} {s : Stmt}, s.isCompound = true → Parts R A n n' s →
    R A (stmtRule (lowerExpr n) (lowerStmt n) s) (stmtRule (lowerExpr n') (lowerStmt n') s)

namespace Structural

variable {P : ∀ {α : Type}, Lower α → Prop} {R : ∀ {α : Type}, Prop → Lower α → Lower α → Prop}
  (hP : Structural P R) {A : Prop}
include hP

theorem stmtRule {n n' : Nat} {s : Stmt} (h : Parts R A n n' s) :
    R A (stmtRule (lowerExpr n) (lowerStmt n) s) (stmtRule (lowerExpr n') (lowerStmt n') s) := by
  have hplace := hP.placeOf s.place
  cases s with
  | branch | loop | each | guarded => exact hP.compound rfl h
  | discard p e =>
    exact hP.starts hplace fun _ => hP.ends (h.exprs e (.head _)) fun _ => hP.pure
  | pass | «global» | «nonlocal» => exact hP.refl (hP.bind hplace fun _ => hP.pure)
  | assign p targets v =>
    refine hP.starts hplace fun place => ?_
    have hexprs := h.exprs
    revert hexprs
    unfold Stmt.dispatched
    dsimp only
    cases parallel? targets v with
    | some sides =>
      intro hexprs
      rw [forall_mem_append] at hexprs
      refine hP.seq (hP.mapM hexprs.1) fun values => hP.forM fun q hq => ?_
      exact hP.assign _ _ _ fun x hx => hexprs.2 x
        (mem_flatMap_of_mem (of_mem_zip hq).1 hx)
    | none =>
      intro hexprs
      rw [forall_mem_cons] at hexprs
      exact hP.seq hexprs.1 fun o => hP.forM fun t ht => hP.assign _ _ _ fun x hx =>
        hexprs.2 x (mem_flatMap_of_mem ht hx)
  | annAssign p target hint v =>
    refine hP.starts hplace fun place => hP.starts (hP.declareHint target hint) fun _ => ?_
    cases v with
    | none => exact hP.refl hP.pure
    | some e =>
      exact hP.seq (h.exprs e (.head _)) fun _ => hP.assign _ _ _ fun x hx =>
        h.exprs x (.tail _ hx)
  | augAssign p target op v =>
    exact hP.starts hplace fun place => hP.augmented (by simp) h.exprs
  | ret p v =>
    exact hP.starts hplace fun place => hP.ends (hP.optional h.exprs) fun o => hP.ret place o
  | leave => exact hP.refl (hP.bind hplace fun place => hP.leave place)
  | proceed => exact hP.refl (hP.bind hplace fun place => hP.proceed place)
  | check p test message =>
    refine hP.starts hplace fun place => hP.seq (h.exprs test (.head _)) fun _ => ?_
    cases message with
    | some m => exact hP.ends (h.exprs m (by simp [Stmt.dispatched])) fun _ => hP.perform (by decide)
    | none => exact hP.refl (hP.perform (by decide))
  | raise p exception cause =>
    exact hP.starts hplace fun place => hP.ends (hP.mapM h.exprs) fun operands =>
      hP.raise place operands
  | delete p targets =>
    exact hP.starts hplace fun _ => hP.forM fun t ht => hP.delete fun x hx =>
      h.exprs x (mem_flatMap_of_mem ht hx)
  | manage p entries body =>
    exact hP.starts hplace fun _ => hP.seq (hP.managers h.exprs) fun _ =>
      hP.ends (hP.forM (h.suites body (.head _))) fun _ =>
        hP.toSequential.forM (fun _ => hP.perform (by decide)) _
  | function p isAsync name params decorators returns body =>
    exact hP.starts hplace fun _ =>
      hP.ends (hP.closure h.exprs fun _ => isSize_some _) fun _ => hP.store
  | classDef p name bases keywords decorators body =>
    exact hP.starts hplace fun _ => hP.ends (hP.closure h.exprs fun _ => isSize_none) fun _ =>
      hP.store
  | importModules p names =>
    exact hP.refl (hP.bind hplace fun _ => hP.toSequential.forM (fun _ => hP.store) _)
  | importFrom p module names level =>
    exact hP.refl (hP.bind hplace fun _ => hP.bind hP.read fun c =>
      hP.toSequential.forM (fun _ => hP.store) _)
  | asyncEach | asyncManage | choose => exact hP.refl (hP.bind hplace fun _ => hP.throw nofun)

theorem lowerStmt : ∀ {n n' : Nat}, n ≤ n' → ∀ s : Stmt,
    R ((Construct.stmt s).Nests n) (lowerStmt n s) (lowerStmt n' s)
  | 0, n', _, s => by
    cases s with
    | asyncEach | asyncManage | choose =>
      cases n' <;> exact hP.refl (hP.bind (hP.placeOf _) fun _ => hP.throw nofun)
    | _ =>
      cases n' <;> exact hP.starts (hP.placeOf _) fun place => hP.cut (Construct.nests_zero _) place _
  | n + 1, n' + 1, hle, s => by
    have hexpr := hP.lowerExpr (Nat.le_of_succ_le_succ hle)
    have ih := lowerStmt (Nat.le_of_succ_le_succ hle)
    refine hP.stmtRule ⟨fun t => hP.mono (fun _ => trivial) (ih t), fun e he => ?_,
      fun suite hs t ht => ?_⟩
    · exact hP.mono (Construct.nests_succ (mem_append_left _ (mem_map_of_mem he))) (hexpr e)
    · exact hP.mono (Construct.nests_succ (mem_append_right _ (mem_map_of_mem
        (mem_flatten_of_mem hs ht)))) (ih t)

end Structural

/-- A function is lowered from a block behind the entry. -/
theorem lowerBody_eq_ok_iff {image : Image} {f : Image.Function} {body : Image.Body}
    {params : List String} {maxDepth : Option Nat} {l : Lowered} :
    lowerBody image f body params maxDepth = .ok l ↔ ∃ final,
      content (roomOf body maxDepth) body.content (.ofBody image f body params)
        (.opening f.name params) = .ok ((), final) ∧
      ⟨final.graph, final.declared, (Context.ofBody image f body params).locals, final.isGenerator⟩ =
        l := by
  unfold lowerBody
  extract_lets c room held lowered
  have hroom : min room held = room := Nat.min_self room
  change (lowered.mapError _ >>= _) = _ ↔
    ∃ final, content room body.content c (.opening f.name params) = .ok ((), final) ∧ _
  rw [← hroom]
  change _ ↔ ∃ final, lowered = _ ∧ _
  rcases lowered with e | ⟨-, final⟩
  · exact iff_of_false nofun nofun
  · refine ⟨fun h => ⟨final, rfl, Except.ok.inj h⟩, fun ⟨_, hfinal, h⟩ => ?_⟩
    cases hfinal
    rw [← h]
    rfl

end Readiness.Lowering
