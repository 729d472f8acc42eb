import Mathlib.Logic.Function.Basic
import Readiness.Proofs.Lowering.Follows

/-!
# What statements compute

`Meaning.run` gives the values after statements; `run_of_target_ne` says that only
their targets change.  `Builder.adding` is a builder that has added statements to its block, and
`Builder.plus` one that has counted an intermediate value for each; `operator_eq`,
`load_eq`, `storedName?_eq` and `storeLocal_eq` say what these steps of lowering do.
-/

namespace Readiness

open Source (BinaryOperator UnaryOperator ComparisonOperator)
open Graph (Statement Operand Location)
open List

/-! ### Operators -/

inductive Operator
  | binary (op : BinaryOperator)
  | unary (op : UnaryOperator)
  | comparison (op : ComparisonOperator)
  | conjunction
  | disjunction
  | select
  | item
  | slice
  | tuple
  deriving Repr, DecidableEq

namespace Operator

def sign : Operator → String
  | binary op | unary op | comparison op => op.sign
  | conjunction => "and"
  | disjunction => "or"
  | select => "select"
  | item => "[]"
  | slice => "slice"
  | tuple => "tuple"

def every : List Operator :=
  [BinaryOperator.add, .sub, .mult, .div, .floorDiv, .mod, .pow, .matMult, .lShift, .rShift,
      .bitAnd, .bitOr, .bitXor].map binary
    ++ [UnaryOperator.neg, .pos, .invert, .not].map unary
    ++ [ComparisonOperator.eq, .notEq, .lt, .ltE, .gt, .gtE, .is, .isNot, .member,
      .notMember].map comparison
    ++ [conjunction, disjunction, select, item, slice, tuple]

def ofSign? (sign : String) : Option Operator := every.find? fun op => op.sign == sign

/-- The sign tells the operator, although signs of all kinds of operators stand side by side. -/
theorem ofSign?_sign (op : Operator) : ofSign? op.sign = some op := by
  cases op with
  | binary op | unary op | comparison op => cases op <;> decide
  | _ => decide

end Operator

/-- The operator that a statement applies to operands of which none is unpacked. -/
def Graph.Statement.operator? (s : Statement) : Option Operator :=
  match s.call with
  | some info =>
    if s.kind = .call ∧ info.dispatch = .operator ∧ info.starred = false then
      Operator.ofSign? s.op
    else none
  | none => none

/-! ### Interpretations -/

/-- The values of local names and of intermediate values. -/
abbrev Env (V : Type) := String → V

/-- An interpretation of constants, names from outside and operators in a type of values. -/
structure Meaning (V : Type) where
  constant : Const → V
  outside : String → Entity → V
  /-- Whether a value counts as true. -/
  holds : V → Bool
  binary : BinaryOperator → V → V → V
  unary : UnaryOperator → V → V
  comparison : ComparisonOperator → V → V → V
  item : V → V → V
  slice : V → V → V → V
  tuple : List V → V
  /-- What any other statement, under whatever name, makes of the values of its operands. -/
  other : Statement → List V → V

variable {s : Statement}

namespace Meaning

variable {V : Type} (m : Meaning V)

/-- The first value that decides, or else the last one. -/
def firstDeciding (decides : V → Bool) (default : V) : List V → V
  | [] => default
  | [v] => v
  | v :: vs => if decides v then v else firstDeciding decides default vs

/-- The first value that counts as false, or else the last one. -/
def conjunction (vs : List V) : V :=
  firstDeciding (fun v => !m.holds v) (m.constant (.bool true)) vs

/-- The first value that counts as true, or else the last one. -/
def disjunction (vs : List V) : V := firstDeciding m.holds (m.constant (.bool false)) vs

/-- The value of an operator at values, if it takes so many. -/
def apply : Operator → List V → Option V
  | .binary op, [v, w] => some (m.binary op v w)
  | .unary op, [v] => some (m.unary op v)
  | .comparison op, [v, w] => some (m.comparison op v w)
  | .conjunction, vs => some (m.conjunction vs)
  | .disjunction, vs => some (m.disjunction vs)
  | .select, [test, yes, no] => some (if m.holds test then yes else no)
  | .item, [v, w] => some (m.item v w)
  | .slice, [u, v, w] => some (m.slice u v w)
  | .tuple, vs => some (m.tuple vs)
  | _, _ => none

def read (env : Env V) : Operand → V
  | .const c => m.constant c
  | .var x => env x
  | .global x e => m.outside x e

/-- The value of a copy, or of an operator that is applied. -/
def computed? (env : Env V) (s : Statement) : Option V :=
  let given := s.operands.map (m.read env)
  if s.kind = .assignment ∧ s.op = "copy" then given.head?
  else s.operator?.bind fun op => m.apply op given

def result (env : Env V) (s : Statement) : V :=
  (m.computed? env s).getD (m.other { s with target := none } (s.operands.map (m.read env)))

def step (env : Env V) (s : Statement) : Env V :=
  match s.target with
  | some x => Function.update env x (m.result env s)
  | none => env

def run (env : Env V) (ss : List Statement) : Env V := ss.foldl m.step env

variable {m} {env : Env V}

theorem run_append (ss ts : List Statement) :
    m.run env (ss ++ ts) = m.run (m.run env ss) ts := foldl_append

theorem run_concat (ss : List Statement) (s : Statement) :
    m.run env (ss ++ [s]) = m.step (m.run env ss) s := run_append ss [s]

variable {x : String}

theorem step_of_target (h : s.target = some x) :
    m.step env s = Function.update env x (m.result env s) := by
  unfold step
  rw [h]

theorem step_of_target_ne (h : s.target ≠ some x) : m.step env s x = env x := by
  cases htarget : s.target with
  | none =>
    unfold step
    rw [htarget]
  | some y =>
    rw [step_of_target htarget]
    exact Function.update_of_ne (fun hx => h (htarget.trans (congrArg some hx.symm))) _ _

/-- Statements change nothing but their targets. -/
theorem run_of_target_ne {ss : List Statement} (h : ∀ s ∈ ss, s.target ≠ some x) :
    m.run env ss x = env x := by
  induction ss generalizing env with
  | nil => rfl
  | cons s ss ih =>
    obtain ⟨hs, hss⟩ := forall_mem_cons.1 h
    exact (ih hss).trans (step_of_target_ne hs)

end Meaning

namespace Lowering

/-! ### Names -/

def temporaryName (n : Nat) : String := "%" ++ toString n

def IsNamed (x : String) : Prop := x.startsWith "%" = false

instance (x : String) : Decidable (IsNamed x) := inferInstanceAs (Decidable (_ = false))

theorem startsWith_temporaryName (n : Nat) : (temporaryName n).startsWith "%" = true := by
  simp [temporaryName]

theorem IsNamed.ne_temporaryName {x : String} (h : IsNamed x) (n : Nat) : x ≠ temporaryName n := by
  rintro rfl
  rw [IsNamed, startsWith_temporaryName] at h
  cases h

theorem temporaryName_injective : Function.Injective temporaryName := by
  intro n k h
  have hdigits : Nat.toDigits 10 n = Nat.toDigits 10 k := by
    simpa only [temporaryName, Nat.toString_eq_ofList_toDigits, String.toList_append,
      String.toList_ofList, append_cancel_left_eq] using congrArg String.toList h
  calc
    n = Nat.ofDigitChars 10 (Nat.toDigits 10 n) 0 := Nat.ofDigitChars_ten_toDigits.symm
    _ = Nat.ofDigitChars 10 (Nat.toDigits 10 k) 0 := by rw [hdigits]
    _ = k := Nat.ofDigitChars_ten_toDigits

/-! ### Adding statements -/

/-- A builder that has added statements to its current block and has counted `n` intermediate
values. -/
def Builder.adding (b : Builder) (n : Nat) (ss : List Statement) : Builder :=
  { b with
    graph := ss.foldl (fun g s => g.addStatement b.block s) b.graph
    temporaries := n
    index := b.index + ss.length }

/-- A builder that has added statements and has counted an intermediate value for each. -/
def Builder.plus (b : Builder) (ss : List Statement) : Builder :=
  b.adding (b.temporaries + ss.length) ss

/-- A builder whose last statement makes its value under a name. -/
def Builder.retargeted (b : Builder) (x : String) : Builder :=
  { b with graph := b.graph.retarget b.block x }

def operation (op : Operator) (place : Location) (index : Nat) (target : String)
    (operands : List Operand) : Statement :=
  { kind := .call, op := op.sign, location := place, index, target := some target, operands
    call := some { dispatch := .operator, calleeName := op.sign } }

def copy (place : Location) (index : Nat) (target : String) (o : Operand) : Statement :=
  { kind := .assignment, op := "copy", location := place, index, target := some target
    operands := [o] }

section Results

variable {V : Type} {m : Meaning V} {env : Env V} {place : Location} {i : Nat} {x : String}

theorem result_operation {op : Operator} {os : List Operand} {v : V}
    (h : m.apply op (os.map (m.read env)) = some v) :
    m.result env (operation op place i x os) = v := by
  have hop : (operation op place i x os).operator? = some op := by
    simp [operation, Statement.operator?, Operator.ofSign?_sign]
  have hcomputed : m.computed? env (operation op place i x os) = some v := by
    unfold Meaning.computed?
    rw [hop]
    exact h
  rw [Meaning.result, hcomputed, Option.getD_some]

theorem result_copy {o : Operand} : m.result env (copy place i x o) = m.read env o := rfl

end Results

section Adding

variable (c : Context) (b : Builder)

theorem adding_append (n k : Nat) (ss ts : List Statement) :
    b.adding n (ss ++ ts) = (b.adding k ss).adding n ts := by
  simp [Builder.adding, foldl_append, Nat.add_assoc]

theorem plus_append (ss ts : List Statement) : b.plus (ss ++ ts) = (b.plus ss).plus ts := by
  simp [Builder.plus, Builder.adding, foldl_append, Nat.add_assoc]

/-- The last statement is made under the name from the start. -/
theorem retargeted_adding (n : Nat) (ss : List Statement) (s : Statement) (x : String) :
    (b.adding n (ss ++ [s])).retargeted x =
      b.adding n (ss ++ [{ s with target := some x }]) := by
  simp only [Builder.retargeted, Builder.adding, foldl_append, foldl_cons,
    foldl_nil, length_append, length_singleton, Graph.retarget_addStatement]

/-- A block holds what it held before and what has been added. -/
theorem mem_statementsOf_adding {n : Nat} {ss : List Statement} {block : Nat}
    (h : s ∈ (b.adding n ss).graph.statementsOf block) :
    s ∈ b.graph.statementsOf block ∨ s ∈ ss := by
  induction ss using List.reverseRecOn with
  | nil => exact .inl h
  | append_singleton ss t ih =>
    have hadd : (b.adding n (ss ++ [t])).graph = (b.adding n ss).graph.addStatement b.block t :=
      by simp [Builder.adding, foldl_append]
    rw [hadd] at h
    rcases Graph.mem_statementsOf_addStatement h with h | rfl
    · exact (ih h).imp_right (mem_append_left _)
    · exact .inr mem_concat_self

theorem placeOf_eq (p : Source.Place) :
    placeOf p c b = .ok (⟨c.file, p.line + c.shift, p.column⟩, b) := rfl

theorem operator_eq (op : Operator) (place : Location) (os : List Operand) :
    operator op.sign place os false c b =
      .ok (.var (temporaryName (b.temporaries + 1)),
        b.plus [operation op place b.index (temporaryName (b.temporaries + 1)) os]) := rfl

theorem storeLocal_eq (x : String) (v : Operand) (place : Location) (retarget : Bool) :
    storeLocal x v place retarget c b =
      if retarget && isLastValue (b.graph.block b.block).statements v then
        .ok ((), b.retargeted x)
      else .ok ((), b.adding b.temporaries [copy place b.index x v]) := by
  refine (get_bind c b _).trans ?_
  split <;> rfl

variable {c b} in
/-- A sequence goes on where its first part has ended. -/
theorem bind_of_eq_ok {α β : Type} {x : Lower α} {f : α → Lower β} {a : α} {b' : Builder}
    (h : x c b = .ok (a, b')) : (x >>= f) c b = f a c b' := by
  change (x c b >>= fun p => f p.1 c p.2) = _
  rw [h]
  rfl

theorem load_eq (id : String) : load id c b = .ok (resolve c b id, b) := rfl

theorem storedName?_eq (id : String) : storedName? id c b = .ok (localName? c b id, b) := rfl

variable {c b} in
theorem store_eq {id x : String} (hx : localName? c b id = some x) (v : Operand)
    (place : Location) (retarget : Bool) :
    store id v place retarget c b = storeLocal x v place retarget c b := by
  refine (bind_of_eq_ok (storedName?_eq c b id)).trans ?_
  rw [hx]

end Adding

/-! ### The empty program -/

/-- What lowering knows of a function of the empty program with given local names. -/
def Context.ofLocals (locals : List String) : Context :=
  { image := .empty, file := "", shift := 0, base := 0, captured := fun _ => none, locals }

/-- A builder that has added nothing yet. -/
def Builder.blank : Builder :=
  { graph := .start "" "" [], block := Graph.entry, loops := [], handlers := [], renames := []
    temporaries := 0, index := 0, comprehensions := 0, declared := .empty, isGenerator := false }

end Lowering
end Readiness
