import Mathlib.Logic.Function.Basic
import Readiness.Folding.Expression
import Readiness.Graph.Basic
import Readiness.Proofs.Const.Renaming

/-!
# Running a flow graph

A walk starts at the entry and runs one block after the other.  It ends where a name without a value
is read or an operation raises an error.  Copies, conditional expressions, operators and pure
functions give the value that they compute.  What another statement gives is left open, and so is an
operation on something that is no constant.  At the end of a block that branches only an edge that
the condition permits is followed.  Whether equal constants are one object is settled for those of
which there is one only and for a variable and itself; a walk ends where the result of an operation
depends on it otherwise.

Each visit of a block has its number, which dates the births of the numbers computed there.  A
format text that is filled beyond the limit is left open as well.
-/

namespace Readiness.Folding

open Graph (Statement Operand CallInfo Edge)

/-- A value while a function runs: a constant, or something else. -/
inductive Value
  | const (c : Const)
  | other

def Value.const? : Value → Option Const
  | const c => some c
  | other => none

/-- The values of names; a name that is not assigned has none. -/
abbrev Store := String → Option Value

def read (store : Store) : Operand → Option Value
  | .const c => some (.const c)
  | .var n => store n
  | .global _ (.const c) => some (.const c)
  | .global _ _ => some .other

def readAt (store : Store) (s : Statement) (position : Nat) : Option Value :=
  match s.operand position with
  | .ok o => read store o
  | .error _ => none

def OnConstants (store : Store) (os : List Operand) (Holds : List Const → Prop) : Prop :=
  ∃ values, os.mapM (read store) = some values ∧
    ∀ cs, values.mapM Value.const? = some cs → Holds cs

/-- A filled text is longer than the limit. -/
def Overlong (limit : Nat) (sign : String) (c : Const) : Prop :=
  sign = "%" ∧ ∃ n, c.length = .ok n ∧ limit < n

/-- What an operator gives on constants; an operator without meaning is left open. -/
def Operates (limit : Nat) (identical : Bool) (moment : Moment) (sign : String) (starred : Bool)
    (v : Value)
    (cs : List Const) : Prop :=
  match Const.operate limit identical moment sign starred cs with
  | .ok c => v = .const c ∨ Overlong limit sign c
  | .error (.raised _) => False
  | .error _ => True

def Applies (moment : Moment) (f : Pure) (v : Value) (cs : List Const) : Prop :=
  ∃ c, f.apply moment cs = .ok c ∧ v = .const c

/-- What a conditional expression gives: the side that its condition chooses. -/
def Selects (store : Store) (s : Statement) (v : Value) : Prop :=
  ∃ test, readAt store s 0 = some test ∧
    ∀ c, test = .const c → readAt store s (if c.truth then 1 else 2) = some v

def Calls (limit : Nat) (moment : Moment) (store : Store) (s : Statement) (call : CallInfo)
    (v : Value) : Prop :=
  match call.dispatch with
  | .operator =>
    if s.op = "select" then Selects store s v
    else OnConstants store s.args fun cs => ∀ identical,
      Operates limit (comparesItself s || identical) moment s.op call.starred v cs
  | .static =>
    match pure? call.callee with
    | some f =>
      if !call.keywords.isEmpty || call.starred then True
      else OnConstants store s.args (Applies moment f v)
    | none => True
  | _ => True

def Yields (limit : Nat) (moment : Moment) (store : Store) (s : Statement) (v : Value) : Prop :=
  match s.kind with
  | .call => ∀ call, s.call = some call → Calls limit moment store s call v
  | .assignment => s.op = "copy" → readAt store s 0 = some v
  | .branch => readAt store s 0 = some v
  | _ => True

def Store.after (store : Store) (s : Statement) (v : Value) : Store :=
  match s.kind, s.target with
  | .branch, _ => store
  | _, some t => Function.update store t (some v)
  | _, none => store

inductive Executes (limit visit : Nat) : Nat → List Statement → Store → Store → Prop
  | nil {position : Nat} {store : Store} : Executes limit visit position [] store store
  | cons {position : Nat} {s : Statement} {rest : List Statement} {store final : Store}
    {v : Value} (first : Yields limit ⟨visit, position⟩ store s v)
    (later : Executes limit visit (position + 1) rest (store.after s v) final) :
    Executes limit visit position (s :: rest) store final

/-- Whether the condition of a branch permits an edge.  A loop over members enters its body only
if there are any. -/
def Permits (s : Statement) (c : Const) (e : Edge) : Prop :=
  if s.op = "for" then c.length = .ok 0 → e.kind ≠ .branchTrue
  else
    match e.kind with
    | .branchTrue => c.truth = true
    | .branchFalse | .loopExit => c.truth = false
    | _ => True

/-- A block may be left along an edge. -/
def Leaves (g : Graph) (block : Nat) (store : Store) (e : Edge) : Prop :=
  e ∈ g.outgoing block ∧
    ∀ s, (g.statementsOf block).getLast? = some s → s.kind = .branch →
      ∀ c, readAt store s 0 = some (.const c) → Permits s c e

def Starts (g : Graph) (store : Store) : Prop := ∀ x, x ∈ g.params ↔ (store x).isSome

/-- A walk from the entry with given values: the edges followed, the last one first, the block
entered and the values there. -/
inductive Walk (limit : Nat) (g : Graph) (start : Store) : List Edge → Nat → Store → Prop
  | entry (h : Starts g start) : Walk limit g start [] Graph.entry start
  | step {es : List Edge} {block : Nat} {store final : Store} {e : Edge}
    (before : Walk limit g start es block store)
    (run : Executes limit es.length 0 (g.statementsOf block) store final)
    (leaves : Leaves g block final e) : Walk limit g start (e :: es) e.target final

def operandRounds : Operand → List Nat
  | .const c | .global _ (.const c) => c.rounds
  | _ => []

/-- The constants that a graph writes down are not marked as evaluated. -/
def Written (g : Graph) : Prop :=
  ∀ block, ∀ s ∈ g.statementsOf block, ∀ o ∈ s.operands, operandRounds o = []

end Readiness.Folding
