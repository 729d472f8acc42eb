import Mathlib.Logic.Function.Basic
import Mathlib.Logic.Relation
import Readiness.Graph.Order

/-!
# Objects at run time

Statements run on a heap: local names have objects, and objects hold objects.  A new
object holds the operands of its allocation.  Copies, `select`, `and` and `or` give an operand a
new name, items and attributes give a name to something that their base holds, and stores and the
methods that put something into a list or a set make their base hold it.  Control passes along any
edge.

`Runs` relates a walk from the entry to the heap it has reached, with the statements
that it has executed and the heaps before them.
-/

open Relation (ReflTransGen)

namespace Readiness.Escape

open Graph (Statement Operand Edge)

/-- An object, which was there before the call or was made by a statement. -/
inductive Obj
  | outside (number : Nat)
  | made (number : Nat) (site : Statement)

/-- The objects of a function in the middle of a call. -/
structure Heap where
  /-- The object of a local name.  A name may have none: it has a plain value, or no value. -/
  names : String → Option Obj
  holds : Obj → Obj → Prop
  /-- The number of objects made so far. -/
  count : Nat

namespace Heap

/-- The object of an operand, where `world` gives those of the names from outside. -/
def value (world : String → Option Nat) (h : Heap) : Operand → Option Obj
  | .const _ => none
  | .var n => h.names n
  | .global n _ => (world n).map .outside

def bind (h : Heap) (target : Option String) (v : Option Obj) : Heap :=
  match target with
  | none => h
  | some t => { h with names := Function.update h.names t v }

def put (h : Heap) (holder : Obj) (items : List (Option Obj)) : Heap :=
  { h with holds := fun a b => h.holds a b ∨ a = holder ∧ some b ∈ items }

def make (h : Heap) (s : Statement) (items : List (Option Obj)) : Heap :=
  (({ h with count := h.count + 1 } : Heap).put (.made h.count s) items).bind s.target
    (some (.made h.count s))

/-- An object can be reached from another one through held objects. -/
def Sees (h : Heap) : Obj → Obj → Prop := ReflTransGen h.holds

end Heap

def Applies (s : Statement) (sign : String) : Prop :=
  s.kind = .call ∧ s.op = sign ∧
    ∃ call, s.call = some call ∧ call.deallocates = false ∧ call.dispatch = .operator

/-- The result of a statement can be an operand itself. -/
inductive Picks (s : Statement) : Operand → Prop
  | copy {o : Operand} : s.kind = .assignment → s.op = "copy" → s.operands.head? = some o →
    Picks s o
  | select {o : Operand} {sign : String} : Applies s sign → sign ∈ ["select", "and", "or"] →
    o ∈ s.operands → Picks s o

/-- The result of a statement can be something that an operand holds. -/
inductive Loads (s : Statement) : Operand → Prop
  | field {o : Operand} : s.kind = .assignment → s.op = "load_attr" →
    s.operands.head? = some o → Loads s o
  | item {o : Operand} : Applies s "[]" → s.operands.head? = some o → Loads s o

inductive Puts (s : Statement) : Operand → List Operand → Prop
  | store {base item : Operand} : s.kind = .assignment →
    s.op = "store_attr" ∨ s.op = "store_item" → s.operands.head? = some base →
    s.operands.getLast? = some item → Puts s base [item]
  | method {base : Operand} {call : Graph.CallInfo} : s.kind = .call → s.call = some call →
    call.deallocates = false → call.dispatch = .method →
    call.calleeName ∈ ["append", "extend", "insert", "add"] → s.receiver? = some base →
    Puts s base s.args

inductive Step (world : String → Option Nat) (s : Statement) (h : Heap) : Heap → Prop
  | make : s.kind = .allocation →
    Step world s h (h.make s (s.operands.map (h.value world)))
  | pick {o : Operand} : Picks s o → Step world s h (h.bind s.target (h.value world o))
  | load {o : Operand} {v : Option Obj} : Loads s o →
    (∀ b, v = some b → ∃ a, h.value world o = some a ∧ h.holds a b) →
    Step world s h (h.bind s.target v)
  | put {base : Operand} {items : List Operand} {holder : Obj} : Puts s base items →
    h.value world base = some holder →
    Step world s h ((h.put holder (items.map (h.value world))).bind s.target none)
  | branch : s.kind = .branch → Step world s h h

/-- A heap at the start of a call: only parameters have objects, and all objects come from
outside. -/
structure Initial (g : Graph) (h : Heap) : Prop where
  names : ∀ x o, h.names x = some o → x ∈ g.params ∧ ∃ n, o = .outside n
  holds : ∀ a b, h.holds a b → ∃ m n, a = .outside m ∧ b = .outside n
  count : h.count = 0

/-- A walk is in a block with some of its statements left; `trace` has the executed statements, each
with the heap before it, the last one first. -/
inductive Runs (g : Graph) (world : String → Option Nat) :
    List (Statement × Heap) → Nat → List Statement → Heap → Prop
  | start {h : Heap} : Initial g h → Runs g world [] Graph.entry (g.statementsOf Graph.entry) h
  | step {trace : List (Statement × Heap)} {b : Nat} {s : Statement} {rest : List Statement}
    {h h' : Heap} :
    Runs g world trace b (s :: rest) h → Step world s h h' →
    Runs g world ((s, h) :: trace) b rest h'
  | edge {trace : List (Statement × Heap)} {b : Nat} {e : Edge} {h : Heap} :
    Runs g world trace b [] h → e ∈ g.outgoing b →
    Runs g world trace e.target (g.statementsOf e.target) h

end Readiness.Escape
