import Readiness.Graph.Basic
import Readiness.Image.Body
import Readiness.Source.Binding

/-!
# Building a flow graph

The steps of which lowering is made: `emit`, `value`, `operator`, `allocate`, and
`load` and `store` for names.
-/

namespace Readiness.Lowering

open Graph (Statement StatementKind Operand CallInfo AllocationInfo EdgeKind Location)
open Source (Place)

structure Loop where
  header : Nat
  exit : Nat
  /-- Whether the number of rounds is known. -/
  isBounded : Bool

structure Context where
  image : Image
  file : String
  /-- What is added to the lines of the tree. -/
  shift : Int
  /-- The line of nodes without place. -/
  base : Int
  /-- The names of enclosing calls that the function refers to. -/
  captured : String → Option Entity
  locals : List String

structure Builder where
  graph : Graph
  /-- The current block. -/
  block : Nat
  loops : List Loop
  /-- The blocks of the handlers around, innermost first. -/
  handlers : List (List Nat)
  /-- The names of comprehensions, innermost first. -/
  renames : List (Table String String)
  temporaries : Nat
  index : Nat
  comprehensions : Nat
  declared : Table String TypeExpr
  isGenerator : Bool

abbrev Lower := ReaderT Context (StateT Builder (Except Refusal))

def refuse {α : Type} (cause : Unavailable) : Lower α := throw (.unavailable cause none)

def placeOf (p : Place) : Lower Location := do
  let c ← read
  return ⟨c.file, p.line + c.shift, p.column⟩

def placeless : Lower Location := do
  let c ← read
  return ⟨c.file, c.base, 0⟩

def newBlock (kind : String) : Lower Nat := do
  let b ← get
  set { b with graph := b.graph.addBlock kind b.loops.length }
  return b.graph.blocks.size

def edge (source target : Nat) (kind : EdgeKind) : Lower Unit :=
  modify fun b => { b with graph := b.graph.addEdge ⟨source, target, kind⟩ }

def current : Lower Nat := return (← get).block

def goTo (block : Nat) : Lower Unit := modify fun b => { b with block }

/-- Starts a block that nothing leads to, after a jump. -/
def terminate : Lower Unit := do goTo (← newBlock "unreachable")

def temporary : Lower String := do
  let n := (← get).temporaries + 1
  modify fun b => { b with temporaries := n }
  return "%" ++ toString n

def emit (kind : StatementKind) (op : String) (place : Location)
    (target : Option String) (operands : List Operand) (attr : Option String)
    (call : Option CallInfo) (allocation : Option AllocationInfo) : Lower Unit := do
  let b ← get
  let s : Statement :=
    { kind, op, location := place, index := b.index, target, operands, attr, call, allocation }
  set { b with graph := b.graph.addStatement b.block s, index := b.index + 1 }

def perform (kind : StatementKind) (op : String) (place : Location) (operands : List Operand) :
    Lower Unit :=
  emit kind op place none operands none none none

/-- Adds an assignment that stores into an attribute, an item or a name from outside. -/
def storeInto (op : String) (place : Location) (operands : List Operand) (attr : Option String) :
    Lower Unit :=
  emit .assignment op place none operands attr none none

def value (kind : StatementKind) (op : String) (place : Location) (operands : List Operand)
    (attr : Option String) (call : Option CallInfo) (allocation : Option AllocationInfo) :
    Lower Operand := do
  let t ← temporary
  emit kind op place (some t) operands attr call allocation
  return .var t

def take (op : String) (place : Location) (operands : List Operand) : Lower Operand :=
  value .assignment op place operands none none none

def operator (sign : String) (place : Location) (operands : List Operand) (starred : Bool) :
    Lower Operand :=
  value .call sign place operands none
    (some { dispatch := .operator, calleeName := sign, starred }) none

/-- Whether the current block may be run any number of times. -/
def isUnbounded : Lower Bool := return (← get).loops.any fun l => !l.isBounded

def allocate (op allocator : String) (place : Location) (operands : List Operand)
    (size : Option Int) (manual : Bool) (hint : Entity) : Lower Operand := do
  let inUnboundedLoop ← isUnbounded
  value .allocation op place operands none none
    (some { allocator, manual, size, inUnboundedLoop, hint })

/-- What a name from outside a function stands for: in an enclosing call, in the module, in the
language. -/
def outerValue (image : Image) (captured : String → Option Entity) (name : String) : Entity :=
  match captured name with
  | some e => e
  | none => (image.global? name).getD .unresolved

def outside (name : String) : Lower Operand := do
  let c ← read
  return .global name (outerValue c.image c.captured name)

/-- The local name under which a name is kept; none when it is one from outside. -/
def localName? (c : Context) (b : Builder) (name : String) : Option String :=
  match b.renames.findSome? fun scope => scope.get? name with
  | some other => some other
  | none => if c.locals.contains name then some name else none

def storedName? (name : String) : Lower (Option String) := return localName? (← read) (← get) name

def isLocal (name : String) : Lower Bool := return (← storedName? name).isSome

def resolve (c : Context) (b : Builder) (name : String) : Operand :=
  match localName? c b name with
  | some x => .var x
  | none => .global name (outerValue c.image c.captured name)

def load (name : String) : Lower Operand := return resolve (← read) (← get) name

def isLastValue (statements : Array Statement) (v : Operand) : Bool :=
  match v, statements.back? with
  | .var n, some s => n.startsWith "%" && s.target == some n
  | _, _ => false

/-- Gives a local name the value of an operand.  When `retarget` holds and the last statement has
just made the value, that statement makes it under the name. -/
def storeLocal (target : String) (v : Operand) (place : Location) (retarget : Bool) :
    Lower Unit := do
  let b ← get
  if retarget && isLastValue (b.graph.block b.block).statements v then
    set { b with graph := b.graph.retarget b.block target }
  else emit .assignment "copy" place (some target) [v] none none none

def store (name : String) (v : Operand) (place : Location) (retarget : Bool) : Lower Unit := do
  match ← storedName? name with
  | none => storeInto "store_global" place [← outside name, v] (some name)
  | some target => storeLocal target v place retarget

/-- The local names that occur in a tree, in alphabetical order. -/
def capturedIn (o : Source.Outline) : Lower (List Operand) := do
  let loaded := (o.names.filter fun n => n.2 == .load).map Prod.fst
  let own ← loaded.eraseDups.filterM isLocal
  (TypeSet.sortedNames own).mapM load

end Readiness.Lowering
