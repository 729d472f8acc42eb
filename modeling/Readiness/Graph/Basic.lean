import Readiness.Graph.Statement

/-!
# Flow graphs

A flow graph has blocks of statements, numbered from zero in the order in which they
were made, and edges between them in the order in which they were made.  Block zero is the entry
and block one the exit.  A sealed graph takes no further block, edge or statement.
-/

namespace Readiness

namespace Graph

inductive EdgeKind
  | fallThrough
  | branchTrue
  | branchFalse
  | backEdge
  | loopExit
  | leave
  | proceed
  | return_
  | exception
  deriving Repr, DecidableEq

def EdgeKind.all : List EdgeKind :=
  [.fallThrough, .branchTrue, .branchFalse, .backEdge, .loopExit, .leave, .proceed, .return_,
    .exception]

def EdgeKind.word : EdgeKind → String
  | fallThrough => "fall-through"
  | branchTrue => "branch-true"
  | branchFalse => "branch-false"
  | backEdge => "back-edge"
  | loopExit => "loop-exit"
  | leave => "break"
  | proceed => "continue"
  | return_ => "return"
  | exception => "exception"

def EdgeKind.ofWord? (w : String) : Option EdgeKind :=
  EdgeKind.all.find? fun k => k.word == w

structure Block where
  kind : String
  loopDepth : Int := 0
  statements : Array Statement := #[]
  deriving Inhabited

structure Edge where
  source : Nat
  target : Nat
  kind : EdgeKind
  deriving Repr, DecidableEq

end Graph

structure Graph where
  /-- The function with its argument types. -/
  label : String
  /-- The plain name of the function. -/
  name : String
  params : List String
  blocks : Array Graph.Block
  edges : Array Graph.Edge
  /-- The types of local names and intermediate values. -/
  types : Table String TypeSet
  /-- The types of parameters and of declared local names. -/
  declared : Table String TypeSet
  returns : TypeSet
  locals : List String
  isSealed : Bool

namespace Graph

def entry : Nat := 0

def exit : Nat := 1

def start (label name : String) (params : List String) : Graph :=
  { label, name, params
    blocks := #[⟨"entry", 0, #[]⟩, ⟨"exit", 0, #[]⟩]
    edges := #[], types := .empty, declared := .empty, returns := [], locals := []
    isSealed := false }

instance : Inhabited Graph := ⟨start "" "" []⟩

variable (g : Graph)

def addBlock (kind : String) (loopDepth : Int) : Graph :=
  { g with blocks := g.blocks.push { kind, loopDepth } }

def addEdge (e : Edge) : Graph := { g with edges := g.edges.push e }

def addStatement (block : Nat) (s : Statement) : Graph :=
  { g with
    blocks := g.blocks.modify block fun b => { b with statements := b.statements.push s } }

/-- The last statement of a block makes its value under another name. -/
def retarget (b : Nat) (name : String) : Graph :=
  { g with
    blocks := g.blocks.modify b fun block =>
      { block with
        statements := block.statements.modify (block.statements.size - 1) fun s =>
          { s with target := some name } } }

def sealed (types declared : Table String TypeSet) (returns : TypeSet)
    (locals : List String) : Graph :=
  { g with types, declared, returns, locals, isSealed := true }

inductive SealFault
  /-- A new block or edge. -/
  | graph
  /-- A new statement. -/
  | block
  deriving Repr, DecidableEq

def SealFault.message : SealFault → String
  | graph => "FunctionIR is sealed"
  | block => ""

def addBlock? (kind : String) (loopDepth : Int) : Except SealFault Graph :=
  if g.isSealed then .error .graph else .ok (g.addBlock kind loopDepth)

def addEdge? (e : Edge) : Except SealFault Graph :=
  if g.isSealed then .error .graph else .ok (g.addEdge e)

def addStatement? (block : Nat) (s : Statement) : Except SealFault Graph :=
  if g.isSealed then .error .block else .ok (g.addStatement block s)

def block (b : Nat) : Block := g.blocks.getD b default

def statementsOf (b : Nat) : List Statement := (g.block b).statements.toList

def outgoing (b : Nat) : List Edge := g.edges.toList.filter fun e => e.source == b

def incoming (b : Nat) : List Edge := g.edges.toList.filter fun e => e.target == b

def successors (b : Nat) : List Nat := (g.outgoing b).map Edge.target

def predecessors (b : Nat) : List Nat := (g.incoming b).map Edge.source

def isParam (name : String) : Bool := g.params.contains name

def typeOf : Operand → TypeSet
  | .const c => TypeSet.ofClass (.builtin c.kind)
  | .var n => (g.types.get? n).getD TypeSet.unknown
  | .global _ e => TypeSet.ofClass e.classOf

/-- A table with one entry for each kind of statement.  Its absence names the kinds without
entry. -/
def missingKinds (kinds : List StatementKind) : List StatementKind :=
  StatementKind.all.filter fun k => !kinds.contains k

def missingKindsMessage (missing : List StatementKind) : String :=
  "dispatch table does not handle statement kind(s): ["
    ++ String.intercalate ", " (missing.map fun k => Text.quoted k.word) ++ "]"

end Graph
end Readiness
