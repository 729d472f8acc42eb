import Readiness.Image.Entity
import Readiness.Table

/-!
# Statements of a flow graph

A statement computes at most one name from its operands.  Calls and allocations
carry what the analyses ask of them.
-/

namespace Readiness.Graph

structure Location where
  file : String
  line : Int
  column : Int
  deriving Repr, DecidableEq, Inhabited

def Location.text (l : Location) : String := l.file ++ ":" ++ toString l.line

inductive StatementKind
  | allocation
  | call
  | branch
  | assignment
  | return_
  | other
  deriving Repr, DecidableEq, Inhabited

def StatementKind.all : List StatementKind :=
  [.allocation, .call, .branch, .assignment, .return_, .other]

def StatementKind.word : StatementKind → String
  | allocation => "allocation"
  | call => "call"
  | branch => "branch"
  | assignment => "assignment"
  | return_ => "return"
  | other => "other"

def StatementKind.ofWord? (w : String) : Option StatementKind :=
  StatementKind.all.find? fun k => k.word == w

inductive Dispatch
  /-- A function, class or constructor known by name. -/
  | static
  | operator
  /-- A method looked up on the receiver. -/
  | method
  /-- A call through a local value. -/
  | indirect
  deriving Repr, DecidableEq

def Dispatch.word : Dispatch → String
  | static => "static"
  | operator => "operator"
  | method => "method"
  | indirect => "indirect"

def Dispatch.ofWord? (w : String) : Option Dispatch :=
  [Dispatch.static, .operator, .method, .indirect].find? fun d => d.word == w

inductive Operand
  | const (value : Const)
  | var (name : String)
  /-- A name from outside the function with the value it has there. -/
  | global (name : String) (value : Entity)

namespace Operand

def name : Operand → String
  | const c => c.text
  | var n | global n _ => n

def var? : Operand → Option String
  | var n => some n
  | _ => none

end Operand

structure CallInfo where
  dispatch : Dispatch
  calleeName : String
  callee : Entity := .none
  deallocates : Bool := false
  hasReceiver : Bool := false
  keywords : List String := []
  starred : Bool := false

/-- What an allocation statement knows of the value it makes; the size is absent when it is not
known before running. -/
structure AllocationInfo where
  allocator : String
  manual : Bool := false
  size : Option Int := none
  inUnboundedLoop : Bool := false
  /-- The class of the value, or the callable that makes it. -/
  hint : Entity := .none

structure Statement where
  kind : StatementKind
  op : String
  location : Location
  index : Int
  target : Option String := none
  operands : List Operand := []
  attr : Option String := none
  call : Option CallInfo := none
  allocation : Option AllocationInfo := none
  deriving Inhabited

namespace Statement

variable (s : Statement)

def hasReceiver : Bool := (s.call.map CallInfo.hasReceiver).getD false

def keywords : List String := (s.call.map CallInfo.keywords).getD []

def args : List Operand :=
  if s.hasReceiver then s.operands.drop 1 else s.operands

theorem mem_operands_of_mem_args {s : Statement} {o : Operand} (h : o ∈ s.args) :
    o ∈ s.operands := by
  unfold args at h
  split at h
  · exact List.mem_of_mem_drop h
  · exact h

/-- The number of arguments that are given by position.  With more keywords than arguments it
counts from the end. -/
def positionalCount : Nat :=
  let n := s.args.length
  let k := s.keywords.length
  if k ≤ n then n - k else n - (k - n)

def positionalArgs : List Operand :=
  if s.keywords.isEmpty then s.args else s.args.take s.positionalCount

def keywordArgs : Table String Operand :=
  if s.keywords.isEmpty then .empty
  else Table.ofList (s.keywords.zip (s.args.drop s.positionalCount))

def receiver? : Option Operand :=
  if s.hasReceiver then s.operands.head? else none

def shownTarget? : Option String :=
  match s.target with
  | some t => if t.isEmpty then none else some t
  | none => none

def lead : String :=
  match s.shownTarget? with
  | some t => t ++ " = "
  | none => ""

def text : String :=
  "#" ++ toString s.index ++ " " ++ s.lead ++ s.kind.word ++ ":" ++ s.op ++ "("
    ++ String.intercalate ", " (s.operands.map Operand.name) ++ ") @ " ++ s.location.text

end Statement
end Readiness.Graph
