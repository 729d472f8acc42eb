import Readiness.Graph.Order
import Readiness.Graph.Parts

/-!
# Where values go

`reaching` gives the names that may hold or contain a value; `escapeReasons` why the
value of an allocation outlives the call.  `missing?` names the part that a statement lacks for
these questions to have a meaning.
-/

namespace Readiness

inductive EscapeReason
  | returned
  | yielded
  | raised
  | storedOutward
  | passedToCall
  | unboundedLoop
  deriving Repr, DecidableEq

namespace EscapeReason

def text : EscapeReason → String
  | returned => "returned"
  | yielded => "yielded"
  | raised => "raised"
  | storedOutward => "stored outward"
  | passedToCall => "passed to call"
  | unboundedLoop => "allocated in unbounded loop"

def isTransfer : EscapeReason → Bool
  | passedToCall | unboundedLoop => false
  | _ => true

end EscapeReason

namespace Flow

open Graph (Statement Operand MissingPart)

abbrev Relation (α : Type) := Table String (List α)

def Relation.of {α : Type} (r : Relation α) (name : String) : List α := (r.get? name).getD []

def Relation.add {α : Type} [DecidableEq α] (r : Relation α) (name : String) (value : α) :
    Relation α :=
  let old := r.of name
  if value ∈ old then r else r.set name (old ++ [value])

structure Values where
  /-- `b` may be `a` or a part taken out of it. -/
  aliases : Relation String
  /-- `b` may contain `a`. -/
  hold : Relation String
  /-- Why the value of a name outlives the call. -/
  sinks : Relation EscapeReason
  /-- The names that the caller may see. -/
  outward : List String

namespace Values

def sink (v : Values) (o : Operand) (reason : EscapeReason) : Values :=
  match o with
  | .var n => { v with sinks := v.sinks.add n reason }
  | _ => v

def aliasEdge (v : Values) (o : Operand) (target : Option String) : Values :=
  match o, target with
  | .var n, some t => { v with aliases := v.aliases.add n t }
  | _, _ => v

/-- The holder may contain the item; a holder outside the function makes the item visible. -/
def holdEdge (v : Values) (item holder : Operand) : Values :=
  match item, holder with
  | .var n, .var h => { v with hold := v.hold.add n h }
  | .var n, _ => { v with sinks := v.sinks.add n .storedOutward }
  | _, _ => v

def heldBy (v : Values) (items : List Operand) (target : Option String) : Values :=
  match target with
  | some t => items.foldl (fun v o => v.holdEdge o (.var t)) v
  | none => v

def sinkAll (v : Values) (items : List Operand) (reason : EscapeReason) : Values :=
  items.foldl (fun v o => v.sink o reason) v

/-- Built-in functions and classes that read their arguments without keeping them. -/
def borrows : Entity → Bool
  | .builtin n =>
    ["len", "sum", "min", "max", "print", "abs", "isinstance", "issubclass", "any", "all",
      "repr", "hash", "id", "format", "round", "divmod", "ord", "chr", "callable", "hex", "oct",
      "bin"].contains n
  | .type (.cls (.builtin n)) =>
    ["range", "str", "bool", "int", "float", "complex", "bytes", "type"].contains n
  | _ => false

/-- Built-in functions and classes whose result keeps their arguments or parts of them. -/
def wraps : Entity → Bool
  | .builtin n => ["iter", "sorted", "next", "getattr", "vars"].contains n
  | .type (.cls (.builtin n)) =>
    ["enumerate", "zip", "reversed", "map", "filter", "tuple"].contains n
  | _ => false

/-- Methods that put their arguments into the receiver. -/
def isMutating (name : String) : Bool :=
  ["append", "extend", "insert", "add", "update", "setdefault", "appendleft", "extendleft",
    "push", "put"].contains name

/-- Methods that take something out of the receiver. -/
def isExtracting (name : String) : Bool :=
  ["pop", "popleft", "popitem", "get", "setdefault", "copy", "keys", "values", "items",
    "__getitem__", "__enter__"].contains name

def isSelecting (sign : String) : Bool := ["select", "and", "or", "[]"].contains sign

def isDetached (sign : String) : Bool :=
  ["==", "!=", "<", "<=", ">", ">=", "is", "is not", "in", "not in", "not", "slice"].contains sign

def anyOrigin? : TypeExpr → Option ClassRef
  | .named _ origin _ | .bare _ origin => some origin
  | .annotated t _ =>
    match t with
    | .cls c => some c
    | _ => none
  | t => t.origin?

def hasBuiltinType (g : Graph) (o : Operand) : Bool :=
  match (g.typeOf o).single?.bind anyOrigin? with
  | some c => c.isBuiltin && c != .object
  | none => false

def onCall (g : Graph) (v : Values) (s : Statement) (call : Graph.CallInfo) : Values :=
  if call.deallocates then v
  else
    match call.dispatch with
    | .operator =>
      if isDetached s.op then v
      else if isSelecting s.op then s.operands.foldl (fun v o => v.aliasEdge o s.target) v
      else v.heldBy s.operands s.target
    | .static =>
      if borrows call.callee then v
      else if wraps call.callee then v.heldBy s.args s.target
      else v.sinkAll s.args .passedToCall
    | .method =>
      match s.receiver? with
      | none => v
      | some receiver =>
        let known := hasBuiltinType g receiver
        let v :=
          if isMutating call.calleeName then
            s.args.foldl (fun v o => v.holdEdge o receiver) v
          else if known then v
          else v.sinkAll s.args .passedToCall
        if isExtracting call.calleeName || !known then v.aliasEdge receiver s.target else v
    | .indirect => v.sinkAll s.args .passedToCall

def onAssignment (v : Values) (s : Statement) : Values :=
  match s.operands.head?, s.operands.getLast? with
  | some first, some last =>
    if s.op = "store_attr" ∨ s.op = "store_item" then v.holdEdge last first
    else if s.op = "store_global" then v.sink last .storedOutward
    else if s.op = "catch" then v
    else v.aliasEdge first s.target
  | _, _ => v

def onStatement (g : Graph) (v : Values) (s : Statement) : Values :=
  match s.kind with
  | .allocation => v.heldBy s.operands s.target
  | .call =>
    match s.call with
    | some call => onCall g v s call
    | none => v
  | .branch => v
  | .assignment => v.onAssignment s
  | .return_ => v.sinkAll (s.operands.take 1) .returned
  | .other =>
    if s.op = "yield" ∨ s.op = "yield_from" then v.sinkAll s.operands .yielded
    else if s.op = "raise" then v.sinkAll s.operands .raised
    else v

def lacks? (s : Statement) : Option MissingPart :=
  match s.kind with
  | .allocation => none
  | .call =>
    match s.call with
    | none => some (.description "deallocates")
    | some call => if call.deallocates then none else s.lacksReceiver? "is_var"
  | .branch => none
  | .assignment => if s.op = "catch" then none else s.lacksOperand?
  | .return_ => s.lacksOperand?
  | .other => none

def missing? (g : Graph) : Option MissingPart := g.statements.findSome? lacks?

/-- The names that can be reached from those in the queue; `room` bounds the number of steps. -/
def close (next : String → List String) : Nat → List String → List String → List String
  | 0, _, seen | _, [], seen => seen
  | room + 1, name :: queue, seen =>
    let fresh := (next name).eraseDups.filter fun n => !seen.contains n
    close next room (queue ++ fresh) (seen ++ fresh)

/-- The number of steps that a closure over the relations can take. -/
def room (v : Values) (roots : Nat) : Nat :=
  let edges (r : Relation String) : Nat := (r.values.map List.length).foldl (· + ·) 0
  edges v.aliases + edges v.hold + roots + 1

def ofGraph (g : Graph) : Values :=
  let v := g.statements.foldl (onStatement g) ⟨.empty, .empty, .empty, []⟩
  let params := g.params.eraseDups
  { v with outward := close v.aliases.of (v.room params.length) params params }

def reaching (v : Values) (name : String) : List String :=
  close (fun n => v.aliases.of n ++ v.hold.of n) (v.room 1) [name] [name]

def escapeReasons (v : Values) (s : Statement) : List EscapeReason :=
  let loop :=
    if (s.allocation.map Graph.AllocationInfo.inUnboundedLoop).getD false then
      [EscapeReason.unboundedLoop]
    else []
  match s.target with
  | none => loop
  | some target =>
    let found := (v.reaching target).flatMap fun n =>
      v.sinks.of n
        ++ (if v.outward.contains n && n != target then [EscapeReason.storedOutward] else [])
    (loop ++ found).eraseDups

end Values
end Flow
end Readiness
