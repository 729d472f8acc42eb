import Readiness.Graph.Basic
import Readiness.Image.Typing
import Readiness.Target

/-!
# Typing statements

`statementType` gives the types of the value of a statement.
-/

namespace Readiness.Inference

open Graph (Statement Operand CallInfo)

abbrev Types := Table String TypeSet

variable (image : Image) (types : Types)

def operandType : Operand → TypeSet
  | .var n => (types.get? n).getD []
  | .const c => TypeSet.ofClass (.builtin c.kind)
  | .global _ e => TypeSet.ofClass e.classOf

def allTyped (operands : List Operand) : Option (List TypeSet) :=
  operands.mapM fun o =>
    match operandType types o with
    | [] => none
    | ts => some ts

def everyOther {α : Type} : List α → List α
  | [] => []
  | [a] => [a]
  | a :: _ :: rest => a :: everyOther rest

def dictionary (operands : List TypeSet) : Except Defect TypeSet :=
  match TypeSet.container .dict (everyOther operands),
      TypeSet.container .dict (everyOther (operands.drop 1)) with
  | .generic _ [k], .generic _ [v] => .ok (TypeSet.ofGeneric .dict [k, v])
  | .generic _ _, _ => .error .keywordDictionary
  | _, _ => .ok (TypeSet.ofClass .dict)

def collection (origin : ClassRef) (op : String) (operands : List TypeSet) : TypeSet :=
  let members :=
    if op = "list_repeat" then operands.dropLast
    else if op = "from_iterable" then (operands.head?.map TypeSet.element).toList
    else if op = "list" ∨ op = "set" ∨ op = "listcomp" ∨ op = "setcomp" then operands
    else []
  [TypeSet.container origin members]

def dictionaryOf (op : String) (operands : List TypeSet) : Except Defect TypeSet :=
  match operands with
  | [] => .ok (TypeSet.ofClass .dict)
  | first :: _ =>
    if op = "dict" ∨ op = "dictcomp" then dictionary operands
    else if op = "from_iterable" then
      match first.known? with
      | some (.generic .dict args) => .ok [.generic .dict args]
      | _ => .ok (TypeSet.ofClass .dict)
    else .ok (TypeSet.ofClass .dict)

variable (s : Statement)

def allocationType (hint : Entity) :
    Except Defect (Option TypeSet) :=
  match hint.class? with
  | none => .ok (some ((image.declaredReturn? hint).getD TypeSet.unknown))
  | some c =>
    if [ClassRef.list, .set, .frozenset].contains c then
      .ok ((allTyped types s.operands).map (collection c s.op))
    else if c = .dict then
      match allTyped types s.operands with
      | none => .ok none
      | some ts => return some (← dictionaryOf s.op ts)
    else .ok (some (TypeSet.ofClass c))

def itemType (base index : TypeSet) : TypeSet :=
  let known : TypeSet.Index :=
    match s.operands[1]? with
    | some (Operand.const c) => .constant c
    | _ => if TypeSet.equal index (TypeSet.ofClass .slice) then .slice else .unknown
  let found := TypeSet.subscript base known
  if found.isUnknown then image.binary "[]" base index else found

def operatorType (call : CallInfo) (operands : List TypeSet) :
    TypeSet :=
  if s.op = "and" ∨ s.op = "or" then TypeSet.joinAll operands
  else if s.op = "tuple" then
    if call.starred || operands.isEmpty then TypeSet.ofClass .tuple
    else TypeSet.ofGeneric .tuple (operands.map fun o => o.known?.getD TypeExpr.object)
  else if s.op = "slice" then TypeSet.ofClass .slice
  else
    match s.op, operands with
    | "select", [_, a, b] => TypeSet.join a b
    | "[]", [base, index] => itemType image s base index
    | op, [a] => image.unary op a
    | op, a :: b :: _ =>
      if ["neg", "pos", "~", "not"].contains op then image.unary op a else image.binary op a b
    | _, [] => TypeSet.unknown

def caughtType (o : Option Operand) : TypeSet :=
  match o with
  | some (.global _ (.type (.cls c))) => TypeSet.ofClass c
  | some (.global _ (.tuple items)) =>
    match items.filterMap Entity.class? with
    | [] => TypeSet.unknown
    | cs => TypeSet.ofList (cs.map TypeExpr.cls)
  | _ => TypeSet.unknown

def assignmentType : Option TypeSet :=
  if s.op = "catch" then some (caughtType s.operands.head?)
  else
    match s.operands.head?.map (operandType types) with
    | none | some [] => none
    | some source =>
      some <|
        if s.op = "copy" then source
        else if s.op = "load_attr" then image.attributeOf source s.attr
        else if s.op = "iter_next" then TypeSet.element source
        else if s.op = "unpack" then
          match s.operands[1]? with
          | some (Operand.const c) => TypeSet.subscript source (.constant c)
          | _ => TypeSet.subscript source .unknown
        else if s.op = "unpack_rest" then [TypeSet.container .list [TypeSet.element source]]
        else if s.op = "enter" then image.methodCall source "__enter__"
        else TypeSet.unknown

/-- A call of a program function whose type is to be found: the function, the types of the first
parameters that the way of calling fixes. -/
structure Callee where
  function : Entity
  first : List TypeExpr

inductive CallType
  | known (ts : TypeSet)
  /-- An operand has not been typed yet. -/
  | pending
  | depends (callee : Callee)

def ownerType : Entity → TypeExpr
  | .type (.cls c) => .cls c
  | e => .cls e.classOf

def staticCall (callee : Entity) : CallType :=
  match callee with
  | .unresolved | .const .none => .known TypeSet.unknown
  | callee =>
    if Image.isBuiltinCallable callee then
      match allTyped types s.positionalArgs with
      | none => .pending
      | some args =>
        match Image.builtinCall? callee args, callee.class? with
        | some ts, _ => .known ts
        | none, some c => .known (TypeSet.ofClass c)
        | none, none => .known TypeSet.unknown
    else
      match callee with
      | .type (.cls c) => .known (TypeSet.ofClass c)
      | .method f owner => .depends ⟨f, [ownerType owner]⟩
      | callee =>
        if callee.isFunction then .depends ⟨callee, []⟩ else .known TypeSet.unknown

def methodCallType (name : String) : CallType :=
  match s.receiver?.map (operandType types) with
  | none | some [] => .pending
  | some receiver =>
    let result := image.methodCall receiver name
    if !result.isUnknown then .known result
    else
      match receiver.known?, receiver.known?.bind TypeExpr.origin? with
      | some t, some origin =>
        if origin.moduleName = "builtins" then .known TypeSet.unknown
        else
          match image.resolve? origin name with
          | some (.staticMethod f) => .depends ⟨f, []⟩
          | some (.classMethod f) => .depends ⟨f, [.cls origin]⟩
          | some f =>
            if f.isFunction then .depends ⟨f, [t]⟩ else .known TypeSet.unknown
          | none => .known TypeSet.unknown
      | _, _ => .known TypeSet.unknown

def callType (call : CallInfo) : CallType :=
  if call.deallocates then .known (TypeSet.ofClass .noneType)
  else
    match call.dispatch with
    | .static => staticCall types s call.callee
    | .method => methodCallType image types s call.calleeName
    | _ => .known TypeSet.unknown

def concrete? (ts : TypeSet) : Option TypeExpr :=
  match ts.known? with
  | some t => if t.isConcrete then some t else none
  | none => none

inductive Request
  | known (ts : TypeSet)
  | pending
  /-- The result of a function for argument types. -/
  | target (t : Target)

def requestOf (call : CallInfo) (c : Callee) :
    Request :=
  match image.declaredReturn? c.function with
  | some ts => .known ts
  | none =>
    if call.starred then .known TypeSet.unknown
    else
      let keywords := s.keywordArgs
      match allTyped types s.positionalArgs, allTyped types keywords.values with
      | some args, some named =>
        match args.mapM concrete?, named.mapM concrete? with
        | some ts, some ks =>
          match image.callTypes? c.function (c.first ++ ts)
              (Table.ofList (keywords.keys.zip ks)) with
          | some bound => .target ⟨c.function, bound⟩
          | none => .known TypeSet.unknown
        | _, _ => .known TypeSet.unknown
      | _, _ => .pending

/-- What typing a statement comes down to before a called function is looked into: a result, the
target whose result is asked for, or a defect. -/
def plan :
    Except (Target ⊕ Defect) (Option TypeSet) :=
  match s.kind with
  | .allocation =>
    match s.allocation with
    | some info => (allocationType image types s info.hint).mapError .inr
    | none => .ok none
  | .call =>
    match s.call with
    | none => .ok none
    | some call =>
      if call.dispatch = .operator then
        .ok ((allTyped types s.operands).map (operatorType image s call))
      else
        match callType image types s call with
        | .known ts => .ok (some ts)
        | .pending => .ok none
        | .depends c =>
          match requestOf image types s call c with
          | .known ts => .ok (some ts)
          | .pending => .ok none
          | .target t => .error (.inl t)
  | .assignment => .ok (assignmentType image types s)
  | _ => .ok (some TypeSet.unknown)

end Readiness.Inference
