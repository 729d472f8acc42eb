import Readiness.Const.Operator
import Readiness.Lowering.Builder

/-!
# Lowering expressions

`lowerExpr` lowers an expression that nests no deeper than allowed.
-/

namespace Readiness.Lowering

open Graph (Operand Location)
open Source (Expr Clause Keyword)

/-- The bytes of list, dictionary, set and byte-array headers, of instances, of closures and of
a word. -/
structure Sizes where
  list : Nat := 56
  dict : Nat := 64
  set : Nat := 216
  bytearray : Nat := 57
  instance_ : Nat := 56
  closure : Nat := 152
  word : Nat := 8
  dictEntry : Nat := 24
  setEntry : Nat := 16

def sizes : Sizes := {}

def manualAllocators : List String :=
  ["malloc", "calloc", "MallocArray", "MallocVector", "MallocMatrix", "PyMem_Malloc",
    "PyMem_Calloc"]

def releaseFunctions : List String := ["free", "c_free", "libc_free", "PyMem_Free"]

def arrayAllocators : List String := ["zeros", "ones", "empty", "full"]

def integer? : Expr → Option Int
  | .constant _ (.int i) => some i
  | .unary _ .neg (.constant _ (.int i)) => some (-i)
  | _ => none

def isStarred : Expr → Bool
  | .starred _ _ => true
  | _ => false

/-- The members of a list that is repeated. -/
def repeated? : Expr → Source.BinaryOperator → Option (List Expr)
  | .list _ elements, .mult => if elements.any isStarred then none else some elements
  | _, _ => none

def formatted? : Expr → Option Expr
  | .formatted _ inner _ => some inner
  | _ => none

def unsupported? : Expr → Option String
  | .await _ _ => some "Await"
  | _ => none

def rangeCount (start stop step : Int) : Lower (Option Nat) :=
  let count := Const.rangeLength start stop step
  if Const.maxIndex < count then throw (.defective .longRange) else return some count

/-- The number of members that iterating over an expression gives, if it is known. -/
def tripCount (e : Expr) : Lower (Option Nat) := do
  let listed (items : List Expr) : Option Nat :=
    if items.any isStarred then none else some items.length
  match e with
  | .tuple _ items | .list _ items | .set _ items => return listed items
  | .constant _ (.str s) => return some s.length
  | .constant _ (.bytes bs) => return some bs.length
  | .call _ (.name _ id _) args [] =>
    if args.isEmpty || 3 < args.length then return none
    if ← isLocal id then return none
    match ← outside id with
    | .global _ (.type (.cls .range)) =>
      match args.mapM integer? with
      | some [stop] => rangeCount 0 stop 1
      | some [start, stop] => rangeCount start stop 1
      | some [start, stop, step] =>
        if step = 0 then return none else rangeCount start stop step
      | _ => return none
    | _ => return none
  | _ => return none

def targetNames (e : Expr) : List String := e.outline.names.map Prod.fst

section Rules

variable (lower : Expr → Lower Operand)

/-- Lowers a member of a display or an argument of a call; an unpacked one is lowered to one of its
members. -/
def item (place : Location) : Expr → Lower Operand
  | .starred _ v => do take "iter_next" place [← lower v]
  | e => lower e

def assign (place : Location) (retarget : Bool) : Expr → Operand → Lower Unit
  | .name _ id _, v => store id v place retarget
  | .member _ base attr, v => do
    let b ← lower base
    storeInto "store_attr" place [b, v] (some attr)
  | .subscript _ base index, v => do
    let b ← lower base
    let i ← lower index
    storeInto "store_item" place [b, i, v] none
  | .tuple _ elements, v | .list _ elements, v => assignEach place v 0 elements
  | _, _ => refuse (.assignmentTarget place)
where
  /-- Gives the members of a target the members of a value, from a position on. -/
  assignEach (place : Location) (v : Operand) : Nat → List Expr → Lower Unit
    | _, [] => pure ()
    | i, .starred _ inner :: rest => do
      let item ← take "unpack_rest" place [v, .const (.int i)]
      assign place true inner item
      assignEach place v (i + 1) rest
    | i, e :: rest => do
      let item ← take "unpack" place [v, .const (.int i)]
      assign place true e item
      assignEach place v (i + 1) rest

/-- The conditions of a clause: each lets a member through or goes on with the next one. -/
def conditions (header : Nat) : List Expr → Lower Unit
  | [] => pure ()
  | c :: rest => do
    let test ← lower c
    perform .branch "if" (← placeOf c.place) [test]
    let passed ← newBlock "if-then"
    edge (← current) passed .branchTrue
    edge (← current) header .branchFalse
    goTo passed
    conditions header rest

/-- Opens the loop of a clause over an iterable.  The names of its target are set apart by
a suffix.  Gives the number of rounds when it is known. -/
def openClause (suffix : String) (target iter : Expr) (tests : List Expr) (iterable : Operand) :
    Lower (Option Nat) := do
  let count ← tripCount iter
  let header ← newBlock "loop-header"
  edge (← current) header .fallThrough
  goTo header
  let place ← placeless
  perform .branch "for" place [iterable]
  let exit ← newBlock "loop-exit"
  edge header exit .loopExit
  modify fun b => { b with loops := ⟨header, exit, count.isSome⟩ :: b.loops }
  let body ← newBlock "loop-body"
  edge header body .branchTrue
  goTo body
  modify fun b =>
    match b.renames with
    | scope :: around =>
      { b with
        renames := (targetNames target).foldl (fun t n => t.set n (n ++ suffix)) scope :: around }
    | [] => b
  let item ← take "iter_next" place [iterable]
  assign lower place true target item
  conditions lower header tests
  return if tests.isEmpty then count else none

/-- Closes the innermost loop: it goes back to its header, and its exit goes on. -/
def closeLoop : Lower Unit := do
  let b ← get
  match b.loops with
  | [] => pure ()
  | loop :: around =>
    set { b with loops := around }
    edge b.block loop.header .backEdge
    goTo loop.exit

variable {α : Type}

/-- The loop of a clause, around what is lowered in it. -/
def clause (suffix : String) (target iter : Expr) (tests : List Expr) (iterable : Operand)
    (inner : Lower α) : Lower (Option Nat × α) := do
  let count ← openClause lower suffix target iter tests iterable
  let r ← inner
  closeLoop
  return (count, r)

/-- The loops of all clauses, one inside the other.  Gives the number of rounds when it is known. -/
def nest (suffix : String) (first : Operand) (inner : Lower α) :
    Bool → List Clause → Lower (Option Nat × α)
  | _, [] => return (some 1, ← inner)
  | isFirst, .mk target iter tests :: rest => do
    let iterable ← (if isFirst then pure first else lower iter)
    let found ← clause lower suffix target iter tests iterable (nest suffix first inner false rest)
    return (do return (← found.1) * (← found.2.1), found.2.2)

def comprehension (op : String) (hint : ClassRef) (place : Location) (clauses : List Clause)
    (elements : List Expr) : Lower Operand := do
  modify fun b => { b with comprehensions := b.comprehensions + 1 }
  let suffix := "%c" ++ toString (← get).comprehensions
  match clauses with
  | [] => allocate op op place [] none false (.cls hint)
  | .mk _ iter _ :: _ => do
    let first ← lower iter
    modify fun b => { b with renames := .empty :: b.renames }
    let inner : Lower (List Operand) := do
      let collected ← elements.mapM lower
      modify fun b => { b with renames := b.renames.drop 1 }
      return collected
    let (trips, collected) ← nest lower suffix first inner true clauses
    let size : Option Int :=
      if op = "listcomp" then trips.map fun n => ((sizes.list + sizes.word * n : Nat) : Int)
      else none
    allocate op op place collected size false (.cls hint)

def closure (op allocator : String) (place : Location) (defaults : List Expr)
    (outline : Source.Outline) (hint : ClassRef) (size : Option Int) : Lower Operand := do
  let given ← defaults.mapM lower
  let names ← capturedIn outline
  allocate op allocator place (given ++ names) size false (.cls hint)

def volume (dims : List Int) : Int :=
  dims.foldl (fun n d => n * max d 0) (sizes.word : Int)

def manualSize? (name : String) (args : List Expr) : Option Int :=
  match args.mapM integer? with
  | some (first :: rest) =>
    if name = "malloc" ∨ name = "PyMem_Malloc" then some first
    else if name = "calloc" ∨ name = "PyMem_Calloc" then rest.head?.map (first * ·)
    else if name.startsWith "Malloc" then
      some ((first :: rest).foldl (· * ·) (sizes.word : Int))
    else none
  | _ => none

def displaySize? (base each : Nat) (elements : List Expr) : Option Int :=
  if elements.any isStarred then none else some ((base + each * elements.length : Nat) : Int)

def arraySize? : List Expr → Option Int
  | [] => none
  | .tuple _ dims :: _ =>
    match dims.mapM integer? with
    | some [] => none
    | some ds => some (volume ds)
    | none => none
  | shape :: _ => (integer? shape).map fun n => volume [n]

def containerSize? : ClassRef → Option Nat
  | .list => some sizes.list
  | .dict => some sizes.dict
  | .set | .frozenset => some sizes.set
  | .bytearray => some sizes.bytearray
  | _ => none

def containerCall (c : ClassRef) (base : Nat) (place : Location) (args : List Expr)
    (hasKeywords : Bool) (operands : List Operand) : Lower Operand :=
  let size : Option Int :=
    if args.isEmpty && !hasKeywords then some base
    else
      match args with
      | [a] =>
        if c = .bytearray && !hasKeywords then (integer? a).map fun n => base + max n 0
        else none
      | _ => none
  let op := if !args.isEmpty && c != .bytearray then "from_iterable" else c.name
  allocate op c.name place operands size false (.cls c)

def namedCall (name : String) (callee : Entity) (place : Location) (args : List Expr)
    (operands : List Operand) (keywords : List String) (starred : Bool) : Lower Operand :=
  let short := ClassRef.lastPart name
  if manualAllocators.contains short then
    allocate short short place operands (manualSize? short args) true (.cls .rawPointer)
  else if arrayAllocators.contains short && !callee.isClass then
    allocate short short place operands (arraySize? args) false callee
  else
    let static : Lower Operand :=
      value .call short place operands none
        (some
          { dispatch := .static, calleeName := name, callee
            deallocates := releaseFunctions.contains short, keywords, starred })
        none
    match callee.class? with
    | none => static
    | some c =>
      match containerSize? c with
      | some base => containerCall c base place args (!keywords.isEmpty) operands
      | none =>
        if c.moduleName = "builtins" then static
        else allocate "new" c.qualname place operands (some sizes.instance_) false callee

def methodCall (receiver : Operand) (name : String) (place : Location) (args : List Expr)
    (operands : List Operand) (keywords : List String) (starred : Bool) : Lower Operand :=
  if manualAllocators.contains name then
    allocate name name place operands (manualSize? name args) true (.cls .rawPointer)
  else
    value .call name place (receiver :: operands) none
      (some
        { dispatch := .method, calleeName := name
          deallocates := releaseFunctions.contains name, hasReceiver := true, keywords, starred })
      none

def staticMember? (base : Operand) (attr : String) : Lower (Option Operand) := do
  match base with
  | .global name e =>
    if e.isNamespace then
      let found := ((← read).image.member? e attr).getD .unresolved
      return some (.global (name ++ "." ++ attr) found)
    else return none
  | _ => return none

def arguments (args : List Expr) (keywords : List Keyword) (place : Location) :
    Lower (List Operand × List String × Bool) := do
  let positional ← args.mapM (item lower place)
  let named ← (keywords.map Keyword.value).mapM lower
  let names := keywords.map Keyword.name?
  return (positional ++ named, names.map (·.getD "**"), args.any isStarred || names.any Option.isNone)

inductive Called
  | method (receiver : Operand) (name : String)
  | value (callee : Operand)

def called : Expr → Lower Called
  | .member _ v attr => do
    let base ← lower v
    match ← staticMember? base attr with
    | some o => pure (.value o)
    | none => pure (.method base attr)
  | f => do pure (.value (← lower f))

def callWith (place : Location) (args : List Expr) (operands : List Operand) (names : List String)
    (starred : Bool) : Called → Lower Operand
  | .method receiver name => methodCall receiver name place args operands names starred
  | .value (.global name e) => namedCall name e place args operands names starred
  | .value callee =>
    value .call "call" place (callee :: operands) none
      (some
        { dispatch := .indirect, calleeName := callee.name, hasReceiver := true
          keywords := names, starred })
      none

def call (place : Location) (f : Expr) (args : List Expr) (keywords : List Keyword) :
    Lower Operand := do
  let callee ← called lower f
  let (operands, names, starred) ← arguments lower args keywords place
  callWith place args operands names starred callee

def links (place : Location) (left : Operand) :
    List (Source.ComparisonOperator × Expr) → Lower (List Operand)
  | [] => return []
  | (op, e) :: rest => do
    let right ← lower e
    let result ← operator op.sign place [left, right] false
    return result :: (← links place right rest)

/-- A part of a slice; an absent one stands for nothing. -/
def optional : Option Expr → Lower Operand
  | some e => lower e
  | none => return .const .none

def exprRule (e : Expr) : Lower Operand := do
  let place ← placeOf e.place
  match e with
  | .constant _ c => return .const c
  | .name _ id _ => load id
  | .binary _ left op right =>
    match repeated? left op with
    | some elements => do
      let parts ← elements.mapM lower
      let count ← lower right
      let size := (integer? right).map fun n =>
        (sizes.list : Int) + (sizes.word : Int) * parts.length * max n 0
      allocate "list_repeat" "list" place (parts ++ [count]) size false (.cls .list)
    | none => do
      let l ← lower left
      let r ← lower right
      operator op.sign place [l, r] false
  | .unary _ op v => operator op.sign place [← lower v] false
  | .boolean _ disjunction values =>
    operator (if disjunction then "or" else "and") place (← values.mapM lower) false
  | .compare _ left rest => do
    let l ← lower left
    match ← links lower place l rest with
    | [result] => return result
    | results => operator "and" place results false
  | .conditional _ test yes no => do
    let t ← lower test
    let y ← lower yes
    let n ← lower no
    operator "select" place [t, y, n] false
  | .named _ target _ v => do
    let o ← lower v
    store target o place true
    load target
  | .member _ v attr => do
    let base ← lower v
    match ← staticMember? base attr with
    | some o => return o
    | none => value .assignment "load_attr" place [base] (some attr) none none
  | .subscript _ v index => do
    let base ← lower v
    let i ← lower index
    operator "[]" place [base, i] false
  | .slice _ lo hi step => do
    let a ← optional lower lo
    let b ← optional lower hi
    let c ← optional lower step
    operator "slice" place [a, b, c] false
  | .tuple _ elements => do
    operator "tuple" place (← elements.mapM (item lower place)) (elements.any isStarred)
  | .list _ elements => do
    let parts ← elements.mapM (item lower place)
    allocate "list" "list" place parts (displaySize? sizes.list sizes.word elements) false (.cls .list)
  | .set _ elements => do
    let parts ← elements.mapM (item lower place)
    allocate "set" "set" place parts (displaySize? sizes.set sizes.setEntry elements) false (.cls .set)
  | .dict _ es => do
    let parts ← (es.flatMap fun e => e.1.toList ++ [e.2]).mapM lower
    if es.any (·.1.isNone) then allocate "dict_merge" "dict" place parts none false (.cls .dict)
    else
      allocate "dict" "dict" place parts
        (some ((sizes.dict + sizes.dictEntry * es.length : Nat) : Int)) false (.cls .dict)
  | .joined _ values => do
    let parts ← (values.filterMap formatted?).mapM lower
    allocate "str" "f-string" place parts none false (.cls .str)
  | .formatted _ v _ | .starred _ v => lower v
  | .lambda _ params body =>
    closure lower "closure" "lambda" place params.allDefaults
      (Expr.lambda e.place params body).outline .function (some sizes.closure)
  | .yield _ v => do
    modify fun b => { b with isGenerator := true }
    let o ← optional lower v
    value .other "yield" place [o] none none none
  | .yieldFrom _ v => do
    modify fun b => { b with isGenerator := true }
    let o ← lower v
    value .other "yield_from" place [o] none none none
  | .listComp _ item clauses => comprehension lower "listcomp" .list place clauses [item]
  | .setComp _ item clauses => comprehension lower "setcomp" .set place clauses [item]
  | .generator _ item clauses => comprehension lower "genexpr" .generator place clauses [item]
  | .dictComp _ key v clauses => comprehension lower "dictcomp" .dict place clauses [key, v]
  | .call _ f args keywords => call lower place f args keywords
  | .await _ _ => refuse (.expression "Await" place)

end Rules

/-- The source nests one level deeper than there is room for. -/
def tooDeep {α : Type} (place : Location) : Lower α := throw (.tooDeep 1 place.text)

/-- Lowers an expression; `room` is how much deeper it may nest. -/
def lowerExpr : Nat → Expr → Lower Operand
  | 0, e => do
    let place ← placeOf e.place
    match unsupported? e with
    | some kind => refuse (.expression kind place)
    | none => tooDeep place
  | room + 1, e => exprRule (lowerExpr room) e

end Readiness.Lowering
