import Readiness.Image.Loading
import Readiness.Lowering.Expression

/-!
# Lowering statements

`lowerStmt` lowers a statement that nests no deeper than allowed.
-/

namespace Readiness.Lowering

open Graph (EdgeKind Operand Location)
open Source (Expr Stmt Handler)

def unsupportedStmt? : Stmt → Option String
  | .asyncEach _ _ _ _ _ => some "AsyncFor"
  | .asyncManage _ _ _ => some "AsyncWith"
  | .choose _ _ _ => some "Match"
  | _ => none

def localHint? (hint : Expr) : Lower (Option TypeExpr) := do
  let c ← read
  let value :=
    match hint with
    | .constant _ (.str t) =>
      let scope : Spelling.Scope :=
        { name? := fun n => (c.captured n).or (c.image.global? n), member? := c.image.member? }
      (Spelling.read? t.string).bind fun s => s.evaluate scope
    | e => some (c.image.evaluated c.captured e)
  match value with
  | none | some .none => return none
  | some e => return e.toTypeExpr

/-! ### Steps that end a block -/

def returnStep (place : Location) (o : Operand) : Lower Unit := do
  perform .return_ "return" place [o]
  edge (← current) Graph.exit .return_
  terminate

/-- A jump to one of the two ends of the innermost loop. -/
def jumpStep (word : String) (target : Loop → Nat) (kind : EdgeKind) (place : Location) :
    Lower Unit := do
  match (← get).loops with
  | [] => refuse (.outsideLoop word place)
  | loop :: _ => do
    edge (← current) (target loop) kind
    terminate

def raiseStep (place : Location) (operands : List Operand) : Lower Unit := do
  perform .other "raise" place operands
  match (← get).handlers with
  | [] => edge (← current) Graph.exit .exception
  | blocks :: _ => do
    let here ← current
    blocks.forM fun b => edge here b .exception
  terminate

/-- Lowers a suite while the blocks of its handlers are open. -/
def shielded (blocks : List Nat) (suite : Lower Unit) : Lower Unit :=
  if blocks.isEmpty then suite
  else do
    modify fun b => { b with handlers := blocks :: b.handlers }
    suite
    modify fun b => { b with handlers := b.handlers.drop 1 }

section StatementRules

variable (expr : Expr → Lower Operand) (stmt : Stmt → Lower Unit)

/-- What follows when the test of a block fails, up to the block where both ways join. -/
def elseStep (head join : Nat) (last : EdgeKind) (kind : String) (orelse : List Stmt) :
    Lower Unit := do
  if orelse.isEmpty then edge head join last
  else
    let no ← newBlock kind
    edge head no .branchFalse
    goTo no
    orelse.forM stmt
    edge (← current) join .fallThrough
  goTo join

def branchStep (body orelse : List Stmt) : Lower Unit := do
  let head ← current
  let join ← newBlock "if-join"
  let yes ← newBlock "if-then"
  edge head yes .branchTrue
  goTo yes
  body.forM stmt
  edge (← current) join .fallThrough
  elseStep stmt head join .branchFalse "if-else" orelse

/-- The parts of a loop behind its test. -/
def loopBody (header : Nat) (isBounded : Bool) (bind : Lower Unit) (body orelse : List Stmt) :
    Lower Unit := do
  let testEnd ← current
  let exit ← newBlock "loop-exit"
  modify fun b => { b with loops := ⟨header, exit, isBounded⟩ :: b.loops }
  let inner ← newBlock "loop-body"
  edge testEnd inner .branchTrue
  goTo inner
  bind
  body.forM stmt
  edge (← current) header .backEdge
  modify fun b => { b with loops := b.loops.drop 1 }
  elseStep stmt testEnd exit .loopExit "loop-else" orelse

def augmented (place : Location) (sign : String) (v : Expr) : Expr → Lower Unit
  | .name _ id _ => do
    let before ← load id
    let o ← expr v
    let result ← operator sign place [before, o] false
    store id result place true
  | .member _ base attr => do
    let b ← expr base
    let before ← value .assignment "load_attr" place [b] (some attr) none none
    let result ← operator sign place [before, ← expr v] false
    storeInto "store_attr" place [b, result] (some attr)
  | .subscript _ base index => do
    let b ← expr base
    let i ← expr index
    let before ← operator "[]" place [b, i] false
    let result ← operator sign place [before, ← expr v] false
    storeInto "store_item" place [b, i, result] none
  | _ => refuse (.augmentedTarget place)

def delete (place : Location) : Expr → Lower Unit
  | .name _ id _ => do perform .other "del" place [← load id]
  | .subscript _ base index => do
    let b ← expr base
    perform .other "del_item" place [b, ← expr index]
  | .member _ base attr => do
    let b ← expr base
    emit .other "del_attr" place none [b] (some attr) none none
  | _ => refuse (.deletedTarget place)

def managers (place : Location) : List (Expr × Option Expr) → Lower (List Operand)
  | [] => return []
  | (e, bound) :: rest => do
    let manager ← expr e
    match bound with
    | some target => do
      let entered ← take "enter" place [manager]
      assign expr place true target entered
    | none => perform .other "enter" place [manager]
    return manager :: (← managers place rest)

/-- Lowers the kind of exception that a handler takes, and gives the exception its name. -/
def caught (p : Source.Place) (type : Option Expr) (name : Option String) : Lower Unit :=
  match type with
  | none => pure ()
  | some t => do
    let exception ← expr t
    match name with
    | none => pure ()
    | some n =>
      if n.isEmpty then pure ()
      else
        let place ← placeOf p
        let caught ← take "catch" place [exception]
        store n caught place true

def handlersInto (join : Nat) : List (Handler × Nat) → Lower Unit
  | [] => pure ()
  | (.mk p type name body, entry) :: rest => do
    goTo entry
    caught expr p type name
    body.forM stmt
    edge (← current) join .fallThrough
    handlersInto join rest

/-- A suite with its handlers. -/
def guarded (body : List Stmt) (handlers : List Handler) (orelse finalbody : List Stmt) :
    Lower Unit := do
  let blocks ← handlers.mapM fun _ => newBlock "except"
  let before ← current
  blocks.forM fun b => edge before b .exception
  let inner ← newBlock "try-body"
  edge before inner .fallThrough
  goTo inner
  shielded blocks (body.forM stmt)
  let bodyEnd ← current
  blocks.forM fun b => edge bodyEnd b .exception
  let join ← newBlock "try-join"
  orelse.forM stmt
  edge (← current) join .fallThrough
  handlersInto expr stmt join (handlers.zip blocks)
  goTo join
  finalbody.forM stmt

def plainElements? : Expr → Option (List Expr)
  | .tuple _ xs | .list _ xs => if xs.any isStarred then none else some xs
  | _ => none

/-- The members of both sides of an assignment between displays of one length. -/
def parallel? (targets : List Expr) (v : Expr) : Option (List Expr × List Expr) :=
  match targets with
  | [t] => do
    let ts ← plainElements? t
    let vs ← plainElements? v
    if ts.length = vs.length then some (ts, vs) else none
  | _ => none

def declareHint (target hint : Expr) : Lower Unit := do
  match target with
  | .name _ id _ =>
    if (← read).locals.contains id then
      match ← localHint? hint with
      | some t => modify fun b => { b with declared := b.declared.set id t }
      | none => pure ()
  | _ => pure ()

def assignAnnotated (place : Location) (target : Expr) : Option Expr → Lower Unit
  | some e => do assign expr place true target (← expr e)
  | none => pure ()

def stmtRule (s : Stmt) : Lower Unit := do
  let place ← placeOf s.place
  match s with
  | .discard _ e => do
    let _ ← expr e
  | .pass _ | .global _ _ | .nonlocal _ _ => pure ()
  | .assign _ targets v =>
    match parallel? targets v with
    | some (ts, vs) => do
      let values ← vs.mapM expr
      (ts.zip values).forM fun (t, o) => assign expr place false t o
    | none => do
      let o ← expr v
      targets.forM fun t => assign expr place (targets.length == 1) t o
  | .annAssign _ target hint v => do
    declareHint target hint
    assignAnnotated expr place target v
  | .augAssign _ target op v => augmented expr place op.sign v target
  | .ret _ v => do
    returnStep place (← optional expr v)
  | .branch _ test body orelse => do
    let condition ← expr test
    perform .branch "if" place [condition]
    branchStep stmt body orelse
  | .loop _ test body orelse => do
    let header ← newBlock "loop-header"
    edge (← current) header .fallThrough
    goTo header
    let condition ← expr test
    perform .branch "while" place [condition]
    loopBody stmt header false (pure ()) body orelse
  | .each _ target iter body orelse => do
    let iterable ← expr iter
    let trips ← tripCount iter
    let header ← newBlock "loop-header"
    edge (← current) header .fallThrough
    goTo header
    perform .branch "for" place [iterable]
    let bind : Lower Unit := do
      let item ← take "iter_next" place [iterable]
      assign expr place true target item
    loopBody stmt header trips.isSome bind body orelse
  | .leave _ => jumpStep "break" Loop.exit .leave place
  | .proceed _ => jumpStep "continue" Loop.header .proceed place
  | .check _ test message => do
    let t ← expr test
    match message with
    | some m => perform .other "assert" place [t, ← expr m]
    | none => perform .other "assert" place [t]
  | .raise _ exception cause => do
    raiseStep place (← (exception.toList ++ cause.toList).mapM expr)
  | .delete _ targets => targets.forM (delete expr place)
  | .manage _ entries body => do
    let opened ← managers expr place entries
    body.forM stmt
    opened.reverse.forM fun m => perform .other "exit" place [m]
  | .guarded _ _ body handlers orelse finalbody => guarded expr stmt body handlers orelse finalbody
  | .function _ _ name params _ _ _ => do
    let o ← closure expr "closure" "def" place params.allDefaults s.outline .function
      (some sizes.closure)
    store name o place true
  | .classDef _ name _ _ _ _ => do
    let o ← closure expr "class" "class" place [] s.outline .type none
    store name o place true
  | .importModules _ names =>
    names.forM fun n => do
      let first := Source.firstPart n.name
      let (name, module) :=
        match n.asName with
        | some other => (other, n.name)
        | none => (first, first)
      store name (.global n.name ((Image.module? module).getD .unresolved)) place true
  | .importFrom _ module names _ => do
    let image := (← read).image
    let from_ := module.getD ""
    names.forM fun n =>
      let found := (Image.module? from_).bind fun m => image.member? m n.name
      store (n.asName.getD n.name) (.global (from_ ++ "." ++ n.name) (found.getD .unresolved))
        place true
  | .asyncEach _ _ _ _ _ => refuse (.statement "AsyncFor" place)
  | .asyncManage _ _ _ => refuse (.statement "AsyncWith" place)
  | .choose _ _ _ => refuse (.statement "Match" place)

end StatementRules

/-- Lowers a statement; `room` is how much deeper it may nest. -/
def lowerStmt : Nat → Stmt → Lower Unit
  | 0, s => do
    let place ← placeOf s.place
    match unsupportedStmt? s with
    | some kind => refuse (.statement kind place)
    | none => tooDeep place
  | room + 1, s => stmtRule (lowerExpr room) (lowerStmt room) s

end Readiness.Lowering
