import Readiness.Image.Ancestry
import Readiness.Image.Formed
import Readiness.Source.Printer

/-!
# Loading a program

`load` gives the image of the program, and `call` the result of calling one of its
functions.
-/

namespace Readiness.Image

open Source (Expr Stmt)

/-- Whether the file asks for declared types to be kept as texts. -/
def keepsHints (body : List Stmt) : Bool :=
  body.any fun s =>
    match s with
    | .importFrom _ (some "__future__") names _ => names.any fun n => n.name == "annotations"
    | _ => false

inductive Level
  | module
  /-- Outside the program, where some names stand for given values. -/
  | outside (name? : String → Option Entity)
  /-- In a call, with the names of its frame. -/
  | call (frame : Nat)
  /-- In a class body, whose names are kept in a frame of their own.  Functions defined there see
  the class itself, which is kept in a cell. -/
  | classBody (frame cell : Nat) (around : Option Nat)

structure Setting where
  level : Level
  /-- What stands before the qualified names of definitions. -/
  qualifier : String
  /-- Whether declared types are kept as texts. -/
  lateHints : Bool
  /-- The class whose private names are used. -/
  owner : Option String

def Setting.proper (setting : Setting) (name : String) : String :=
  Source.privateName setting.owner name

def Setting.frame (setting : Setting) : Option Nat :=
  match setting.level with
  | .module | .outside _ => none
  | .call f => some f
  | .classBody _ cell _ => some cell

structure Loading where
  image : Image
  /-- Declared types in the class body that is running. -/
  hints : Table String TypeExpr
  /-- The functions that stand for methods to be provided. -/
  abstracts : List Nat

abbrev Load := StateM Loading

def leadingText : List Stmt → Entity
  | .discard _ (.constant _ (.str s)) :: _ => .const (.str s)
  | _ => .none

def find? (image : Image) (setting : Setting) (name : String) : Option Entity :=
  let name := setting.proper name
  let enclosed (frame : Option Nat) : Option Entity :=
    match image.captured? frame name with
    | some value => value
    | none => image.global? name
  match setting.level with
  | .module => image.global? name
  | .outside name? => (name? name).or (image.global? name)
  | .call f => enclosed (some f)
  | .classBody f _ around =>
    match (image.frames[f]?).bind fun frame => frame.names.get? name with
    | some (some e) => some e
    | _ => enclosed around

def Loading.bind (state : Loading) (setting : Setting) (name : String) (value : Entity) :
    Loading :=
  let image := state.image
  let name := setting.proper name
  let inFrame (f : Nat) : Image :=
    { image with
      frames := image.frames.modify f fun frame =>
        { frame with names := frame.names.set name (some value) } }
  match setting.level with
  | .module => { state with image := { image with globals := image.globals.set name value } }
  | .outside _ => state
  | .call f | .classBody f _ _ => { state with image := inFrame f }

def addFunction (f : Function) : Load Entity := fun state =>
  (.function state.image.functions.size,
    { state with image := { state.image with functions := state.image.functions.push f } })

def freshMark : Load Nat := fun state =>
  (state.image.marks,
    { state with image := { state.image with marks := state.image.marks + 1 } })

def changeFunction (id : Nat) (change : Function → Function) : Load Unit := fun state =>
  ((), { state with
    image := { state.image with functions := state.image.functions.modify id change } })

def keptHint (setting : Setting) (e : Expr) (value : Entity) : TypeExpr :=
  let written := TypeExpr.text (e.render Source.Level.test.rank)
  if setting.lateHints then written else value.toTypeExpr.getD written

def parametersOf (setting : Setting) (params : Source.Params) (defaults : List Entity)
    (keywordDefaults : List (Option Entity)) (hints : List (Option TypeExpr)) : List Parameter :=
  match params with
  | .mk posonly positional variadic kwonly _ kwVariadic _ =>
    let name (p : Source.Param) : String :=
      match p with
      | .mk n _ => setting.proper n
    let plain := posonly.map (fun p => (p, ParamKind.positionalOnly))
      ++ positional.map (fun p => (p, ParamKind.positional))
    let required := plain.length - defaults.length
    let all := plain ++ (variadic.map fun p => (p, ParamKind.variadic)).toList
      ++ kwonly.map (fun p => (p, ParamKind.keywordOnly))
      ++ (kwVariadic.map fun p => (p, ParamKind.keywordVariadic)).toList
    let values : List (Option Entity) :=
      List.replicate required none ++ defaults.map some ++ (variadic.map fun _ => none).toList
        ++ keywordDefaults ++ [none]
    (all.zip (values.zip hints)).map fun ((p, kind), d, hint) => ⟨name p, kind, d, hint⟩

def boundArguments (named : List (String × Entity)) :
    List Parameter → List Entity → List (String × Option Entity)
  | [], _ => []
  | p :: ps, args =>
    let byName := ((named.find? fun n => n.1 == p.name).map Prod.snd).or p.default
    match p.kind with
    | .variadic => (p.name, some (Entity.ofTuple args)) :: boundArguments named ps []
    | .keywordVariadic =>
      let entries := named.map fun (n, e) => (Entity.const (.str n), e)
      (p.name, some (.dict entries)) :: boundArguments named ps args
    | .keywordOnly => (p.name, byName) :: boundArguments named ps args
    | _ =>
      match args with
      | [] => (p.name, byName) :: boundArguments named ps []
      | a :: rest => (p.name, some a) :: boundArguments named ps rest

def assignTarget (setting : Setting) (value : Entity) : Expr → Load Unit
  | .name _ id _ => modify fun s => s.bind setting id value
  | .tuple _ items | .list _ items => assignItems items (parts value)
  | _ => pure ()
where
  /-- The members of a sequence. -/
  parts : Entity → List Entity
    | .const (.tuple cs) | .const (.list cs) => cs.map .const
    | .tuple es | .list es => es
    | _ => []
  /-- Binds targets one by one. -/
  assignItems : List Expr → List Entity → Load Unit
    | .name _ id _ :: ts, v :: vs => do
      modify fun s => s.bind setting id v
      assignItems ts vs
    | _ :: ts, _ :: vs => assignItems ts vs
    | _, _ => pure ()

def importName (n : Source.ImportName) : String × Entity :=
  match n.asName with
  | some other => (other, (module? n.name).getD .unresolved)
  | none =>
    let first := Source.firstPart n.name
    (first, (module? first).getD .unresolved)

def importedFrom (module name : String) : Entity :=
  if module = "__future__" then .other (.library "__future__" "_Feature") ""
  else
    match moduleMember? module name with
    | some e => e
    | none => (module? (module ++ "." ++ name)).getD .unresolved

/-- What a callable passes on to its wrappers: its names, its text and its registered types. -/
def passedOn? (image : Image) : Entity → Option Function
  | .function id => image.function? id
  | .cached f | .staticMethod f | .classMethod f | .method f _ => image.passedOn? f
  | .type (.cls c) => some { (default : Function) with name := c.name, qualname := c.qualname }
  | _ => none

/-- The result of wrapping a callable: the wrapper takes over what the callable passes on. -/
def wrap (wrapper wrapped : Entity) : Load Entity := do
  match wrapper with
  | .function id =>
    match (← get).image.passedOn? wrapped with
    | some f =>
      changeFunction id fun g =>
        { g with
          name := f.name, qualname := f.qualname, doc := f.doc, wrapped := some wrapped
          registered := f.registered }
    | none => changeFunction id fun g => { g with wrapped := some wrapped }
    return wrapper
  | wrapper => return wrapper

def register (types : List TypeExpr) (target : Entity) : Load Entity := do
  let inner :=
    match target with
    | .staticMethod f | .classMethod f => f
    | e => e
  let plain :=
    match inner with
    | .cached f => f
    | e => e
  match plain with
  | .function id => changeFunction id fun f => { f with registered := types :: f.registered }
  | _ => pure ()
  return target

abbrev Outcome := Option Entity

mutual

def eval : Nat → Setting → Expr → Load Entity
  | 0, _, _ => return .unresolved
  | room + 1, setting, e => do
    match e with
    | .constant _ c => return .const c
    | .name _ id _ => return ((← get).image.find? setting id).getD .unresolved
    | .member _ v attr => do
      let base ← eval room setting v
      return ((← get).image.member? base (setting.proper attr)).getD .unresolved
    | .unary _ op v => return Entity.unary op.sign (← eval room setting v)
    | .binary _ l op r | .compare _ l [(op, r)] => do
      let left ← eval room setting l
      return Entity.binary op.sign left (← eval room setting r)
    | .boolean _ disjunction values =>
      return Entity.deciding disjunction (← values.mapM (eval room setting))
    | .conditional _ t b o => do
      if (← eval room setting t).truth then eval room setting b else eval room setting o
    | .subscript _ v i => do
      let base ← eval room setting v
      return Entity.subscripted base (← eval room setting i)
    | .named _ n _ v => do
      let value ← eval room setting v
      modify fun s => s.bind setting n value
      return value
    | .tuple _ items => return Entity.resolvedTuple (← items.mapM (eval room setting))
    | .list _ items => return Entity.resolvedList (← items.mapM (eval room setting))
    | .set _ items => do
      let parts := (← items.mapM (eval room setting)).map Entity.text
      return .other .set ("\x7b" ++ String.intercalate ", " parts ++ "\x7d")
    | .dict _ entries => do
      let pairs ← entries.mapM fun (k, v) => do
        let key ← match k with
          | some k => eval room setting k
          | none => pure Entity.none
        return (key, ← eval room setting v)
      return .dict pairs
    | .lambda place params body => do
      let parameters ← evalParams room setting params
      addFunction
        { name := "<lambda>", qualname := setting.qualifier ++ "<lambda>"
          signature := ⟨parameters, none⟩
          definition := .lambda place.line body
          isAsync := false, frame := setting.frame, owner := setting.owner
          wrapped := none, registered := [] }
    | .call _ f args keywords => do
      let callee ← eval room setting f
      let values ← args.mapM (eval room setting)
      let named ← keywords.filterMapM fun k => do
        match k with
        | .mk (some name) v => return some (name, ← eval room setting v)
        | .mk none _ => return none
      invoke room callee values named
    | _ => return .unresolved

def evalHint : Nat → Setting → Option Expr → Load (Option TypeExpr)
  | 0, _, _ | _, _, none => return none
  | room + 1, setting, some e => do
    let value ← if setting.lateHints then pure Entity.unresolved else eval room setting e
    return some (keptHint setting e value)

def evalParams : Nat → Setting → Source.Params → Load (List Parameter)
  | 0, _, _ => return []
  | room + 1, setting, params => do
    match params with
    | .mk posonly positional variadic kwonly keywordDefaults kwVariadic defaults => do
      let values ← defaults.mapM (eval room setting)
      let keywordValues ← keywordDefaults.mapM fun d =>
        match d with
        | some e => do return some (← eval room setting e)
        | none => return none
      let all := posonly ++ positional ++ variadic.toList ++ kwonly ++ kwVariadic.toList
      let hints ← all.mapM fun p =>
        match p with
        | .mk _ h => evalHint room setting h
      return parametersOf setting params values keywordValues hints

/-- The result of a call with arguments by position and by name. -/
def invoke : Nat → Entity → List Entity → List (String × Entity) → Load Entity
  | 0, _, _, _ => return .unresolved
  | room + 1, callee, args, named => do
    match callee with
    | .function id =>
      match (← get).image.function? id with
      | none => return .unresolved
      | some f => enter room f args named
    | .type (.cls (.library "typing" "TypeVar")) =>
      match args with
      | .const (.str name) :: _ => return .type (.param name.string [← freshMark])
      | _ => return .unresolved
    | .type (.cls (.builtin "staticmethod")) => return .staticMethod (args.headD .unresolved)
    | .type (.cls (.builtin "classmethod")) => return .classMethod (args.headD .unresolved)
    | .type (.cls (.builtin "property")) => return .property (args.headD .unresolved)
    | .type (.cls c) => do
      modify fun s => { s with image := s.image.settleInitialiser c }
      return .instance c (← freshMark)
    | .library "abc.abstractmethod" =>
      match args with
      | .function id :: _ => do
        modify fun s => { s with abstracts := id :: s.abstracts }
        return .function id
      | e :: _ => return e
      | [] => return .unresolved
    | .library "dataclasses.dataclass" =>
      match args with
      | .type (.cls (.program ref)) :: _ => do
        modify fun s =>
          { s with image := s.image.withFields (Generation.ofValues named) ref }
        return .cls (.program ref)
      | _ =>
        let choices := named.map fun (n, e) => (Entity.const (.str n), e)
        return .method callee (.dict choices)
    | .method (.library "dataclasses.dataclass") (.dict choices) =>
      let named := choices.filterMap fun (n, e) =>
        match n with
        | .const (.str name) => some (name.string, e)
        | _ => none
      invoke room (.library "dataclasses.dataclass") args named
    | .library "functools.lru_cache" =>
      match args with
      | .const _ :: _ => return callee
      | e :: _ => return .cached e
      | [] => return callee
    | .library "functools.wraps" =>
      return .method (.library "functools.wraps") (args.headD .unresolved)
    | .method (.library "functools.wraps") wrapped =>
      wrap (args.headD .unresolved) wrapped
    | .library "analyzable" => return .method (.library "analyzable") (.tuple args)
    | .method (.library "analyzable") (.tuple types) =>
      register (types.filterMap Entity.toTypeExpr) (args.headD .unresolved)
    | _ => return .unresolved

def enter : Nat → Function → List Entity → List (String × Entity) → Load Entity
  | 0, _, _, _ => return .unresolved
  | room + 1, f, args, named => do
    let state ← get
    let frame := state.image.frames.size
    let given := boundArguments named f.signature.params args
    let setting : Setting :=
      { level := .call frame, qualifier := f.qualname ++ ".<locals>."
        lateHints := keepsHints state.image.body, owner := f.owner }
    match f.definition with
    | .function _ body =>
      let locals := ((Source.stored (Source.bodyOutlines body)).map setting.proper).filter fun n =>
        !given.any (·.1 == n)
      let names : Table String (Option Entity) :=
        Table.ofList (given ++ locals.map fun n => (n, none))
      set { state with
        image := { state.image with frames := state.image.frames.push ⟨f.frame, names⟩ } }
      return (← run room setting body).getD .none
    | .lambda _ body =>
      set { state with
        image := { state.image with
          frames := state.image.frames.push ⟨f.frame, Table.ofList given⟩ } }
      eval room setting body
    | .generated => return .none

def run : Nat → Setting → List Stmt → Load Outcome
  | 0, _, _ | _, _, [] => return none
  | room + 1, setting, s :: rest => do
    match ← step room setting s with
    | some value => return some value
    | none => run room setting rest

def step : Nat → Setting → Stmt → Load Outcome
  | 0, _, _ => return none
  | room + 1, setting, s => do
    match s with
    | .ret _ value =>
      match value with
      | some e => return some (← eval room setting e)
      | none => return some .none
    | .assign _ targets value => do
      let v ← eval room setting value
      targets.forM (assignTarget setting v)
      return none
    | .annAssign _ target hint value => do
      match value with
      | some e => do
        let v ← eval room setting e
        assignTarget setting v target
      | none => pure ()
      match target with
      | .name _ id _ =>
        match ← evalHint room setting (some hint) with
        | some t => modify fun s => { s with hints := s.hints.set (setting.proper id) t }
        | none => pure ()
      | _ => pure ()
      return none
    | .importModules _ names => do
      names.forM fun n =>
        let (name, value) := importName n
        modify fun s => s.bind setting name value
      return none
    | .importFrom _ module names _ => do
      names.forM fun n =>
        modify fun s =>
          s.bind setting (n.asName.getD n.name) (importedFrom (module.getD "") n.name)
      return none
    | .discard _ _ => return none
    | .function place isAsync name params body decorators returns => do
      let heads ← decorators.mapM (eval room setting)
      let parameters ← evalParams room setting params
      let returns ← evalHint room setting returns
      let first := (decorators.map fun d => d.place.line).foldl min place.line
      let made ← addFunction
        { name, qualname := setting.qualifier ++ name
          signature := ⟨parameters, returns⟩
          definition := .function first body, doc := leadingText body
          isAsync, frame := setting.frame, owner := setting.owner
          wrapped := none, registered := [] }
      let value ← decorate room heads.reverse made
      modify fun s => s.bind setting name value
      return none
    | .classDef _ name bases _ body decorators => do
      let heads ← decorators.mapM (eval room setting)
      let parents := (← bases.mapM (eval room setting)).filterMap Entity.class?
      let before ← get
      let frame := before.image.frames.size
      let cell := frame + 1
      let around := setting.frame
      let kept : Frame := ⟨around, Table.empty.set "__class__" none⟩
      set { before with
        image := { before.image with frames := (before.image.frames.push default).push kept }
        hints := .empty }
      let inner : Setting :=
        { setting with
          level := .classBody frame cell around
          qualifier := setting.qualifier ++ name ++ "."
          owner := some name }
      let _ ← run room inner body
      let after ← get
      let names := ((after.image.frames[frame]?).map Frame.names).getD .empty
      let doc : List (String × Entity) :=
        match leadingText body with
        | .none => []
        | e => [("__doc__", e)]
      let members : Table String Entity :=
        Table.ofList (doc ++ names.entries.filterMap fun (n, e) => e.map fun e => (n, e))
      let made := after.image.assemble (setting.qualifier ++ name) parents members after.hints
        after.abstracts
      let filled := after.image.frames.modify cell fun f =>
        { f with names := f.names.set "__class__" (some (.cls (.program made.ref))) }
      set { after with
        image :=
          { after.image with
            classes := after.image.classes.push made, frames := filled }
        hints := before.hints }
      let value ← decorate room heads.reverse (.cls (.program made.ref))
      modify fun s => s.bind setting name value
      return none
    | _ => return none

def decorate : Nat → List Entity → Entity → Load Entity
  | 0, _, e | _, [], e => return e
  | room + 1, d :: ds, e => do
    let next ← invoke room d [e] []
    decorate room ds next

end

def startingNames : Table String Entity :=
  Table.ofList
    [("__name__", .const (.str "prog")), ("__doc__", .none), ("__package__", .none),
      ("__loader__", .none), ("__spec__", .none), ("analyzable", .library "analyzable"),
      ("__builtins__", .dict [])]

def roomFor (body : List Stmt) : Nat := 4 * (Source.sizes (Source.bodyOutlines body) + 16)

def load (body : List Stmt) : Image :=
  let start : Loading :=
    { image := { Image.empty with globals := startingNames, body }
      hints := .empty, abstracts := [] }
  let setting : Setting :=
    { level := .module, qualifier := "", lateHints := keepsHints body, owner := none }
  let (_, state) := (run (roomFor body) setting body).run start
  state.image

def call (image : Image) (callee : Entity) (args : List Entity) : Entity × Image :=
  let start : Loading := { image, hints := .empty, abstracts := [] }
  let (value, state) := (invoke (roomFor image.body) callee args []).run start
  (value, state.image)

/-- The value of an expression outside the program, where some names stand for given values. -/
def evaluated (image : Image) (name? : String → Option Entity) (e : Expr) : Entity :=
  let start : Loading := { image, hints := .empty, abstracts := [] }
  let setting : Setting :=
    { level := .outside name?, qualifier := "", lateHints := false, owner := none }
  ((eval (roomFor image.body) setting e).run start).1

end Readiness.Image
