import Readiness.Image.Member
import Readiness.Image.Spelling

/-!
# Declared types

`functionHints?` and `classHints?` give the declared types by name, the result under
the name `return`; `declaredReturn?` the type set of the declared result.
-/

namespace Readiness.Image

/-- Names of the module, then of the language; members as attribute accesses give them. -/
def moduleScope (image : Image) : Spelling.Scope :=
  { name? := image.global?, member? := image.member? }

def classScope (image : Image) (c : Class) : Spelling.Scope :=
  { name? := fun name =>
      match image.globals.get? name with
      | some e => some e
      | none =>
        match c.members.get? name with
        | some e => some e
        | none => builtinEntity? name
    member? := image.member? }

mutual

def settle (refer : String → Option TypeExpr) : TypeExpr → Option TypeExpr
  | .forward s => refer s
  | .generic origin args => return .generic origin (← settleArgs refer args)
  | .named name origin args => return .named name origin (← settleAll refer args)
  | .bars members => do
    match ← settleAll refer members with
    | [] => none
    | first :: rest => rest.foldlM (fun a b => a.barred? b) first
  | .union members => do TypeExpr.namedUnion? (← settleAll refer members)
  | .annotated t metadata => return .annotated (← settle refer t) metadata
  | .list items => return .list (← settleAll refer items)
  | .applied "Literal" args => some (.applied "Literal" args)
  | .applied name args => return .applied name (← settleAll refer args)
  | t => some t

def settleAll (refer : String → Option TypeExpr) : List TypeExpr → Option (List TypeExpr)
  | [] => some []
  | t :: ts => return (← settle refer t) :: (← settleAll refer ts)

/-- Settles the arguments of a generic written by its class, where texts are references. -/
def settleArgs (refer : String → Option TypeExpr) : List TypeExpr → Option (List TypeExpr)
  | [] => some []
  | .text t :: ts => return (← refer t.string) :: (← settleArgs refer ts)
  | t :: ts => return (← settle refer t) :: (← settleArgs refer ts)

end

/-- The type that a text refers to; `room` bounds references inside referred texts. -/
def refer (scope : Spelling.Scope) (lenient : Bool) : Nat → String → Option TypeExpr
  | 0, _ => none
  | room + 1, s => do
    let spelling ← Spelling.read? s
    let t ← (← spelling.evaluate scope).toTypeExpr
    let converted ← if lenient then convertLenient t else t.argument?
    settle (refer scope lenient room) converted
where
  /-- The conversion for attributes of classes, which may use all special forms. -/
  convertLenient : TypeExpr → Option TypeExpr
    | .none => some TypeExpr.noneType
    | .text t => some (.forward t.string)
    | .form "Optional" | .form "Union" | .form "Literal" => none
    | t => some t

def settled (scope : Spelling.Scope) (lenient : Bool) (t : TypeExpr) : Option TypeExpr :=
  let find := refer scope lenient 16
  let start :=
    match t with
    | .none => some TypeExpr.noneType
    | .text t => find t.string
    | t => settle find t
  start.map TypeExpr.stripped

def rawHints (f : Function) : List (String × TypeExpr) :=
  (f.signature.params.filterMap fun p => p.hint.map fun t => (p.name, t))
    ++ (f.signature.returns.map fun t => ("return", t)).toList

def settleHints (scope : Spelling.Scope) (lenient : Bool) (raw : List (String × TypeExpr)) :
    Option (List (String × TypeExpr)) :=
  raw.mapM fun (name, t) => (settled scope lenient t).map fun t => (name, t)

def classHints? (image : Image) (c : ClassRef) : Option (Table String TypeExpr) := do
  let owners := (image.ancestors c).reverse
  let lists ← owners.mapM fun owner =>
    match owner with
    | .program p =>
      match image.class? p with
      | some info => settleHints (image.classScope info) true info.hints.entries
      | none => some []
    | _ => some []
  return Table.ofList lists.flatten

/-- The declared types of a callable by name, the result under `return`; `ask` gives those of a
function that is wrapped. -/
def hintsVia (image : Image) (ask : Entity → Option (Table String TypeExpr)) :
    Entity → Option (Table String TypeExpr)
  | .function id => do
    let f ← image.function? id
    match f.wrapped with
    | some inner => ask inner
    | none => return Table.ofList (← settleHints image.moduleScope false (rawHints f))
  | .library _ | .builtin _ | .module _ => some .empty
  | .method f _ | .cached f | .staticMethod f | .classMethod f => image.hintsVia ask f
  | .type (.cls c) => image.classHints? c
  | _ => none

def hintsWithin (image : Image) : Nat → Entity → Option (Table String TypeExpr)
  | 0, _ => none
  | room + 1, e => image.hintsVia (image.hintsWithin room) e

def hints? (image : Image) (e : Entity) : Option (Table String TypeExpr) :=
  image.hintsWithin (image.functions.size + 1) e

def declaredReturn? (image : Image) (e : Entity) : Option TypeSet := do
  let t ← (← image.hints? e).get? "return"
  if t.isResolvable then t.expand.toOption else none

end Readiness.Image
