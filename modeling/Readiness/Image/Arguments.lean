import Readiness.Lowering.Refusal

/-!
# Binding argument types

`boundTypes` gives every parameter its type: a given one or that of its default.
`callTypes?` gives the types for the positional parameters of a call, and `declaredTypes?` those
that the declarations of a callable ask for.
-/

namespace Readiness.Image

def defaultType (e : Entity) : TypeExpr := .cls e.classOf

def bindPositional : List Parameter → List TypeExpr → List (String × TypeExpr)
  | [], _ => []
  | p :: ps, t :: ts => (p.name, t) :: bindPositional ps ts
  | p :: ps, [] => (p.name, (p.default.map defaultType).getD TypeExpr.noneType) :: bindPositional ps []

def bindKeywordOnly : List Parameter → Except Unavailable (List (String × TypeExpr))
  | [] => .ok []
  | p :: ps =>
    match p.default with
    | none => .error (.keywordOnly p.name)
    | some d => return (p.name, defaultType d) :: (← bindKeywordOnly ps)

def boundTypes (image : Image) (callee : Entity) (args : List TypeExpr) :
    Except Unavailable (List (String × TypeExpr)) :=
  match image.signature callee with
  | .error fault => .error (.noSignature fault)
  | .ok signature =>
    match signature.params.find? Parameter.isVariadic with
    | some p => .error (.variadic p.name)
    | none => do
      let positional := signature.params.filter Parameter.isPositional
      let required := (positional.filter fun p => p.default.isNone).length
      if args.length < required ∨ positional.length < args.length then
        throw (.arity args.length signature)
      let rest ← bindKeywordOnly (signature.params.filter fun p => p.kind == .keywordOnly)
      return bindPositional positional args ++ rest

def fillFrom (keywords : Table String TypeExpr) :
    List Parameter → Option (List TypeExpr × Table String TypeExpr)
  | [] => some ([], keywords)
  | p :: ps =>
    match keywords.get? p.name with
    | some t => do
      let (ts, left) ← fillFrom (keywords.erase p.name) ps
      return (t :: ts, left)
    | none =>
      match p.default with
      | some d => do
        let (ts, left) ← fillFrom keywords ps
        return (defaultType d :: ts, left)
      | none => none

/-- The types for the positional parameters of a call; none when the call cannot bind. -/
def callTypes? (image : Image) (callee : Entity) (positional : List TypeExpr)
    (keywords : Table String TypeExpr) : Option (List TypeExpr) := do
  let signature ← (image.signature callee).toOption
  let params := signature.params.filter Parameter.isPositional
  if signature.params.any Parameter.isVariadic || params.length < positional.length then none
  else
    let (rest, left) ← fillFrom keywords (params.drop positional.length)
    if left.size = 0 then some (positional ++ rest) else none

/-- The declared types of the parameters without default; none unless all of them are declared by
real types and can be given by position. -/
def requiredTypes (hints : Table String TypeExpr) : List Parameter → Option (List TypeExpr)
  | [] => some []
  | p :: ps =>
    if p.isVariadic then none
    else if p.default.isSome then requiredTypes hints ps
    else if p.kind == .keywordOnly then none
    else do
      let t ← hints.get? p.name
      if t.isResolvable then return t :: (← requiredTypes hints ps) else none

def declaredTypes? (image : Image) (callee : Entity) (skipFirst : Bool) :
    Option (List TypeExpr) := do
  let signature ← (image.signature callee).toOption
  let hints ← image.hints? callee
  requiredTypes hints (if skipFirst then signature.params.drop 1 else signature.params)

end Readiness.Image
