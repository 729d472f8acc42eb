import Readiness.Image.Arguments

/-!
# Targets

A target is a callable with argument types.  Its label is shown, its key also names
the module.  Two targets are the same when the callable is the same and the types agree.
-/

namespace Readiness

structure Target where
  callable : Entity
  args : List TypeExpr

namespace Target

def same (a b : Target) : Bool :=
  Entity.same a.callable b.callable && TypeExpr.sameAll a.args b.args

/-- Whether a target can be looked up: its callable and its types can be members of a set. -/
def isHashable (t : Target) : Bool := t.callable.isHashable && TypeExpr.allHashable t.args

structure Identity where
  name : String
  qualname : String
  module : Option String

/-- The identity of a callable, that of the function behind its wrappers. -/
def identityOf (image : Image) : Entity → Identity
  | .function id =>
    match image.function? id with
    | some f => ⟨f.name, f.qualname, some "prog"⟩
    | none => ⟨"", "", none⟩
  | .builtin name =>
    let short := ClassRef.lastPart name
    if name.startsWith "math." then ⟨short, short, some "math"⟩
    else if name.startsWith "os." then ⟨short, short, some "posix"⟩
    else ⟨short, name, if short = name then some "builtins" else none⟩
  | .library name =>
    let short := ClassRef.lastPart name
    let module := String.ofList (name.toList.take (name.length - short.length - 1))
    ⟨short, short, some (if module = "os.path" then "posixpath" else module)⟩
  | .type (.cls c) => ⟨c.name, c.qualname, some c.moduleName⟩
  | .method f _ | .staticMethod f | .classMethod f | .cached f => identityOf image f
  | e@(.enumerator c _ _) | e@(.instance c _) => ⟨e.text, e.text, some c.moduleName⟩
  | .described _ owner name => ⟨name, owner.qualname ++ "." ++ name, none⟩
  | .module name => ⟨name, name, none⟩
  | e => ⟨e.text, e.text, none⟩

def identity (image : Image) (t : Target) : Identity := identityOf image t.callable

def label (image : Image) (t : Target) : Except TypeFault String := do
  let names ← t.args.mapM TypeExpr.labelName
  return (t.identity image).qualname ++ "(" ++ String.intercalate ", " names ++ ")"

/-- Why a target has no label. -/
def labelFault? (image : Image) (t : Target) : Option TypeFault :=
  match t.label image with
  | .ok _ => none
  | .error e => some e

def key (image : Image) (t : Target) : Except TypeFault String := do
  let label ← t.label image
  let module := ((t.identity image).module).getD ""
  return (if module.isEmpty then "<unknown>" else module) ++ ":" ++ label

end Target
end Readiness
