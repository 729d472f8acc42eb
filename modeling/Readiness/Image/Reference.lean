import Readiness.Const.Document
import Readiness.Image.Loading

/-!
# References to a program

A request points into a program by name.  A dotted name starts at a global, a builtin, one of a few
classes without a name of their own, or a module; the rest are members.  Types are written as names
with arguments, callables as names or as the result of a call.

`Image.dotted`, `Image.typeOfJson` and `Image.callableOfJson` resolve references or
say what is missing.
-/

namespace Readiness

inductive ReferenceFault
  | unknownName
  | noMember
  | noEntry
  | notType
  deriving Repr, DecidableEq

namespace Image

open Json (exactText field item items text)

def namedClass? : String → Option ClassRef
  | "NoneType" => some .noneType
  | "RawPointer" => some .rawPointer
  | "function" => some .function
  | "generator" => some .generator
  | "method" => some .method
  | "module" => some .module
  | "dict_keys" => some (.builtin "dict_keys")
  | "dict_values" => some (.builtin "dict_values")
  | "dict_items" => some (.builtin "dict_items")
  | _ => none

def namedModules : List String :=
  ["typing", "numbers", "collections", "math", "abc", "io", "os", "enum", "types"]

variable (image : Image)

def startOf (name : String) : Except ReferenceFault Entity :=
  match image.global? name, namedClass? name with
  | some e, _ => .ok e
  | none, some c => .ok (.cls c)
  | none, none => if namedModules.contains name then .ok (.module name) else .error .unknownName

def dotted (name : String) : Except ReferenceFault Entity :=
  match name.splitOn "." with
  | [] => .error .unknownName
  | first :: rest => do
    rest.foldlM (fun e part => ((image.member? e part).map .ok).getD (.error .noMember))
      (← image.startOf first)

def typeOr : Option TypeExpr → Except ReferenceFault TypeExpr
  | some t => .ok t
  | none => .error .notType

def formed : Except TypeExpr.Malformed TypeExpr → Except ReferenceFault TypeExpr
  | .ok t => .ok t
  | .error .refused => .error .notType
  | .error .featureless => .error .noMember

def unionWord : Text := "|"

def joined? : List TypeExpr → Option TypeExpr
  | [] => none
  | t :: ts =>
    (ts.foldl (fun e t => Entity.binary "|" e (.ofTypeExpr t)) (.ofTypeExpr t)).toTypeExpr

def applied? : List TypeExpr → Option TypeExpr
  | .cls c :: args => some (.generic c args)
  | _ => none

/-- The type that an object with one member stands for, where `mark` tells it apart from others and
`inner` reads the types inside. -/
def typeOfMember (mark : List Nat) (key : String) (j : Json)
    (inner : Json → Except ReferenceFault (List TypeExpr)) : Except ReferenceFault TypeExpr :=
  match key with
  | "str" => .ok (.text (exactText j))
  | "typevar" => .ok (.param (text j) mark)
  | "forward" => .ok (.forward (text j))
  | "value" => typeOr (Entity.const (Const.ofJson j)).toTypeExpr
  | "list" => do return .list (← inner j)
  | "alias" => do typeOr (applied? (← inner j))
  | _ => .error .notType

def withArguments (head : TypeExpr) (args : List TypeExpr) :
    Except ReferenceFault TypeExpr :=
  match head with
  | .cls c =>
    if c.metaclass = .library "enum" "EnumType" then
      match args with
      | [.text name] =>
        match image.ownMember? c name.string with
        | some (.enumerator d n e) => typeOr (Entity.enumerator d n e).toTypeExpr
        | _ => .error .noEntry
      | args => if TypeExpr.allHashable args then .error .noEntry else .error .notType
    else formed (head.subscripted args)
  | head => formed (head.subscripted args)

/-- Reads a type expression of at most the given depth that stands at a place of the request. -/
def typeAt : Nat → List Nat → Json → Except ReferenceFault TypeExpr
  | _, _, .null => .ok .none
  | _, _, .str name =>
    if name.string = "..." then .ok .ellipsis
    else do typeOr (← image.dotted name.string).toTypeExpr
  | n + 1, place, .arr (head :: rest) => do
    let inside (l : List Json) : Except ReferenceFault (List TypeExpr) :=
      l.zipIdx.mapM fun (j, i) => typeAt n (place ++ [i + 1]) j
    if head.text? = some unionWord then typeOr (joined? (← inside rest))
    else
      let head ← typeAt n (place ++ [0]) head
      image.withArguments head (← inside rest)
  | n + 1, place, .obj [(key, j)] =>
    typeOfMember place key.string j fun j =>
      (items j).zipIdx.mapM fun (j, i) => typeAt n (place ++ [i]) j
  | _, _, _ => .error .notType

def typeOfJson (place : List Nat) (j : Json) : Except ReferenceFault TypeExpr :=
  image.typeAt j.depth (0 :: place) j

def typesOfJson (place : List Nat) (j : Json) :
    Except ReferenceFault (List TypeExpr) :=
  (items j).zipIdx.mapM fun (j, i) => image.typeOfJson (place ++ [i]) j

def typeSetOfJson (place : List Nat) (j : Json) :
    Except ReferenceFault TypeSet := do
  let ts ← image.typesOfJson place j
  if TypeExpr.allHashable ts then return TypeSet.ofList ts else throw .notType

/-- Reads a callable: by name, as the result of a call, as an entry of a class, or as a constant.
The image comes back because a call can add to it. -/
def callableOfJson (j : Json) : Except ReferenceFault (Entity × Image) :=
  match j with
  | .str name => do return (← image.dotted name.string, image)
  | j =>
    match j.get? "closure", j.get? "raw", j.get? "value" with
    | some make, _, _ => do
      let maker ← image.dotted (text make)
      return image.call maker ((items (field j "args")).mapIdx fun i c =>
        .const (Const.placed 0 i (Const.ofJson c)))
    | _, some path, _ => do
      match ← image.dotted (text (item path 0)) with
      | .type (.cls c) =>
        match image.ownMember? c (text (item path 1)) with
        | some e => return (e, image)
        | none => throw .noEntry
      | _ => throw .notType
    | _, _, some c => .ok (.const (Const.ofJson c), image)
    | _, _, _ => .error .noMember

end Image
end Readiness
