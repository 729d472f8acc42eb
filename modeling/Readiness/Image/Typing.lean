import Readiness.Image.Hints
import Readiness.Types.Rules

/-!
# Types of operators, calls and attributes

`binary`, `unary`, `builtinCall?`, `methodCall` and `attributeOf` type one operation
each.
-/

namespace Readiness.Image

def operatorMethod? : String → Option String
  | "+" => some "__add__"
  | "-" => some "__sub__"
  | "*" => some "__mul__"
  | "/" => some "__truediv__"
  | "//" => some "__floordiv__"
  | "%" => some "__mod__"
  | "**" => some "__pow__"
  | "@" => some "__matmul__"
  | "<<" => some "__lshift__"
  | ">>" => some "__rshift__"
  | "&" => some "__and__"
  | "|" => some "__or__"
  | "^" => some "__xor__"
  | "==" => some "__eq__"
  | "!=" => some "__ne__"
  | "<" => some "__lt__"
  | "<=" => some "__le__"
  | ">" => some "__gt__"
  | ">=" => some "__ge__"
  | "in" | "not in" => some "__contains__"
  | "neg" => some "__neg__"
  | "pos" => some "__pos__"
  | "~" => some "__invert__"
  | "[]" => some "__getitem__"
  | _ => none

variable (image : Image)

def operatorReturn? (t : TypeExpr) (sign : String) : Option TypeSet := do
  let method ← operatorMethod? sign
  let found ← image.resolve? (← t.origin?) method
  if found.isFunction then image.declaredReturn? found else none

def binary (sign : String) (left right : TypeSet) : TypeSet :=
  if TypeSet.isComparison sign then TypeSet.ofClass .bool
  else
    match left.known?, right.known? with
    | some l, some r =>
      match TypeSet.arithmetic? sign l r with
      | some ts => ts
      | none => (image.operatorReturn? l sign).getD TypeSet.unknown
    | _, _ => TypeSet.unknown

def unary (sign : String) (operand : TypeSet) : TypeSet :=
  if sign = "not" then TypeSet.ofClass .bool
  else
    match operand.known? with
    | none => TypeSet.unknown
    | some t =>
      match TypeSet.rank? t with
      | some rank =>
        if sign = "~" ∧ 1 < rank then TypeSet.unknown
        else TypeSet.ofClass (TypeSet.ofRank (max rank 1))
      | none => (image.operatorReturn? t sign).getD TypeSet.unknown

def fixedResult? : Entity → Option ClassRef
  | .type (.cls (.builtin name)) =>
    if ["int", "float", "str", "bool", "range", "complex", "bytes"].contains name then
      some (.builtin name)
    else none
  | .builtin name =>
    if ["len", "ord", "hash", "id", "round", "math.floor", "math.ceil"].contains name then
      some .int
    else if ["repr", "chr", "hex", "oct", "bin", "format"].contains name then some .str
    else if ["isinstance", "issubclass", "callable", "math.isclose", "math.isnan",
        "math.isinf"].contains name then some .bool
    else if ["math.sqrt", "math.exp", "math.log", "math.sin", "math.cos", "math.tan",
        "math.fabs", "math.hypot", "math.atan2", "math.pow"].contains name then some .float
    else if name = "print" then some .noneType
    else if name = "sorted" then some .list
    else none
  | _ => none

def builtinCall? (callee : Entity) (args : List TypeSet) : Option TypeSet :=
  let fixed := (fixedResult? callee).map TypeSet.ofClass
  match callee, args with
  | .builtin "abs", a :: _ =>
    (a.known?.bind TypeSet.rank?).map fun rank =>
      TypeSet.ofClass (if rank = 3 then .float else TypeSet.ofRank (max rank 1))
  | .builtin "min", [a] | .builtin "max", [a] => some (TypeSet.element a)
  | .builtin "min", a :: as | .builtin "max", a :: as => some (TypeSet.joinAll (a :: as))
  | .type (.cls (.builtin "enumerate")), a :: _ =>
    match (TypeSet.element a).definite? with
    | some t => some (TypeSet.ofGeneric (.builtin "enumerate") [t])
    | none => some (TypeSet.ofClass (.builtin "enumerate"))
  | .type (.cls (.builtin "zip")), a :: as =>
    match (a :: as).mapM fun s => (TypeSet.element s).definite? with
    | some ts => some (TypeSet.ofGeneric (.builtin "zip") [.generic .tuple ts])
    | none => some (TypeSet.ofClass (.builtin "zip"))
  | .builtin "sorted", a :: _ =>
    match (TypeSet.element a).definite? with
    | some t => some (TypeSet.ofGeneric .list [t])
    | none => some (TypeSet.ofClass .list)
  | .builtin "sum", a :: _ =>
    let members := TypeSet.element a
    some (if members.isUnknown then TypeSet.ofClass .int else members)
  | _, _ => fixed

def isBuiltinCallable : Entity → Bool
  | .builtin _ => true
  | .type (.cls (.builtin name)) => builtinClasses.contains name
  | .type (.cls (.library "_frozen_importlib" "BuiltinImporter")) | .const .none
  | .const .ellipsis | .const (.bool _) => true
  | .const (.str s) => s == "builtins" || s.isEmpty
  | .other (.builtin "NotImplementedType") _ | .other (.library "_sitebuiltins" _) _
  | .other (.library "_frozen_importlib" "ModuleSpec") _ => true
  | _ => false

def textMethod? (name : String) : Option ClassRef :=
  if ["upper", "lower", "strip", "lstrip", "rstrip", "replace", "join", "format", "title",
      "capitalize"].contains name then some .str
  else if ["startswith", "endswith", "isdigit", "isalpha"].contains name then some .bool
  else if ["find", "rfind", "index", "count"].contains name then some .int
  else if name = "encode" then some .bytes
  else none

def listMethod? (name : String) : Option ClassRef :=
  if ["append", "extend", "insert", "clear", "sort", "reverse", "remove"].contains name then
    some .noneType
  else if ["index", "count"].contains name then some .int
  else none

def dictMethod? (name : String) : Option ClassRef :=
  if ["clear", "update"].contains name then some .noneType else none

def setMethod? (name : String) : Option ClassRef :=
  if ["add", "discard", "clear", "update", "remove"].contains name then some .noneType else none

def resultOf (c : Option ClassRef) : TypeSet := (c.map TypeSet.ofClass).getD TypeSet.unknown

def dictView? (key value : TypeExpr) : String → Option TypeSet
  | "get" => some (TypeSet.ofList [value, TypeExpr.noneType])
  | "pop" => some [value]
  | "keys" => some (TypeSet.ofGeneric (.builtin "dict_keys") [key])
  | "values" => some (TypeSet.ofGeneric (.builtin "dict_values") [value])
  | "items" => some (TypeSet.ofGeneric (.builtin "dict_items") [.generic .tuple [key, value]])
  | _ => none

def isScalar : ClassRef → Bool
  | .builtin n => ["bool", "int", "float", "complex", "str", "bytes", "NoneType"].contains n
  | _ => false

def underlying : Entity → Entity
  | .staticMethod f | .classMethod f => f
  | e => e

def methodCall (receiver : TypeSet) (name : String) : TypeSet :=
  match receiver.known? with
  | none => TypeSet.unknown
  | some t =>
    match t.origin? with
    | none => TypeSet.unknown
    | some .str =>
      if ["split", "rsplit", "splitlines"].contains name then
        TypeSet.ofGeneric .list [.cls .str]
      else resultOf (textMethod? name)
    | some .list =>
      match name, t.arguments with
      | "pop", a :: _ => [a]
      | "copy", _ => [t]
      | name, _ => resultOf (listMethod? name)
    | some .dict =>
      let viewed :=
        match t.arguments with
        | [k, v] => dictView? k v name
        | _ => none
      match viewed with
      | some ts => ts
      | none => if name = "copy" then [t] else resultOf (dictMethod? name)
    | some .set | some .frozenset => if name = "copy" then [t] else resultOf (setMethod? name)
    | some origin =>
      if isScalar origin then TypeSet.unknown
      else
        match image.resolve? origin name with
        | some found =>
          let f := underlying found
          if f.isFunction then (image.declaredReturn? f).getD TypeSet.unknown
          else TypeSet.unknown
        | none => TypeSet.unknown

/-- Whether a stored value takes part in attribute access: such values have no fixed type. -/
def isDescriptor : Entity → Bool
  | .function _ | .library _ | .staticMethod _ | .classMethod _ | .property _ | .cached _
  | .method _ _ => true
  | .builtin _ => false
  | .type (.cls c) | .instance c _ | .enumerator c _ _ => (image.stored? c "__get__").isSome
  | .described _ _ _ | .other (.library "types" "DynamicClassAttribute") _
  | .other (.library "enum" "property") _ => true
  | _ => false

def isCallable : Entity → Bool
  | .function _ | .library _ | .builtin _ | .method _ _ | .staticMethod _ | .cached _ => true
  | .type t =>
    match t with
    | .bars _ | .text _ | .list _ | .param _ _ => false
    | _ => true
  | .instance c _ | .enumerator c _ _ => (image.stored? c "__call__").isSome
  | .described kind _ _ => kind != "getset_descriptor" && kind != "member_descriptor"
  | .other (.builtin kind) _ => kind == "method-wrapper"
  | _ => false

def attributeOf (ts : TypeSet) (name : Option String) : TypeSet :=
  match ts.known?, name with
  | some t, some name =>
    match t.origin? with
    | none => TypeSet.unknown
    | some origin =>
      if (name = "real" ∨ name = "imag")
          ∧ [ClassRef.int, .float, .bool, .complex].contains origin then
        TypeSet.ofClass
          (if origin = .bool then .int else if origin = .complex then .float else origin)
      else if origin.isBuiltin then TypeSet.unknown
      else
        let declared :=
          match (image.classHints? origin).bind fun hints => hints.get? name with
          | some t => if t.isResolvable then t.expand.toOption else none
          | none => none
        match declared with
        | some ts => ts
        | none =>
          match image.resolve? origin name with
          | none => TypeSet.unknown
          | some (.property getter) =>
            (image.declaredReturn? getter).getD TypeSet.unknown
          | some found =>
            if found.isFunction then TypeSet.ofClass .method
            else if image.isDescriptor found then TypeSet.unknown
            else TypeSet.ofClass found.classOf
  | _, _ => TypeSet.unknown

end Readiness.Image
