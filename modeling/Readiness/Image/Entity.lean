import Readiness.Types.TypeSet

/-!
# Entities

An entity is a value that a name of the program stands for when the program has been
loaded.  Functions of the program are referred to by their number in the image.  `classOf` is the
class of an entity.
-/

namespace Readiness

inductive Entity
  /-- The value of a name that does not resolve. -/
  | unresolved
  | const (c : Const)
  /-- A tuple with members that are no constants. -/
  | tuple (items : List Entity)
  /-- A list with members that are no constants. -/
  | list (items : List Entity)
  | dict (entries : List (Entity × Entity))
  /-- A class or another type expression. -/
  | type (t : TypeExpr)
  /-- A function of the program, by its number. -/
  | function (id : Nat)
  /-- A compiled function of the language or its library, by its dotted name. -/
  | builtin (name : String)
  /-- A library function that is written in the language, by its dotted name. -/
  | library (name : String)
  /-- A function bound to its first argument. -/
  | method (function owner : Entity)
  | staticMethod (function : Entity)
  | classMethod (function : Entity)
  | property (getter : Entity)
  /-- A function behind a cache of its results. -/
  | cached (function : Entity)
  | module (name : String)
  /-- An instance of a class; instances that were made apart have different marks. -/
  | instance (c : ClassRef) (mark : Nat)
  /-- A member of an enumeration with its name and value. -/
  | enumerator (c : ClassRef) (name : String) (value : Entity)
  /-- A member that a class provides for its instances: its kind, the class and its name. -/
  | described (kind : String) (owner : ClassRef) (name : String)
  /-- A value of which only the class and, where it is shown, the text matter. -/
  | other (c : ClassRef) (shown : String)
  deriving Inhabited

namespace Entity

@[match_pattern] abbrev none : Entity := .const .none

@[match_pattern] abbrev cls (c : ClassRef) : Entity := .type (.cls c)

def typeClass : TypeExpr → ClassRef
  | .none => .noneType
  | .ellipsis => .builtin "ellipsis"
  | .cls c => c.metaclass
  | .generic _ _ => .library "types" "GenericAlias"
  | .named name _ _ =>
    .library "typing" (if name = "Callable" then "_CallableGenericAlias" else "_GenericAlias")
  | .bare name _ =>
    .library "typing"
      (if name = "Callable" then "_CallableType"
       else if name = "Tuple" then "_TupleType"
       else "_SpecialGenericAlias")
  | .bars _ => .library "types" "UnionType"
  | .union _ => .library "typing" "_UnionGenericAlias"
  | .param _ _ => .library "typing" "TypeVar"
  | .text _ => .str
  | .forward _ => .library "typing" "ForwardRef"
  | .form name =>
    .library "typing" (if name = "Literal" then "_LiteralSpecialForm" else "_SpecialForm")
  | .applied name _ =>
    .library "typing" (if name = "Literal" then "_LiteralGenericAlias" else "_GenericAlias")
  | .annotated _ _ => .library "typing" "_AnnotatedAlias"
  | .list _ => .list
  | .value c => .builtin c.kind
  | .other kind _ => kind

def classOf : Entity → ClassRef
  | unresolved => .object
  | const c => .builtin c.kind
  | tuple _ => .tuple
  | list _ => .list
  | dict _ => .dict
  | type t => typeClass t
  | function _ => .function
  | builtin _ => .builtin "builtin_function_or_method"
  | library _ => .function
  | method _ _ => .method
  | staticMethod _ => .builtin "staticmethod"
  | classMethod _ => .builtin "classmethod"
  | property _ => .builtin "property"
  | cached _ => .library "functools" "_lru_cache_wrapper"
  | module _ => .module
  | .instance c _ | enumerator c _ _ => c
  | described kind _ _ => .builtin kind
  | other c _ => c

def class? : Entity → Option ClassRef
  | type (.cls c) => some c
  | _ => Option.none

def isClass (e : Entity) : Bool := e.class?.isSome

def isFunction : Entity → Bool
  | function _ | library _ => true
  | _ => false

/-- Whether names under the entity are looked up when the program is lowered. -/
def isNamespace : Entity → Bool
  | module _ | type (.cls _) => true
  | _ => false

mutual

def text : Entity → String
  | const c => c.text
  | type t => t.full
  | tuple items => Const.tupleText (texts items)
  | list items => "[" ++ String.intercalate ", " (texts items) ++ "]"
  | dict entries => "\x7b" ++ String.intercalate ", " (entryTexts entries) ++ "\x7d"
  | function id => "<function " ++ toString id ++ ">"
  | builtin name => "<built-in function " ++ ClassRef.lastPart name ++ ">"
  | module name => "<module '" ++ name ++ "'>"
  | enumerator c name value => "<" ++ c.name ++ "." ++ name ++ ": " ++ text value ++ ">"
  | described kind owner name =>
    let noun :=
      match kind with
      | "wrapper_descriptor" => "slot wrapper"
      | "getset_descriptor" => "attribute"
      | "member_descriptor" => "member"
      | _ => "method"
    "<" ++ noun ++ " '" ++ name ++ "' of '" ++ owner.name ++ "' objects>"
  | other _ shown => shown
  | e => "<" ++ e.classOf.dotted ++ " object>"

def texts : List Entity → List String
  | [] => []
  | e :: es => text e :: texts es

def entryTexts : List (Entity × Entity) → List String
  | [] => []
  | (k, v) :: es => (text k ++ ": " ++ text v) :: entryTexts es

end

mutual

def toTypeExpr : Entity → Option TypeExpr
  | unresolved => Option.none
  | const .none => some .none
  | const .ellipsis => some .ellipsis
  | const (.str s) => some (.text s)
  | const c => some (.value c)
  | type t => some t
  | other c shown => some (.other c shown)
  | list items => (toTypeExprs items).map .list
  | e => some (.other e.classOf e.text)

def toTypeExprs : List Entity → Option (List TypeExpr)
  | [] => some []
  | e :: es => do
    let t ← toTypeExpr e
    return t :: (← toTypeExprs es)

end

def truth : Entity → Bool
  | const c => c.truth
  | tuple items | list items => !items.isEmpty
  | dict entries => !entries.isEmpty
  | _ => true

def isUnresolved : Entity → Bool
  | unresolved => true
  | _ => false

def ofTypeExpr : TypeExpr → Entity
  | .none => const .none
  | .ellipsis => const .ellipsis
  | .text s => const (.str s)
  | .value c => const c
  | .other c shown => other c shown
  | t => type t

mutual

def same : Entity → Entity → Bool
  | unresolved, unresolved => true
  | const a, const b => Const.same a b
  | tuple as, tuple bs | list as, list bs => sameAll as bs
  | dict as, dict bs => sameEntries as bs
  | type a, type b => TypeExpr.same a b
  | function a, function b | builtin a, builtin b | library a, library b => a == b
  | method f a, method g b => same f g && same a b
  | staticMethod a, staticMethod b | classMethod a, classMethod b | property a, property b
  | cached a, cached b => same a b
  | module a, module b => a == b
  | .instance a m, .instance b n => a == b && m == n
  | enumerator a n _, enumerator b m _ => a == b && n == m
  | described k a n, described l b m => k == l && a == b && n == m
  | other a s, other b t => a == b && s == t
  | _, _ => false

def sameAll : List Entity → List Entity → Bool
  | [], [] => true
  | a :: as, b :: bs => same a b && sameAll as bs
  | _, _ => false

def sameEntries : List (Entity × Entity) → List (Entity × Entity) → Bool
  | [], [] => true
  | (k, v) :: as, (l, w) :: bs => same k l && same v w && sameEntries as bs
  | _, _ => false

end

mutual

/-- Whether an entity can be a member of a set: lists and dictionaries cannot. -/
def isHashable : Entity → Bool
  | const c => TypeExpr.constHashable c
  | tuple items => allHashable items
  | list _ | dict _ => false
  | type t => t.hashable
  | _ => true

def allHashable : List Entity → Bool
  | [] => true
  | e :: es => isHashable e && allHashable es

end

def constants? : List Entity → Option (List Const)
  | [] => some []
  | const c :: es => (constants? es).map (c :: ·)
  | _ :: _ => Option.none

def ofTuple (items : List Entity) : Entity :=
  match constants? items with
  | some cs => const (.tuple cs)
  | Option.none => tuple items

def ofList (items : List Entity) : Entity :=
  match constants? items with
  | some cs => const (.list cs)
  | Option.none => list items

end Entity
end Readiness
