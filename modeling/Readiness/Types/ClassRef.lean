/-!
# Classes

A class is known by where it comes from: the language itself, a library module or the
program under analysis.  The reference of a program class carries what the type rules ask of it,
so that they need no look-up.
-/

namespace Readiness

inductive ClassKind
  | plain
  /-- A class that may have abstract methods. -/
  | abstract
  /-- An interface or an implementation that names it as a base. -/
  | protocol
  | enumeration
  deriving Repr, DecidableEq, Inhabited

/-- A class of the program: its number in the image, its qualified name, its kind, and whether
values of exactly this class exist. -/
structure ProgramClass where
  id : Nat
  qualname : String
  kind : ClassKind
  concrete : Bool
  deriving Repr, DecidableEq, Inhabited

inductive ClassRef
  /-- A class of the language. -/
  | builtin (name : String)
  /-- A class of a library module. -/
  | library (module name : String)
  /-- The class of addresses that manual allocators return. -/
  | rawPointer
  /-- A class of the program. -/
  | program (c : ProgramClass)
  deriving Repr, DecidableEq

namespace ClassRef

def lastPart (name : String) : String :=
  String.ofList (name.toList.reverse.takeWhile (· != '.')).reverse

@[match_pattern] abbrev bool : ClassRef := .builtin "bool"
@[match_pattern] abbrev int : ClassRef := .builtin "int"
@[match_pattern] abbrev float : ClassRef := .builtin "float"
@[match_pattern] abbrev complex : ClassRef := .builtin "complex"
@[match_pattern] abbrev str : ClassRef := .builtin "str"
@[match_pattern] abbrev bytes : ClassRef := .builtin "bytes"
/-- The class of mutable byte strings. -/
@[match_pattern] abbrev bytearray : ClassRef := .builtin "bytearray"
@[match_pattern] abbrev noneType : ClassRef := .builtin "NoneType"
@[match_pattern] abbrev object : ClassRef := .builtin "object"
@[match_pattern] abbrev type : ClassRef := .builtin "type"
@[match_pattern] abbrev list : ClassRef := .builtin "list"
@[match_pattern] abbrev tuple : ClassRef := .builtin "tuple"
@[match_pattern] abbrev dict : ClassRef := .builtin "dict"
@[match_pattern] abbrev set : ClassRef := .builtin "set"
@[match_pattern] abbrev frozenset : ClassRef := .builtin "frozenset"
@[match_pattern] abbrev range : ClassRef := .builtin "range"
@[match_pattern] abbrev slice : ClassRef := .builtin "slice"
@[match_pattern] abbrev function : ClassRef := .builtin "function"
@[match_pattern] abbrev method : ClassRef := .builtin "method"
@[match_pattern] abbrev generator : ClassRef := .builtin "generator"
@[match_pattern] abbrev module : ClassRef := .builtin "module"
@[match_pattern] abbrev any : ClassRef := .library "typing" "Any"

def moduleName : ClassRef → String
  | builtin _ => "builtins"
  | library m _ => m
  | rawPointer => "nativeready.typesys"
  | program _ => "prog"

def qualname : ClassRef → String
  | builtin n | library _ n => n
  | rawPointer => "RawPointer"
  | program c => c.qualname

def name (c : ClassRef) : String := lastPart c.qualname

def isBuiltin : ClassRef → Bool
  | builtin _ => true
  | _ => false

def dotted (c : ClassRef) : String :=
  if c.isBuiltin then c.qualname else c.moduleName ++ "." ++ c.qualname

def text (c : ClassRef) : String :=
  match c with
  | any => "typing.Any"
  | library "enum" "Enum" => "<enum 'Enum'>"
  | program p =>
    if p.kind = .enumeration then "<enum '" ++ c.name ++ "'>"
    else "<class '" ++ c.dotted ++ "'>"
  | c => "<class '" ++ c.dotted ++ "'>"

/-- The library classes that describe interfaces rather than representations. -/
def isAbstractLibrary (module name : String) : Bool :=
  module == "numbers" || module == "collections.abc" || module == "os"
    || (module == "abc" && name == "ABC")
    || (module == "io" && name == "IOBase")
    || (module == "typing" && (name == "Any" || name == "Protocol"))

def takesParameters (c : ClassRef) : Bool := c = .library "collections.abc" "Callable"

def isConcrete : ClassRef → Bool
  | object => false
  | builtin _ => true
  | library m n => !isAbstractLibrary m n
  | rawPointer => true
  | program c => c.concrete

def metaclass : ClassRef → ClassRef
  | any => .library "typing" "_AnyMeta"
  | library "typing" "Protocol" => .library "typing" "_ProtocolMeta"
  | library "enum" "Enum" => .library "enum" "EnumType"
  | library m n => if isAbstractLibrary m n then .library "abc" "ABCMeta" else type
  | program c =>
    match c.kind with
    | .plain => type
    | .abstract => .library "abc" "ABCMeta"
    | .protocol => .library "typing" "_ProtocolMeta"
    | .enumeration => .library "enum" "EnumType"
  | _ => type

def typeName (c : ClassRef) : String :=
  if c = noneType then "None" else c.qualname

end ClassRef
end Readiness
