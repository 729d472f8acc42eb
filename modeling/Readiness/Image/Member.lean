import Readiness.Image.Library

/-!
# Members of classes and modules

Look-ups on classes of the language, of the library and of the program.
-/

namespace Readiness.Image

def knownName : ClassRef → String
  | .builtin n => n
  | .library m n => m ++ "." ++ n
  | .rawPointer => "RawPointer"
  | .program _ => ""

def words (s : String) : List String :=
  (s.splitOn " ").filter (· != "")

def fullName (name : String) : String :=
  match name.toList with
  | '.' :: rest => "__" ++ String.ofList rest ++ "__"
  | _ => name

def ofKnownName (name : String) : ClassRef :=
  let last := ClassRef.lastPart name
  if last = name then .builtin name
  else .library (String.ofList (name.toList.take (name.length - last.length - 1))) last

variable (image : Image)

variable (c : ClassRef)

def ancestors : List ClassRef :=
  match c with
  | .rawPointer => [.rawPointer, .int, .object]
  | .program p =>
    match image.class? p with
    | some info => info.ancestors
    | none => [c, .object]
  | c =>
    let known := knownClasses.find? fun k => k.1 == knownName c
    let inherited := (known.map fun k => (words k.2.1).map ofKnownName).getD []
    if c = .object then [c] else c :: inherited ++ [.object]

def isCompiled : ClassRef → Bool
  | .builtin n => n != "ExceptionGroup"
  | .library m n =>
    m == "_io" || m == "_sitebuiltins" || m == "_frozen_importlib"
      || ["collections.deque", "collections.OrderedDict", "collections.defaultdict",
        "types.SimpleNamespace", "types.GenericAlias", "types.UnionType"].contains
          (m ++ "." ++ n)
  | _ => false

def isDescribed (kind : String) : Bool :=
  ["getset_descriptor", "member_descriptor", "method_descriptor", "wrapper_descriptor",
    "classmethod_descriptor"].contains kind

def knownMember (owner kind name : String) : Entity :=
  let full := owner ++ "." ++ name
  match kind with
  | "NoneType" => .none
  | "function" => .library full
  | "builtin_function_or_method" => .builtin full
  | "staticmethod" =>
    .staticMethod (if isCompiled (ofKnownName owner) then .builtin full else .library full)
  | "classmethod" => .classMethod (.library full)
  | "property" => .property (.library full)
  | kind =>
    if isDescribed kind then .described kind (ofKnownName owner) name
    else .other (ofKnownName kind) ""

variable (name : String)

def ownMember? : Option Entity :=
  match c with
  | .program p => (image.class? p).bind fun info => info.members.get? name
  | .rawPointer =>
    if name = "__module__" ∨ name = "__doc__" then some (.other .str "")
    else if name = "__dict__" then some (.described "getset_descriptor" c name)
    else none
  | c => do
    let known ← knownClasses.find? fun k => k.1 == knownName c
    let (kind, _) ← known.2.2.find? fun g => (words g.2).any (fullName · == name)
    return knownMember known.1 kind name

def stored? : Option Entity :=
  (image.ancestors c).findSome? fun k => image.ownMember? k name

def resolve? : Option Entity :=
  match image.stored? c name with
  | some (.const .none) => none
  | found => found

/-- Whether a stored member is consulted before what an instance itself holds. -/
def takesPrecedence : Entity → Bool
  | .property _ | .described "getset_descriptor" _ _ | .described "member_descriptor" _ _ => true
  | _ => false

def docOf : Entity :=
  match image.ownMember? c "__doc__" with
  | some e => if takesPrecedence e then .other .str "" else e
  | none => .none

def describesParameters : Bool :=
  ["object", "float", "complex", "list", "tuple", "memoryview", "enumerate", "reversed", "property",
    "function", "method", "module", "_io.StringIO"].contains (knownName c)

/-- The attributes that a class manages for its instances, which are classes: none when the name is
not one of them, and an absent value when the class at hand has none. -/
def managed? : Option (Option Entity) :=
  match name with
  | "__name__" => some (some (.const (.str c.name)))
  | "__qualname__" => some (some (.const (.str c.qualname)))
  | "__module__" =>
    match c with
    | .program _ => some (image.ownMember? c name)
    | c => some (some (.const (.str c.moduleName)))
  | "__class__" => some (some (.cls c.metaclass))
  | "__dict__" => some (some (.other (.builtin "mappingproxy") ""))
  | "__doc__" => some (some (image.docOf c))
  | "__mro__" => some (some (.tuple ((image.ancestors c).map Entity.cls)))
  | "__bases__" => some (some (.other .tuple ""))
  | "__base__" => some (some (((image.ancestors c)[1]?.map Entity.cls).getD .none))
  | "__basicsize__" | "__itemsize__" | "__flags__" | "__dictoffset__" | "__weakrefoffset__" =>
    some (some (.other .int ""))
  | "__text_signature__" => some (some (if describesParameters c then .other .str "" else .none))
  | "__abstractmethods__" =>
    some (if c = .type then none else image.ownMember? c name)
  | "__annotations__" => some (if isCompiled c then none else some (.dict []))
  | _ => none

def boundToClass : Entity → Option Entity
  | .staticMethod f => some f
  | .classMethod f => some (.method f (.cls c))
  | .described "classmethod_descriptor" _ _ => some (.builtin (c.name ++ "." ++ name))
  | .other (.library "enum" "property") _ => none
  | e => some e

def boundToMetaclass : Entity → Entity
  | .staticMethod f => f
  | .classMethod f => .method f (.cls c.metaclass)
  | .property _ => .other (.builtin "mappingproxy") ""
  | .library n => .method (.library n) (.cls c)
  | .described "wrapper_descriptor" _ _ => .other (.builtin "method-wrapper") ""
  | .described "method_descriptor" _ _ | .described "classmethod_descriptor" _ _ =>
    .builtin (c.name ++ "." ++ name)
  | e => e

def classMember? : Option Entity :=
  match image.managed? c name with
  | some found => found
  | none =>
    let above := image.stored? c.metaclass name
    match above.filter takesPrecedence, image.stored? c name with
    | some e, _ => some (boundToMetaclass c name e)
    | none, some e => boundToClass c name e
    | none, none => above.map (boundToMetaclass c name)

def boundToInstance (owner : Entity) (name : String) : Entity → Option Entity
  | .staticMethod f => some f
  | .classMethod f => some (.method f (.cls c))
  | .property _ => none
  | .function id => some (.method (.function id) owner)
  | .library n => some (.method (.library n) owner)
  | .cached f => some (.method (.cached f) owner)
  | .described "wrapper_descriptor" _ _ => some (.other (.builtin "method-wrapper") "")
  | .described "method_descriptor" _ _ | .described "classmethod_descriptor" _ _ =>
    some (.builtin (c.name ++ "." ++ name))
  | .described "getset_descriptor" _ _ =>
    match name with
    | "__class__" => some (.cls c)
    | "__dict__" => some (.dict [])
    | "__weakref__" => some .none
    | _ => none
  | .described "member_descriptor" _ _ => none
  | e => some e

def inherited? (owner : Entity) (name : String) : Option Entity :=
  (image.stored? c name).bind (boundToInstance c owner name)

def enumeratorMember? (own : String) (value : Entity) : String → Option Entity
  | "name" | "_name_" => some (.const (.str own))
  | "value" | "_value_" => some value
  | _ => none

def functionMember? (f : Function) (name : String) : Option Entity :=
  match name with
  | "__name__" => some (.const (.str f.name))
  | "__qualname__" => some (.const (.str f.qualname))
  | "__module__" => some (.const (.str "prog"))
  | "__wrapped__" => f.wrapped
  | "__doc__" => some f.doc
  | "__annotations__" | "__globals__" | "__builtins__" => some (.dict [])
  | "__code__" => some (.other (.builtin "code") "")
  | "__defaults__" =>
    match (f.signature.params.filter Parameter.isPositional).filterMap Parameter.default with
    | [] => some .none
    | defaults => some (Entity.ofTuple defaults)
  | "__kwdefaults__" =>
    if f.signature.params.any fun p => p.kind == .keywordOnly && p.default.isSome then
      some (.dict [])
    else some .none
  | "__closure__" => some .none
  | _ => none

def member? (e : Entity) (name : String) : Option Entity :=
  match e with
  | .module m => moduleMember? m name
  | .type (.cls c) => image.classMember? c name
  | .enumerator c own value => enumeratorMember? own value name <|> image.inherited? c e name
  | .function id =>
    ((image.function? id).bind fun f => functionMember? f name)
      <|> image.inherited? .function e name
  | .method f owner =>
    match name with
    | "__func__" => some f
    | "__self__" => some owner
    | name =>
      let own :=
        match f with
        | .function id => (image.function? id).bind fun f => functionMember? f name
        | _ => none
      own <|> image.inherited? .method e name
  | .cached f => if name = "__wrapped__" then some f else image.inherited? e.classOf e name
  | .unresolved => none
  | e => image.inherited? e.classOf e name

def global? (name : String) : Option Entity :=
  match image.globals.get? name with
  | some e => some e
  | none => builtinEntity? name

end Readiness.Image
