import Readiness.Image.Signature
import Readiness.Source.Binding

/-!
# Building classes

`assemble` gives the class; `withFields` adds the members generated from declared
attributes.
-/

namespace Readiness.Image

/-- Merges lists of ancestors: the next class is the first head that occurs in no tail; `room`
bounds the number of classes. -/
def linearise : Nat → List (List ClassRef) → List ClassRef
  | 0, _ => []
  | room + 1, lists =>
    let rest := lists.filter (!·.isEmpty)
    let tails := rest.map List.tail
    let heads := rest.filterMap List.head?
    match heads.find? fun h => tails.all fun t => !t.contains h with
    | some next =>
      next :: linearise room (rest.map fun l => if l.head? == some next then l.tail else l)
    | none => heads.eraseDups

variable (image : Image)

def mergedAncestors (bases : List ClassRef) : List ClassRef :=
  let lists := bases.map image.ancestors ++ [bases]
  linearise ((lists.map List.length).foldl (· + ·) 0 + 1) lists

def kindOf (bases : List ClassRef) : ClassKind :=
  let metas := bases.map ClassRef.metaclass
  if metas.contains (.library "enum" "EnumType") then .enumeration
  else if metas.contains (.library "typing" "_ProtocolMeta") then .protocol
  else if metas.contains (.library "abc" "ABCMeta") then .abstract
  else .plain

def isInterface (bases : List ClassRef) : Bool :=
  bases.contains (.library "typing" "Protocol")

def isMissing (missing : List Nat) : Entity → Bool
  | .function id => missing.contains id
  | .staticMethod f | .classMethod f | .property f => isMissing missing f
  | _ => false

def missingNames (missing : List Nat) (bases : List ClassRef)
    (members : Table String Entity) : List String :=
  let inherited := bases.flatMap fun b =>
    match b with
    | .program p => ((image.class? p).map Class.missing).getD []
    | _ => []
  let found (name : String) : Option Entity :=
    match members.get? name with
    | some e => some e
    | none => (image.mergedAncestors bases).findSome? fun c => image.ownMember? c name
  let own := members.entries.filterMap fun (n, e) => if isMissing missing e then some n else none
  let pending := inherited.filter fun n => ((found n).map (isMissing missing)).getD false
  (own ++ pending).eraseDups

/-- Whether a name is set between double or between single underscores, which keeps it from being a
member of an enumeration. -/
def isReserved (name : String) : Bool :=
  let cs := name.toList
  let marked (n : Nat) : Bool :=
    2 * n < cs.length && (cs.take n).all (· == '_') && (cs.drop (cs.length - n)).all (· == '_')
      && cs[n]? != some '_' && cs.reverse[n]? != some '_'
  marked 2 || marked 1

def isAccessor : Entity → Bool
  | .function _ | .library _ | .staticMethod _ | .classMethod _ | .property _ | .cached _
  | .method _ _ => true
  | .type (.cls c) | .instance c _ => (image.stored? c "__get__").isSome
  | _ => false

def isEnumerator (className name : String) (value : Entity) : Bool :=
  let hidden := "_" ++ className ++ "__"
  !isReserved name && !(name.startsWith hidden && !name.endsWith "_")
    && !image.isAccessor value

def equalValues : Entity → Entity → Bool
  | .const a, .const b => Const.equals a b
  | a, b => Entity.same a b

variable (c : ClassRef)

def enumeratorOf (members : Table String Entity) (name : String) (value : Entity) :
    Entity :=
  let earlier := members.values.find? fun e =>
    match e with
    | .enumerator _ _ v => equalValues v value
    | _ => false
  earlier.getD (.enumerator c name value)

def completed (members : Table String Entity) : Table String Entity :=
  let turned (name : String) (turn : Entity → Entity) (t : Table String Entity) :
      Table String Entity :=
    match t.get? name with
    | some (.function id) => t.set name (turn (.function id))
    | _ => t
  let members := turned "__new__" .staticMethod members
  let members := turned "__init_subclass__" .classMethod members
  let members := turned "__class_getitem__" .classMethod members
  if members.contains "__eq__" && !members.contains "__hash__" then members.set "__hash__" .none
  else members

def slots? (members : Table String Entity) : Option (List String) :=
  let names (cs : List Const) : List String := cs.filterMap fun c =>
    match c with
    | .str s => some s.string
    | _ => none
  match members.get? "__slots__" with
  | some (.const (.str s)) => some [s.string]
  | some (.const (.tuple cs)) | some (.const (.list cs)) => some (names cs)
  | some _ => some []
  | none => none

def hasWeakReferences : Bool :=
  (image.stored? c "__weakref__").isSome
    || (image.ancestors c).any fun a =>
        ["type", "set", "frozenset", "memoryview", "function", "method", "generator", "module",
          "builtin_function_or_method", "collections.deque", "collections.OrderedDict", "_io._IOBase",
          "functools._lru_cache_wrapper", "types.GenericAlias"].contains (knownName a)

def hasVaryingSize : Bool :=
  (image.ancestors c).any fun a =>
    ["type", "int", "bytes", "tuple", "memoryview", "generator"].contains (knownName a)

/-- The members that describe what instances hold: a dictionary and weak references, where no base
has them already and the class does not list what they hold. -/
def withStorage (owner : ClassRef) (bases : List ClassRef)
    (members : Table String Entity) : Table String Entity :=
  let provided (kind name : String) : Entity := .described kind owner name
  let listed := slots? members
  let wants (name : String) : Bool := (listed.map fun l => l.contains name).getD true
  let hasDict := bases.any fun b => (image.stored? b "__dict__").isSome
  let hasWeak := bases.any image.hasWeakReferences
  let members :=
    if !hasDict && wants "__dict__" then
      members.set "__dict__" (provided "getset_descriptor" "__dict__")
    else members
  let members :=
    if !hasWeak && wants "__weakref__" && !bases.any image.hasVaryingSize then
      members.set "__weakref__" (provided "getset_descriptor" "__weakref__")
    else members
  ((listed.getD []).filter fun n => n != "__dict__" && n != "__weakref__").foldl
    (fun t n =>
      let n := Source.privateName (some owner.name) n
      t.set n (provided "member_descriptor" n))
    members

def pendingInitialiser : String := "typing.Protocol.__init__"

def assemble (qualname : String) (bases : List ClassRef)
    (body : Table String Entity) (hints : Table String TypeExpr) (abstracts : List Nat) : Class :=
  let bases := if bases.isEmpty then [.object] else bases
  let kind := kindOf bases
  let missing :=
    match kind with
    | .abstract | .protocol => image.missingNames abstracts bases body
    | _ => []
  let ref : ProgramClass :=
    { id := image.classes.size, qualname, kind
      concrete := !isInterface bases && missing.isEmpty }
  let head : Table String Entity := Table.empty.set "__module__" (.const (.str "prog"))
  let className := ClassRef.lastPart qualname
  let members := body.entries.foldl
    (fun t (n, e) =>
      if kind = .enumeration && image.isEnumerator className n e then
        t.set n (enumeratorOf (.program ref) t n e)
      else t.set n e)
    head
  let members := completed members
  let members := if hints.size = 0 then members else members.set "__annotations__" (.dict [])
  let members := image.withStorage (.program ref) bases members
  let members :=
    if members.contains "__doc__" then members else members.set "__doc__" (.const .none)
  let members :=
    if kind = .protocol then
      let members := (members.set "__parameters__" (.const (.tuple []))).set "_is_protocol"
        (.const (.bool (isInterface bases)))
      let members :=
        if members.contains "__subclasshook__" then members
        else members.set "__subclasshook__" (.library "typing.Protocol.__subclasshook__")
      if isInterface bases && !members.contains "__init__" then
        members.set "__init__" (.library pendingInitialiser)
      else members
    else members
  let members :=
    match kind with
    | .plain => members
    | .enumeration =>
      (members.set "__new__" (.library "enum.Enum.__new__")).set "_new_member_"
        (.builtin "object.__new__")
    | _ =>
      (members.set "__abstractmethods__" (.other .frozenset "")).set "_abc_impl"
        (.other (.library "_abc" "_abc_data") "")
  { ref, bases
    ancestors := .program ref :: image.mergedAncestors bases
    members, hints, missing, fields := [] }

def initialiserOf : Entity :=
  let found := (image.ancestors c).findSome? fun a =>
    match image.ownMember? a "__init__" with
    | some (.library n) => if n = pendingInitialiser then none else some (.library n)
    | found => found
  found.getD (.described "wrapper_descriptor" .object "__init__")

/-- The image after an instance of a class was made: an implementation of an interface then has its
initialiser. -/
def settleInitialiser : Image :=
  match c, image.stored? c "__init__" with
  | .program ref, some (.library n) =>
    if n = pendingInitialiser then
      { image with
        classes := image.classes.modify ref.id fun info =>
          { info with members := info.members.set "__init__" (image.initialiserOf c) } }
    else image
  | _, _ => image

/-- Whether a declared attribute belongs to the class rather than to its instances. -/
def isShared : TypeExpr → Bool
  | .form "ClassVar" | .applied "ClassVar" _ => true
  | .text t => t.string.startsWith "ClassVar" || t.string.startsWith "typing.ClassVar"
  | _ => false

def inheritedFields : List Parameter :=
  match c with
  | .program p => ((image.class? p).map Class.fields).getD []
  | _ => []

/-- Adds an attribute; one of the same name is replaced where it stands. -/
def addField (fields : List Parameter) (p : Parameter) : List Parameter :=
  if fields.any fun q => q.name == p.name then
    fields.map fun q => if q.name == p.name then p else q
  else fields ++ [p]

def provided? (name : String) : Option Entity :=
  match image.stored? c name with
  | some (.staticMethod f) => some f
  | some (.described _ _ _) => none
  | found => found

structure Generation where
  initialiser : Bool := true
  text : Bool := true
  equality : Bool := true
  order : Bool := false
  /-- Whether attributes cannot be assigned. -/
  frozen : Bool := false
  hash : Bool := false
  /-- Whether attributes are listed for patterns. -/
  listed : Bool := true
  /-- Whether attributes are given by name only. -/
  named : Bool := false

def Generation.ofValues (values : List (String × Entity)) : Generation :=
  let chosen (name : String) (default : Bool) : Bool :=
    ((values.find? fun v => v.1 == name).map fun v => v.2.truth).getD default
  { initialiser := chosen "init" true, text := chosen "repr" true, equality := chosen "eq" true
    order := chosen "order" false, frozen := chosen "frozen" false
    hash := chosen "unsafe_hash" false, listed := chosen "match_args" true
    named := chosen "kw_only" false }

/-- The members to generate, by name, with their parameters after the first one and their declared
results; `explicitHash` tells whether the class has a hash of its own. -/
def Generation.members (g : Generation) (fields : List Parameter) (explicitHash : Bool) :
    List (String × List Parameter × Option TypeExpr) :=
  let plain (name : String) : Parameter := ⟨name, .positional, none, none⟩
  let chosen (b : Bool) (names : List String) (params : List Parameter)
      (returns : Option TypeExpr) : List (String × List Parameter × Option TypeExpr) :=
    if b then names.map fun n => (n, params, returns) else []
  chosen g.initialiser ["__init__"] fields (some .none)
    ++ chosen g.text ["__repr__"] [] none
    ++ chosen g.equality ["__eq__"] [plain "other"] none
    ++ chosen g.order ["__lt__", "__le__", "__gt__", "__ge__"] [plain "other"] none
    ++ chosen g.frozen ["__setattr__"] [plain "name", plain "value"] none
    ++ chosen g.frozen ["__delattr__"] [plain "name"] none
    ++ chosen (g.hash || (g.equality && g.frozen && !explicitHash)) ["__hash__"] [] none

def withFields (g : Generation) (ref : ProgramClass) : Image :=
  match image.class? ref with
  | none => image
  | some info =>
    let kind : ParamKind := if g.named then .keywordOnly else .positional
    let own := info.hints.entries.filterMap fun (name, hint) =>
      if isShared hint then none
      else some (⟨name, kind, image.provided? (.program ref) name, some hint⟩ : Parameter)
    let fields :=
      ((info.ancestors.tail.reverse.flatMap image.inheritedFields) ++ own).foldl addField []
    let ordered := fields.filter (fun p => p.kind != .keywordOnly)
      ++ fields.filter fun p => p.kind == .keywordOnly
    let self : Parameter := ⟨"self", .positional, none, none⟩
    let explicitHash :=
      match info.members.get? "__hash__" with
      | none => false
      | some .none => !info.members.contains "__eq__"
      | some _ => true
    let missing := (g.members ordered explicitHash).filter fun (name, _, _) =>
      name == "__hash__" || !info.members.contains name
    let functions := missing.map fun (name, params, returns) =>
      ({ name, qualname := ref.qualname ++ "." ++ name
         signature := ⟨self :: params, returns⟩
         definition := .generated, isAsync := false, frame := none, wrapped := none
         registered := [] } : Function)
    let first := image.functions.size
    let doc := ClassRef.lastPart ref.qualname ++ Signature.text ⟨ordered, none⟩
    let members :=
      match info.members.get? "__doc__" with
      | some (.const .none) => info.members.set "__doc__" (.const (.str doc))
      | _ => info.members
    let unhashed := g.equality && !g.frozen && !g.hash && !explicitHash
    let additions : List (String × Entity) :=
      [("__dataclass_params__", .other (.library "dataclasses" "_DataclassParams") ""),
        ("__dataclass_fields__", .dict [])]
        ++ (missing.mapIdx fun i (name, _, _) => (name, Entity.function (first + i)))
        ++ (if unhashed then [("__hash__", Entity.none)] else [])
        ++ (if g.listed && !info.members.contains "__match_args__" then
              let listed := fields.filter fun p => p.kind != .keywordOnly
              [("__match_args__", .const (.tuple (listed.map fun p => .str p.name)))]
            else [])
    let members := additions.foldl (fun t (n, e) => t.set n e) members
    { image with
      functions := functions.foldl Array.push image.functions
      classes := image.classes.setIfInBounds ref.id { info with members, fields } }

end Readiness.Image
