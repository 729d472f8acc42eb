import Readiness.Image.Hints

/-!
# Signatures

`signature` gives the parameters or the reason why there are none; `Signature.text`
writes them down.
-/

namespace Readiness.Image

inductive SignatureFault
  | builtinClass (c : ClassRef)
  | builtinFunction (name : String)
  | notCallable (e : Entity)

def inWord (c : Char) : Bool := c.isAlphanum || c == '_' || c == '.' || 0x80 ≤ c.toNat

/-- Drops `typing.` at the start of every dotted word; `room` bounds the number of words. -/
def dropTyping : Nat → List Char → List Char
  | 0, cs => cs
  | _, [] => []
  | room + 1, c :: cs =>
    if inWord c then
      let word := (c :: cs).takeWhile inWord
      let rest := (c :: cs).dropWhile inWord
      let mark := "typing.".toList
      (if mark.isPrefixOf word then word.drop mark.length else word) ++ dropTyping room rest
    else c :: dropTyping room cs

def belongsToTyping : TypeExpr → Bool
  | .cls (.library m _) => m == "typing"
  | .named _ _ _ | .bare _ _ | .union _ | .forward _ | .form _ | .applied _ _ => true
  | .annotated t _ => belongsToTyping t
  | _ => false

def hintText (t : TypeExpr) : String :=
  let full := t.full
  if belongsToTyping t then String.ofList (dropTyping (full.length + 1) full.toList)
  else
    match t with
    | .cls c => c.dotted
    | _ => full

def Parameter.text (p : Parameter) : String :=
  let mark :=
    match p.kind with
    | .variadic => "*"
    | .keywordVariadic => "**"
    | _ => ""
  let hinted :=
    match p.hint with
    | some t => p.name ++ ": " ++ hintText t
    | none => p.name
  let full :=
    match p.default, p.hint with
    | some d, some _ => hinted ++ " = " ++ d.text
    | some d, none => hinted ++ "=" ++ d.text
    | none, _ => hinted
  mark ++ full

/-- The parameters with the marks that end the positional-only ones and start the keyword-only
ones. -/
def paramTexts (afterPositionalOnly starred : Bool) : List Parameter → List String
  | [] => if afterPositionalOnly then ["/"] else []
  | p :: ps =>
    let closing := if afterPositionalOnly && p.kind != .positionalOnly then ["/"] else []
    let opening := if p.kind == .keywordOnly && !starred then ["*"] else []
    closing ++ opening
      ++ p.text :: paramTexts (p.kind == .positionalOnly)
          (starred || p.kind == .variadic || p.kind == .keywordOnly) ps

def Signature.text (s : Signature) : String :=
  let params := "(" ++ String.intercalate ", " (paramTexts false false s.params) ++ ")"
  match s.returns with
  | some t => params ++ " -> " ++ hintText t
  | none => params

def SignatureFault.message : SignatureFault → String
  | builtinClass c =>
    if c = .type then "no signature found for builtin " ++ c.text
    else "no signature found for builtin type " ++ c.text
  | builtinFunction name =>
    if name = "anext" then "<built-in function anext> builtin has invalid signature"
    else "no signature found for builtin <built-in function " ++ ClassRef.lastPart name ++ ">"
  | notCallable e => e.text ++ " is not a callable object"

def Signature.dropFirst (s : Signature) : Signature :=
  match s.params with
  | p :: ps => if p.kind == .variadic then s else { s with params := ps }
  | [] => s

def openParams (rest : String) : List Parameter :=
  [⟨"self", .positional, none, none⟩, ⟨"args", .variadic, none, none⟩,
    ⟨rest, .keywordVariadic, none, none⟩]

def libraryParams? (name : String) : Option (List Parameter) :=
  match compiledParams? name with
  | some ps => some ps
  | none =>
    if name = "enum.Enum.__init__" then some (openParams "kwds")
    else if name.endsWith ".__init__" then some (openParams "kwargs")
    else none

/-- The function that makes the instances of a class: the first of `__new__` and `__init__` in
the class and its ancestors that is written in the language, behind a cache or not. -/
def maker? (image : Image) (c : ClassRef) : Option Entity :=
  let written (name : String) : Option Entity :=
    let plain (f : Entity) : Option Entity :=
      match f with
      | .cached _ => some f
      | f => if f.isFunction then some f else none
    match image.stored? c name with
    | some (.staticMethod f) | some f => plain f
    | none => none
  (image.ancestors c).findSome? fun a =>
    if (image.ownMember? a "__new__").isSome && (written "__new__").isSome then written "__new__"
    else if (image.ownMember? a "__init__").isSome then written "__init__"
    else none

def enumerationSignature : Signature :=
  let p (name : String) (kind : ParamKind) (default : Option Const) : Parameter :=
    ⟨name, kind, default.map Entity.const, none⟩
  { params :=
      [p "value" .positional none, p "names" .positional (some .none),
        p "module" .keywordOnly (some .none), p "qualname" .keywordOnly (some .none),
        p "type" .keywordOnly (some .none), p "start" .keywordOnly (some (.int 1)),
        p "boundary" .keywordOnly (some .none)]
    returns := none }

def sessionParams : String → List Parameter
  | "Quitter" => [⟨"code", .positional, some .none, none⟩]
  | "_Helper" => (openParams "kwds").tail
  | _ => []

def calledThrough? (image : Image) (e : Entity) : Option Entity :=
  match e with
  | .instance c _ | .enumerator c _ _ => image.stored? c "__call__"
  | _ => none

def ofParams (fault : SignatureFault) : Option (List Parameter) → Except SignatureFault Signature
  | some ps => .ok ⟨ps, none⟩
  | none => .error fault

/-- The signature of a callable; `ask` gives that of a function that is wrapped, makes the instances
of a class or is called through them. -/
def signatureVia (image : Image) (ask : Entity → Except SignatureFault Signature) :
    Entity → Except SignatureFault Signature
  | .function id =>
    match image.function? id with
    | none => .error (.notCallable (.function id))
    | some f =>
      match f.wrapped with
      | some inner => ask inner
      | none => .ok f.signature
  | .library name => ofParams (.builtinFunction name) (libraryParams? name)
  | .builtin name => ofParams (.builtinFunction name) (compiledParams? name)
  | .method f _ => do return (← image.signatureVia ask f).dropFirst
  | .cached f | .staticMethod f => image.signatureVia ask f
  | .type (.cls c) =>
    match c with
    | .builtin name => ofParams (.builtinClass c) (builtinClassParams? name)
    | c =>
      if c.metaclass = .library "enum" "EnumType" then .ok enumerationSignature
      else if isUndescribed c then .error (.builtinClass c)
      else if let some ps := libraryClassParams? c then .ok ⟨ps, none⟩
      else
        match image.maker? c with
        | some f => do return (← ask f).dropFirst
        | none =>
          match (image.ancestors c).find? fun a => a.isBuiltin with
          | some (.builtin name) =>
            if name = "object" then .ok ⟨[], none⟩
            else ofParams (.builtinClass c) (builtinClassParams? name)
          | _ => .ok ⟨[], none⟩
  | .other (.library "_sitebuiltins" kind) _ => .ok ⟨sessionParams kind, none⟩
  | e =>
    match image.calledThrough? e with
    | some f => do return (← ask f).dropFirst
    | none => .error (.notCallable e)

def signatureWithin (image : Image) : Nat → Entity → Except SignatureFault Signature
  | 0, e => .error (.notCallable e)
  | room + 1, e => image.signatureVia (image.signatureWithin room) e

/-- A function is asked about once and a class twice, for itself and for an instance, unless they go
round; so is the class of the library from which the way starts. -/
def signature (image : Image) (e : Entity) : Except SignatureFault Signature :=
  image.signatureWithin (image.functions.size + 2 * (image.classes.size + 1)) e

end Readiness.Image
