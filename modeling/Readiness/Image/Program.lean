import Readiness.Image.Entity
import Readiness.Source.Outline
import Readiness.Table

/-!
# Program images

An image is what the module level of a program holds after loading: its global names,
its functions and classes, and the frames of enclosing calls that functions refer to.
-/

namespace Readiness
namespace Image

inductive ParamKind
  | positionalOnly
  | positional
  | variadic
  | keywordOnly
  | keywordVariadic
  deriving Repr, DecidableEq

structure Parameter where
  name : String
  kind : ParamKind
  default : Option Entity
  hint : Option TypeExpr

def Parameter.isVariadic (p : Parameter) : Bool :=
  p.kind == .variadic || p.kind == .keywordVariadic

def Parameter.isPositional (p : Parameter) : Bool :=
  p.kind == .positionalOnly || p.kind == .positional

structure Signature where
  params : List Parameter
  returns : Option TypeExpr
  deriving Inhabited

inductive Definition
  /-- A `def` statement; `firstLine` is the line of its first decorator or of itself. -/
  | function (firstLine : Nat) (body : List Source.Stmt)
  /-- A lambda on a line. -/
  | lambda (line : Nat) (body : Source.Expr)
  /-- A function without source. -/
  | generated
  deriving Inhabited

structure Function where
  name : String
  qualname : String
  signature : Signature
  definition : Definition
  isAsync : Bool
  /-- The frame of the call that defined the function. -/
  frame : Option Nat
  /-- The class around the definition, whose private names it uses. -/
  owner : Option String := none
  /-- The callable behind this function. -/
  wrapped : Option Entity
  /-- The text that the function starts with, if it starts with one. -/
  doc : Entity := .none
  /-- Argument types registered for batch analysis. -/
  registered : List (List TypeExpr)
  deriving Inhabited

structure Class where
  ref : ProgramClass
  bases : List ClassRef
  /-- The class itself and its ancestors in the order in which members are looked up. -/
  ancestors : List ClassRef
  members : Table String Entity
  /-- Declared types of attributes. -/
  hints : Table String TypeExpr
  /-- Names of methods that implementations still have to provide. -/
  missing : List String
  /-- The attributes from which members were generated. -/
  fields : List Parameter

instance : Inhabited Class := ⟨⟨default, [], [], .empty, .empty, [], []⟩⟩

/-- The names of a call that outlive it; a name without value is not assigned yet. -/
structure Frame where
  parent : Option Nat
  names : Table String (Option Entity)

instance : Inhabited Frame := ⟨⟨none, .empty⟩⟩

inductive Listing
  /-- As it was run. -/
  | faithful
  /-- Not at all. -/
  | missing
  /-- For one function as another text, given by its first line and its statements. -/
  | shown (function : Nat) (start : Nat) (body : List Source.Stmt)
  /-- For one function as a text that does not parse. -/
  | garbled (function : Nat) (message : String)

end Image

structure Image where
  globals : Table String Entity
  functions : Array Image.Function
  classes : Array Image.Class
  frames : Array Image.Frame
  /-- The statements of the file. -/
  body : List Source.Stmt
  listing : Image.Listing
  /-- How many marks have been given to values that are told apart. -/
  marks : Nat

namespace Image

def empty : Image := ⟨.empty, #[], #[], #[], [], .faithful, 0⟩

instance : Inhabited Image := ⟨empty⟩

def function? (image : Image) (id : Nat) : Option Function := image.functions[id]?

def class? (image : Image) (ref : ProgramClass) : Option Class := image.classes[ref.id]?

/-- The value of a name in a frame or the frames around it: found, found without value, or not
found.  `room` bounds the number of frames. -/
def cell? (image : Image) : Nat → Option Nat → String → Option (Option Entity)
  | 0, _, _ | _, none, _ => none
  | room + 1, some id, name =>
    match image.frames[id]? with
    | none => none
    | some frame =>
      match frame.names.get? name with
      | some value => some value
      | none => image.cell? room frame.parent name

def captured? (image : Image) (frame : Option Nat) (name : String) : Option (Option Entity) :=
  image.cell? (image.frames.size + 1) frame name

end Image
end Readiness
