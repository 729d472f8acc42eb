import Readiness.Graph.Statement
import Readiness.Image.Signature

/-!
# Why a function has no flow graph

`Unavailable` lists the causes with their wording.  `Refusal` is what building a flow
graph ends with: a cause together with the label of the function, source that nests too deeply, or
a defect of the types involved.
-/

namespace Readiness

open Graph (Location)

/-- Why a function cannot be lowered for given argument types. -/
inductive Unavailable
  /-- A reason given in words. -/
  | stated (reason : String)
  | noSignature (fault : Image.SignatureFault)
  | variadic (name : String)
  | arity (given : Nat) (signature : Image.Signature)
  | keywordOnly (name : String)
  | notFunction (text : String)
  | coroutine
  | unresolvable (t : TypeExpr)
  /-- The file cannot be read. -/
  | unreadable
  /-- The function was generated and has no source. -/
  | generated
  | unparseable (message : String)
  | noLambda
  | noDefinition (name : String)
  | statement (kind : String) (place : Location)
  | expression (kind : String) (place : Location)
  | augmentedTarget (place : Location)
  | assignmentTarget (place : Location)
  | deletedTarget (place : Location)
  | outsideLoop (word : String) (place : Location)

def Unavailable.reason : Unavailable → String
  | stated reason => reason
  | noSignature fault => "signature not available: " ++ fault.message
  | variadic name => "variadic parameter '" ++ name ++ "' is not supported"
  | arity given signature =>
    "cannot bind " ++ toString given ++ " argument type(s) to signature " ++ signature.text
  | keywordOnly name => "keyword-only parameter '" ++ name ++ "' has no default"
  | notFunction text => "not a Python function: " ++ text
  | coroutine => "coroutine functions are not supported"
  | unresolvable t => "argument type " ++ t.full ++ " is not resolvable"
  | unreadable => "source not available: source code not available"
  | generated => "source not available: could not get source code"
  | unparseable message => "source not parseable: " ++ message
  | noLambda => "lambda definition not found in source"
  | noDefinition name => "definition of " ++ Text.quoted name ++ " not found in source"
  | statement kind place => "unsupported statement " ++ kind ++ " at " ++ place.text
  | expression kind place => "unsupported expression " ++ kind ++ " at " ++ place.text
  | augmentedTarget place => "unsupported augmented target at " ++ place.text
  | assignmentTarget place => "unsupported assignment target at " ++ place.text
  | deletedTarget place => "unsupported del target at " ++ place.text
  | outsideLoop word place => "'" ++ word ++ "' outside loop at " ++ place.text

/-- A defect that a program can show while its flow graph is built. -/
inductive Defect
  /-- A list of types stands where a member of a set is needed. -/
  | unhashable
  /-- A dictionary is made from keyword arguments, whose keys have no types. -/
  | keywordDictionary
  /-- A loop runs over a range with more members than an index can count. -/
  | longRange
  deriving Repr, DecidableEq

namespace Defect

def kind : Defect → String
  | unhashable => "TypeError"
  | keywordDictionary => "AttributeError"
  | longRange => "OverflowError"

def message : Defect → String
  | unhashable => "unhashable type: 'list'"
  | keywordDictionary => "type object 'dict' has no attribute '__args__'"
  | longRange => Const.longMessage

end Defect

/-- Why building a flow graph ends without one. -/
inductive Refusal
  | unavailable (cause : Unavailable) (label : Option String)
  /-- Source that nests more deeply than allowed, with the depth and the place reached.  The depth
  is zero when the stack of the interpreter gave out first. -/
  | tooDeep (depth : Int) (place : String)
  | defective (defect : Defect)

def Refusal.message : Refusal → String
  | unavailable cause label =>
    match label with
    | some l => if l.isEmpty then cause.reason else l ++ ": " ++ cause.reason
    | none => cause.reason
  | tooDeep _ _ => "recursion depth exceeded"
  | defective d => d.message

/-- A depth counted from a level on, if the stack of the interpreter holds that many. -/
def Refusal.beyond (level : Nat) (isHeld : Bool) (file : String) : Refusal → Refusal
  | tooDeep depth place => if isHeld then tooDeep (level + depth) place else tooDeep 0 file
  | r => r

def Refusal.labelled (label : String) : Refusal → Refusal
  | unavailable cause none => unavailable cause (some label)
  | r => r

end Readiness
