import Readiness.Json.Plain
import Readiness.Json.Reader
import Readiness.Json.Writer
import Readiness.Report.Basic

/-!
# Reports as documents

`toDocument` writes a report and `ofDocument` reads one back, without its findings.
-/

namespace Readiness

/-- What is wrong with a document, with the fields that it names. -/
inductive FormatFault
  | notObject (kind : String)
  | missing (place key : String)
  | wrongKind (place key expected given : String)
  | issueKind
  | analysesKind
  | factorRange (factor : Float)
  | scoreRange (score : Int)
  | unreadable (message : String)

def FormatFault.message : FormatFault → String
  | notObject kind => "report document must be an object, got " ++ kind
  | missing place key => place ++ ": missing field " ++ Text.quoted key
  | wrongKind place key expected given =>
    place ++ ": field " ++ Text.quoted key ++ " must be " ++ expected ++ ", got " ++ given
  | issueKind => "report: every issue must be a string"
  | analysesKind => "report: 'analyses' must be an object"
  | factorRange factor =>
    "analyses.monomorphization: specialization_factor " ++ Decimal.text factor
      ++ " outside [0, 1]"
  | scoreRange score => "report: score " ++ toString score ++ " outside [0, 100]"
  | unreadable message => "invalid JSON: " ++ message

/-- Why a document cannot be read. -/
inductive DocumentFault
  | format (fault : FormatFault)
  /-- A section that is a number cannot be asked for its fields. -/
  | bareSection
  /-- The failures are no list. -/
  | bareFailures
  /-- An integer in place of a share is too large for a double. -/
  | tooLarge
  /-- An integer with more digits than can be converted. -/
  | longInteger (digits : Nat)
  /-- An integer with more digits than can be written. -/
  | unwritable

namespace Report

def figures (summary : List (String × Quantity)) : Json :=
  .obj (summary.map fun (name, q) => (name, q.toJson))

def failureDocument (f : Failure) : Json :=
  .obj [("analysis", .str f.analysis), ("reason", .str f.reason), ("fatal", .bool f.isFatal)]

def sectionDocument (r : Report) (a : Analysis) : Json :=
  match r.summary? a with
  | some summary => figures summary
  | none => .obj [("failed", .str (r.absence a))]

def toDocument (r : Report) : Json :=
  .obj [("target", .str r.target), ("score", Json.ofNat r.score.value),
    ("ready_for_compilation", .bool r.isReady), ("issues", Json.ofTexts r.issues),
    ("analyses", .obj (Analysis.all.map fun a => (a.word, r.sectionDocument a))),
    ("failures", .arr (r.failures.map failureDocument)), ("timestamp", .str r.timestamp)]

abbrev Reading := Except DocumentFault

variable (place : String)

variable (doc : Json)

/-- A field of one kind. -/
def fieldOf (expected : String) (read? : Json → Option α) (key : String) : Reading α :=
  match doc.get? key with
  | none => .error (.format (.missing place key))
  | some value =>
    match read? value with
    | some a => .ok a
    | none => .error (.format (.wrongKind place key expected value.kind))

def intField : String → Reading Int := fieldOf place doc "int" Json.int?

def boolField : String → Reading Bool := fieldOf place doc "bool" Json.bool?

def textField : String → Reading Text := fieldOf place doc "str" Json.text?

def listField : String → Reading (List Json) := fieldOf place doc "list" Json.items?

/-- A field that is a double, or an integer that a double can hold. -/
def floatField (key : String) : Reading Float :=
  match doc.get? key with
  | some (.int i) => if (Decimal.ofInt i).isInf then .error .tooLarge else .ok (Decimal.ofInt i)
  | _ => fieldOf place doc "float" Json.float? key

def Specialisation.ofDocument : Reading Specialisation := do
  let place := "analyses.monomorphization"
  let factor ← floatField place doc "specialization_factor"
  if !(0.0 ≤ factor && factor ≤ 1.0) then throw (.format (.factorRange factor))
  let hasAbstract ← boolField place doc "has_abstract_types"
  let isComplete := ((doc.get? "can_fully_monomorphize").map Json.truth).getD false
  return { slots := [], hasAbstract, factor, isComplete }

def Escapes.ofDocument : Reading Escapes := do
  let place := "analyses.escapes"
  let count ← intField place doc "allocation_count"
  let promotable ← intField place doc "promotable"
  let savings ← intField place doc "savings_bytes"
  return { sites := [], count, promotable, savings }

def Dispatches.ofDocument : Reading Dispatches := do
  let place := "analyses.devirtualization"
  let dynamic ← intField place doc "total_dynamic_calls"
  let resolvable ← intField place doc "devirtualizable"
  return { sites := [], dynamic, resolvable }

def Constants.ofDocument : Reading Constants := do
  let place := "analyses.constants"
  let foldable ← intField place doc "foldable_expressions"
  let reduction ← floatField place doc "reduction_pct"
  return { candidates := [], foldable, reduction }

def Lifetimes.ofDocument : Reading Lifetimes := do
  let place := "analyses.lifetimes"
  let leaks ← intField place doc "potential_leaks"
  let doubleReleases ← intField place doc "potential_double_frees"
  let proper ← intField place doc "proper_frees"
  return { events := [], leaks, doubleReleases, proper }

def failedKey : Text := "failed"

/-- Whether a section says that its analysis failed; a number does not say. -/
def tellsFailure : Json → Reading Bool
  | .obj members => .ok (members.any fun m => m.1 == failedKey)
  | .arr items => .ok (items.any fun i => i.text? == some failedKey)
  | .str t => .ok (Text.occurs failedKey.points t.points)
  | _ => .error .bareSection

def sectionOf {α : Type} (read : Json → Reading α) (analyses : Json) (a : Analysis) :
    Reading (Option α) :=
  match analyses.get? a.word with
  | none | some .null => .ok none
  | some doc => do
    if ← tellsFailure doc then return none
    return some (← read doc)

def failureOf : Reading Failure := do
  let analysis ← textField "failures" doc "analysis"
  let reason ← textField "failures" doc "reason"
  return { analysis, reason, isFatal := ((doc.get? "fatal").map Json.truth).getD true }

def failureItems : Option Json → Reading (List Json)
  | none => .ok []
  | some (.arr items) => .ok items
  | some (.obj members) => .ok (members.map fun m => .str m.1)
  | some (.str t) => .ok (t.points.map fun p => .str (.singleton p))
  | some _ => .error .bareFailures

/-- The score; one out of range is written into the fault. -/
def scoreOf : Reading Score := do
  let points ← intField "report" doc "score"
  match Score.ofInt? points with
  | some score => return score
  | none => throw (if Decimal.isWritable points then .format (.scoreRange points) else .unwritable)

/-- The timestamp as a text, whatever it is. -/
def timestampOf : Reading Text :=
  match doc.get? "timestamp" with
  | none => .ok .empty
  | some part => if part.isWritable then .ok part.shown else .error .unwritable

def ofDocument : Reading Report := do
  match doc with
  | .obj _ => pure ()
  | other => throw (.format (.notObject other.kind))
  let place := "report"
  let listed ← listField place doc "issues"
  let issues ←
    match listed.mapM Json.text? with
    | some issues => pure issues
    | none => throw (.format .issueKind)
  let analyses := (doc.get? "analyses").getD (.obj [])
  match analyses with
  | .obj _ => pure ()
  | _ => throw (.format .analysesKind)
  let specialisation ← sectionOf Specialisation.ofDocument analyses .specialisation
  let escapes ← sectionOf Escapes.ofDocument analyses .escapes
  let dispatches ← sectionOf Dispatches.ofDocument analyses .dispatch
  let constants ← sectionOf Constants.ofDocument analyses .constants
  let lifetimes ← sectionOf Lifetimes.ofDocument analyses .lifetimes
  let failures ← (← failureItems (doc.get? "failures")).mapM failureOf
  let score ← scoreOf doc
  let target ← textField place doc "target"
  let isReady ← boolField place doc "ready_for_compilation"
  let timestamp ← timestampOf doc
  return { target, score, isReady, issues, specialisation, escapes, dispatches, constants
           lifetimes, failures, timestamp }

def read (text : Text) : Reading Report :=
  match Json.read text with
  | .ok doc => ofDocument doc
  | .error e =>
    match e.fault with
    | .longInteger digits => .error (.longInteger digits)
    | _ => .error (.format (.unreadable e.message))

end Report
end Readiness
