import Readiness.Config.Basic
import Readiness.Dispatch
import Readiness.Escape
import Readiness.Folding.Analysis
import Readiness.Lifetime.Events
import Readiness.Report.Basic
import Readiness.Specialisation.Exploration

/-!
# Scoring a function

`compose` makes a report of the outcomes, and `assess` a report of a target.
-/

namespace Readiness.Scoring

inductive Fault
  /-- The analysis gave up; it may say under which name. -/
  | failed (reason : Text) (analysis : Option Text)
  /-- The analysis broke off with an error of a class. -/
  | crashed (kind : String) (text : Text)
  deriving Repr, DecidableEq

namespace Fault

def unknownName : Text := "unknown"

def reason : Fault → Text
  | failed reason _ => reason
  | crashed kind text => (kind ++ ": ") ++ text

def graphReason : Fault → Text
  | failed reason _ => "AnalysisFailure: " ++ reason
  | crashed kind text => (kind ++ ": ") ++ text

def analysis : Fault → Text
  | failed _ (some name) => name
  | _ => unknownName

def attributed (name : Text) : Fault → Fault
  | failed reason given =>
    let known := given.getD unknownName
    failed reason (some (if known = unknownName then name else known))
  | fault => fault

end Fault

def refusalReason : Refusal → String
  | .unavailable cause _ => cause.reason
  | .tooDeep depth place => (Refusal.tooDeep depth place).message
  | .defective d => d.kind ++ ": " ++ d.message

def Fault.ofRefusal (r : Refusal) : Fault := .failed (refusalReason r) none

def Fault.ofMissing (part : Graph.MissingPart) : Fault := .crashed part.kind part.message

def complete {α : Type} (missing : Option Graph.MissingPart) (found : α) : Except Fault α :=
  match missing with
  | some part => .error (.ofMissing part)
  | none => .ok found

structure Outcomes where
  specialisation : Except Fault Report.Specialisation
  escapes : Except Fault Report.Escapes
  dispatches : Except Fault Report.Dispatches
  constants : Except Fault Report.Constants
  lifetimes : Except Fault Report.Lifetimes

def faultOf? {α : Type} : Except Fault α → Option Fault
  | .ok _ => none
  | .error fault => some fault

def Outcomes.fault? (o : Outcomes) : Analysis → Option Fault
  | .specialisation => faultOf? o.specialisation
  | .escapes => faultOf? o.escapes
  | .dispatch => faultOf? o.dispatches
  | .constants => faultOf? o.constants
  | .lifetimes => faultOf? o.lifetimes

def Outcomes.failing (o : Outcomes) (a : Analysis) (fault : Fault) : Outcomes :=
  match a with
  | .specialisation => { o with specialisation := .error fault }
  | .escapes => { o with escapes := .error fault }
  | .dispatch => { o with dispatches := .error fault }
  | .constants => { o with constants := .error fault }
  | .lifetimes => { o with lifetimes := .error fault }

/-- Whether the failure of an analysis rules out that the function is ready. -/
def isFatal : Analysis → Bool
  | .constants => false
  | _ => true

def Outcomes.failures (o : Outcomes) : List Failure :=
  Analysis.all.filterMap fun a =>
    (o.fault? a).map fun fault => ⟨a.word, fault.reason, isFatal a⟩

/-- What is held against a function in one category: nothing when the analysis found nothing. -/
def complaint {α : Type} (outcome : Except Fault α) (issue : α → Option String) : Option String :=
  match outcome with
  | .ok found => issue found
  | .error _ => none

def abstractIssue (s : Report.Specialisation) : Option String :=
  if s.hasAbstract then some "Contains abstract types" else none

def allocationIssue (s : Report.Escapes) : Option String :=
  if s.count = 0 then none else some (toString s.count ++ " heap allocation(s)")

def dispatchIssue (s : Report.Dispatches) : Option String :=
  if s.dynamic = 0 then none else some (toString s.dynamic ++ " dynamic dispatch sites")

def lifetimeIssue (s : Report.Lifetimes) : Option String :=
  let leaks :=
    if s.leaks = 0 then [] else [toString s.leaks ++ " potential memory leak(s)"]
  let doubles :=
    if s.doubleReleases = 0 then []
    else [toString s.doubleReleases ++ " potential double free(s)"]
  match leaks ++ doubles with
  | [] => none
  | problems => some (String.intercalate ", " problems)

def Outcomes.issues (o : Outcomes) : List Text :=
  (o.failures.map fun f => Text.ofString "AnalysisFailed[" ++ f.analysis ++ "]: " ++ f.reason)
    ++ ([complaint o.specialisation abstractIssue, complaint o.escapes allocationIssue,
        complaint o.dispatches dispatchIssue, complaint o.lifetimes lifetimeIssue].filterMap
          id).map Text.ofString

structure Passed where
  abstractTypes : Bool
  allocations : Bool
  dynamicDispatch : Bool
  lifetimes : Bool
  constants : Bool
  deriving Repr, DecidableEq

def passes {α : Type} (outcome : Except Fault α) (issue : α → Option String) : Bool :=
  match outcome with
  | .ok found => (issue found).isNone
  | .error _ => false

def Outcomes.passed (o : Outcomes) : Passed :=
  { abstractTypes := passes o.specialisation abstractIssue
    allocations := passes o.escapes allocationIssue
    dynamicDispatch := passes o.dispatches dispatchIssue
    lifetimes := passes o.lifetimes lifetimeIssue
    constants := (faultOf? o.constants).isNone }

section Points

variable {ν : Type} [Add ν] [Mul ν] [OfNat ν 0] [OfNat ν 1]

def gain (passed : Bool) (weight sum : ν) : ν := if passed then sum + weight else sum

/-- The points of the categories that pass, over any kind of number. -/
def points (w : Weights ν) (p : Passed) : ν :=
  let sum := gain p.lifetimes w.lifetimes (gain p.dynamicDispatch w.dynamicDispatch
    (gain p.allocations w.allocations (gain p.abstractTypes w.abstractTypes 0)))
  sum + w.constants * (if p.constants then 1 else 0)

variable [LT ν] [DecidableLT ν] [OfNat ν 100]

def limited (points : ν) : ν :=
  let capped := if points < 100 then points else 100
  if 0 < capped then capped else 0

def scoreBy (nearest : ν → Int) (w : Weights ν) (p : Passed) : Score :=
  Score.clamp (nearest (limited (points w p)))

/-- The report of the outcomes, where `nearest` rounds the points to a score. -/
def composeBy (nearest : ν → Int) (w : Weights ν) (threshold : Quantity)
    (target timestamp : String) (o : Outcomes) : Report :=
  let score := scoreBy nearest w o.passed
  { target, score
    isReady := threshold.atMost (.whole score.value) && !(o.failures.any Failure.isFatal)
    issues := o.issues
    specialisation := o.specialisation.toOption, escapes := o.escapes.toOption
    dispatches := o.dispatches.toOption, constants := o.constants.toOption
    lifetimes := o.lifetimes.toOption, failures := o.failures, timestamp }

end Points

def roundPoints (points : Float) : Int := (Decimal.roundToInt? points).getD 0

def compose (c : Config) (target timestamp : String) (o : Outcomes) : Report :=
  composeBy roundPoints c.weights c.threshold target timestamp o

def withoutGraph (target timestamp : String) (reason : Text) : Report :=
  { target, score := .zero, isReady := false, issues := ["AnalysisFailed: " ++ reason]
    failures := [⟨Failure.graphName, reason, true⟩], timestamp }

def limits (c : Config) : Inference.Limits :=
  ⟨c.nestingDepth.floor?, c.callDepth.floor?, some Lowering.standardStack⟩

/-- What each analysis finds in the graph of a target. -/
def outcomes (image : Image) (c : Config) (t : Target) (g : Graph)
    (session : Inference.Session) : Outcomes :=
  let values := Flow.Values.ofGraph g
  let explored := ((Specialisation.analyse image (limits c) t g).run).run session
  { specialisation :=
      match explored.1 with
      | .ok found => .ok found
      | .error r => .error (.ofRefusal r)
    escapes := complete (Escape.missing? g) (Escape.analyse g values)
    dispatches := complete (Dispatch.missing? g) (Dispatch.analyse image g)
    constants :=
      (Folding.analyse Bounds.standard g).mapError fun e => .crashed e.kind e.message
    lifetimes := (Lifetime.analyse g values c.paths.ceiling?).mapError .ofMissing }

/-- Faults that occur whatever the function is, to see how failures are reported. -/
structure Disturbance where
  graph : Option Fault := none
  analyses : List (Analysis × Fault) := []

/-- The report on a target; a target without a name has none. -/
def assess (image : Image) (c : Config) (timestamp : String) (d : Disturbance) (t : Target) :
    Except TypeFault Report := do
  let label ← t.label image
  match d.graph with
  | some fault => return withoutGraph label timestamp fault.graphReason
  | none =>
    match ((Inference.build image (limits c) t).run).run .empty with
    | (.error r, _) => return withoutGraph label timestamp (refusalReason r)
    | (.ok g, session) =>
      let found := outcomes image c t g session
      return compose c label timestamp
        (d.analyses.foldl (fun o (a, fault) => o.failing a fault) found)

end Readiness.Scoring
