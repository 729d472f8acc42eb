import Readiness.Cache
import Readiness.Gate
import Readiness.Scoring

/-!
# Scanning a namespace

`scan` lists the targets, and `analyse` scores all of them.
-/

namespace Readiness.Scan

inductive Namespace
  /-- The module of the program. -/
  | module
  | cls (c : ClassRef)
  | names (entries : List (String × Entity))
  /-- A value that holds no names, by its class. -/
  | other (kind : String)

inductive Fault
  | notScannable (kind : String)
  | unhashable
  /-- Fewer than one function at a time. -/
  | workers

def Fault.message : Fault → String
  | notScannable kind => "cannot scan " ++ kind ++ "; expected a module, class or mapping"
  | unhashable => ""
  | workers => "max_workers must be greater than 0"

variable (image : Image)

/-- The registered argument types of a callable. -/
def registered : Entity → List (List TypeExpr)
  | .function id => ((image.function? id).map Image.Function.registered).getD []
  | .cached f => registered f
  | _ => []

def signatures (f : Entity) (skipFirst : Bool) : List (List TypeExpr) :=
  match registered image f with
  | [] => (image.declaredTypes? f skipFirst).toList
  | given => given

def isHidden (name : String) : Bool := name.startsWith "_"

def memberTargets (c : ClassRef) (name : String) (e : Entity) : List Target :=
  if isHidden name then []
  else
    match e with
    | .staticMethod f => (signatures image f false).map fun ts => ⟨f, ts⟩
    | f =>
      if f.isFunction then (signatures image f true).map fun ts => ⟨f, .cls c :: ts⟩ else []

def classTargets (c : ClassRef) : List Target :=
  match c with
  | .program p =>
    ((image.class? p).map fun info =>
      info.members.entries.flatMap fun (name, e) => memberTargets image c name e).getD []
  | _ => []

def namedTargets (name : String) (e : Entity) : List Target :=
  if isHidden name then []
  else
    match e with
    | .type (.cls c) => classTargets image c
    | f => if f.isFunction then (signatures image f false).map fun ts => ⟨f, ts⟩ else []

def isOwn : Entity → Bool
  | .function _ | .type (.cls (.program _)) => true
  | _ => false

def found : Namespace → Except Fault (List Target)
  | .module =>
    .ok ((image.globals.entries.filter fun e => isOwn e.2).flatMap fun (name, e) =>
      namedTargets image name e)
  | .cls c => .ok (classTargets image c)
  | .names entries => .ok (entries.flatMap fun (name, e) => namedTargets image name e)
  | .other kind => .error (.notScannable kind)

def distinct (ts : List Target) : List Target :=
  ts.foldl (fun done t => if done.any t.same then done else done ++ [t]) []

def scan (ns : Namespace) : Except Fault (List Target) := do
  let ts ← found image ns
  if ts.all Target.isHashable then return distinct ts else throw .unhashable

def Namespace.name : Namespace → String
  | module => "prog"
  | cls c => c.name
  | names _ => "dict"
  | other kind => kind

structure Summary where
  name : String
  threshold : Quantity
  results : List (Target × Report)
  /-- How many reports are stored afterwards. -/
  stored : Nat

namespace Summary

def reports (s : Summary) : List Report := s.results.map Prod.snd

def total (s : Summary) : Nat := s.results.length

def readyCount (s : Summary) : Nat := Gate.readyOf s.reports

def averageScore (s : Summary) : Nat :=
  if s.results.isEmpty then 0 else Decimal.roundDiv (Gate.scoreSum s.reports) s.total

def passRate (s : Summary) : Float :=
  if s.results.isEmpty then 0.0 else Decimal.nearest false (100 * s.readyCount) s.total

def problematic (s : Summary) : List (Target × Report) :=
  (s.results.filter fun (_, r) => (Quantity.whole r.score.value).below s.threshold).mergeSort
    fun a b => decide (a.2.score.value ≤ b.2.score.value)

end Summary

/-- Whether a number of workers is one: none asks for any number, and zero for the configured
one. -/
def acceptsWorkers (c : Config) (asked : Option Quantity) : Bool :=
  let given :=
    match asked with
    | some q => if q.compare? (.whole 0) == some Ordering.eq then c.workers else some q
    | none => c.workers
  match given with
  | some q => !q.atMost (.whole 0)
  | none => true

def scoreAll {σ ε : Type} (score : Target → σ → Except ε Report × σ) (now lifetime : Quantity)
    (cache : Cache Target Report) (state : σ) :
    List Target → (unnamed : Target → Option ε := fun _ => none) →
      List (Target × Except ε Report) × Cache Target Report × σ
  | [], _ => ([], cache, state)
  | t :: ts, unnamed =>
    let (result, cache, state) :=
      cache.fetch Target.same (fun r => !r.hasFailures) score t now lifetime 0 state unnamed
    let (rest, cache, state) := scoreAll score now lifetime cache state ts unnamed
    ((t, result) :: rest, cache, state)

def analyse (image : Image) (c : Config) (timestamp : String) (ns : Namespace)
    (threshold : Option Quantity) (workers : Option Quantity) : Except Fault Summary := do
  let targets ← scan image ns
  if !targets.isEmpty && !acceptsWorkers c workers then throw .workers
  let score (t : Target) (_ : Unit) : Except TypeFault Report × Unit :=
    (Scoring.assess image c timestamp {} t, ())
  let (results, cache, _) := scoreAll score (.whole 0) c.lifetime .empty () targets
    (Target.labelFault? image)
  let results ← results.mapM fun (t, r) =>
    match r with
    | .ok r => .ok (t, r)
    | .error .unhashable => .error .unhashable
  return { name := ns.name, threshold := threshold.getD c.threshold, results
           stored := cache.entries.length }

end Readiness.Scan
