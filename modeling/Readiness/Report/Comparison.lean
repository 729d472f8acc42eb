import Readiness.Report.Basic

/-!
# Comparing reports

A comparison gives the change of the score and of every figure that both reports have,
over any kind of number, and the issues that came and went.
-/

namespace Readiness

structure Comparison (ν : Type) where
  oldTarget : Text
  newTarget : Text
  scoreDelta : Int
  metricDeltas : List (String × ν)
  addedIssues : List Text
  removedIssues : List Text
  wasReady : Bool
  isReady : Bool

namespace Comparison

def readinessChanged {ν : Type} (c : Comparison ν) : Bool := c.wasReady != c.isReady

def improved {ν : Type} (c : Comparison ν) : Bool :=
  decide (0 < c.scoreDelta) || (c.isReady && !c.wasReady)

def regressed {ν : Type} (c : Comparison ν) : Bool :=
  decide (c.scoreDelta < 0) || (c.wasReady && !c.isReady)

def members (c : Comparison Float) : List (Text × Json) :=
  [("old_target", .str c.oldTarget), ("new_target", .str c.newTarget),
    ("score_delta", .int c.scoreDelta),
    ("metric_deltas", .obj (c.metricDeltas.map fun (n, x) => (n, .float x))),
    ("added_issues", Json.ofTexts c.addedIssues),
    ("removed_issues", Json.ofTexts c.removedIssues), ("old_ready", .bool c.wasReady),
    ("new_ready", .bool c.isReady)]

end Comparison

namespace Report

def metrics (r : Report) : List (String × Quantity) :=
  Analysis.all.flatMap fun a =>
    ((r.summary? a).getD []).map fun (name, q) => (a.word ++ "." ++ name, q)

def metricDeltas {ν : Type} (sub : ν → ν → ν) (old new : List (String × ν)) :
    List (String × ν) :=
  old.filterMap fun (name, before) =>
    (new.lookup name).map fun after => (name, sub after before)

def issuesBeyond (r other : Report) : List Text :=
  r.issues.filter fun i => !other.issues.contains i

def compareBy {ν : Type} (sub : ν → ν → ν) (figures : Report → List (String × ν))
    (old new : Report) : Comparison ν :=
  { oldTarget := old.target, newTarget := new.target
    scoreDelta := (new.score.value : Int) - old.score.value
    metricDeltas := metricDeltas sub (figures old) (figures new)
    addedIssues := new.issuesBeyond old, removedIssues := old.issuesBeyond new
    wasReady := old.isReady, isReady := new.isReady }

def isTooLarge (q : Quantity) : Bool :=
  match q with
  | .real _ => false
  | q => q.toFloat.isInf

def compare? (old new : Report) : Option (Comparison Float) :=
  if (old.metrics ++ new.metrics).any fun m => isTooLarge m.2 then none
  else
    some (compareBy (· - ·) (fun r => r.metrics.map fun (name, q) => (name, q.toFloat)) old new)

end Report
end Readiness
