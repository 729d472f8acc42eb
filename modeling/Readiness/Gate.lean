import Readiness.FileName
import Readiness.Json.Writer
import Readiness.Report.Basic

/-!
# Quality gate

The gate passes when there are reports, none of them has a failure, and both figures,
rounded to integers, are high enough; otherwise it gives its reasons.  `markdown` and `summary`
write the reports down for a build server.
-/

namespace Readiness

structure Gate where
  passed : Bool
  total : Nat
  readyCount : Nat
  readyPercent : Nat
  averageScore : Nat
  reasons : List Text := []
  deriving Repr, DecidableEq

namespace Gate

/-- The least share of ready functions unless another is asked for. -/
def standardReadyPercent : Quantity := .whole 80

def standardAverage : Quantity := .whole 70

variable (reports : List Report)

def readyOf : Nat := reports.countP Report.isReady

def scoreSum : Nat :=
  (reports.map fun r => r.score.value).foldl (· + ·) 0

def reasonsFor (minReady minAverage : Quantity) : List Text :=
  let total := reports.length
  let ready := readyOf reports
  let percent := Decimal.roundDiv (100 * ready) total
  let average := Decimal.roundDiv (scoreSum reports) total
  let failed := reports.filter Report.hasFailures
  (if failed.isEmpty then []
   else [Text.ofString (toString failed.length ++ " target(s) with analysis failures: ")
      ++ .join ", " (failed.map Report.target)])
  ++ (if (Quantity.whole percent).below minReady then
        [Text.ofString ("ready percentage too low: " ++ toString percent ++ "% < "
          ++ minReady.text ++ "% (" ++ toString (total - ready) ++ "/" ++ toString total
          ++ " not ready)")]
      else [])
  ++ (if (Quantity.whole average).below minAverage then
        let below := reports.countP fun r => (Quantity.whole r.score.value).below minAverage
        [Text.ofString ("average score too low: " ++ toString average ++ " < "
          ++ minAverage.text ++ " (" ++ toString below ++ " target(s) below threshold)")]
      else [])

/-- Compares reports with the two limits. -/
def evaluate (minReady minAverage : Quantity) : Gate :=
  if reports.isEmpty then
    { passed := false, total := 0, readyCount := 0, readyPercent := 0, averageScore := 0
      reasons := ["no targets analysed"] }
  else
    let reasons := reasonsFor reports minReady minAverage
    { passed := reasons.isEmpty, total := reports.length, readyCount := readyOf reports
      readyPercent := Decimal.roundDiv (100 * readyOf reports) reports.length
      averageScore := Decimal.roundDiv (scoreSum reports) reports.length, reasons }

def toJson (g : Gate) : Json :=
  .obj [("passed", .bool g.passed), ("total", Json.ofNat g.total),
    ("ready_count", Json.ofNat g.readyCount), ("ready_percent", Json.ofNat g.readyPercent),
    ("average_score", Json.ofNat g.averageScore), ("reasons", Json.ofTexts g.reasons)]

def focusScore : Nat := 80

/-- How often each issue occurs, in the order of first occurrence. -/
def issueCounts : List (Text × Nat) :=
  let issues := reports.flatMap Report.issues
  issues.eraseDups.map fun i => (i, issues.count i)

/-- Issues by how often they occur, the most frequent first. -/
def byFrequency (counts : List (Text × Nat)) : List (Text × Nat) :=
  counts.mergeSort fun a b => decide (b.2 ≤ a.2)

def ranked : List Report :=
  reports.mergeSort fun a b => decide (b.score.value ≤ a.score.value)

def status (g : Gate) : String :=
  if g.total ≠ 0 ∧ g.readyCount = g.total then "✅ All Ready"
  else if g.total ≠ 0 ∧ g.total ≤ 2 * g.readyCount then "⚠️ Partially Ready"
  else "❌ Not Ready"

def row (r : Report) : Text :=
  .ofString "| `" ++ r.target
    ++ .ofString ("` | " ++ toString r.score.value ++ "/100 | "
      ++ (if r.isReady then "✅" else "❌") ++ " | ")
    ++ (if r.issues.isEmpty then .ofString "-" else .join ", " r.issues) ++ .ofString " |"

def issueLines (counts : List (Text × Nat)) : List Text :=
  if counts.isEmpty then []
  else
    [.ofString "## Common Issues", .empty]
      ++ (byFrequency counts).map (fun (issue, n) =>
          Text.ofString "- **" ++ issue ++ .ofString ("**: " ++ toString n ++ " function(s)"))
      ++ [.empty]

def focusLines (r : Report) : List Text :=
  if !r.isReady && decide (r.score.value < focusScore) then
    [.ofString "### `" ++ r.target
        ++ .ofString ("` (Score: " ++ toString r.score.value ++ "/100)")]
      ++ r.issues.map (fun i => .ofString "- " ++ i) ++ [.empty]
  else []

def markdown (timestamp : String) : Text :=
  let g := evaluate reports standardReadyPercent standardAverage
  let total := toString g.total
  let ready := toString g.readyCount
  let best := ranked reports
  let head : List String :=
    ["# Native Compilation Readiness Report", "", "Generated: " ++ timestamp, "", "## Summary", "",
      "- **Total Functions**: " ++ total,
      "- **Ready for Compilation**: " ++ ready ++ " (" ++ ready ++ "/" ++ total ++ ", "
        ++ toString g.readyPercent ++ "%)",
      "- **Average Score**: " ++ toString g.averageScore ++ "/100", "",
      "**Status**: " ++ g.status, "", "## Function Analysis", "",
      "| Function | Score | Status | Issues |", "|----------|-------|--------|--------|"]
  let advice : List Text :=
    if g.total ≠ 0 ∧ g.readyCount = g.total then ["✅ All functions are ready for compilation!"]
    else [.ofString "Focus on fixing:", .empty] ++ best.flatMap focusLines
  .join "\n"
    (head.map Text.ofString ++ best.map row ++ [.empty] ++ issueLines (issueCounts reports)
      ++ [.ofString "## Recommendations", .empty] ++ advice)
    ++ .ofString "\n"

/-- The share of ready reports in percent, with two places. -/
def passRate (ready total : Nat) : Float :=
  if total = 0 then 0.0
  else Decimal.roundPlaces 2 (Decimal.nearest false (100 * ready) total)

def summary (timestamp : String) : Json :=
  let g := evaluate reports standardReadyPercent standardAverage
  let functions := reports.foldl (fun members r =>
    Json.setMember r.target
      (.obj [("score", Json.ofNat r.score.value), ("ready", .bool r.isReady),
        ("issues", Json.ofTexts r.issues)]) members) []
  .obj [("timestamp", .str timestamp), ("total_functions", Json.ofNat g.total),
    ("ready_functions", Json.ofNat g.readyCount), ("average_score", Json.ofNat g.averageScore),
    ("pass_rate", .float (passRate g.readyCount g.total)), ("functions", .obj functions),
    ("issue_summary",
      .obj ((issueCounts reports).map fun (issue, n) => (issue, Json.ofNat n)))]

def summaryText (timestamp : String) : String :=
  Json.write (.indented 2) (summary reports timestamp)

def blockedMessage (target : Text) (score : Int) (issues : List Text) : Text :=
  target ++ .ofString (" is not ready for native compilation (score " ++ toString score ++ "/100): ")
    ++ (if issues.isEmpty then .ofString "below threshold" else .join "; " issues)

def require (r : Report) : Except Text Report :=
  if r.isReady then .ok r else .error (blockedMessage r.target r.score.value r.issues)

end Gate
end Readiness
