import Readiness.Report.Basic

/-!
# Reports as text

`text` shows a report in lines for a reader.
-/

namespace Readiness.Report

def rule : String := String.ofList (List.replicate 72 '=')

def nameWidth : Nat := 17

def padded (name : String) : String :=
  name ++ String.ofList (List.replicate (nameWidth - name.length) ' ')

def analysisLine (r : Report) (a : Analysis) : Text :=
  let shown : Text :=
    match r.summary? a with
    | some figures =>
      Text.ofString
        (String.intercalate ", " (figures.map fun (name, q) => name ++ "=" ++ q.text))
    | none => Text.ofString "FAILED: " ++ r.absence a
  Text.ofString ("  " ++ padded a.word ++ " ") ++ shown

def lines (r : Report) : List Text :=
  [.ofString rule, .ofString "NATIVE COMPILATION READINESS",
    .ofString "Target        : " ++ r.target,
    .ofString ("Score         : " ++ toString r.score.value ++ " / 100  ("
      ++ (if r.isReady then "READY" else "NOT READY") ++ ")"),
    .ofString "Analysed at   : " ++ r.timestamp, .ofString rule, .empty, .ofString "ANALYSES:"]
  ++ Analysis.all.map r.analysisLine
  ++ [.empty, .ofString ("ISSUES (" ++ toString r.issues.length ++ "):")]
  ++ (if r.issues.isEmpty then [.ofString "  none"]
      else r.issues.map fun i => Text.ofString "  - " ++ i)
  ++ [.ofString rule]

def text (r : Report) : Text := .join "\n" r.lines

end Readiness.Report
