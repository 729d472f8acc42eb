import Readiness.FileName
import Readiness.Report.Document
import Readiness.Text.Stored

/-!
# Histories of reports

`append` and `read` keep records in order; `trend` sums up the scores of records.
-/

namespace Readiness

structure Record where
  timestamp : Text
  target : Text
  report : Report

inductive LineFault
  | unreadable (message : String)
  | notObject
  | missing (key : String)
  | format (fault : FormatFault)

def LineFault.message : LineFault → String
  | unreadable message => "invalid JSON (" ++ message ++ ")"
  | notObject => "expected an object"
  | missing key => "missing field " ++ Text.quoted key
  | format fault => fault.message

inductive HistoryFault
  /-- A faulty line of a file, numbered from one. -/
  | line (path : String) (number : Nat) (fault : LineFault)
  /-- A report whose fields cannot be asked for. -/
  | document (fault : DocumentFault)

def HistoryFault.message : HistoryFault → String
  | line path number fault => path ++ ":" ++ toString number ++ ": " ++ fault.message
  | document _ => ""

namespace Record

def toDocument (r : Record) : Json :=
  .obj [("timestamp", .str r.timestamp), ("target", .str r.target),
    ("report", r.report.toDocument)]

def line (r : Record) : String := Json.write .compact r.toDocument ++ "\n"

end Record

namespace History

def append (file : Option Text) (r : Record) : Text := file.getD .empty ++ .ofString r.line

def isBlankPoint : Point → Bool
  | .char c => Text.isBlank c
  | .surrogate _ => false

def isBlankLine (line : Text) : Bool := line.points.all isBlankPoint

def fieldNames : List String := ["timestamp", "target", "report"]

def recordOf (key : Option Text) (line : Text) :
    Except (LineFault ⊕ DocumentFault) (Option Record) :=
  match Json.read line with
  | .error e =>
    match e.fault with
    | .longInteger digits => .error (.inr (.longInteger digits))
    | _ => .error (.inl (.unreadable e.message))
  | .ok doc =>
    match doc with
    | .obj members =>
      match fieldNames.find? fun n => !(members.any fun m => m.1 == Text.ofString n) with
      | some n => .error (.inl (.missing n))
      | none =>
        let target := (doc.get? "target").getD .null
        if (key.map fun k => target.text? != some k).getD false then .ok none
        else
          match Report.ofDocument ((doc.get? "report").getD .null) with
          | .ok report =>
            .ok (some ⟨((doc.get? "timestamp").getD .null).shown, target.shown, report⟩)
          | .error (.format fault) => .error (.inl (.format fault))
          | .error fault => .error (.inr fault)
    | _ => .error (.inl .notObject)

def recordsOf (path : String) (key : Option Text) :
    Nat → List Text → Except HistoryFault (List Record)
  | _, [] => .ok []
  | number, line :: rest =>
    if isBlankLine line then recordsOf path key (number + 1) rest
    else
      match recordOf key line with
      | .error (.inl fault) => .error (.line path number fault)
      | .error (.inr fault) => .error (.document fault)
      | .ok none => recordsOf path key (number + 1) rest
      | .ok (some r) => do return r :: (← recordsOf path key (number + 1) rest)

def read (path : String) (file : Option Text) (key : Option Text) :
    Except HistoryFault (List Record) :=
  match file with
  | none => .ok []
  | some text => recordsOf (FileName.normal path) key 1 text.lines

structure Trend where
  scores : List Nat
  current : Nat
  best : Nat
  worst : Nat
  average : Nat
  totalChange : Int
  recentChange : Int
  deriving Repr, DecidableEq

def Trend.direction (t : Trend) : String :=
  if 0 < t.recentChange then "up" else if t.recentChange < 0 then "down" else "flat"

def Trend.toJson (t : Trend) : Json :=
  .obj [("scores", .arr (t.scores.map Json.ofNat)), ("current", Json.ofNat t.current),
    ("best", Json.ofNat t.best), ("worst", Json.ofNat t.worst),
    ("average", Json.ofNat t.average), ("total_change", .int t.totalChange),
    ("recent_change", .int t.recentChange), ("direction", .str t.direction)]

/-- The trend of scores, the oldest first; none without scores. -/
def trendOf : List Nat → Option Trend
  | [] => none
  | first :: rest =>
    let scores := first :: rest
    let current := rest.getLast?.getD first
    let before := scores.dropLast.getLast?.getD current
    some
      { scores, current
        best := rest.foldl max first
        worst := rest.foldl min first
        average := Decimal.roundDiv (scores.foldl (· + ·) 0) scores.length
        totalChange := (current : Int) - first
        recentChange := (current : Int) - before }

def trend (records : List Record) : Option Trend :=
  trendOf (records.map fun r => r.report.score.value)

end History
end Readiness
