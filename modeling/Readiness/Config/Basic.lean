import Readiness.Config.Weights
import Readiness.Text.Stored

/-!
# Configurations

A configuration holds the weights of the score, the score from which a function is
ready, and the limits of the analyses.  `Config.checked` accepts settings within their ranges;
`Config.ofJson` and `Config.load` read them by name, where a setting that is left out keeps its
standard value.
-/

namespace Readiness

structure Config where
  weights : Weights Float
  /-- The least score of a ready function. -/
  threshold : Quantity
  /-- How long a report is kept, in seconds. -/
  lifetime : Quantity
  /-- How deep calls are followed. -/
  callDepth : Quantity
  /-- How deep source may nest. -/
  nestingDepth : Quantity
  /-- How many states the analysis of lifetimes keeps per block. -/
  paths : Quantity
  /-- How many functions are analysed at a time. -/
  workers : Option Quantity

namespace Config

def standard : Config :=
  { weights := Weights.standard, threshold := .whole 80, lifetime := .real 300.0
    callDepth := .whole 16, nestingDepth := .whole 64, paths := .whole 64, workers := none }

instance : Inhabited Config := ⟨standard⟩

structure Draft where
  weights : Weights Float
  threshold : Json
  lifetime : Json
  callDepth : Json
  nestingDepth : Json
  paths : Json
  workers : Json

def draft (c : Config) : Draft :=
  { weights := c.weights, threshold := c.threshold.toJson, lifetime := c.lifetime.toJson
    callDepth := c.callDepth.toJson, nestingDepth := c.nestingDepth.toJson
    paths := c.paths.toJson, workers := Json.ofOption Quantity.toJson c.workers }

def number (j : Json) : Except ConfigFault Quantity :=
  match Quantity.ofJson? j with
  | some q => .ok q
  | none => .error .wrongKind

def positive (name : String) (j : Json) : Except ConfigFault Quantity := do
  let q ← number j
  if q.below (.whole 1) then throw (.tooSmall name q)
  return q

def thresholdOf (j : Json) : Except ConfigFault Quantity := do
  let q ← number j
  if (Quantity.whole 0).atMost q && q.atMost (.whole 100) then return q
  throw (.threshold q)

def lifetimeOf (j : Json) : Except ConfigFault Quantity := do
  let q ← number j
  if q.below (.whole 0) then throw (.lifetime q)
  return q

/-- Settings within their ranges; the first one that is not is refused. -/
def checked (d : Draft) : Except ConfigFault Config := do
  let threshold ← thresholdOf d.threshold
  let lifetime ← lifetimeOf d.lifetime
  let callDepth ← positive "max_call_depth" d.callDepth
  let nestingDepth ← positive "max_nesting_depth" d.nestingDepth
  let paths ← positive "max_paths_per_block" d.paths
  let workers ←
    match d.workers with
    | .null => pure none
    | j => do pure (some (← positive "max_workers" j))
  return { weights := d.weights, threshold, lifetime, callDepth, nestingDepth, paths, workers }

def names : List String :=
  ["weights", "ready_threshold", "cache_ttl", "max_call_depth", "max_nesting_depth",
    "max_paths_per_block", "max_workers"]

def Draft.replace (d : Draft) (setting : Text × Json) : Except ConfigFault Draft :=
  match setting.1.string with
  | "weights" => do return { d with weights := ← Weights.ofJson setting.2 }
  | "ready_threshold" => .ok { d with threshold := setting.2 }
  | "cache_ttl" => .ok { d with lifetime := setting.2 }
  | "max_call_depth" => .ok { d with callDepth := setting.2 }
  | "max_nesting_depth" => .ok { d with nestingDepth := setting.2 }
  | "max_paths_per_block" => .ok { d with paths := setting.2 }
  | "max_workers" => .ok { d with workers := setting.2 }
  | _ => .error .wrongKind

def replace (c : Config) (changes : List (Text × Json)) : Except ConfigFault Config := do
  checked (← changes.foldlM Draft.replace c.draft)

def ofMembers (members : List (Text × Json)) : Except ConfigFault Config := do
  match ← Weights.strangers names (members.map fun m => .str m.1) with
  | [] => standard.replace members
  | unknown => throw (.unknownKeys unknown)

def ofKeys (keys : List Json) : Except ConfigFault Config := do
  match ← Weights.strangers names keys, keys with
  | [], [] => return standard
  | [], first :: _ => throw (.notPairs (first.shown).length)
  | unknown, _ => throw (.unknownKeys unknown)

def ofJson : Json → Except ConfigFault Config
  | .obj members => ofMembers members
  | .arr items => ofKeys items
  | .str t => ofKeys (t.points.map fun p => .str (.singleton p))
  | _ => .error .wrongKind

def load (path : String) (text : Option Text) : Except ConfigFault Config :=
  match text with
  | none => .error .missingFile
  | some text =>
    match Json.read text.asRead with
    | .error e =>
      match e.fault with
      | .longInteger digits => .error (.longInteger digits)
      | _ => .error (.unreadable path e.message)
    | .ok (.obj members) => ofMembers members
    | .ok _ => .error (.notObject path)

def toJson (c : Config) : Json :=
  .obj [("weights", c.weights.toJson), ("ready_threshold", c.threshold.toJson),
    ("cache_ttl", c.lifetime.toJson), ("max_call_depth", c.callDepth.toJson),
    ("max_nesting_depth", c.nestingDepth.toJson), ("max_paths_per_block", c.paths.toJson),
    ("max_workers", Json.ofOption Quantity.toJson c.workers)]

end Config
end Readiness
