import Readiness.Json.Plain
import Readiness.Json.Reader
import Readiness.Quantity

/-!
# Faults of a configuration

`ConfigFault` lists why a configuration is refused; `message` words the causes that
are worded.
-/

namespace Readiness

inductive ConfigFault
  | unknownKeys (keys : List Json)
  | unknownWeights (keys : List Json)
  /-- A text in place of a weight that reads as no number. -/
  | weightText (text : Text)
  /-- An integer in place of a weight that no double can hold. -/
  | weightRange
  | negativeWeight (name : String) (value : Float)
  | weightSum (total : Float)
  | threshold (value : Quantity)
  | lifetime (value : Quantity)
  /-- A setting below one. -/
  | tooSmall (name : String) (value : Quantity)
  /-- Something else in place of a number, a list of weights or a list of settings. -/
  | wrongKind
  /-- A list in place of weights by name. -/
  | withoutNames
  /-- A list of names in place of settings by name, with the length of the first name. -/
  | notPairs (length : Nat)
  | missingFile
  /-- An integer with more digits than can be converted. -/
  | longInteger (digits : Nat)
  | unreadable (path message : String)
  | notObject (path : String)

namespace ConfigFault

def listed (keys : List Json) : String := (Json.arr keys).plain

/-- The wording of a fault; causes that lie in the kind of a value have none. -/
def message : ConfigFault → String
  | unknownKeys keys => "unknown configuration key(s): " ++ listed keys
  | unknownWeights keys => "unknown scoring weight(s): " ++ listed keys
  | weightText text => "could not convert string to float: " ++ Text.quoted text
  | negativeWeight name value =>
    "weight " ++ Text.quoted name ++ " must be >= 0, got " ++ Decimal.text value
  | weightSum total => "scoring weights must sum to 100, got " ++ Decimal.significant total
  | threshold value => "ready_threshold must be within [0, 100], got " ++ value.text
  | lifetime value => "cache_ttl must be >= 0, got " ++ value.text
  | tooSmall name value => name ++ " must be >= 1, got " ++ value.text
  | unreadable path message => path ++ ": invalid JSON (" ++ message ++ ")"
  | notObject path => path ++ ": expected a JSON object at top level"
  | weightRange | wrongKind | withoutNames => ""
  | notPairs length =>
    "dictionary update sequence element #0 has length " ++ toString length ++ "; 2 is required"
  | longInteger digits => (Json.Fault.longInteger digits).message
  | missingFile => ""

end ConfigFault
end Readiness
