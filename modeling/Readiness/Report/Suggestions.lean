import Readiness.Report.Basic

/-!
# Suggestions

What to do about a report: for the function as a whole, for allocations that could
live on the stack, and for allocations that are not released.
-/

namespace Readiness.Report

def wellOptimised : Nat := 95

def stackSuggestions (section? : Option Escapes) : List Text :=
  match section? with
  | none => []
  | some escapes =>
    (escapes.sites.filter fun s => s.canPromote && !s.escapes).map fun s =>
      "Stack-promote allocation at " ++ s.location.text ++ " (~"
        ++ ((s.bytes.map fun (b : Int) => toString b).getD "None") ++ " bytes)"

def lifetimeSuggestions (section? : Option Lifetimes) : List Text :=
  match section? with
  | none => []
  | some lifetimes =>
    (lifetimes.events.filter fun e => e.kind == .allocates && e.unmatched).map fun e =>
      "Add free() for allocation at " ++ e.location.text

def advice {α : Type} (section? : Option α) (applies : α → Bool) (words : String) : List Text :=
  if (section?.map applies).getD false then [words] else []

/-- Suggestions for the function as a whole, the most effective first. -/
def suggestions (r : Report) : List Text :=
  if r.isReady && decide (wellOptimised ≤ r.score.value) then []
  else
    advice r.specialisation Specialisation.hasAbstract
        "Replace abstract types with concrete types or type parameters"
      ++ advice r.escapes (fun s => s.count != 0)
        "Replace heap allocations with stack or manual memory management"
      ++ advice r.dispatches (fun s => s.dynamic != 0)
        "Reduce dynamic dispatch by using concrete types"
      ++ advice r.lifetimes (fun s => s.leaks != 0) "Add free() calls for all manual allocations"
      ++ advice r.lifetimes (fun s => s.doubleReleases != 0) "Remove duplicate free() calls"
      ++ r.failures.map fun f =>
          Text.ofString "Investigate failed " ++ f.analysis ++ Text.ofString " analysis: " ++ f.reason

end Readiness.Report
