import Readiness.Quantity
import Readiness.Report.Findings

/-!
# Readiness reports

A report gives the score of a function, its issues, and the section of every analysis
that was completed.  An analysis without section has a failure, or the function has a failure of its
own.
-/

namespace Readiness

inductive Analysis
  | specialisation
  | escapes
  | dispatch
  | constants
  | lifetimes
  deriving Repr, DecidableEq

namespace Analysis

def all : List Analysis := [.specialisation, .escapes, .dispatch, .constants, .lifetimes]

def word : Analysis → String
  | specialisation => "monomorphization"
  | escapes => "escapes"
  | dispatch => "devirtualization"
  | constants => "constants"
  | lifetimes => "lifetimes"

def ofWord? (w : String) : Option Analysis := all.find? fun a => a.word == w

end Analysis

structure Score where
  value : Nat
  value_le : value ≤ 100 := by decide
  deriving Repr, DecidableEq

namespace Score

instance : Inhabited Score := ⟨{ value := 0 }⟩

def zero : Score := { value := 0 }

def ofInt? (i : Int) : Option Score :=
  if h : i.toNat ≤ 100 then if 0 ≤ i then some ⟨i.toNat, h⟩ else none else none

def clamp (i : Int) : Score := ⟨min 100 i.toNat, Nat.min_le_left 100 i.toNat⟩

def rangeMessage (i : Int) : String := "score must be within [0, 100], got " ++ toString i

end Score

/-- An analysis that was not completed; `ir` stands for the flow graph itself. -/
structure Failure where
  analysis : Text
  reason : Text
  isFatal : Bool := true
  deriving Repr, DecidableEq

def Failure.graphName : String := "ir"

structure Report where
  target : Text
  score : Score
  isReady : Bool
  issues : List Text := []
  specialisation : Option Report.Specialisation := none
  escapes : Option Report.Escapes := none
  dispatches : Option Report.Dispatches := none
  constants : Option Report.Constants := none
  lifetimes : Option Report.Lifetimes := none
  failures : List Failure := []
  timestamp : Text

namespace Report

def Specialisation.summary (s : Specialisation) : List (String × Quantity) :=
  [("has_abstract_types", .flag s.hasAbstract), ("specialization_factor", .real s.factor),
    ("can_fully_monomorphize", .flag s.isComplete)]

def Escapes.summary (s : Escapes) : List (String × Quantity) :=
  [("allocation_count", .whole s.count), ("promotable", .whole s.promotable),
    ("savings_bytes", .whole s.savings)]

def Dispatches.summary (s : Dispatches) : List (String × Quantity) :=
  [("total_dynamic_calls", .whole s.dynamic), ("devirtualizable", .whole s.resolvable)]

def Constants.summary (s : Constants) : List (String × Quantity) :=
  [("foldable_expressions", .whole s.foldable), ("reduction_pct", .real s.reduction)]

def Lifetimes.summary (s : Lifetimes) : List (String × Quantity) :=
  [("potential_leaks", .whole s.leaks), ("potential_double_frees", .whole s.doubleReleases),
    ("proper_frees", .whole s.proper)]

def summary? (r : Report) : Analysis → Option (List (String × Quantity))
  | .specialisation => r.specialisation.map Specialisation.summary
  | .escapes => r.escapes.map Escapes.summary
  | .dispatch => r.dispatches.map Dispatches.summary
  | .constants => r.constants.map Constants.summary
  | .lifetimes => r.lifetimes.map Lifetimes.summary

def hasFailures (r : Report) : Bool := !r.failures.isEmpty

def hasFatalFailure (r : Report) : Bool := r.failures.any Failure.isFatal

def failureFor (r : Report) (analysis : Text) : Option Failure :=
  match r.failures.find? fun f => f.analysis == analysis with
  | some f => some f
  | none => r.failures.find? fun f => f.analysis == Text.ofString Failure.graphName

def absence (r : Report) (a : Analysis) : Text :=
  match r.failureFor a.word with
  | some f => f.reason
  | none => "not run"

end Report
end Readiness
