import Readiness.Lifetime.Path
import Readiness.Report.Findings

/-!
# Lifetimes of manual memory

`analyse` lists the manual allocations and releases in order with their partners, and
counts leaks, double releases and proper releases.  It may find a part missing.
-/

namespace Readiness.Lifetime

open Report (LifetimeEvent Lifetimes)
open Graph (MissingPart)

def undescribed? (g : Graph) : Option MissingPart :=
  g.statements.findSome? fun s => s.lacksAllocation? "manual" <|> s.lacksCall? "deallocates"

def transfers (values : Flow.Values) (allocations : List Graph.Statement) : List Int :=
  allocations.filterMap fun s =>
    if (values.escapeReasons s).any EscapeReason.isTransfer then some s.index else none

/-- What all paths of a function show; `limit` bounds the states at a block. -/
def observe (g : Graph) (values : Flow.Values) (limit : Option Nat) : Record :=
  let statements := g.statements
  walk g ⟨g.params, pointers statements, transfers values (statements.filter isAllocation)⟩ limit

def event (found : Record) (partner : Table Int Int) (s : Graph.Statement) : LifetimeEvent :=
  if isAllocation s then
    { location := s.location, kind := .allocates, index := s.index
      pairedWith := partner.get? s.index
      unmatched := found.leaks.contains s.index
      name := s.op }
  else
    { location := s.location, kind := .releases, index := s.index
      pairedWith := partner.get? s.index
      unmatched := found.doubleReleases.contains s.index
      name := (s.call.map Graph.CallInfo.calleeName).getD "" }

def manual (g : Graph) : List Graph.Statement :=
  g.statements.filter isAllocation ++ g.statements.filter isRelease

def summary (g : Graph) (found : Record) : Lifetimes :=
  let partner := partners found.pairs
  let ordered := (manual g).mergeSort fun a b => decide (a.index ≤ b.index)
  { events := ordered.map (event found partner)
    leaks := found.leaks.length
    doubleReleases := found.doubleReleases.length
    proper := (partner.size / 2 : Nat) }

def analyse (g : Graph) (values : Flow.Values) (limit : Option Nat) :
    Except MissingPart Lifetimes :=
  match undescribed? g with
  | some part => .error part
  | none =>
    if (manual g).isEmpty then .ok ⟨[], 0, 0, 0⟩
    else
      let found := observe g values limit
      match Flow.Values.missing? g <|> found.missing with
      | some part => .error part
      | none => .ok (summary g found)

end Readiness.Lifetime
