import Readiness.Flow.Values
import Readiness.Report.Findings

/-!
# Escaping allocations

`analyse` lists the allocations by place; `missing?` names the part that a statement
lacks for it.
-/

namespace Readiness.Escape

open Report (AllocationSite Escapes)

def notAfter (a b : AllocationSite) : Bool :=
  decide (a.location.line < b.location.line)
    || (a.location.line == b.location.line
        && decide (a.location.column ≤ b.location.column))

def site (values : Flow.Values) (s : Graph.Statement) (info : Graph.AllocationInfo) :
    AllocationSite :=
  let reasons := values.escapeReasons s
  { location := s.location
    escapes := !reasons.isEmpty
    canPromote := reasons.isEmpty && info.size.isSome
    bytes := info.size
    allocator := info.allocator
    reasons := (TypeSet.sortedNames (reasons.map EscapeReason.text)).map Text.ofString }

def analyse (g : Graph) (values : Flow.Values) : Escapes :=
  let sites := g.statements.filterMap fun s =>
    if s.kind = .allocation then s.allocation.map (site values s) else none
  Escapes.ofSites (sites.mergeSort notAfter)

def missing? (g : Graph) : Option Graph.MissingPart :=
  Flow.Values.missing? g <|> g.statements.findSome? fun s => s.lacksAllocation? "size_bytes"

end Readiness.Escape
