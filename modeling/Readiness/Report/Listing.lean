import Readiness.Json.Access
import Readiness.Report.Findings

/-!
# Sections with their findings

The document of a report holds figures only.  A listing shows a section in full: every finding,
then the figures.

`members` gives the listing of each section, and `ofJson` reads single findings, which
are checked as all findings are.
-/

namespace Readiness.Report

open Graph (Location)
open Json (exactText exactTexts field flag item text whole)

/-! ## Sections -/

def slotsToJson (slots : List Slot) : Json :=
  .arr (slots.map fun s =>
    .arr [Json.ofOption Json.ofNat s.position, .str s.name, .str s.typeName, .bool s.isConcrete])

def Specialisation.members (r : Specialisation) : List (Text × Json) :=
  [("slots", slotsToJson r.slots), ("abstract", Json.ofStrings (r.abstractSlots.map Slot.name)),
    ("instantiations", Json.ofStrings r.instances), ("has_abstract_types", .bool r.hasAbstract),
    ("specialization_factor", .float r.factor), ("can_fully_monomorphize", .bool r.isComplete)]

def Escapes.members (r : Escapes) : List (Text × Json) :=
  [("sites", .arr (r.sites.map fun s =>
      .arr [.int s.location.line, .str s.allocator, .bool s.escapes, .bool s.canPromote,
        Json.ofOption .int s.bytes, Json.ofTexts s.reasons])),
    ("allocation_count", .int r.count), ("promotable", .int r.promotable),
    ("savings_bytes", .int r.savings)]

def Dispatches.members (r : Dispatches) : List (Text × Json) :=
  [("sites", .arr (r.sites.map fun s =>
      .arr [.int s.location.line, .str s.callee, .bool s.isDynamic, .bool s.isResolvable])),
    ("total_dynamic_calls", .int r.dynamic), ("devirtualizable", .int r.resolvable)]

def Constants.members (r : Constants) : List (Text × Json) :=
  [("candidates", .arr (r.candidates.map fun c =>
      .arr [.int c.location.line, .bool c.isFoldable, .int c.contribution, .str c.description])),
    ("eliminable", .int r.eliminable), ("total", .int r.total),
    ("foldable_expressions", .int r.foldable), ("reduction_pct", .float r.reduction)]

def Lifetimes.members (r : Lifetimes) : List (Text × Json) :=
  [("events", .arr (r.events.map fun e =>
      .arr [.int e.location.line, .str e.kind.word, .int e.index, Json.ofOption .int e.pairedWith,
        .bool e.unmatched, .str e.name])),
    ("potential_leaks", .int r.leaks), ("potential_double_frees", .int r.doubleReleases),
    ("proper_frees", .int r.proper)]

/-! ## Findings -/

def locationOf (j : Json) : Location := ⟨text (item j 0), whole (item j 1), whole (item j 2)⟩

def AllocationSite.ofJson (j : Json) : Except FindingFault AllocationSite :=
  AllocationSite.checked
    { location := locationOf (field j "location"), escapes := flag (field j "escapes")
      canPromote := flag (field j "can_promote"), bytes := (field j "estimated_bytes").int?
      allocator := exactText (field j "allocator"), reasons := exactTexts (field j "reasons") }

def AllocationSite.toJson (s : AllocationSite) : Json :=
  .obj [("location", .str s.location.text), ("escapes", .bool s.escapes),
    ("can_promote", .bool s.canPromote), ("estimated_bytes", Json.ofOption .int s.bytes),
    ("allocator", .str s.allocator), ("reasons", Json.ofTexts s.reasons)]

def CallSite.ofJson (j : Json) : Except FindingFault CallSite :=
  CallSite.checked
    { location := locationOf (field j "location"), callee := exactText (field j "callee")
      isDynamic := flag (field j "is_dynamic"), isResolvable := flag (field j "devirtualizable") }

def CallSite.toJson (s : CallSite) : Json :=
  .obj [("location", .str s.location.text), ("callee", .str s.callee),
    ("is_dynamic", .bool s.isDynamic), ("devirtualizable", .bool s.isResolvable)]

def LifetimeEvent.ofJson (j : Json) : Except FindingFault LifetimeEvent := do
  let kind ← EventKind.ofWord (exactText (field j "kind"))
  return { location := locationOf (field j "location"), kind, index := whole (field j "index")
           pairedWith := (field j "paired_with").int?, unmatched := flag (field j "unmatched")
           name := exactText (field j "name") }

def LifetimeEvent.toJson (e : LifetimeEvent) : Json :=
  .obj [("location", .str e.location.text), ("kind", .str e.kind.word), ("index", .int e.index),
    ("paired_with", Json.ofOption .int e.pairedWith), ("unmatched", .bool e.unmatched),
    ("name", .str e.name)]

end Readiness.Report
