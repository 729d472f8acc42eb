import Readiness.Graph.Statement

/-!
# Findings of the analyses

Each analysis gives a section: its findings with the counts that summarise them.  The
counts are fields of their own, because a section read back from a document has no findings.
-/

namespace Readiness.Report

open Graph (Location)

inductive FindingFault
  | escapesAndPromotes (place : Location)
  | promotesWithoutSize (place : Location)
  | resolvableButStatic (place : Location)
  | eventKind (kind : Text)
  deriving Repr, DecidableEq

def FindingFault.message : FindingFault → String
  | escapesAndPromotes place =>
    "allocation at " ++ place.text ++ " cannot both escape and be promotable"
  | promotesWithoutSize place =>
    "allocation at " ++ place.text ++ " is promotable but has no size"
  | resolvableButStatic place =>
    "call site at " ++ place.text ++ " is devirtualizable but not dynamic"
  | eventKind kind =>
    "lifetime event kind must be 'alloc' or 'free', got " ++ Text.quoted kind

structure AllocationSite where
  location : Location
  escapes : Bool
  canPromote : Bool
  bytes : Option Int
  allocator : Text := .empty
  reasons : List Text := []
  deriving Repr, DecidableEq

def AllocationSite.checked (s : AllocationSite) : Except FindingFault AllocationSite :=
  if s.canPromote && s.escapes then .error (.escapesAndPromotes s.location)
  else if s.canPromote && s.bytes.isNone then .error (.promotesWithoutSize s.location)
  else .ok s

structure Escapes where
  sites : List AllocationSite
  count : Int
  promotable : Int
  savings : Int
  deriving Repr, DecidableEq, Inhabited

def Escapes.ofSites (sites : List AllocationSite) : Escapes :=
  let promotable := sites.filter AllocationSite.canPromote
  { sites, count := sites.length, promotable := promotable.length
    savings := (promotable.filterMap AllocationSite.bytes).foldl (· + ·) 0 }

structure CallSite where
  location : Location
  callee : Text
  isDynamic : Bool
  isResolvable : Bool
  deriving Repr, DecidableEq

def CallSite.checked (s : CallSite) : Except FindingFault CallSite :=
  if s.isResolvable && !s.isDynamic then .error (.resolvableButStatic s.location) else .ok s

structure Dispatches where
  sites : List CallSite
  /-- Dynamic calls that stay dynamic. -/
  dynamic : Int
  /-- Dynamic calls with one possible callee. -/
  resolvable : Int
  deriving Repr, DecidableEq, Inhabited

def Dispatches.ofSites (sites : List CallSite) : Dispatches :=
  { sites
    dynamic := (sites.filter fun s => s.isDynamic && !s.isResolvable).length
    resolvable := (sites.filter CallSite.isResolvable).length }

/-- A parameter, or a local name without position, with its type. -/
structure Slot where
  position : Option Nat
  name : String
  typeName : String
  isConcrete : Bool
  deriving Repr, DecidableEq

structure Specialisation where
  slots : List Slot
  hasAbstract : Bool
  factor : Float
  isComplete : Bool
  instances : List String := []
  deriving Inhabited

def Specialisation.abstractSlots (s : Specialisation) : List Slot :=
  s.slots.filter fun p => !p.isConcrete

/-- An expression that may be computed before running. -/
structure Candidate where
  location : Location
  isFoldable : Bool
  contribution : Int
  description : String := ""
  deriving Repr, DecidableEq

structure Constants where
  candidates : List Candidate
  foldable : Int
  reduction : Float
  eliminable : Int := 0
  total : Int := 0
  deriving Inhabited

inductive EventKind
  | allocates
  | releases
  deriving Repr, DecidableEq

def EventKind.word : EventKind → String
  | allocates => "alloc"
  | releases => "free"

def EventKind.ofWord (w : Text) : Except FindingFault EventKind :=
  if w = Text.ofString EventKind.allocates.word then .ok .allocates
  else if w = Text.ofString EventKind.releases.word then .ok .releases
  else .error (.eventKind w)

structure LifetimeEvent where
  location : Location
  kind : EventKind
  index : Int
  pairedWith : Option Int := none
  unmatched : Bool := false
  name : Text := .empty
  deriving Repr, DecidableEq

structure Lifetimes where
  events : List LifetimeEvent
  leaks : Int
  doubleReleases : Int
  proper : Int
  deriving Repr, DecidableEq, Inhabited

end Readiness.Report
