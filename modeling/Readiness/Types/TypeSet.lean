import Readiness.Types.TypeExpr

/-!
# Type sets

A type set lists its members without repetition.  A value is concrete when its type
set has exactly one member and that member is concrete.
-/

namespace Readiness

abbrev TypeSet := List TypeExpr

inductive TypeFault
  | unhashable
  deriving Repr, DecidableEq

namespace TypeSet

def has (ts : TypeSet) (t : TypeExpr) : Bool := ts.any (TypeExpr.same t)

def insert (ts : TypeSet) (t : TypeExpr) : TypeSet := if ts.has t then ts else ts ++ [t]

/-- The members of both sets, those of the first one first. -/
def union (a b : TypeSet) : TypeSet := b.foldl insert a

def ofList (ts : List TypeExpr) : TypeSet := union [] ts

def subset (a b : TypeSet) : Bool := a.all b.has

def equal (a b : TypeSet) : Bool := subset a b && subset b a

def unknown : TypeSet := [TypeExpr.object]

def ofClass (c : ClassRef) : TypeSet := [.cls c]

def isUnknown (ts : TypeSet) : Bool := equal ts unknown

def single? : TypeSet → Option TypeExpr
  | [t] => some t
  | _ => none

/-- The union of two sets; with the class of all values it is nothing but that. -/
def join (a b : TypeSet) : TypeSet :=
  let merged := union a b
  if merged.has TypeExpr.object then unknown else merged

def joinAll (sets : List TypeSet) : TypeSet := sets.foldl join []

end TypeSet

namespace TypeExpr

/-- Whether the arguments of a generic start with a list of parameter types.  Such a list cannot be
a member of a set. -/
def listsParameters (origin : ClassRef) : List TypeExpr → Bool
  | [ellipsis, _] => false
  | _ => origin.takesParameters

def rebuilt (origin : ClassRef) (args : List TypeExpr) : TypeExpr :=
  if args.isEmpty then cls origin else generic origin args

/-- A type argument by its type set: its only alternative, or the argument itself when it has
several. -/
def normalise (t : TypeExpr) : TypeSet → TypeExpr
  | [m] => m
  | _ => t

mutual

def expand : TypeExpr → Except TypeFault TypeSet
  | none => .ok [noneType]
  | cls c => .ok (if c = ClassRef.any then TypeSet.unknown else [cls c])
  | bars members | union members => expandMembers members
  | generic origin args =>
    if listsParameters origin args then .error .unhashable
    else return [rebuilt origin (← normalised args)]
  | named _ origin args => return [rebuilt origin (← normalised args)]
  | annotated t metadata => do
    let head := normalise t (← expand t)
    return [rebuilt (.library "typing" "Annotated") (head :: (← normalised metadata))]
  | bare _ origin => .ok [cls origin]
  | t => if hashable t then .ok [t] else .error .unhashable

def expandMembers : List TypeExpr → Except TypeFault TypeSet
  | [] => .ok []
  | t :: ts => do
    let first ← expand t
    return TypeSet.union first (← expandMembers ts)

def normalised : List TypeExpr → Except TypeFault (List TypeExpr)
  | [] => .ok []
  | t :: ts => do
    let first := normalise t (← expand t)
    return first :: (← normalised ts)

end

mutual

def isResolvable : TypeExpr → Bool
  | none | cls _ => true
  | bars members | union members => allResolvable members
  | generic origin args => !listsParameters origin args && argsResolvable args
  | named _ _ args => argsResolvable args
  | bare _ _ => true
  | annotated t metadata => isResolvable t && argsResolvable metadata
  | _ => false

def allResolvable : List TypeExpr → Bool
  | [] => true
  | t :: ts => isResolvable t && allResolvable ts

def argsResolvable : List TypeExpr → Bool
  | [] => true
  | ellipsis :: ts => argsResolvable ts
  | t :: ts => isResolvable t && argsResolvable ts

end

mutual

/-- Whether values of exactly this type exist: a concrete class, or a generic whose class and
arguments are concrete. -/
def isConcrete : TypeExpr → Bool
  | cls c => c.isConcrete
  | generic origin args => origin.isConcrete && argsConcrete args
  | _ => false

def argsConcrete : List TypeExpr → Bool
  | [] => true
  | ellipsis :: ts => argsConcrete ts
  | t :: ts => isConcrete t && argsConcrete ts

end

def origin? : TypeExpr → Option ClassRef
  | cls c => some c
  | generic origin _ => some origin
  | _ => Option.none

def arguments : TypeExpr → List TypeExpr
  | generic _ args => args
  | _ => []

end TypeExpr

namespace TypeSet

def isConcrete : TypeSet → Bool
  | [t] => t.isConcrete
  | _ => false

def sortedNames (names : List String) : List String :=
  names.mergeSort fun a b => decide (a ≤ b)

def name (ts : TypeSet) : String :=
  if ts.isEmpty then "<none>"
  else if ts.isUnknown then "Any"
  else String.intercalate " | " (sortedNames (ts.map TypeExpr.typeName))

end TypeSet

/-- The name of an argument type in a label: several alternatives are listed in order. -/
def TypeExpr.labelName (t : TypeExpr) : Except TypeFault String := do
  let members ← t.expand
  if 1 < members.length then
    return String.intercalate " | " (TypeSet.sortedNames (members.map TypeExpr.typeName))
  else return t.typeName

end Readiness
