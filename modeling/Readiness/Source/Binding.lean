import Readiness.Source.Outline

/-!
# Names bound in a scope

`stored` collects the names that parts of a scope bind and `declared` those that they declare to
belong to an outer scope.  `privateName` gives the name that a name in a class stands for.
-/

namespace Readiness.Source

def firstPart (name : String) : String :=
  String.ofList (name.toList.takeWhile (· != '.'))

/-- The names that a construct binds itself. -/
def Label.stores : Label → List String
  | .expr (.name _ id .store) | .expr (.name _ id .del) | .assigned id => [id]
  | .stmt (.function _ _ name _ _ _ _) | .stmt (.classDef _ name _ _ _ _) => [name]
  | .stmt (.importModules _ names) => names.map fun n => n.asName.getD (firstPart n.name)
  | .stmt (.importFrom _ _ names _) => names.map fun n => n.asName.getD n.name
  | .handler name => name.toList.filter (· != "")
  | _ => []

/-- The names that a construct declares to belong to an outer scope. -/
def Label.declares : Label → List String
  | .stmt (.global _ names) | .stmt (.nonlocal _ names) => names
  | _ => []

mutual

def Outline.visited : Outline → List Label
  | .node label children _ => label :: visitedIn children

/-- The labels of all parts that are looked for names. -/
def visitedIn : List Outline → List Label
  | [] => []
  | o :: rest => (if o.scope = .around then o.visited else []) ++ visitedIn rest

end

def stored (parts : List Outline) : List String := (visitedIn parts).flatMap Label.stores

def declared (parts : List Outline) : List String := (visitedIn parts).flatMap Label.declares

def isPrivate (name : String) : Bool :=
  name.startsWith "__" && !name.endsWith "__" && !name.contains '.'

def plainName (owner : String) : String := String.ofList (owner.toList.dropWhile (· == '_'))

def privateName (owner : Option String) (name : String) : String :=
  match owner with
  | none => name
  | some owner =>
    if isPrivate name && !(plainName owner).isEmpty then "_" ++ plainName owner ++ name
    else name

end Readiness.Source
