import Readiness.Types.TypeSet

/-!
# Forming type expressions

An expression with parameters takes types in their place.

`subscripted` and `barred?` fail exactly where forming the expression is refused.
-/

namespace Readiness.TypeExpr

/-- A parameter type: nothing stands for its class, a text for a reference by name. -/
def parameter : TypeExpr → TypeExpr
  | none => noneType
  | text t => forward t.string
  | t => t

def argument? : TypeExpr → Option TypeExpr
  | none => some noneType
  | text t => some (forward t.string)
  | form "NoReturn" => some (form "NoReturn")
  | form _ | applied "ClassVar" _ | applied "Final" _ | annotated (form "ClassVar") _
  | annotated (form "Final") _ | cls (.library "typing" "Protocol") | value (.tuple _)
  | other .tuple _ => Option.none
  | t => some t

def attached? : TypeExpr → Option TypeExpr
  | form "ClassVar" => some (form "ClassVar")
  | form "Final" => some (form "Final")
  | applied name args => some (applied name args)
  | annotated t metadata => some (annotated t metadata)
  | t => argument? t

def arguments? (args : List TypeExpr) : Option (List TypeExpr) := args.mapM argument?

/-- The members of a union, nested unions taken apart. -/
def flattened : List TypeExpr → List TypeExpr
  | [] => []
  | bars ms :: ts | union ms :: ts => ms ++ flattened ts
  | t :: ts => t :: flattened ts

def distinct (ts : List TypeExpr) : List TypeExpr := TypeSet.ofList ts

def namedUnion? (members : List TypeExpr) : Option TypeExpr := do
  match distinct (flattened (← arguments? members)) with
  | [] => Option.none
  | [t] => some t
  | ts => some (union ts)

/-- How many arguments a typing name takes; none when any number will do. -/
def arity? : String → Option Nat
  | "Dict" | "DefaultDict" | "Mapping" => some 2
  | "Tuple" => Option.none
  | _ => some 1

def ofConst : Const → TypeExpr
  | .none => none
  | .ellipsis => ellipsis
  | .str s => text s
  | c => value c

def callable? (args : List TypeExpr) : Option (List TypeExpr) :=
  match args with
  | [list [ellipsis], result] => do return [ellipsis, ← argument? result]
  | [list items, result] => do return [list (items.map parameter), ← argument? result]
  | [value (.tuple cs), result] => do
    return [list (cs.map fun c => (ofConst c).parameter), ← argument? result]
  | [ellipsis, result] => do return [ellipsis, ← argument? result]
  | [p, result] => do return [list [parameter p], ← argument? result]
  | _ => Option.none

def parameters? : List TypeExpr → Option (List TypeExpr)
  | [list items, result] => some (items ++ [result])
  | [value (.tuple cs), result] => some (cs.map ofConst ++ [result])
  | [ellipsis, result] => some [ellipsis, result]
  | _ => Option.none

/-- The values of a literal type: nested ones taken apart, repetitions dropped where all values can
be members of a set. -/
def literals (args : List TypeExpr) : List TypeExpr :=
  let flat := args.flatMap fun a =>
    match a with
    | applied "Literal" vs => vs
    | a => [a]
  if allHashable flat then
    flat.foldl (fun done a => if someLiteral done a then done else done ++ [a]) []
  else flat

def takesArguments : ClassRef → Bool
  | .builtin n =>
    ["list", "tuple", "dict", "set", "frozenset", "type", "enumerate", "BaseExceptionGroup",
      "ExceptionGroup"].contains n
  | .library m n =>
    m == "collections" || (m == "collections.abc") || (m == "os" && n == "PathLike")
  | _ => false

/-- Whether a side of a bar is a class, a generic by its class, or a union with bars. -/
def isBarred : TypeExpr → Bool
  | cls _ | generic _ _ | bars _ => true
  | _ => false

/-- Whether a side of a bar turns the bar into a union by name. -/
def isNamed : TypeExpr → Bool
  | named _ _ _ | bare _ _ | union _ | param _ _ | forward _ | annotated _ _ | applied _ _
  | form _ => true
  | _ => false

def barred? (a b : TypeExpr) : Option TypeExpr :=
  if isNamed a || isNamed b then namedUnion? [a, b]
  else
    let sided (t : TypeExpr) : Bool :=
      match t with
      | none => true
      | t => isBarred t
    if sided a && sided b && (isBarred a || isBarred b) then
      let members := [a, b].map fun t =>
        match t with
        | none => noneType
        | t => t
      match distinct (flattened members) with
      | [t] => some t
      | ts => some (bars ts)
    else Option.none

inductive Malformed
  /-- The arguments are refused. -/
  | refused
  /-- Something is attached to a value that has no module. -/
  | featureless
  deriving Repr, DecidableEq

def accepted : Option TypeExpr → Except Malformed TypeExpr
  | some t => .ok t
  | Option.none => .error .refused

def attachedTo (t : TypeExpr) (metadata : List TypeExpr) : Except Malformed TypeExpr :=
  match t with
  | annotated inner before => .ok (annotated inner (before ++ metadata))
  | ellipsis | value _ | list _ => .error .featureless
  | t => .ok (annotated t metadata)

mutual

def params : TypeExpr → List TypeExpr
  | param name mark => [param name mark]
  | generic _ args => paramsOf args
  | named "Callable" _ (list items :: rest) => paramsOf items ++ paramsOf rest
  | named _ _ args => paramsOf args
  | bars members | union members => paramsOf members
  | annotated t _ => params t
  | applied _ args => paramsOf args
  | _ => []

def paramsOf : List TypeExpr → List TypeExpr
  | [] => []
  | t :: ts => params t ++ paramsOf ts

end

mutual

def substitute (given : List (TypeExpr × TypeExpr)) : TypeExpr → Except Malformed TypeExpr
  | param name mark =>
    match given.find? fun g => same g.1 (param name mark) with
    | some g => accepted (argument? g.2)
    | Option.none => .ok (param name mark)
  | generic origin args => return generic origin (← substituteAll given args)
  | named "Callable" origin (list items :: rest) => do
    let items ← substituteAll given items
    return named "Callable" origin (list items :: (← substituteAll given rest))
  | named name origin args => return named name origin (← substituteAll given args)
  | bars members => do
    match ← substituteAll given members with
    | [] => .error .refused
    | t :: ts => ts.foldlM (fun a b => accepted (barred? a b)) t
  | union members => do accepted (namedUnion? (← substituteAll given members))
  | annotated t metadata => do attachedTo (← substitute given t) metadata
  | applied name args => return applied name (← substituteAll given args)
  | t => .ok t

def substituteAll (given : List (TypeExpr × TypeExpr)) :
    List TypeExpr → Except Malformed (List TypeExpr)
  | [] => .ok []
  | t :: ts => do
    let first ← substitute given t
    return first :: (← substituteAll given ts)

end

def specialised (t : TypeExpr) (args : List TypeExpr) : Except Malformed TypeExpr :=
  let free := distinct (params t)
  if free.isEmpty || free.length != args.length then .error .refused
  else substitute (free.zip args) t

/-- The arguments between square brackets: a tuple alone stands for its members. -/
def spread : List TypeExpr → List TypeExpr
  | [value (.tuple cs)] => cs.map ofConst
  | args => args

def subscripted (head : TypeExpr) (args : List TypeExpr) : Except Malformed TypeExpr :=
  let args := spread args
  match head with
  | cls (.library "typing" "Annotated") =>
    match args with
    | t :: m :: ms => do attachedTo (← accepted (attached? t)) (m :: ms)
    | _ => .error .refused
  | cls c =>
    if c.takesParameters then accepted ((parameters? args).map (generic c))
    else if takesArguments c then .ok (generic c args)
    else .error .refused
  | bare "Callable" origin => accepted ((callable? args).map (named "Callable" origin))
  | bare name origin =>
    match arguments? args, arity? name with
    | some converted, some n =>
      if converted.length = n then .ok (named name origin converted) else .error .refused
    | some converted, Option.none => .ok (named name origin converted)
    | Option.none, _ => .error .refused
  | form "Optional" =>
    match args with
    | [t] => accepted (namedUnion? [t, none])
    | _ => .error .refused
  | form "Union" => if args.isEmpty then .error .refused else accepted (namedUnion? args)
  | form "Literal" => .ok (applied "Literal" (literals args))
  | form "ClassVar" =>
    match args with
    | [t] => accepted ((argument? t).map fun t => applied "ClassVar" [t])
    | _ => .error .refused
  | form "Final" =>
    match args with
    | [t] => accepted ((argument? t).map fun t => applied "Final" [t])
    | _ => .error .refused
  | form _ | param _ _ => .error .refused
  | t => specialised t args

def subscripted? (head : TypeExpr) (args : List TypeExpr) : Option TypeExpr :=
  (subscripted head args).toOption

def stripped : TypeExpr → TypeExpr
  | annotated t _ => stripped t
  | generic origin args => generic origin (strippedAll args)
  | named name origin args => named name origin (strippedAll args)
  | bars members => bars (strippedAll members)
  | union members => union (strippedAll members)
  | applied name args => applied name (strippedAll args)
  | list items => list (strippedAll items)
  | t => t
where
  /-- Removes it from each expression of a list. -/
  strippedAll : List TypeExpr → List TypeExpr
    | [] => []
    | t :: ts => stripped t :: strippedAll ts

end Readiness.TypeExpr
