import Readiness.Types.TypeSet

/-!
# Types of parts and of arithmetic

`element` types what iteration gives, `subscript` what indexing gives, `container` a
collection of given members, and `arithmetic?` the operators on numbers and built-in sequences.
-/

namespace Readiness.TypeSet

/-- The only member of a set, unless it stands for nothing. -/
def known? (ts : TypeSet) : Option TypeExpr :=
  match ts with
  | [.none] => none
  | [t] => some t
  | _ => none

def definite? (ts : TypeSet) : Option TypeExpr :=
  match ts.known? with
  | some t => if t == TypeExpr.object then none else some t
  | none => none

def ofGeneric (origin : ClassRef) (args : List TypeExpr) : TypeSet := [.generic origin args]

def tupleMembers (args : List TypeExpr) : List TypeExpr :=
  args.filter fun a =>
    match a with
    | .ellipsis => false
    | _ => true

/-- The classes of views on dictionaries and of combined iterations, which know the type of
their members. -/
def yieldsArgument : ClassRef → Bool
  | .builtin n => ["list", "set", "frozenset", "dict", "zip", "dict_keys", "dict_values",
    "dict_items"].contains n
  | _ => false

def element (ts : TypeSet) : TypeSet :=
  match ts.known? with
  | some (.cls .range) => ofClass .int
  | some (.cls .str) => ofClass .str
  | some (.cls .bytes) | some (.cls .bytearray) => ofClass .int
  | some (.generic origin args) =>
    if origin = .tuple then
      match tupleMembers args with
      | [] => unknown
      | members => ofList members
    else
      match args with
      | [] => unknown
      | a :: _ =>
        if yieldsArgument origin then [a]
        else if origin = .builtin "enumerate" then ofGeneric .tuple [.cls .int, a]
        else unknown
  | _ => unknown

inductive Index
  | unknown
  | slice
  | constant (c : Const)

def Index.position? : Index → Option Int
  | constant c => c.integer?
  | _ => none

/-- The member of a tuple type at a position, counted from the end when negative. -/
def memberAt? (args : List TypeExpr) (i : Int) : Option TypeExpr :=
  if -(args.length : Int) ≤ i ∧ i < args.length then
    args[(if i < 0 then i + args.length else i).toNat]?
  else none

def subscript (ts : TypeSet) (index : Index) : TypeSet :=
  match ts.known?, index with
  | none, _ => unknown
  | some _, .slice => ts
  | some (.cls .str), _ => ofClass .str
  | some (.cls .bytes), _ | some (.cls .bytearray), _ => ofClass .int
  | some (.generic .list (a :: _)), _ => [a]
  | some (.generic .dict [_, v]), _ => [v]
  | some (.generic .tuple [a, .ellipsis]), _ => [a]
  | some (.generic .tuple (a :: as)), index =>
    match index.position?.bind (memberAt? (a :: as)) with
    | some t => [t]
    | none => ofList (tupleMembers (a :: as))
  | some _, _ => unknown

def container (origin : ClassRef) (members : List TypeSet) : TypeExpr :=
  if members.isEmpty then .cls origin
  else
    match (joinAll members).known? with
    | some t => .generic origin [if t.isConcrete then t else TypeExpr.object]
    | none => .generic origin [TypeExpr.object]

/-- The place of a number class among the number classes. -/
def rank? : TypeExpr → Option Nat
  | .cls .bool => some 0
  | .cls .int => some 1
  | .cls .float => some 2
  | .cls .complex => some 3
  | _ => none

def ofRank : Nat → ClassRef
  | 0 => .bool
  | 1 => .int
  | 2 => .float
  | _ => .complex

def isBitwise (sign : String) : Bool := ["<<", ">>", "&", "|", "^"].contains sign

/-- The result of an operator on two numbers: the wider class; the quotient of integers is
a double. -/
def numeric? (sign : String) (left right : TypeExpr) : Option ClassRef := do
  let wide := max (← rank? left) (← rank? right)
  let wide := if wide = 0 then 1 else wide
  if sign = "/" ∧ wide = 1 then some .float
  else if isBitwise sign ∧ wide ≠ 1 then none
  else if (sign = "//" ∨ sign = "%") ∧ wide = 3 then none
  else some (ofRank wide)

def isComparison (sign : String) : Bool :=
  ["==", "!=", "<", "<=", ">", ">=", "is", "is not", "in", "not in"].contains sign

/-- One type when both sides agree, and otherwise their common class. -/
def agreed (origin : ClassRef) (left right : TypeExpr) : TypeSet :=
  if left == right then [left] else ofClass origin

/-- The result of an operator on numbers and built-in collections. -/
def arithmetic? (sign : String) (left right : TypeExpr) : Option TypeSet :=
  match numeric? sign left right with
  | some c => some (ofClass c)
  | none =>
    match left.origin? with
    | none => none
    | some lo =>
      let both := right.origin? = some lo
      if sign = "+" ∧ both ∧ [ClassRef.str, .bytes, .list, .tuple].contains lo then
        some (agreed lo left right)
      else if sign = "*" ∧ [ClassRef.str, .bytes, .list].contains lo
          ∧ (right == .cls .int ∨ right == .cls .bool) then some [left]
      else if sign = "%" ∧ lo = .str then some (ofClass .str)
      else if ["|", "&", "-", "^"].contains sign ∧ [ClassRef.set, .frozenset].contains lo
          ∧ both then some (agreed lo left right)
      else none

end Readiness.TypeSet
