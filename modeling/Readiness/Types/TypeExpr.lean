import Readiness.Const.Order
import Readiness.Const.Text
import Readiness.Types.ClassRef

/-!
# Type expressions

`text` is the full text, `typeName` the name used in answers, `same` decides
agreement.
-/

namespace Readiness

inductive TypeExpr
  /-- The value that stands for nothing, in place of its class. -/
  | none
  | ellipsis
  | cls (c : ClassRef)
  /-- A generic written by its class, `list[int]`. -/
  | generic (origin : ClassRef) (args : List TypeExpr)
  /-- A generic written by a typing name, `typing.List[int]`. -/
  | named (name : String) (origin : ClassRef) (args : List TypeExpr)
  /-- A typing name without arguments, `typing.List`. -/
  | bare (name : String) (origin : ClassRef)
  /-- A union written with bars. -/
  | bars (members : List TypeExpr)
  /-- A union written by name. -/
  | union (members : List TypeExpr)
  /-- A type parameter; parameters of one name that were made apart have different marks. -/
  | param (name : String) (mark : List Nat)
  /-- A text in place of a type. -/
  | text (value : Text)
  /-- A reference by name that is still to be resolved. -/
  | forward (name : String)
  /-- A special form without arguments, `typing.Optional`. -/
  | form (name : String)
  /-- A special form with arguments, `typing.ClassVar[int]`. -/
  | applied (name : String) (args : List TypeExpr)
  | annotated (inner : TypeExpr) (metadata : List TypeExpr)
  | list (items : List TypeExpr)
  /-- A constant that is no type. -/
  | value (c : Const)
  /-- Another value that is no type, of which only its class and its text matter. -/
  | other (kind : ClassRef) (shown : String)
  deriving Inhabited

namespace TypeExpr

abbrev object : TypeExpr := .cls .object

@[match_pattern] abbrev any : TypeExpr := .cls ClassRef.any

@[match_pattern] abbrev noneType : TypeExpr := .cls ClassRef.noneType

mutual

def full : TypeExpr → String
  | none => "None"
  | ellipsis => "Ellipsis"
  | cls c => c.text
  | generic origin args =>
    origin.dotted
      ++ bracketed (if ClassRef.takesParameters origin then parameterInners args else inners args)
  | named name _ args =>
    "typing." ++ name
      ++ bracketed (if name = "Callable" then callableInners args else inners args)
  | bare name _ => "typing." ++ name
  | bars members => String.intercalate " | " (barInners members)
  | union members =>
    match members with
    | [noneType, b] => "typing.Optional[" ++ inner b ++ "]"
    | [a, noneType] => "typing.Optional[" ++ inner a ++ "]"
    | members => "typing.Union[" ++ String.intercalate ", " (inners members) ++ "]"
  | param name _ => "~" ++ name
  | text s => Text.quoted s
  | forward name => "ForwardRef(" ++ Text.quoted name ++ ")"
  | form name => "typing." ++ name
  | applied name args => "typing." ++ name ++ bracketed (inners args)
  | annotated t metadata =>
    "typing.Annotated[" ++ String.intercalate ", " (inner t :: fulls metadata) ++ "]"
  | list items => "[" ++ String.intercalate ", " (fulls items) ++ "]"
  | value c => c.text
  | other _ shown => shown

/-- Arguments between square brackets; no arguments are shown as `()`. -/
def bracketed (parts : List String) : String :=
  "[" ++ (if parts.isEmpty then "()" else String.intercalate ", " parts) ++ "]"

def inner : TypeExpr → String
  | ellipsis => "..."
  | cls c => c.dotted
  | t => full t

def inners : List TypeExpr → List String
  | [] => []
  | t :: ts => inner t :: inners ts

/-- The texts of the arguments of a callable type: the parameter list stands in brackets, unless
its only member is a list or a tuple. -/
def callableInners : List TypeExpr → List String
  | [] => []
  | list [list items] :: ts =>
    ("[" ++ String.intercalate ", " (fulls items) ++ "]") :: inners ts
  | list [value (.tuple cs)] :: ts => (Const.tuple cs).text :: inners ts
  | list items :: ts => ("[" ++ String.intercalate ", " (inners items) ++ "]") :: inners ts
  | t :: ts => inner t :: inners ts

/-- The texts of parameter types and result: the parameters stand in brackets, unless any will
do. -/
def parameterInners : List TypeExpr → List String
  | [] => []
  | [ellipsis, result] => ["...", inner result]
  | [list items, result] =>
    ["[" ++ String.intercalate ", " (fulls items) ++ "]", inner result]
  | t :: ts =>
    let parts := inner t :: inners ts
    ["[" ++ String.intercalate ", " parts.dropLast ++ "]", parts.getLast?.getD ""]

def barInners : List TypeExpr → List String
  | [] => []
  | noneType :: ts => "None" :: barInners ts
  | t :: ts => inner t :: barInners ts

def fulls : List TypeExpr → List String
  | [] => []
  | t :: ts => full t :: fulls ts

end

mutual

def typeName : TypeExpr → String
  | cls c => c.typeName
  | generic origin args =>
    origin.name ++ "[" ++ String.intercalate ", " (typeNames args) ++ "]"
  | t => full t

def typeNames : List TypeExpr → List String
  | [] => []
  | ellipsis :: ts => "..." :: typeNames ts
  | t :: ts => typeName t :: typeNames ts

end

def valueClass : TypeExpr → String
  | bars _ => "UnionType"
  | union _ => "Union"
  | value c => c.kind
  | _ => ""

def sameClass (a b : TypeExpr) : Bool := valueClass a == valueClass b

mutual

/-- Whether two type expressions agree: unions by their members in any order and spelling, all
else part by part. -/
def same : TypeExpr → TypeExpr → Bool
  | none, none | ellipsis, ellipsis => true
  | cls a, cls b => a == b
  | generic a as, generic b bs => a == b && sameAll as bs
  | named n a as, named m b bs => n == m && a == b && sameAll as bs
  | bare n a, bare m b => n == m && a == b
  | bars as, bars bs | bars as, union bs | union as, bars bs | union as, union bs =>
    within as bs && bs.all fun b => someAgrees as b
  | param a m, param b n => a == b && m == n
  | text a, text b | forward a, forward b | form a, form b => a == b
  | applied n as, applied m bs =>
    n == m && if n == "Literal" then literalsWithin as bs && bs.all fun b => someLiteral as b
      else sameAll as bs
  | annotated a as, annotated b bs => same a b && sameAll as bs
  | list as, list bs => sameAll as bs
  | value a, value b => Const.alike a b
  | other k a, other l b => k == l && a == b
  | _, _ => false
termination_by structural a => a

def sameAll : List TypeExpr → List TypeExpr → Bool
  | [], [] => true
  | a :: as, b :: bs => same a b && sameAll as bs
  | _, _ => false
termination_by structural as => as

def within : List TypeExpr → List TypeExpr → Bool
  | [], _ => true
  | a :: as, bs => bs.any (fun b => same a b) && within as bs
termination_by structural as => as

def someAgrees : List TypeExpr → TypeExpr → Bool
  | [], _ => false
  | a :: as, b => same a b || someAgrees as b
termination_by structural as => as

def literalsWithin : List TypeExpr → List TypeExpr → Bool
  | [], _ => true
  | a :: as, bs => bs.any (fun b => sameClass a b && same a b) && literalsWithin as bs
termination_by structural as => as

def someLiteral : List TypeExpr → TypeExpr → Bool
  | [], _ => false
  | a :: as, b => (sameClass a b && same a b) || someLiteral as b
termination_by structural as => as

end

instance : BEq TypeExpr := ⟨same⟩

mutual

def constHashable : Const → Bool
  | .list _ => false
  | .tuple xs => constsHashable xs
  | _ => true

def constsHashable : List Const → Bool
  | [] => true
  | c :: cs => constHashable c && constsHashable cs

end

mutual

def hashable : TypeExpr → Bool
  | list _ => false
  | value c => constHashable c
  | other kind _ => kind != .list && kind != .dict && kind != .set
  | generic _ args => allHashable args
  | named "Callable" _ (list items :: result) => allHashable items && allHashable result
  | named _ _ args => allHashable args
  | bars members | union members => allHashable members
  | applied _ args => allHashable args
  | annotated t metadata => hashable t && allHashable metadata
  | _ => true

def allHashable : List TypeExpr → Bool
  | [] => true
  | t :: ts => hashable t && allHashable ts

end

end TypeExpr
end Readiness
