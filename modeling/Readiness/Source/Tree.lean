import Readiness.Const.Basic

/-!
# Source trees

`Expr` and `Stmt` are the expressions and statements of the analysed language, each
with its place in the file.  Clauses of comprehensions, handlers, parameters and patterns have
types of their own.
-/

namespace Readiness.Source

/-- A place in the file: line and column.  Statements also know their last line. -/
structure Place where
  line : Nat
  column : Nat
  lastLine : Nat := 0
  deriving Repr, DecidableEq

inductive Context
  | load
  | store
  | del
  deriving Repr, DecidableEq

inductive BinaryOperator
  | add | sub | mult | div | floorDiv | mod | pow | matMult
  | lShift | rShift | bitAnd | bitOr | bitXor
  deriving Repr, DecidableEq

def BinaryOperator.sign : BinaryOperator → String
  | add => "+"
  | sub => "-"
  | mult => "*"
  | div => "/"
  | floorDiv => "//"
  | mod => "%"
  | pow => "**"
  | matMult => "@"
  | lShift => "<<"
  | rShift => ">>"
  | bitAnd => "&"
  | bitOr => "|"
  | bitXor => "^"

inductive UnaryOperator
  | neg | pos | invert | not
  deriving Repr, DecidableEq

def UnaryOperator.sign : UnaryOperator → String
  | neg => "neg"
  | pos => "pos"
  | invert => "~"
  | not => "not"

inductive ComparisonOperator
  | eq | notEq | lt | ltE | gt | gtE | is | isNot | member | notMember
  deriving Repr, DecidableEq

def ComparisonOperator.sign : ComparisonOperator → String
  | eq => "=="
  | notEq => "!="
  | lt => "<"
  | ltE => "<="
  | gt => ">"
  | gtE => ">="
  | is => "is"
  | isNot => "is not"
  | member => "in"
  | notMember => "not in"

structure ImportName where
  name : String
  asName : Option String
  deriving Repr, DecidableEq

mutual

inductive Expr
  | constant (place : Place) (value : Const)
  | name (place : Place) (id : String) (context : Context)
  | member (place : Place) (value : Expr) (attr : String)
  | subscript (place : Place) (value index : Expr)
  | starred (place : Place) (value : Expr)
  | tuple (place : Place) (items : List Expr)
  | list (place : Place) (items : List Expr)
  | set (place : Place) (items : List Expr)
  | dict (place : Place) (entries : List (Option Expr × Expr))
  | binary (place : Place) (left : Expr) (op : BinaryOperator) (right : Expr)
  | unary (place : Place) (op : UnaryOperator) (operand : Expr)
  /-- A conjunction or, when `disjunction` holds, a disjunction. -/
  | boolean (place : Place) (disjunction : Bool) (values : List Expr)
  | compare (place : Place) (left : Expr) (rest : List (ComparisonOperator × Expr))
  | conditional (place : Place) (test body orelse : Expr)
  | named (place : Place) (target : String) (targetPlace : Place) (value : Expr)
  | call (place : Place) (function : Expr) (args : List Expr) (keywords : List Keyword)
  | lambda (place : Place) (params : Params) (body : Expr)
  | listComp (place : Place) (item : Expr) (clauses : List Clause)
  | setComp (place : Place) (item : Expr) (clauses : List Clause)
  | generator (place : Place) (item : Expr) (clauses : List Clause)
  | dictComp (place : Place) (key value : Expr) (clauses : List Clause)
  | joined (place : Place) (values : List Expr)
  | formatted (place : Place) (value : Expr) (spec : Option Expr)
  | slice (place : Place) (lower upper step : Option Expr)
  | await (place : Place) (value : Expr)
  | yield (place : Place) (value : Option Expr)
  | yieldFrom (place : Place) (value : Expr)

inductive Keyword
  | mk (name : Option String) (value : Expr)

inductive Clause
  | mk (target iter : Expr) (conditions : List Expr)

inductive Param
  | mk (name : String) (hint : Option Expr)

inductive Params
  | mk (positionalOnly positional : List Param) (variadic : Option Param)
    (keywordOnly : List Param) (keywordDefaults : List (Option Expr))
    (keywordVariadic : Option Param) (defaults : List Expr)

end

mutual

inductive Stmt
  /-- An expression whose value is dropped. -/
  | discard (place : Place) (value : Expr)
  | pass (place : Place)
  | global (place : Place) (names : List String)
  | nonlocal (place : Place) (names : List String)
  | assign (place : Place) (targets : List Expr) (value : Expr)
  | annAssign (place : Place) (target hint : Expr) (value : Option Expr)
  | augAssign (place : Place) (target : Expr) (op : BinaryOperator) (value : Expr)
  | ret (place : Place) (value : Option Expr)
  | branch (place : Place) (test : Expr) (body orelse : List Stmt)
  | loop (place : Place) (test : Expr) (body orelse : List Stmt)
  | each (place : Place) (target iter : Expr) (body orelse : List Stmt)
  | asyncEach (place : Place) (target iter : Expr) (body orelse : List Stmt)
  | leave (place : Place)
  | proceed (place : Place)
  | check (place : Place) (test : Expr) (message : Option Expr)
  | raise (place : Place) (exception cause : Option Expr)
  | delete (place : Place) (targets : List Expr)
  | manage (place : Place) (items : List (Expr × Option Expr)) (body : List Stmt)
  | asyncManage (place : Place) (items : List (Expr × Option Expr)) (body : List Stmt)
  /-- A `try` statement; `star` marks the form that handles groups. -/
  | guarded (place : Place) (star : Bool) (body : List Stmt) (handlers : List Handler)
    (orelse finalbody : List Stmt)
  | function (place : Place) (isAsync : Bool) (name : String) (params : Params)
    (body : List Stmt) (decorators : List Expr) (returns : Option Expr)
  | classDef (place : Place) (name : String) (bases : List Expr) (keywords : List Keyword)
    (body : List Stmt) (decorators : List Expr)
  | importModules (place : Place) (names : List ImportName)
  | importFrom (place : Place) (module : Option String) (names : List ImportName) (level : Nat)
  | choose (place : Place) (subject : Expr) (cases : List Case)

inductive Handler
  | mk (place : Place) (type : Option Expr) (name : Option String) (body : List Stmt)

inductive Case
  | mk (pattern : Pattern) (guard : Option Expr) (body : List Stmt)

inductive Pattern
  | value (value : Expr)
  | capture (pattern : Option Pattern) (name : Option String)

end

def Expr.place : Expr → Place
  | constant p _ | name p _ _ | member p _ _ | subscript p _ _ | starred p _ | tuple p _
  | list p _ | set p _ | dict p _ | binary p _ _ _ | unary p _ _ | boolean p _ _ | compare p _ _
  | conditional p _ _ _ | named p _ _ _ | call p _ _ _ | lambda p _ _ | listComp p _ _
  | setComp p _ _ | generator p _ _ | dictComp p _ _ _ | joined p _ | formatted p _ _
  | slice p _ _ _ | await p _ | .yield p _ | yieldFrom p _ => p

def Stmt.place : Stmt → Place
  | discard p _ | pass p | global p _ | nonlocal p _ | assign p _ _ | annAssign p _ _ _
  | augAssign p _ _ _ | ret p _ | branch p _ _ _ | loop p _ _ _ | each p _ _ _ _
  | asyncEach p _ _ _ _ | leave p | proceed p | check p _ _ | raise p _ _ | delete p _
  | manage p _ _ | asyncManage p _ _ | guarded p _ _ _ _ _ | function p _ _ _ _ _ _
  | classDef p _ _ _ _ _ | importModules p _ | importFrom p _ _ _ | choose p _ _ => p

def Keyword.name? : Keyword → Option String
  | mk name _ => name

def Keyword.value : Keyword → Expr
  | mk _ value => value

def Params.allDefaults : Params → List Expr
  | mk _ _ _ _ keywordDefaults _ defaults => defaults ++ keywordDefaults.filterMap id

end Readiness.Source
