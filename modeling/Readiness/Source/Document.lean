import Readiness.Const.Document
import Readiness.Source.Tree

/-!
# Syntax trees in documents

A node of a document is an array: the name of its kind, the lines and columns of its place if the
kind has one, then its parts in a fixed order.

`Source.moduleOfJson` reads the statements of a module.
-/

namespace Readiness.Source

open Json (item items text texts natural present)

def binaryOperatorOf : String → BinaryOperator
  | "Add" => .add
  | "Sub" => .sub
  | "Mult" => .mult
  | "Div" => .div
  | "FloorDiv" => .floorDiv
  | "Mod" => .mod
  | "Pow" => .pow
  | "MatMult" => .matMult
  | "LShift" => .lShift
  | "RShift" => .rShift
  | "BitAnd" => .bitAnd
  | "BitOr" => .bitOr
  | _ => .bitXor

def unaryOperatorOf : String → UnaryOperator
  | "USub" => .neg
  | "UAdd" => .pos
  | "Invert" => .invert
  | _ => .not

def comparisonOf : String → ComparisonOperator
  | "Eq" => .eq
  | "NotEq" => .notEq
  | "Lt" => .lt
  | "LtE" => .ltE
  | "Gt" => .gt
  | "GtE" => .gtE
  | "Is" => .is
  | "IsNot" => .isNot
  | "In" => .member
  | _ => .notMember

def contextOf : String → Context
  | "Load" => .load
  | "Store" => .store
  | _ => .del

def importNameOf (j : Json) : ImportName := ⟨text (item j 1), (item j 2).str?⟩

def exprPlace (j : Json) : Place := ⟨natural (item j 1), natural (item j 2), 0⟩

def stmtPlace (j : Json) : Place := ⟨natural (item j 1), natural (item j 3), natural (item j 2)⟩

section Parts

variable (read : Json → Expr)

def keywordOf (j : Json) : Keyword := .mk (item j 1).str? (read (item j 2))

def clauseOf (j : Json) : Clause :=
  .mk (read (item j 1)) (read (item j 2)) ((items (item j 3)).map read)

def paramOf (j : Json) : Param := .mk (text (item j 1)) (present read (item j 2))

def paramsOf (j : Json) : Params :=
  .mk ((items (item j 1)).map (paramOf read)) ((items (item j 2)).map (paramOf read))
    (present (paramOf read) (item j 3)) ((items (item j 4)).map (paramOf read))
    ((items (item j 5)).map (present read)) (present (paramOf read) (item j 6))
    ((items (item j 7)).map read)

def managedOf (j : Json) : Expr × Option Expr := (read (item j 1), present read (item j 2))

def handlerOf (block : Json → List Stmt) (j : Json) : Handler :=
  .mk (stmtPlace j) (present read (item j 4)) (item j 5).str? (block (item j 6))

end Parts

def exprOf : Nat → Json → Expr
  | 0, j => .constant (exprPlace j) .none
  | n + 1, j =>
    let p := exprPlace j
    let a := item j 3
    let b := item j 4
    let c := item j 5
    let all (j : Json) : List Expr := (items j).map (exprOf n)
    let part (j : Json) : Option Expr := present (exprOf n) j
    let clauses (j : Json) : List Clause := (items j).map (clauseOf (exprOf n))
    match text (item j 0) with
    | "Constant" => .constant p (Const.ofJson a)
    | "Name" => .name p (text a) (contextOf (text b))
    | "Attribute" => .member p (exprOf n a) (text b)
    | "Subscript" => .subscript p (exprOf n a) (exprOf n b)
    | "Starred" => .starred p (exprOf n a)
    | "Tuple" => .tuple p (all a)
    | "List" => .list p (all a)
    | "Set" => .set p (all a)
    | "Dict" => .dict p (((items a).map part).zip (all b))
    | "BinOp" => .binary p (exprOf n a) (binaryOperatorOf (text b)) (exprOf n c)
    | "UnaryOp" => .unary p (unaryOperatorOf (text a)) (exprOf n b)
    | "BoolOp" => .boolean p (text a == "Or") (all b)
    | "Compare" => .compare p (exprOf n a) (((texts b).map comparisonOf).zip (all c))
    | "IfExp" => .conditional p (exprOf n a) (exprOf n b) (exprOf n c)
    | "NamedExpr" => .named p (text (item a 3)) (exprPlace a) (exprOf n b)
    | "Call" => .call p (exprOf n a) (all b) ((items c).map (keywordOf (exprOf n)))
    | "Lambda" => .lambda p (paramsOf (exprOf n) a) (exprOf n b)
    | "ListComp" => .listComp p (exprOf n a) (clauses b)
    | "SetComp" => .setComp p (exprOf n a) (clauses b)
    | "GeneratorExp" => .generator p (exprOf n a) (clauses b)
    | "DictComp" => .dictComp p (exprOf n a) (exprOf n b) (clauses c)
    | "JoinedStr" => .joined p (all a)
    | "FormattedValue" => .formatted p (exprOf n a) (part b)
    | "Slice" => .slice p (part a) (part b) (part c)
    | "Await" => .await p (exprOf n a)
    | "Yield" => .yield p (part a)
    | "YieldFrom" => .yieldFrom p (exprOf n a)
    | _ => .constant p .none

def patternOf : Nat → Json → Pattern
  | 0, _ => .capture none none
  | n + 1, j =>
    match text (item j 0) with
    | "MatchValue" => .value (exprOf n (item j 1))
    | _ => .capture (present (patternOf n) (item j 1)) (item j 2).str?

def stmtOf : Nat → Json → Stmt
  | 0, j => .pass (stmtPlace j)
  | n + 1, j =>
    let p := stmtPlace j
    let a := item j 4
    let b := item j 5
    let c := item j 6
    let d := item j 7
    let e := item j 8
    let expr := exprOf n
    let all (j : Json) : List Expr := (items j).map expr
    let part (j : Json) : Option Expr := present expr j
    let block (j : Json) : List Stmt := (items j).map (stmtOf n)
    let handlers (j : Json) : List Handler := (items j).map (handlerOf expr block)
    let case (j : Json) : Case := .mk (patternOf n (item j 1)) (part (item j 2)) (block (item j 3))
    match text (item j 0) with
    | "Expr" => .discard p (expr a)
    | "Pass" => .pass p
    | "Global" => .global p (texts a)
    | "Nonlocal" => .nonlocal p (texts a)
    | "Assign" => .assign p (all a) (expr b)
    | "AnnAssign" => .annAssign p (expr a) (expr b) (part c)
    | "AugAssign" => .augAssign p (expr a) (binaryOperatorOf (text b)) (expr c)
    | "Return" => .ret p (part a)
    | "If" => .branch p (expr a) (block b) (block c)
    | "While" => .loop p (expr a) (block b) (block c)
    | "For" => .each p (expr a) (expr b) (block c) (block d)
    | "AsyncFor" => .asyncEach p (expr a) (expr b) (block c) (block d)
    | "Break" => .leave p
    | "Continue" => .proceed p
    | "Assert" => .check p (expr a) (part b)
    | "Raise" => .raise p (part a) (part b)
    | "Delete" => .delete p (all a)
    | "With" => .manage p ((items a).map (managedOf expr)) (block b)
    | "AsyncWith" => .asyncManage p ((items a).map (managedOf expr)) (block b)
    | "Try" => .guarded p false (block a) (handlers b) (block c) (block d)
    | "TryStar" => .guarded p true (block a) (handlers b) (block c) (block d)
    | "FunctionDef" => .function p false (text a) (paramsOf expr b) (block c) (all d) (part e)
    | "AsyncFunctionDef" => .function p true (text a) (paramsOf expr b) (block c) (all d) (part e)
    | "ClassDef" =>
      .classDef p (text a) (all b) ((items c).map (keywordOf expr)) (block d) (all e)
    | "Import" => .importModules p ((items a).map importNameOf)
    | "ImportFrom" => .importFrom p a.str? ((items b).map importNameOf) (natural c)
    | "Match" => .choose p (expr a) ((items b).map case)
    | _ => .pass p

def moduleOfJson (j : Json) : List Stmt := (items (item j 1)).map (stmtOf j.depth)

end Readiness.Source
