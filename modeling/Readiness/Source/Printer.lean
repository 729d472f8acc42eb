import Readiness.Const.Text
import Readiness.Source.Tree

/-!
# Texts of expressions

`Expr.render` gives the text that a declared type has when it is kept as written.
-/

namespace Readiness.Source

/-- How tightly expressions bind, from the loosest to the tightest. -/
inductive Level
  | tuple | test | disjunction | conjunction | negation | comparison | bitOr | bitXor | bitAnd
  | shift | arithmetic | term | factor | power | await | atom
  deriving Repr, DecidableEq

def Level.rank : Level → Nat
  | tuple => 0
  | test => 1
  | disjunction => 2
  | conjunction => 3
  | negation => 4
  | comparison => 5
  | bitOr => 6
  | bitXor => 7
  | bitAnd => 8
  | shift => 9
  | arithmetic => 10
  | term => 11
  | factor => 12
  | power => 13
  | await => 14
  | atom => 15

def BinaryOperator.level : BinaryOperator → Level
  | .add | .sub => .arithmetic
  | .mult | .div | .floorDiv | .mod | .matMult => .term
  | .pow => .power
  | .lShift | .rShift => .shift
  | .bitAnd => .bitAnd
  | .bitOr => .bitOr
  | .bitXor => .bitXor

def UnaryOperator.written : UnaryOperator → String
  | .neg => "-"
  | .pos => "+"
  | .invert => "~"
  | .not => "not "

def UnaryOperator.level : UnaryOperator → Level
  | .not => .negation
  | _ => .factor

def enclosed (place own : Nat) (text : String) : String :=
  if own < place then "(" ++ text ++ ")" else text

/-- The written form of a constant; an infinite one is written as a number that is too large. -/
def constantText : Const → String
  | .ellipsis => "..."
  | c => c.text.replace "inf" "1e309"

def commas (parts : List String) : String := String.intercalate ", " parts

def Param.called : Param → String
  | .mk n _ => n

mutual

def Expr.render : Nat → Expr → String
  | place, .constant _ (.tuple cs) => enclosed place 0 (Const.tuple cs).text
  | _, .constant _ (.str s) => (Const.str s).text
  | _, .constant _ (.bytes b) => (Const.bytes b).text
  | _, .constant _ c => constantText c
  | _, .name _ id _ => id
  | _, .member _ (.constant _ (.int i)) a => toString i ++ " ." ++ a
  | _, .member _ v a => v.render Level.atom.rank ++ "." ++ a
  | _, .subscript _ v i => v.render Level.atom.rank ++ "[" ++ i.render 0 ++ "]"
  | _, .starred _ v => "*" ++ v.render Level.bitOr.rank
  | place, .tuple _ items =>
    match items with
    | [] => "()"
    | [e] => enclosed place 0 (e.render 1 ++ ",")
    | items => enclosed place 0 (commas (renderAll 1 items))
  | _, .list _ items => "[" ++ commas (renderAll 1 items) ++ "]"
  | _, .set _ items => "\x7b" ++ commas (renderAll 1 items) ++ "\x7d"
  | _, .dict _ entries => "\x7b" ++ commas (renderEntries entries) ++ "\x7d"
  | place, .binary _ l op r =>
    let own := op.level.rank
    let (left, right) := if op = .pow then (own + 1, own) else (own, own + 1)
    enclosed place own (l.render left ++ " " ++ op.sign ++ " " ++ r.render right)
  | place, .unary _ op e =>
    enclosed place op.level.rank (op.written ++ e.render op.level.rank)
  | place, .boolean _ disjunction values =>
    let own := if disjunction then Level.disjunction.rank else Level.conjunction.rank
    let word := if disjunction then " or " else " and "
    enclosed place own (String.intercalate word (renderAll (own + 1) values))
  | place, .compare _ l rest =>
    let own := Level.comparison.rank
    enclosed place own (l.render (own + 1) ++ String.join (renderCompared (own + 1) rest))
  | place, .conditional _ t b o =>
    enclosed place 1 (b.render 2 ++ " if " ++ t.render 2 ++ " else " ++ o.render 1)
  | place, .named _ n _ v => enclosed place 0 (n ++ " := " ++ v.render Level.atom.rank)
  | _, .call _ f [.generator _ item clauses] [] =>
    f.render Level.atom.rank ++ "(" ++ item.render 1 ++ String.join (renderClauses clauses)
      ++ ")"
  | _, .call _ f args keywords =>
    f.render Level.atom.rank ++ "(" ++ commas (renderAll 1 args ++ renderKeywords keywords)
      ++ ")"
  | place, .lambda _ params body =>
    let written := params.render
    let head := if written.isEmpty then "lambda" else "lambda " ++ written
    enclosed place 1 (head ++ ": " ++ body.render 1)
  | _, .listComp _ e cs => "[" ++ e.render 1 ++ String.join (renderClauses cs) ++ "]"
  | _, .setComp _ e cs => "\x7b" ++ e.render 1 ++ String.join (renderClauses cs) ++ "\x7d"
  | _, .generator _ e cs => "(" ++ e.render 1 ++ String.join (renderClauses cs) ++ ")"
  | _, .dictComp _ k v cs =>
    "\x7b" ++ k.render 1 ++ ": " ++ v.render 1 ++ String.join (renderClauses cs) ++ "\x7d"
  | _, .joined _ _ | _, .formatted _ _ _ => "f''"
  | _, .slice _ a b c =>
    let step :=
      match c with
      | some e => ":" ++ e.render 1
      | none => ""
    renderOptional a ++ ":" ++ renderOptional b ++ step
  | place, .await _ v =>
    enclosed place Level.await.rank ("await " ++ v.render Level.atom.rank)
  | _, .yield _ none => "(yield)"
  | _, .yield _ (some v) => "(yield " ++ v.render 1 ++ ")"
  | _, .yieldFrom _ v => "(yield from " ++ v.render 1 ++ ")"

def renderAll : Nat → List Expr → List String
  | _, [] => []
  | place, e :: es => e.render place :: renderAll place es

def renderOptional : Option Expr → String
  | none => ""
  | some e => e.render 1

def renderEntries : List (Option Expr × Expr) → List String
  | [] => []
  | (none, v) :: es => ("**" ++ v.render Level.bitOr.rank) :: renderEntries es
  | (some k, v) :: es => (k.render 1 ++ ": " ++ v.render 1) :: renderEntries es

def renderCompared : Nat → List (ComparisonOperator × Expr) → List String
  | _, [] => []
  | place, (op, e) :: es =>
    (" " ++ op.sign ++ " " ++ e.render place) :: renderCompared place es

def renderKeywords : List Keyword → List String
  | [] => []
  | .mk none v :: ks => ("**" ++ v.render Level.bitOr.rank) :: renderKeywords ks
  | .mk (some n) v :: ks => (n ++ "=" ++ v.render 1) :: renderKeywords ks

def renderClauses : List Clause → List String
  | [] => []
  | .mk t i conditions :: cs =>
    (" for " ++ t.render 0 ++ " in " ++ i.render 2
      ++ String.join ((renderAll 2 conditions).map (" if " ++ ·))) :: renderClauses cs

def renderKeywordOnly : List Param → List (Option Expr) → List String
  | ps, [] => ps.map Param.called
  | [], _ :: _ => []
  | p :: ps, some d :: ds => (p.called ++ "=" ++ d.render 1) :: renderKeywordOnly ps ds
  | p :: ps, none :: ds => p.called :: renderKeywordOnly ps ds

def Params.render : Params → String
  | .mk posonly positional variadic kwonly kwDefaults kwVariadic defaults =>
    let plain := (posonly ++ positional).map Param.called
    let required := plain.length - defaults.length
    let values := List.replicate required "" ++ (renderAll 1 defaults).map ("=" ++ ·)
    let shown := List.zipWith (· ++ ·) plain values
    let before := shown.take posonly.length
    let mark := if posonly.isEmpty then [] else ["/"]
    let star :=
      match variadic with
      | some p => ["*" ++ p.called]
      | none => if kwonly.isEmpty then [] else ["*"]
    let rest := (kwVariadic.map fun p => "**" ++ p.called).toList
    commas (before ++ mark ++ shown.drop posonly.length ++ star
      ++ renderKeywordOnly kwonly kwDefaults ++ rest)

end

end Readiness.Source
