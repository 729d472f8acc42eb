import Readiness.Image.Entity
import Readiness.Types.Formation
import Readiness.Decimal.Reader

/-!
# Spelled types

`read?` gives the tree, `evaluate` its meaning.
-/

namespace Readiness

inductive Spelling
  | name (id : String)
  | member (base : Spelling) (name : String)
  | subscript (base : Spelling) (args : List Spelling)
  | bar (left right : Spelling)
  | list (items : List Spelling)
  | literal (c : Const)

namespace Spelling

structure Scope where
  name? : String → Option Entity
  member? : Entity → String → Option Entity

mutual

def evaluate (scope : Scope) : Spelling → Option Entity
  | name id => scope.name? id
  | member b n => do scope.member? (← b.evaluate scope) n
  | subscript b args => do
    let head ← (← b.evaluate scope).toTypeExpr
    return .ofTypeExpr (← head.subscripted? (← evaluateAll scope args))
  | bar l r => do
    let a ← (← l.evaluate scope).toTypeExpr
    let b ← (← r.evaluate scope).toTypeExpr
    return .ofTypeExpr (← a.barred? b)
  | list items => return .type (.list (← evaluateAll scope items))
  | literal c => some (.const c)

def evaluateAll (scope : Scope) : List Spelling → Option (List TypeExpr)
  | [] => some []
  | s :: ss => do
    let t ← (← s.evaluate scope).toTypeExpr
    return t :: (← evaluateAll scope ss)

end

inductive Token
  | word (text : String)
  | number (text : String)
  | quoted (text : String)
  | sign (c : Char)
  | dots
  deriving Repr, DecidableEq

def startsName (c : Char) : Bool := c.isAlpha || c == '_' || 0x80 ≤ c.toNat

def continuesName (c : Char) : Bool := startsName c || c.isDigit

def tokens? : Nat → List Char → Option (List Token)
  | 0, cs => if cs.isEmpty then some [] else none
  | _, [] => some []
  | room + 1, c :: cs =>
    if c == ' ' || c == '\t' then tokens? room cs
    else if startsName c then
      let word := (c :: cs).takeWhile continuesName
      (tokens? room ((c :: cs).dropWhile continuesName)).map
        (.word (String.ofList word) :: ·)
    else if c.isDigit then
      let digits := (c :: cs).takeWhile Char.isDigit
      let rest := (c :: cs).dropWhile Char.isDigit
      if (rest.head?.map continuesName).getD false then none
      else (tokens? room rest).map (.number (String.ofList digits) :: ·)
    else if c == '\'' || c == '"' then
      let body := cs.takeWhile (· != c)
      match cs.dropWhile (· != c) with
      | [] => none
      | _ :: rest =>
        if body.contains '\\' || body.contains '\n' then none
        else (tokens? room rest).map (.quoted (String.ofList body) :: ·)
    else
      match c, cs with
      | '.', '.' :: '.' :: rest => (tokens? room rest).map (.dots :: ·)
      | c, cs =>
        if ['.', '[', ']', ',', '|', '(', ')', '-'].contains c then
          (tokens? room cs).map (.sign c :: ·)
        else none

def reserved : List String :=
  ["and", "as", "assert", "async", "await", "break", "class", "continue", "def", "del", "elif",
    "else", "except", "finally", "for", "from", "global", "if", "import", "in", "is", "lambda",
    "nonlocal", "not", "or", "pass", "raise", "return", "try", "while", "with", "yield"]

def ofWord? (w : String) : Option Spelling :=
  match w with
  | "None" => some (.literal .none)
  | "True" => some (.literal (.bool true))
  | "False" => some (.literal (.bool false))
  | w => if reserved.contains w then none else some (.name w)

mutual

def readBars : Nat → List Token → Option (Spelling × List Token)
  | 0, _ => none
  | room + 1, ts => do
    let (first, rest) ← readPrimary room ts
    readMoreBars room first rest

def readMoreBars : Nat → Spelling → List Token → Option (Spelling × List Token)
  | 0, _, _ => none
  | room + 1, left, ts =>
    match ts with
    | .sign '|' :: rest => do
      let (right, rest) ← readPrimary room rest
      readMoreBars room (.bar left right) rest
    | ts => some (left, ts)

/-- A name, literal, list or bracketed type with its members and subscripts. -/
def readPrimary : Nat → List Token → Option (Spelling × List Token)
  | 0, _ => none
  | room + 1, ts =>
    match ts with
    | .word w :: rest => do readTrailers room (← ofWord? w) rest
    | .number n :: rest => do
      let i ← Decimal.readInt? n
      readTrailers room (.literal (.int i)) rest
    | .quoted s :: rest => readTrailers room (.literal (.str s)) rest
    | .dots :: rest => readTrailers room (.literal .ellipsis) rest
    | .sign '(' :: rest => do
      let (inner, rest) ← readBars room rest
      match rest with
      | .sign ')' :: rest => readTrailers room inner rest
      | _ => none
    | .sign '[' :: .sign ']' :: rest => some (.list [], rest)
    | .sign '[' :: rest => do
      let (items, rest) ← readList room rest
      return (.list items, rest)
    | _ => none

def readTrailers : Nat → Spelling → List Token → Option (Spelling × List Token)
  | 0, _, _ => none
  | room + 1, base, ts =>
    match ts with
    | .sign '.' :: .word w :: rest => readTrailers room (.member base w) rest
    | .sign '[' :: .sign '(' :: .sign ')' :: .sign ']' :: rest =>
      readTrailers room (.subscript base []) rest
    | .sign '[' :: rest => do
      let (args, rest) ← readList room rest
      readTrailers room (.subscript base args) rest
    | ts => some (base, ts)

/-- Types separated by commas up to a closing bracket. -/
def readList : Nat → List Token → Option (List Spelling × List Token)
  | 0, _ => none
  | room + 1, ts => do
    let (first, rest) ← readBars room ts
    match rest with
    | .sign ']' :: rest | .sign ',' :: .sign ']' :: rest => return ([first], rest)
    | .sign ',' :: rest => do
      let (more, rest) ← readList room rest
      return (first :: more, rest)
    | _ => none

end

def read? (s : String) : Option Spelling := do
  let ts ← tokens? (s.length + 1) s.toList
  let (spelling, rest) ← readBars (4 * ts.length + 4) ts
  if rest.isEmpty then some spelling else none

end Spelling
end Readiness
