import Readiness.Source.Tree

/-!
# Outlines of source trees

An outline says of every part of a tree in which scope it is evaluated.  `levels` lists the labels
level by level, which is the order in which definitions are looked up; `names` lists the names that
occur anywhere in a tree.
-/

namespace Readiness.Source

inductive Label
  | expr (e : Expr)
  | stmt (s : Stmt)
  /-- The target of an assignment expression. -/
  | assigned (name : String)
  | handler (name : Option String)
  | capture (name : Option String)
  | other

/-- The scope in which a part of a construct is evaluated. -/
inductive Scope
  /-- That of the construct. -/
  | around
  /-- That of the construct too, where it is not looked for names: hints of nested functions and
  keywords of classes. -/
  | besides
  /-- That of a comprehension. -/
  | comprehension
  /-- That of a function or a class. -/
  | inner
  deriving DecidableEq

inductive Outline
  | node (label : Label) (children : List Outline) (scope : Scope := .around)

def Outline.scope : Outline → Scope
  | .node _ _ scope => scope

def Outline.within (scope : Scope) : Outline → Outline
  | .node label children _ => .node label children scope

/-- The parts of a comprehension.  Only the first iterable is evaluated around it. -/
def comprehended (items clauses : List Outline) : List Outline :=
  items.map (.within .comprehension) ++ clauses.take 1
    ++ (clauses.drop 1).map (.within .comprehension)

mutual

def Expr.outline (e : Expr) : Outline :=
  .node (.expr e) <|
    match e with
    | .constant .. | .name .. => []
    | .member _ v _ | .starred _ v | .unary _ _ v | .await _ v | .yieldFrom _ v => [v.outline]
    | .subscript _ v i => [v.outline, i.outline]
    | .tuple _ xs | .list _ xs | .set _ xs | .boolean _ _ xs | .joined _ xs => outlines xs
    | .dict _ es => keyOutlines es ++ valueOutlines es
    | .binary _ l _ r => [l.outline, r.outline]
    | .compare _ l rest => l.outline :: comparedOutlines rest
    | .conditional _ t b o => [t.outline, b.outline, o.outline]
    | .named _ n _ v => [.node (.assigned n) [], v.outline]
    | .call _ f args ks => f.outline :: outlines args ++ keywordOutlines ks
    | .lambda _ ps b => [ps.outline, b.outline.within .inner]
    | .listComp _ e cs | .setComp _ e cs | .generator _ e cs =>
      comprehended [e.outline] (clauseOutlines cs)
    | .dictComp _ k v cs => comprehended [k.outline, v.outline] (clauseOutlines cs)
    | .formatted _ v spec => v.outline :: optionalOutline spec
    | .slice _ a b c => optionalOutline a ++ optionalOutline b ++ optionalOutline c
    | .yield _ v => optionalOutline v

def outlines : List Expr → List Outline
  | [] => []
  | e :: es => e.outline :: outlines es

def optionalOutline : Option Expr → List Outline
  | none => []
  | some e => [e.outline]

def optionalOutlines : List (Option Expr) → List Outline
  | [] => []
  | e :: es => optionalOutline e ++ optionalOutlines es

def keyOutlines : List (Option Expr × Expr) → List Outline
  | [] => []
  | (k, _) :: es => optionalOutline k ++ keyOutlines es

def valueOutlines : List (Option Expr × Expr) → List Outline
  | [] => []
  | (_, v) :: es => v.outline :: valueOutlines es

def comparedOutlines : List (ComparisonOperator × Expr) → List Outline
  | [] => []
  | (_, e) :: es => e.outline :: comparedOutlines es

def keywordOutlines : List Keyword → List Outline
  | [] => []
  | .mk _ v :: ks => .node .other [v.outline] :: keywordOutlines ks

def clauseOutlines : List Clause → List Outline
  | [] => []
  | .mk t i conditions :: cs =>
    .node .other (t.outline.within .comprehension :: i.outline
      :: (outlines conditions).map (.within .comprehension)) :: clauseOutlines cs

def paramOutlines : List Param → List Outline
  | [] => []
  | .mk _ hint :: ps => .node .other (optionalOutline hint) .besides :: paramOutlines ps

def optionalParamOutline : Option Param → List Outline
  | none => []
  | some (.mk _ hint) => [.node .other (optionalOutline hint) .besides]

def Params.outline : Params → Outline
  | .mk posonly args variadic kwonly kwDefaults kwarg defaults =>
    .node .other
      (paramOutlines posonly ++ paramOutlines args ++ optionalParamOutline variadic
        ++ paramOutlines kwonly ++ optionalOutlines kwDefaults
        ++ optionalParamOutline kwarg ++ outlines defaults)

end

def managerOutlines (items : List (Expr × Option Expr)) : List Outline :=
  items.map fun i => .node .other (i.1.outline :: optionalOutline i.2)

mutual

def Stmt.outline (s : Stmt) : Outline :=
  .node (.stmt s) <|
    match s with
    | .discard _ v => [v.outline]
    | .pass _ | .global _ _ | .nonlocal _ _ | .leave _ | .proceed _ | .importModules ..
    | .importFrom .. =>
      []
    | .assign _ ts v => outlines ts ++ [v.outline]
    | .annAssign _ t h v => t.outline :: h.outline :: optionalOutline v
    | .augAssign _ t _ v => [t.outline, v.outline]
    | .ret _ v => optionalOutline v
    | .branch _ t b o | .loop _ t b o => t.outline :: bodyOutlines b ++ bodyOutlines o
    | .each _ t i b o | .asyncEach _ t i b o =>
      t.outline :: i.outline :: bodyOutlines b ++ bodyOutlines o
    | .check _ t m => t.outline :: optionalOutline m
    | .raise _ e c => optionalOutline e ++ optionalOutline c
    | .delete _ ts => outlines ts
    | .manage _ items b | .asyncManage _ items b => managerOutlines items ++ bodyOutlines b
    | .guarded _ _ b hs o f =>
      bodyOutlines b ++ handlerOutlines hs ++ bodyOutlines o ++ bodyOutlines f
    | .function _ _ _ ps b ds r =>
      ps.outline :: (bodyOutlines b).map (.within .inner) ++ outlines ds
        ++ (optionalOutline r).map (.within .besides)
    | .classDef _ _ bs ks b ds =>
      outlines bs ++ (keywordOutlines ks).map (.within .besides)
        ++ (bodyOutlines b).map (.within .inner) ++ outlines ds
    | .choose _ e cs => e.outline :: caseOutlines cs

def bodyOutlines : List Stmt → List Outline
  | [] => []
  | s :: rest => s.outline :: bodyOutlines rest

def handlerOutlines : List Handler → List Outline
  | [] => []
  | .mk _ t n b :: rest =>
    .node (.handler n) (optionalOutline t ++ bodyOutlines b) :: handlerOutlines rest

def caseOutlines : List Case → List Outline
  | [] => []
  | .mk p g b :: rest =>
    .node .other (p.outline :: optionalOutline g ++ bodyOutlines b) :: caseOutlines rest

def Pattern.outline : Pattern → Outline
  | .value v => .node .other [v.outline]
  | .capture none n => .node (.capture n) []
  | .capture (some p) n => .node (.capture n) [p.outline]

end

def besides : List (List α) → List (List α) → List (List α)
  | [], bs => bs
  | as, [] => as
  | a :: as, b :: bs => (a ++ b) :: besides as bs

mutual

def Outline.levels : Outline → List (List Label)
  | .node label children _ => [label] :: levelsOf children

def levelsOf : List Outline → List (List Label)
  | [] => []
  | o :: rest => besides o.levels (levelsOf rest)

end

def breadthFirst (roots : List Outline) : List Label := (levelsOf roots).flatten

mutual

def Outline.size : Outline → Nat
  | .node _ children _ => sizes children + 1

def sizes : List Outline → Nat
  | [] => 0
  | o :: rest => o.size + sizes rest

end

def Label.name? : Label → Option (String × Context)
  | .expr (.name _ id c) => some (id, c)
  | .assigned n => some (n, .store)
  | _ => none

def Outline.names (o : Outline) : List (String × Context) :=
  o.levels.flatten.filterMap Label.name?

end Readiness.Source
