import Readiness.Lowering.Statement

/-!
# Lowering a function

`lowerBody` gives the flow graph, the types declared for local names and whether the
function is a generator.
-/

namespace Readiness.Lowering

structure Lowered where
  graph : Graph
  declared : Table String TypeExpr
  locals : List String
  isGenerator : Bool

def fileName : String := "prog.py"

def contentOutlines : Image.Content → List Source.Outline
  | .statements body => Source.bodyOutlines body
  | .value e => [e.outline]

def globalNames (outlines : List Source.Outline) : List String :=
  (Source.breadthFirst outlines).flatMap fun l =>
    match l with
    | .stmt (.global _ names) => names
    | _ => []

def freeNames (f : Image.Function) : List String :=
  let content : Option Image.Content :=
    match f.definition with
    | .function _ body => some (.statements body)
    | .lambda _ e => some (.value e)
    | .generated => none
  match content with
  | none => []
  | some content =>
    let outlines := contentOutlines content
    let named := (Source.breadthFirst outlines).filterMap fun l => l.name?.map Prod.fst
    let globals := globalNames outlines
    ((named ++ Source.declared outlines).eraseDups.filter fun n => !globals.contains n).map
      (Source.privateName f.owner)

/-- What a function finds in the calls around its definition; a name that is not assigned yet has
no value. -/
def capturedBy (image : Image) (f : Image.Function) : String → Option Entity :=
  match f.frame with
  | none => fun _ => none
  | some frame =>
    let free := freeNames f
    fun name =>
      if free.contains name then
        (image.captured? (some frame) name).map fun value => value.getD .unresolved
      else none

def content (room : Nat) : Image.Content → Lower Unit
  | .value e => do
    let place ← placeOf e.place
    let o ← lowerExpr room e
    perform .return_ "return" place [o]
    edge (← current) Graph.exit .return_
  | .statements body => do
    body.forM (lowerStmt room)
    let last := (body.getLast?.map fun s => s.place.lastLine).getD 0
    let place ← placeOf ⟨last, 0, last⟩
    perform .return_ "return" place [.const .none]
    edge (← current) Graph.exit .return_

def Context.ofBody (image : Image) (f : Image.Function) (body : Image.Body)
    (params : List String) : Context :=
  let parts := contentOutlines body.content
  { image, file := fileName, shift := body.shift, base := body.base
    captured := capturedBy image f
    locals := (params ++ Source.stored parts).eraseDups.filter fun n =>
      !(Source.declared parts).contains n }

/-- A builder in the first block behind the entry. -/
def Builder.opening (name : String) (params : List String) : Builder :=
  { graph := ((Graph.start "" name params).addBlock "body" 0).addEdge
      ⟨Graph.entry, 2, .fallThrough⟩
    block := 2, loops := [], handlers := [], renames := [], temporaries := 0, index := 0
    comprehensions := 0, declared := .empty, isGenerator := false }

/-- How deep a body may nest; without a limit, as deep as it does. -/
def roomOf (body : Image.Body) (maxDepth : Option Nat) : Nat :=
  maxDepth.getD (Source.sizes (contentOutlines body.content) + 1)

/-- How many constructs inside each other the stack of an interpreter holds, at two frames each. -/
def standardStack : Nat := 490

/-- Lowers a function to a graph without label; `maxDepth` bounds how deep its source may nest, and
`stack` how deep it can on the stack of the interpreter. -/
def lowerBody (image : Image) (f : Image.Function) (body : Image.Body) (params : List String)
    (maxDepth : Option Nat) (stack : Option Nat := none) : Except Refusal Lowered := do
  let c := Context.ofBody image f body params
  let room := roomOf body maxDepth
  let held := stack.getD room
  let lowered := content (min room held) body.content c (.opening f.name params)
  let (_, final) ← lowered.mapError (Refusal.beyond (maxDepth.getD 0) (room ≤ held) c.file)
  return ⟨final.graph, final.declared, c.locals, final.isGenerator⟩

end Readiness.Lowering
