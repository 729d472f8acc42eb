import Readiness.Flow.Values
import Readiness.Image.Reference
import Readiness.Image.Typing

/-!
# Flow graphs in documents

`Graph.toJson` writes a flow graph with its blocks, edges, order and types;
`Graph.ofJson` reads one that was written by hand.  `Flow.Values.toJson` writes where the values of
a flow graph go and, for each allocation that can run, the names it reaches and why it outlives the
call.
-/

namespace Readiness

def TypeSet.toJson (ts : TypeSet) : Json :=
  Json.ofStrings (TypeSet.sortedNames (ts.map TypeExpr.typeName))

namespace Graph

open Json (field item items texts whole natural flag present)

/-! ## Writing -/

def Operand.toJson : Operand → Json
  | .const c => .arr [.str "c", .str c.text]
  | .var n => .arr [.str "v", .str n]
  | .global n .unresolved => .arr [.str "g", .str n, .str "?"]
  | .global n e => .arr [.str "g", .str n, .str e.classOf.name]

def hintToJson (image : Image) : Entity → Json
  | .unresolved => .str "?"
  | .const .none => .null
  | .type (.cls c) => .str c.typeName
  | e => .str (if image.isCallable e then "callable" else "value")

def Statement.toJson (image : Image) (s : Statement) : Json :=
  let given (key : Text) (value : Option Json) : List (Text × Json) :=
    (value.map fun j => (key, j)).toList
  let always : List (Text × Json) :=
    [("i", .int s.index), ("k", .str s.kind.word), ("op", .str s.op),
      ("line", .int s.location.line), ("ops", .arr (s.operands.map Operand.toJson))]
  .obj (always
    ++ given "target" (s.target.map Json.ofString) ++ given "attr" (s.attr.map Json.ofString)
    ++ given "call" (s.call.map fun c => .arr [.str c.dispatch.word, .str c.calleeName,
        .bool c.deallocates, .bool c.hasReceiver, Json.ofStrings c.keywords,
        .bool c.starred])
    ++ given "alloc" (s.allocation.map fun a => .arr [.str a.allocator, .bool a.manual,
        Json.ofOption .int a.size, .bool a.inUnboundedLoop, hintToJson image a.hint]))

def typesToJson (t : Table String TypeSet) : Json :=
  .obj (t.entries.map fun (n, ts) => (n, ts.toJson))

def toJson (image : Image) (g : Graph) : Json :=
  .obj [("params", Json.ofStrings g.params),
    ("blocks", .arr (g.blocks.toList.mapIdx fun i b =>
      .obj [("id", Json.ofNat i), ("kind", .str b.kind), ("depth", .int b.loopDepth),
        ("live", .bool (g.isReachable i)),
        ("stmts", .arr (b.statements.toList.map (Statement.toJson image)))])),
    ("edges", .arr (g.edges.toList.map fun e =>
      .arr [Json.ofNat e.source, Json.ofNat e.target, .str e.kind.word])),
    ("rpo", .arr (g.reachable.map Json.ofNat)),
    ("locals", Json.ofStrings (TypeSet.sortedNames g.locals)),
    ("types", typesToJson g.types), ("declared", typesToJson g.declared),
    ("returns", g.returns.toJson)]

/-! ## Reading -/

def entityNamed (name : String) : Entity := (Image.empty.dotted name).toOption.getD .unresolved

def Operand.ofJson (statement position : Nat) (j : Json) : Operand :=
  let constant (c : Json) := Const.placed statement position (Const.ofJson c)
  match (item j 0).text with
  | "c" => .const (constant (item j 1))
  | "v" => .var (item j 1).text
  | _ =>
    let value :=
      match (item j 2).get? "b", (item j 2).get? "v" with
      | some name, _ => entityNamed name.text
      | _, some c => .const (constant c)
      | _, _ => .unresolved
    .global (item j 1).text value

def CallInfo.ofJson (j : Json) : CallInfo :=
  let dispatch := (Dispatch.ofWord? (item j 0).text).getD .static
  { dispatch, calleeName := (item j 1).text, deallocates := flag (item j 2)
    hasReceiver := flag (item j 3), keywords := texts (item j 4), starred := flag (item j 5)
    callee :=
      match (item j 6).str? with
      | some name => entityNamed name
      | none => if dispatch = .static then .unresolved else .none }

def AllocationInfo.ofJson (j : Json) : AllocationInfo :=
  { allocator := (item j 0).text, manual := flag (item j 1), size := (item j 2).int?
    inUnboundedLoop := flag (item j 3) }

def Statement.ofJson (file : String) (index : Nat) (j : Json) : Statement :=
  { kind := (StatementKind.ofWord? (field j "k").text).getD .other
    op := (field j "op").text
    location := ⟨file, whole (field j "line"), whole (field j "col")⟩
    index := ((j.get? "i").bind Json.int?).getD index
    target := (field j "target").str?
    operands := (items (field j "ops")).mapIdx (Operand.ofJson index)
    attr := (field j "attr").str?
    call := present CallInfo.ofJson (field j "call")
    allocation := present AllocationInfo.ofJson (field j "alloc") }

def EdgeKind.ofJson (j : Json) : EdgeKind := (EdgeKind.ofWord? j.text).getD .fallThrough

def Edge.ofJson (j : Json) : Edge :=
  ⟨natural (item j 0), natural (item j 1), EdgeKind.ofJson (item j 2)⟩

/-- Adds a block with its statements; the number counts the statements so far. -/
def addJsonBlock (file : String) (sofar : Graph × Nat) (j : Json) : Graph × Nat :=
  let g := sofar.1.addBlock ((field j "kind").str?.getD "body") (whole (field j "depth"))
  (items (field j "stmts")).foldl
    (fun (g, n) s => (g.addStatement (g.blocks.size - 1) (Statement.ofJson file n s), n + 1))
    (g, sofar.2)

def typesOfJson (place : Nat) (j : Json) : Except ReferenceFault (Table String TypeSet) := do
  return Table.ofList (← j.members.zipIdx.mapM fun ((n, ts), i) => do
    return (n, ← Image.empty.typeSetOfJson [place, i] ts))

def ofJson (file name : String) (j : Json) : Except ReferenceFault Graph := do
  let g := start (name ++ "()") name (texts (field j "params"))
  let (g, _) := (items (field j "blocks")).foldl (addJsonBlock file) (g, 0)
  let g := (items (field j "edges")).foldl (fun g e => g.addEdge (Edge.ofJson e)) g
  return g.sealed (← typesOfJson 0 (field j "types")) (← typesOfJson 1 (field j "declared")) []
    (texts (field j "locals"))

end Graph

namespace Flow

def sortedToJson (xs : List String) : Json := Json.ofStrings (TypeSet.sortedNames xs)

def Relation.toJson {α : Type} (encode : α → String) (r : Relation α) : Json :=
  .obj (r.entries.filterMap fun (n, xs) =>
    if xs.isEmpty then none else some (n, sortedToJson (xs.map encode)))

def Values.toJson (g : Graph) (v : Values) : Json :=
  .obj [("alias", Relation.toJson id v.aliases), ("hold", Relation.toJson id v.hold),
    ("sinks", Relation.toJson EscapeReason.text v.sinks), ("outward", sortedToJson v.outward),
    ("allocs", .arr ((g.statements.filter fun s => s.kind == .allocation).map fun s =>
      .arr [.int s.index, sortedToJson ((s.target.map v.reaching).getD []),
        sortedToJson ((v.escapeReasons s).map EscapeReason.text)]))]

end Flow
end Readiness
