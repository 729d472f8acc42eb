import Readiness.Graph.Order

/-!
# Texts of a flow graph

The summary texts of graphs, blocks and edges, and `dot`, the graph as a drawing
in the DOT language.
-/

namespace Readiness.Graph

def shownStatements : Nat := 6

def Block.label (b : Block) : String :=
  match b.statements.toList with
  | [] => "[" ++ b.kind ++ "]"
  | s :: rest =>
    let parts := ((s :: rest).take shownStatements).map fun s => s.lead ++ s.op
    let more := if (s :: rest).length > shownStatements then " …" else ""
    s.location.text ++ " " ++ String.intercalate "; " parts ++ more

def blockText (g : Graph) (b : Nat) : String :=
  "BasicBlock(id=" ++ toString b ++ ", kind=" ++ Text.quoted (g.block b).kind ++ ", nstmts="
    ++ toString (g.block b).statements.size ++ ")"

def Edge.text (e : Edge) : String :=
  "CFGEdge(BB" ++ toString e.source ++ " -> BB" ++ toString e.target ++ ", kind="
    ++ Text.quoted e.kind.word ++ ")"

def text (g : Graph) : String :=
  "FunctionIR(target=" ++ Text.quoted g.label ++ ", blocks=" ++ toString g.blocks.size
    ++ ", edges=" ++ toString g.edges.size ++ ")"

def escapedLabel (b : Block) : String :=
  String.ofList (b.label.toList.flatMap fun c =>
    if c == '"' then ['\\', '"'] else if c == '\n' then ['\\', 'n'] else [c])

def blockStyle (b : Block) (live : Bool) : String :=
  if b.kind = "entry" then ", style=filled, fillcolor=\"#ccffcc\""
  else if b.kind = "exit" then ", style=filled, fillcolor=\"#ffcccc\""
  else if live then ""
  else ", style=dashed, color=gray"

def EdgeKind.style : EdgeKind → String
  | branchTrue => ", color=green, fontcolor=green"
  | branchFalse => ", color=red, fontcolor=red"
  | backEdge => ", style=dashed, color=blue, fontcolor=blue"
  | leave | proceed | exception => ", style=dotted"
  | _ => ""

def dot (g : Graph) (title : String) : String :=
  let live := g.reachable
  let blocks := (List.range g.blocks.size).map fun i =>
    let b := g.block i
    "  BB" ++ toString i ++ " [label=\"BB" ++ toString i ++ "\\n" ++ escapedLabel b ++ "\""
      ++ blockStyle b (live.contains i) ++ "];"
  let edges := g.edges.toList.map fun e =>
    "  BB" ++ toString e.source ++ " -> BB" ++ toString e.target ++ " [label=\"" ++ e.kind.word
      ++ "\"" ++ e.kind.style ++ "];"
  String.intercalate "\n"
    (["digraph CFG \x7b", "  label=\"" ++ (if title.isEmpty then g.label else title) ++ "\";",
      "  node [shape=box, fontname=monospace, fontsize=10];"] ++ blocks ++ edges ++ ["\x7d"])

end Readiness.Graph
