import Readiness.Graph.Order
import Readiness.Graph.Parts
import Readiness.Image.Typing
import Readiness.Report.Findings

/-!
# Calls that are resolved while running

`analyse` classifies every reachable call; `missing?` names the part that one of them
lacks for it.
-/

namespace Readiness.Dispatch

open Report (CallSite Dispatches)

def deciding (s : Graph.Statement) : List Graph.Operand :=
  if s.op = "in" ∨ s.op = "not in" then (s.operands.drop 1).take 1 else s.operands

def isPlain (ts : TypeSet) : Bool :=
  match ts.known? with
  | some (.cls c) => Image.isScalar c
  | _ => false

def operatorSite (g : Graph) (s : Graph.Statement) : CallSite :=
  let types := (deciding s).map g.typeOf
  if (Image.operatorMethod? s.op).isNone || types.all isPlain then
    ⟨s.location, s.op, false, false⟩
  else
    ⟨s.location, s.op ++ " on " ++ String.intercalate ", " (types.map TypeSet.name), true,
      types.all TypeSet.isConcrete⟩

def methodSite (image : Image) (g : Graph) (s : Graph.Statement) (name : String) : CallSite :=
  let receiver := (s.receiver?.map g.typeOf).getD TypeSet.unknown
  let found :=
    receiver.isConcrete
      && ((receiver.known?.bind TypeExpr.origin?).bind fun c => image.resolve? c name).isSome
  ⟨s.location, receiver.name ++ "." ++ name, true, found⟩

def site (image : Image) (g : Graph) (s : Graph.Statement) (call : Graph.CallInfo) : CallSite :=
  match call.dispatch with
  | .static => ⟨s.location, call.calleeName, false, false⟩
  | .operator => operatorSite g s
  | .method => methodSite image g s call.calleeName
  | .indirect => ⟨s.location, "<indirect " ++ call.calleeName ++ ">", true, false⟩

def analyse (image : Image) (g : Graph) : Dispatches :=
  Dispatches.ofSites (g.statements.filterMap fun s =>
    if s.kind = .call then s.call.map (site image g s) else none)

def missing? (g : Graph) : Option Graph.MissingPart :=
  g.statements.findSome? fun s =>
    if s.kind = .call then s.lacksCall? "dispatch" <|> s.lacksReceiver? "is_const" else none

end Readiness.Dispatch
