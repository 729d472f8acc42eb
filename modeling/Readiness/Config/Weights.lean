import Readiness.Config.Fault
import Readiness.Types.TypeSet

/-!
# Weights of the score

Weights are points for the five categories of the score, over any kind of number.
`Weights.checked` accepts weights that are not negative and sum to one hundred; `Weights.ofJson`
reads them by name, where a name that is left out keeps its standard weight.
-/

namespace Readiness

structure Weights (ν : Type) where
  allocations : ν
  abstractTypes : ν
  dynamicDispatch : ν
  lifetimes : ν
  constants : ν

namespace Weights

def standard : Weights Float := ⟨25.0, 20.0, 20.0, 20.0, 15.0⟩

def named {ν : Type} (w : Weights ν) : List (String × ν) :=
  [("allocations", w.allocations), ("abstract_types", w.abstractTypes),
    ("dynamic_dispatch", w.dynamicDispatch), ("lifetimes", w.lifetimes),
    ("constants", w.constants)]

def total {ν : Type} [Add ν] [OfNat ν 0] (w : Weights ν) : ν :=
  (w.named.map Prod.snd).foldl (· + ·) 0

def tolerance : Float := 1e-6

def checked (w : Weights Float) : Except ConfigFault (Weights Float) :=
  match w.named.find? fun (_, value) => value < 0.0 with
  | some (name, value) => .error (.negativeWeight name value)
  | none =>
    if (w.total - 100.0).abs > tolerance then .error (.weightSum w.total) else .ok w

def weight : Json → Except ConfigFault Float
  | .str s =>
    match Decimal.read? s with
    | some x => .ok x
    | none => .error (.weightText s)
  | j =>
    match Quantity.ofJson? j with
    | some (.real x) => .ok x
    | some q =>
      let x := q.toFloat
      if x.isInf then .error .weightRange else .ok x
    | none => .error .wrongKind

def replace (w : Weights Float) (name : Text) (value : Float) : Weights Float :=
  match name.string with
  | "allocations" => { w with allocations := value }
  | "abstract_types" => { w with abstractTypes := value }
  | "dynamic_dispatch" => { w with dynamicDispatch := value }
  | "lifetimes" => { w with lifetimes := value }
  | "constants" => { w with constants := value }
  | _ => w

/-- Whether two keys take one place in a set: equal numbers do, whatever their kind. -/
def sameKey (a b : Json) : Bool :=
  match Quantity.ofJson? a, Quantity.ofJson? b with
  | some x, some y => x.compare? y == some .eq
  | _, _ => a.same b

def isKey : Json → Bool
  | .arr _ | .obj _ => false
  | _ => true

def sortedKeys (keys : List Json) : Except ConfigFault (List Json) :=
  if keys.length ≤ 1 then .ok keys
  else
    match keys.mapM Json.text?, keys.mapM Quantity.ofJson? with
    | some texts, _ => .ok ((texts.mergeSort Text.notAfter).map .str)
    | none, some numbers =>
      .ok ((numbers.mergeSort fun a b => !(b.below a)).map Quantity.toJson)
    | none, none => .error .wrongKind

def strangers (known : List String) (keys : List Json) : Except ConfigFault (List Json) :=
  if keys.all isKey then
    let strange := keys.filter fun k => !(known.any fun n => k.text? == some (Text.ofString n))
    sortedKeys (strange.foldl (fun kept k => if kept.any (sameKey k) then kept else kept ++ [k]) [])
  else .error .wrongKind

def names : List String := standard.named.map Prod.fst

def misplaced (keys : List Json) : Except ConfigFault (Weights Float) := do
  match ← strangers names keys with
  | [] => throw .withoutNames
  | unknown => throw (.unknownWeights unknown)

def ofJson : Json → Except ConfigFault (Weights Float)
  | .obj members => do
    match ← strangers names (members.map fun m => .str m.1) with
    | [] =>
      let given ← members.mapM fun (name, j) => do return (name, ← weight j)
      checked (given.foldl (fun w (name, value) => w.replace name value) standard)
    | unknown => throw (.unknownWeights unknown)
  | .arr items => misplaced items
  | .str t => misplaced (t.points.map fun p => .str (.singleton p))
  | _ => .error .wrongKind

def toJson (w : Weights Float) : Json :=
  .obj (w.named.map fun (name, value) => (name, .float value))

end Weights
end Readiness
