import Readiness.Proofs.Folding.Soundness
import Readiness.Proofs.Inference.Fixpoint
import Readiness.Proofs.Lowering.Statements
import Readiness.Proofs.Types.Operators

/-!
# Folded constants have the types found

A statement that is not excepted gives a constant which the types of its target admit, when the
types of its operands admit what it reads; so all statements agree when the excepted ones do
(`types_admit_constants`).  A statement is excepted when the type of its target is declared, when it
reads a name that was given up, when it chooses between values one of which has no type, when it
releases memory, when its power leaves the numbers of its operands, and when it rounds a double to
places.  A declared type can refuse the constant (`declared_float_refuses_sum`).
-/

namespace Readiness.Folding

open Graph (Statement Operand CallInfo IsDescribed)
open Inference (Types operandType allTyped plan Settled)
open TypeSet (Admits)
open List

abbrev Typed (types : Types) : Facts → Prop :=
  Each fun x c => (operandType types (.var x)).Admits c

section Operands

variable {types : Types} {facts : Facts} {os : List Operand} {values : List Const}

theorem Typed.lookUp? (h : Typed types facts) {o : Operand} {c : Const}
    (hlook : lookUp? facts o = some c) : (operandType types o).Admits c := by
  rcases lookUp?_cases hlook with ⟨x, rfl, hx⟩ | rfl | ⟨n, rfl⟩
  · exact h.get hx
  · exact TypeSet.admits_kind c
  · exact TypeSet.admits_kind c

theorem allTyped_eq (h : ∀ o ∈ os, operandType types o ≠ []) :
    allTyped types os = some (os.map (operandType types)) := by
  induction os with
  | nil => rfl
  | cons o os ih =>
    have hrest := ih fun o' ho' => h o' (mem_cons_of_mem o ho')
    unfold allTyped at hrest ⊢
    rw [mapM_cons, hrest]
    cases hfirst : operandType types o with
    | nil => exact absurd hfirst (h o mem_cons_self)
    | cons t ts => simp [hfirst]

def AdmitsRead (types : Types) (facts : Facts) (os : List Operand) : Prop :=
  ∀ o ∈ os, ∀ c, lookUp? facts o = some c → (operandType types o).Admits c

theorem Typed.admitsRead (h : Typed types facts) (os : List Operand) : AdmitsRead types facts os :=
  fun _ _ _ => h.lookUp?

theorem AdmitsRead.forall₂ (h : AdmitsRead types facts os)
    (hlooked : List.Forall₂ (fun o c => lookUp? facts o = some c) os values) :
    List.Forall₂ (fun o c => (operandType types o).Admits c) os values := by
  induction hlooked with
  | nil => exact .nil
  | cons hlook _ ih =>
    obtain ⟨hfirst, hrest⟩ := forall_mem_cons.1 h
    exact .cons (hfirst _ hlook) (ih hrest)

theorem AdmitsRead.known (h : AdmitsRead types facts os) (hknown : known facts os = .ok values) :
    allTyped types os = some (os.map (operandType types)) ∧
      List.Forall₂ Admits (os.map (operandType types)) values := by
  have hlooked := forall₂_of_known hknown
  refine ⟨allTyped_eq fun o ho => ?_, forall₂_map_left_iff.2 (h.forall₂ hlooked)⟩
  obtain ⟨i, hi⟩ := mem_iff_getElem?.1 ho
  obtain ⟨c, -, hlook⟩ := exists_getElem?_of_forall₂ hlooked.flip hi
  exact (h o ho c hlook).ne_nil

end Operands

/-! ### Statements -/

/-- The statements that may give a constant which the types of their target do not admit. -/
inductive Excepted (types : Types) (fixed givenUp : List String) (facts : Facts) (s : Statement) :
    Prop
  | declared {x : String} (htarget : s.target = some x) (hx : x ∈ fixed)
  | givenUp {y : String} (hy : y ∈ givenUp) (hread : .var y ∈ s.operands)
  | untyped {o : Operand} (hop : s.op = "select") (ho : o ∈ s.operands)
    (hnone : operandType types o = [])
  | released {call : CallInfo} (hcall : s.call = some call) (hreleases : call.deallocates = true)
  | power {a b : Const} {rest : List Const} {m n : Numeric} {p : Numeric.Pair} (hop : s.op = "**")
    (hargs : known facts s.args = .ok (a :: b :: rest)) (hm : a.numeric? = some m)
    (hn : b.numeric? = some n) (hp : Numeric.pair m n = .ok p) (hleaves : p.powerStays = false)
  | rounding {call : CallInfo} {values : List Const} (hcall : s.call = some call)
    (hcallee : pure? call.callee = some .round) (hargs : known facts s.args = .ok values)
    (hkeeps : Pure.KeepsDouble values)

/-- The classes of the language that are called are among those that there are. -/
def CallsClasses (s : Statement) : Prop :=
  ∀ call name, s.call = some call → call.callee = .type (.cls (.builtin name)) →
    Image.builtinClasses.contains name

section Statements

variable {image : Image} {types : Types} {fixed givenUp : List String} {facts : Facts}
  {s : Statement} {call : CallInfo} {b : Bounds} {moment : Moment} {c : Const}

theorem plan_operator (hkind : s.kind = .call) (hcall : s.call = some call)
    (hdispatch : call.dispatch = .operator) {ts : List TypeSet}
    (htyped : allTyped types s.operands = some ts) :
    plan image types s = .ok (some (Inference.operatorType image s call ts)) := by
  unfold plan
  simp only [hkind, hcall, hdispatch, if_true, htyped]
  rfl

/-- The rule that types a folded call admits the constant. -/
theorem exists_plan_of_folded (hkind : s.kind = .call) (hcall : s.call = some call)
    (hdescribed : IsDescribed s.kind s.op s.operands s.call) (hclasses : CallsClasses s)
    (hread : AdmitsRead types facts s.operands) (hs : ¬Excepted types fixed givenUp facts s)
    {used : List Operand} (h : Folded b moment facts s call c used) :
    ∃ ts, plan image types s = .ok (some ts) ∧ ts.Admits c := by
  rw [hcall] at hdescribed
  have hargs : call.dispatch = .operator → s.args = s.operands := by
    intro hdispatch
    have hreceiver := (hdescribed.operator hkind hdispatch).1
    simp [Statement.args, Statement.hasReceiver, hcall, hreceiver]
  cases h with
  | @selected test condition chosen dispatch op first hfirst second hsecond =>
    obtain ⟨o, yes, no, hoperands⟩ :=
      length_eq_three.1 ((hdescribed.operator hkind dispatch).2 op)
    have htyped : allTyped types s.operands = some (s.operands.map (operandType types)) :=
      allTyped_eq fun o ho hnone => hs (.untyped op ho hnone)
    refine ⟨_, plan_operator hkind hcall dispatch htyped, ?_⟩
    have hchosen : chosen = yes ∨ chosen = no := by
      unfold Statement.operand at second
      rw [hoperands] at second
      cases htruth : test.truth <;> rw [htruth] at second <;> cases second <;> simp
    have hjoin : Inference.operatorType image s call (s.operands.map (operandType types)) =
        TypeSet.join (operandType types yes) (operandType types no) := by
      rw [hoperands]
      unfold Inference.operatorType
      simp [op]
    rw [hjoin]
    refine TypeSet.admits_join ?_
    rcases hchosen with rfl | rfl
    · exact .inl (hread _ (by simp [hoperands]) _ hsecond)
    · exact .inr (hread _ (by simp [hoperands]) _ hsecond)
  | @operated values dispatch op args result fits =>
    have hknown : known facts s.operands = .ok values := hargs dispatch ▸ args
    obtain ⟨htyped, hadmits⟩ := hread.known hknown
    refine ⟨_, plan_operator hkind hcall dispatch htyped, ?_⟩
    refine Inference.admits_operatorType result hadmits ?_ ?_
    · intro k hk
      obtain ⟨k', hk', hlook⟩ := exists_getElem?_of_forall₂ (forall₂_of_known hknown).flip hk
      cases hlook
      exact hk'
    · intro hop a b rest m n p hvalues hm hn hp
      by_contra hleaves
      exact hs (.power hop (hvalues ▸ args) hm hn hp (by simpa using hleaves))
  | @applied f values dispatch callee plain args result =>
    have hreadArgs : AdmitsRead types facts s.args := fun o ho =>
      hread o (Statement.mem_operands_of_mem_args ho)
    obtain ⟨htyped, hadmits⟩ := hreadArgs.known args
    have hpositional : s.positionalArgs = s.args := by
      simp only [Bool.or_eq_false_iff, Bool.not_eq_false'] at plain
      simp [Statement.positionalArgs, Statement.keywords, hcall, plain.1]
    obtain ⟨ts, hts, hadmitted⟩ := Inference.admits_staticCall callee
      (fun name hname => hclasses call name hcall hname) (s := s)
      (by rw [hpositional]; exact htyped) hadmits result
      (fun hround hkeeps => hs (.rounding hcall (hround ▸ callee) args hkeeps))
    refine ⟨ts, ?_, hadmitted⟩
    have hkept : call.deallocates = false := by
      by_contra hreleases
      exact hs (.released hcall (by simpa using hreleases))
    unfold plan Inference.callType
    simp only [hkind, hcall, dispatch, hkept, hts]
    rfl

/-- The rule that types a statement admits the constant that the statement gives. -/
theorem exists_plan_of_gives (image : Image)
    (hdescribed : IsDescribed s.kind s.op s.operands s.call)
    (hclasses : CallsClasses s) (hread : AdmitsRead types facts s.operands)
    (hs : ¬Excepted types fixed givenUp facts s) (h : Gives b moment facts s c) :
    s.kind ≠ .return_ ∧ ∃ ts, plan image types s = .ok (some ts) ∧ ts.Admits c := by
  rcases h with ⟨hkind, hfold⟩ | ⟨hkind, hop, o, ho, hlook⟩
  · obtain ⟨call, used, hcall, hfolded, -⟩ := folded_of_fold hfold
    exact ⟨by simp [hkind],
      exists_plan_of_folded hkind hcall hdescribed hclasses hread hs hfolded⟩
  · have hhead : s.operands.head? = some o := by
      unfold Statement.operand at ho
      rw [head?_eq_getElem?]
      split at ho
      · rename_i heq
        exact heq.trans (congrArg some (Except.ok.inj ho))
      · cases ho
    have hadmits := hread o (mem_of_head? hhead) c hlook
    refine ⟨by simp [hkind], operandType types o, ?_, hadmits⟩
    unfold plan Inference.assignmentType
    rw [hkind]
    simp only [hop, hhead, Option.map_some]
    cases htype : operandType types o with
    | nil => exact absurd htype hadmits.ne_nil
    | cons t ts => rfl

def Agrees (types : Types) (b : Bounds) (facts : Facts) (s : Statement) : Prop :=
  ∀ moment x c, s.target = some x → Gives b moment facts s c →
    (operandType types (.var x)).Admits c

theorem agrees_of_settled {ask : Target → Inference.Step (Option TypeSet)} {t : Target}
    {statements : List Statement} {earlier returns : TypeSet} {session : Inference.Session}
    (hsettled : Settled image ask fixed t statements givenUp earlier types returns session)
    (hmem : s ∈ statements) (hdescribed : IsDescribed s.kind s.op s.operands s.call)
    (hclasses : CallsClasses s) (hread : AdmitsRead types facts s.operands)
    (hs : ¬Excepted types fixed givenUp facts s) : Agrees types b facts s := by
  intro moment x c htarget hgives
  obtain ⟨hkind, ts, hplan, hadmits⟩ :=
    exists_plan_of_gives image hdescribed hclasses hread hs hgives
  obtain ⟨r, hr, habsorbs⟩ := hsettled.assigned s hmem hkind x htarget
    (fun hx => hs (.declared htarget hx)) (fun y hy hmem => hs (.givenUp hy hmem)) fun u hu => by
      rw [hplan] at hu
      cases hu
  rw [Inference.statementType, hplan] at hr
  cases hr
  exact hadmits.of_absorbs (habsorbs hadmits.ne_nil)

end Statements

/-! ### The pass -/

/-- The statements that a run of a block comes to, with the facts before them. -/
inductive ComesTo (b : Bounds) (round : Nat) :
    Nat → Facts → List Statement → Facts → Statement → Prop
  | here (position : Nat) (facts : Facts) (s : Statement) (rest : List Statement) :
    ComesTo b round position facts (s :: rest) facts s
  | later {position : Nat} {facts middle facts' : Facts} {s s' : Statement} {rest : List Statement}
    (hfirst : transfer b ⟨round, position⟩ facts s = .ok middle)
    (hrest : ComesTo b round (position + 1) middle rest facts' s') :
    ComesTo b round position facts (s :: rest) facts' s'

abbrev Propagates (b : Bounds) (g : Graph) : Nat → Flow.Pending Facts → Prop :=
  Flow.Passed g .empty (send b g) merge sameFacts Flow.standardRounds

def Visits (b : Bounds) (g : Graph) (facts : Facts) (s : Statement) : Prop :=
  ∃ n p block before round, Propagates b g n p ∧ block ∈ g.reachable ∧
    p.facts.get? block = some before ∧ ComesTo b round 0 before (g.statementsOf block) facts s

section Pass

variable {types : Types} {b : Bounds} {round position : Nat} {before after : Facts}
  {statements : List Statement} {condition condition' : Option Const} {g : Graph} {facts : Facts}
  {s : Statement}

theorem ComesTo.mem (h : ComesTo b round position before statements facts s) : s ∈ statements := by
  induction h with
  | here => exact mem_cons_self
  | later _ _ ih => exact mem_cons_of_mem _ ih

theorem Visits.mem (h : Visits b g facts s) : s ∈ g.statements := by
  obtain ⟨_, _, block, _, _, -, hblock, -, hs⟩ := h
  exact mem_flatMap.2 ⟨block, hblock, hs.mem⟩

theorem typed_of_comesTo (hbefore : Typed types before)
    (hagrees : ∀ facts s, ComesTo b round position before statements facts s → Typed types facts →
      Agrees types b facts s) (h : ComesTo b round position before statements facts s)
    : Typed types facts := by
  induction h with
  | here => exact hbefore
  | later hfirst _ ih =>
    refine ih (hbefore.transfer hfirst ?_) fun facts s h => hagrees facts s (.later hfirst h)
    exact hagrees _ _ (.here ..) hbefore _

theorem typed_of_runFrom (hbefore : Typed types before)
    (hagrees : ∀ facts s, ComesTo b round position before statements facts s → Typed types facts →
      Agrees types b facts s)
    (h : runFrom b round condition position before statements = .ok (after, condition')) :
    Typed types after := by
  induction statements generalizing before condition position with
  | nil =>
    cases h
    exact hbefore
  | cons s rest ih =>
    obtain ⟨known, middle, -, hfirst, h⟩ := runFrom_cons h
    refine ih (hbefore.transfer hfirst ?_) (fun facts s h => hagrees facts s (.later hfirst h)) h
    exact hagrees _ _ (.here ..) hbefore _

theorem mem_of_mem_liveEdges {edges : List Graph.Edge} {last : Option Statement} {e : Graph.Edge}
    (h : e ∈ liveEdges edges last condition) : e ∈ edges := by
  unfold liveEdges at h
  split at h
  · split at h
    · split at h
      · exact mem_of_mem_filter h
      · exact h
    · exact h
  · exact h

/-- In every state the blocks with facts can be reached, and the types admit the facts. -/
theorem typed_of_propagates (hagrees : ∀ facts s, Visits b g facts s → Typed types facts →
      Agrees types b facts s) {n : Nat} {p : Flow.Pending Facts}
    (hp : Propagates b g n p) : ∀ {block facts}, p.facts.get? block = some facts →
      block ∈ g.reachable ∧ Typed types facts := by
  induction hp with
  | start =>
    intro block facts h
    obtain ⟨rfl, rfl⟩ := Flow.get?_start h
    exact ⟨(Graph.mem_reachable_iff g _).2 (.refl _), nofun⟩
  | @round n block rest p fact outs before hqueue hfact houts ih =>
    intro block' facts h
    obtain ⟨hreach, htyped⟩ := ih hfact
    refine Flow.forall_receive_all (Q := fun block facts => block ∈ g.reachable ∧ Typed types facts)
      (fun hx hy => ⟨hx.1, hx.2.merge hy.2⟩) ?_ (p := ⟨p.facts, rest⟩) ih h
    obtain ⟨after, condition, hrun, rfl⟩ := exists_of_send houts
    intro sent hsent
    obtain ⟨e, he, rfl⟩ := mem_map.1 hsent
    obtain ⟨hedge, hsource⟩ := Graph.mem_outgoing.1 (mem_of_mem_liveEdges he)
    refine ⟨?_, typed_of_runFrom htyped (fun facts s hs => ?_) hrun⟩
    · refine (Graph.mem_reachable_iff g _).2 (.step ((Graph.mem_reachable_iff g _).1 hreach) ?_)
      exact Graph.mem_successors.2 ⟨e, hedge, hsource, rfl⟩
    · exact hagrees facts s ⟨_, p, block, fact, n, before, hreach, hfact, hs⟩

end Pass

section Run

open Inference (infer resultOf typeRound Rounds maxRounds Limits Session)

variable {image : Image} {f : Image.Function} {body : Image.Body} {params : List String}
  {maxDepth : Option Nat} {l : Lowering.Lowered} {limits : Limits} {room : Nat} {t : Target}
  {session session' : Session} {seeds : List (String × TypeSet)} {fixed types : Types}
  {returns : TypeSet}

/-- Typing and the propagation of constants agree on a lowered function, but for the excepted
statements: whatever the propagation comes to, a statement that is not excepted gives only constants
that the types of its target admit if the types of its operands admit what it reads, so all
statements agree when the excepted ones do.  The names that are given up are those that change in
the last round of typing. -/
theorem types_admit_constants (hlower : Lowering.lowerBody image f body params maxDepth = .ok l)
    (hclasses : ∀ s ∈ l.graph.statements, CallsClasses s) (hfresh : session.returned? t = none)
    (h : infer image (resultOf image limits room) (Table.ofList seeds) fixed t l.graph.statements
      (session.opened t) = (.ok (types, returns), session')) (b : Bounds) :
    (∀ p, propagated b l.graph = .ok p → ∃ k, Propagates b l.graph k p) ∧
    ∃ n before u last,
      Rounds image (resultOf image limits room) fixed.keys t l.graph.statements
        ⟨(Table.ofList seeds).update fixed, [], []⟩ (session.opened t) n before u ∧
      typeRound image (resultOf image limits room) fixed.keys t l.graph.statements before u =
        (.ok last, session') ∧
      (last.changed = [] ∨ n + 1 = maxRounds) ∧
      (∀ x ∈ last.changed, operandType types (.var x) = TypeSet.unknown) ∧
      (∀ facts s, Visits b l.graph facts s → ¬Excepted types fixed.keys last.changed facts s →
        AdmitsRead types facts s.operands → Agrees types b facts s) ∧
      ((∀ facts s, Visits b l.graph facts s → Excepted types fixed.keys last.changed facts s →
          Agrees types b facts s) →
        ∀ facts s, Visits b l.graph facts s → Agrees types b facts s) := by
  refine ⟨fun p hp => (Flow.Passed.start.rounds hp).imp fun _ => And.left, ?_⟩
  have hask : Inference.Asking image limits (resultOf image limits room) :=
    Inference.asking_resultOf room
  obtain ⟨n, before, u, last, hrounds, hround, hend, rfl, rfl⟩ :=
    Inference.exists_last_round_of_infer h
  obtain ⟨s₁, hgrows, rfl⟩ := hrounds.grows hask (Inference.returning_opened hfresh [])
  obtain ⟨s₂, hgrows', rfl⟩ := Inference.infer_grows hask hfresh h
  have hsettled := Inference.settled_of_typeRound
    (Inference.pending_returning hfresh hgrows _) hround (Inference.pending_returning hfresh hgrows' _)
  obtain ⟨draft, hcomplete, hgraph⟩ := Lowering.exists_complete_of_lowerBody hlower
  have hdescribed : l.graph.Described := hgraph ▸ hcomplete.reached.described
  have hordinary : ∀ facts s, Visits b l.graph facts s →
      ¬Excepted last.result fixed.keys last.changed facts s →
      AdmitsRead last.result facts s.operands → Agrees last.result b facts s := by
    intro facts s hvisits hs hread
    obtain ⟨block, -, hmem⟩ := List.mem_flatMap.1 hvisits.mem
    exact agrees_of_settled hsettled hvisits.mem (hdescribed block s hmem) (hclasses s hvisits.mem)
      hread hs
  refine ⟨n, before, _, last, hrounds, hround, hend, hsettled.unknown, hordinary,
    fun hexcepted => ?_⟩
  have hagrees : ∀ facts s, Visits b l.graph facts s → Typed last.result facts →
      Agrees last.result b facts s := by
    intro facts s hvisits htyped
    by_cases hs : Excepted last.result fixed.keys last.changed facts s
    · exact hexcepted facts s hvisits hs
    · exact hordinary facts s hvisits hs (htyped.admitsRead _)
  intro facts s hvisits
  obtain ⟨k, p, block, start, round, hp, hblock, hstart, hs⟩ := id hvisits
  have htyped := (typed_of_propagates hagrees hp hstart).2
  refine hagrees facts s hvisits (typed_of_comesTo htyped (fun facts s hs => ?_) hs)
  exact hagrees facts s ⟨k, p, block, start, round, hp, hblock, hstart, hs⟩

end Run

/-! ### An instance -/

open Source (Expr Stmt)

/-- Adds two numbers and takes the sum times a third one. -/
def doubled : List Stmt :=
  let number (n : Int) : Expr := .constant ⟨1, 0, 1⟩ (.int n)
  [.assign ⟨1, 0, 1⟩ [.name ⟨1, 0, 1⟩ "x" .store] (.binary ⟨1, 0, 1⟩ (number 2) .add (number 3)),
    .assign ⟨2, 0, 2⟩ [.name ⟨2, 0, 2⟩ "y" .store]
      (.binary ⟨2, 0, 2⟩ (.name ⟨2, 0, 2⟩ "x" .load) .mult (number 2)),
    .ret ⟨3, 0, 3⟩ (some (.name ⟨3, 0, 3⟩ "y" .load))]

def doubledLowered : Except Refusal Lowering.Lowered :=
  Lowering.lowerBody Inference.lone default ⟨.statements doubled, 0, 0⟩ [] none

def doubledTyped (l : Lowering.Lowered) : Except Refusal (Types × TypeSet) × Inference.Session :=
  Inference.infer Inference.lone Inference.loneResult (Table.ofList [])
    .empty Inference.loneTarget l.graph.statements
    (Inference.Session.empty.opened Inference.loneTarget)

/-- Whether a statement is not excepted, whatever the facts are, since something is known of all its
operands. -/
def isOrdinary (types : Types) (s : Statement) : Bool :=
  s.op != "select" && s.op != "**"
    && s.call.all (fun call =>
      !call.deallocates && call.callee.class?.isNone && (pure? call.callee).isNone)
    && s.operands.all fun o => !(operandType types o).isUnknown

def isOrdinaryNumber (x : String) (l : Lowering.Lowered) : Bool :=
  match doubledTyped l with
  | (.ok (types, _), _) => l.graph.statements.all (isOrdinary types)
    && TypeSet.equal (operandType types (.var x)) (TypeSet.ofClass .int)
  | _ => false

theorem not_excepted_of_isOrdinary {types : Types} {givenUp : List String} {facts : Facts}
    {s : Statement} (hs : isOrdinary types s = true)
    (hunknown : ∀ x ∈ givenUp, operandType types (.var x) = TypeSet.unknown) :
    ¬Excepted types [] givenUp facts s := by
  simp only [isOrdinary, Bool.and_eq_true, bne_iff_ne, all_eq_true] at hs
  obtain ⟨⟨⟨hselect, hpower⟩, hcall⟩, hoperands⟩ := hs
  intro h
  cases h with
  | declared _ hx => cases hx
  | givenUp hy hread =>
    have hknown := hoperands _ hread
    rw [hunknown _ hy] at hknown
    exact absurd hknown (by decide)
  | untyped hop => exact hselect hop
  | released hc hreleases => simp [hc, hreleases] at hcall
  | power hop => exact hpower hop
  | rounding hc hcallee => simp [hc, hcallee] at hcall

theorem doubled_types_admit_constants : ∃ l types returns session',
    doubledLowered = .ok l ∧ (∀ s ∈ l.graph.statements, CallsClasses s) ∧
    Inference.Session.empty.returned? Inference.loneTarget = none ∧
    doubledTyped l = (.ok (types, returns), session') ∧
    TypeSet.equal (operandType types (.var "y")) (TypeSet.ofClass .int) = true ∧
    ∀ facts s, Visits .standard l.graph facts s → Agrees types .standard facts s := by
  have hchecked : doubledLowered.toOption.any (isOrdinaryNumber "y") = true := by decide +kernel
  cases hlower : doubledLowered with
  | error e =>
    rw [hlower] at hchecked
    cases hchecked
  | ok l =>
    rw [hlower] at hchecked
    change isOrdinaryNumber "y" l = true at hchecked
    unfold isOrdinaryNumber at hchecked
    split at hchecked
    · rename_i types returns session' htyped
      rw [Bool.and_eq_true, List.all_eq_true] at hchecked
      have hclasses : ∀ s ∈ l.graph.statements, CallsClasses s := by
        intro s hs call name hcall hcallee
        have hordinary := hchecked.1 s hs
        simp [isOrdinary, hcall, hcallee, Entity.class?] at hordinary
      obtain ⟨-, n, before, u, last, -, -, -, hunknown, -, hall⟩ :=
        types_admit_constants hlower hclasses rfl htyped .standard
      exact ⟨l, types, returns, session', rfl, hclasses, rfl, htyped, hchecked.2,
        hall fun facts s hvisits hs =>
          absurd hs (not_excepted_of_isOrdinary (hchecked.1 s hvisits.mem) hunknown)⟩
    · cases hchecked

def declaredSum : List Stmt :=
  let number (n : Int) : Expr := .constant ⟨1, 0, 1⟩ (.int n)
  [.annAssign ⟨1, 0, 1⟩ (.name ⟨1, 0, 1⟩ "x" .store) (.name ⟨1, 0, 1⟩ "float" .load)
    (some (.binary ⟨1, 0, 1⟩ (number 1) .add (number 2)))]

def sumStatement : Statement :=
  { kind := .call, op := "+", location := ⟨"prog.py", 1, 0⟩, index := 0, target := some "x"
    operands := [.const (.int 1), .const (.int 2)]
    call := some { dispatch := .operator, calleeName := "+" } }

def declaredSumLowered : Lowering.Lowered where
  graph :=
    { Graph.start "" "" [] with
      blocks := #[⟨"entry", 0, #[]⟩, ⟨"exit", 0, #[]⟩,
        ⟨"body", 0, #[sumStatement,
          { kind := .return_, op := "return", location := ⟨"prog.py", 1, 0⟩, index := 1
            operands := [.const .none] }]⟩]
      edges := #[⟨Graph.entry, 2, .fallThrough⟩, ⟨2, Graph.exit, .return_⟩] }
  declared := Table.empty.set "x" (.cls .float)
  locals := ["x"]
  isGenerator := false

/-- A declared type stays as it is, and does not admit the integer that the propagation finds. -/
theorem declared_float_refuses_sum :
    ∃ l fixed types returns session' facts moment,
      Lowering.lowerBody Inference.lone default ⟨.statements declaredSum, 0, 0⟩ [] none = .ok l ∧
      Inference.fixedTypes l.declared .empty = .ok fixed ∧
      Inference.infer Inference.lone Inference.loneResult
        (Table.ofList []) fixed Inference.loneTarget l.graph.statements
        (Inference.Session.empty.opened Inference.loneTarget) =
          (.ok (types, returns), session') ∧
      Visits .standard l.graph facts sumStatement ∧
      fold .standard moment facts sumStatement = .ok (.int 3) ∧
      ¬(operandType types (.var "x")).Admits (.int 3) := by
  have hvisits : Visits .standard declaredSumLowered.graph .empty sumStatement :=
    ⟨_, _, 2, .empty, 0, .round .start rfl rfl rfl, by decide +kernel, rfl, .here ..⟩
  have hrefuses : ¬(TypeSet.ofClass .float).Admits (.int 3) := by
    rw [TypeSet.admits_ofClass]
    intro hfits
    exact absurd hfits.cls (by decide)
  exact ⟨declaredSumLowered, Table.ofList [("x", TypeSet.ofClass .float)],
    Table.ofList [("x", TypeSet.ofClass .float)], _, _, .empty, ⟨0, 0⟩, by with_unfolding_all rfl,
    by with_unfolding_all rfl, by with_unfolding_all rfl, hvisits, by with_unfolding_all rfl,
    hrefuses⟩

end Readiness.Folding
