import Readiness.Proofs.Graph.Route
import Readiness.Proofs.Lowering.Suites

/-!
# Cleaning up

A walk that leaves the protected blocks cleans up if and only if it does not leave them
by a jump (`leaving_cleans_up_unless_jumping`).
-/

namespace Readiness.Lowering

open Graph (Statement Operand Location Grown Within Route)
open Source (Expr Stmt Handler StandsIn)

/-- Whether a statement cleans up when it is left. -/
def cleansUp : Stmt → Bool
  | .guarded _ _ _ _ _ finalbody => !finalbody.isEmpty
  | .manage _ _ _ => true
  | _ => false

/-- The blocks that a statement protects, and the block where it cleans up. -/
inductive Protects (c : Context) (g : Graph) : Stmt → (Nat → Prop) → Nat → Prop
  /-- The last suite starts in a block of its own. -/
  | last {room : Nat} {p : Source.Place} {star : Bool} {body orelse finalbody : List Stmt}
    {handlers : List Handler} {b x b' y z : Builder} :
    lowerStmt (room + 1) (.guarded p star body handlers orelse finalbody) c b = .ok ((), b') →
    Within b'.graph g → body.forM (lowerStmt room) c y = .ok ((), z) →
    (∀ k, Region y z k →
      b.graph.blocks.size ≤ k ∧ k < x.graph.blocks.size ∧ k ≠ x.block) →
    finalbody.forM (lowerStmt room) c x = .ok ((), b') → x.graph.statementsOf x.block = [] →
    Protects c g (.guarded p star body handlers orelse finalbody)
      (fun k => b.graph.blocks.size ≤ k ∧ k < x.graph.blocks.size ∧ k ≠ x.block) x.block
  /-- The managers exit in the block where the body ends, after what it holds by then. -/
  | exits {room : Nat} {p : Source.Place} {entries : List (Expr × Option Expr)} {suite : List Stmt}
    {b x y b' : Builder} {place : Location} {opened : List Operand} {exits : List Statement} :
    lowerStmt (room + 1) (.manage p entries suite) c b = .ok ((), b') →
    managers (lowerExpr room) place entries c b = .ok (opened, x) →
    suite.forM (lowerStmt room) c x = .ok ((), y) →
    exits.map Statement.operands = opened.reverse.map (fun m => [m]) →
    (∀ st ∈ exits, st.kind = .other ∧ st.op = "exit") →
    y.graph.unnamed y.block ++ exits <+: g.unnamed y.block →
    Protects c g (.manage p entries suite) (Region x y) y.block

/-- How control leaves protected blocks: it comes to the block that cleans up, or was there last, if
and only if it does not jump from elsewhere. -/
structure Leaves (g : Graph) (inside : Nat → Prop) (cleanup : Nat) : Prop where
  exit : ¬inside Graph.exit
  edges : ∀ e ∈ g.edges, inside e.source → ¬inside e.target →
    ((e.source = cleanup ∨ e.target = cleanup) ↔ ¬(e.kind.isJump = true ∧ e.source ≠ cleanup))
  into : ∀ e ∈ g.edges, e.target = cleanup → inside e.source ∨ inside cleanup

section Leaving

variable {c : Context} {g : Graph} {room : Nat} {b b' : Builder}

/-- The last suite of a `try` statement. -/
theorem exists_protects_guarded {p : Source.Place} {star : Bool} {body orelse finalbody : List Stmt}
    {handlers : List Handler} (hs : Sound b) (hsize : 3 ≤ b.graph.blocks.size)
    (hrun : lowerStmt (room + 1) (.guarded p star body handlers orelse finalbody) c b = .ok ((), b'))
    (hg : Grown (later b b') b'.graph g) :
    ∃ inside cleanup, Protects c g (.guarded p star body handlers orelse finalbody) inside cleanup ∧
      Leaves g inside cleanup := by
  have hstmt := follows_lowerStmt room
  have hsuite := follows_suite hstmt
  obtain ⟨place, b₀, hplace, hrun'⟩ := bind_eq_ok.mp hrun
  obtain rfl : b = b₀ := by cases hplace; rfl
  obtain ⟨x, hm, hfinal, htried⟩ := tried_moves (follows_lowerExpr room) hstmt
    (hsuite body _) (hsuite orelse _) (bringAll_of_follows hstmt handlers) hs.drafts
    (serves_apart c b) hrun'
  obtain ⟨y, z, hbody, hlo, hy, hgrow, hhi⟩ := htried.body
  have hx := hm.steps c
  have hlt := hx.sound.block
  have hle := htried.le
  have hrest := (hsuite finalbody).steps hx.sound hfinal
  have hsize₂ := hrest.size
  -- what comes later starts at the last suite or outside, so it is in the graph before that suite
  have hedges : ∀ e ∈ g.edges, e ∈ x.graph.edges ∨
      ¬(b.graph.blocks.size ≤ e.source ∧ e.source < x.graph.blocks.size ∧ e.source ≠ x.block) ∧
        e.target ≠ x.block := by
    have hafter : ∀ k, x.Owns k →
        ¬(b.graph.blocks.size ≤ k ∧ k < x.graph.blocks.size ∧ k ≠ x.block) := by
      rintro k (rfl | hge) ⟨_, hlt', hne⟩
      · exact hne rfl
      · omega
    intro e he
    rcases hg.edges e he with he | ⟨hsource, htarget⟩
    · rcases hrest.grown.edges e he with he | ⟨hsource, htarget⟩
      · exact .inl he
      · refine .inr ⟨hafter _ hsource, fun heq => ?_⟩
        rcases htarget with hjump | hge
        · rw [jumps_congr hx.around] at hjump
          have := hs.jumps_lt hjump
          omega
        · omega
    · refine .inr ⟨?_, by omega⟩
      rcases hsource with heq | hout
      · exact hafter _ (heq ▸ hrest.block)
      · exact fun ⟨hge, hlt', _⟩ => hout (.inr ⟨hge, by omega⟩)
  refine ⟨_, _, .last hrun hg.within hbody (fun k hk => ?_) hfinal htried.empty, ⟨?_, ?_, ?_⟩⟩
  · rcases hk with rfl | hk
    · omega
    · omega
  · rintro ⟨hge, -⟩
    have : Graph.exit = 1 := rfl
    omega
  · intro e he hin hout
    have he := (hedges e he).resolve_right fun h => h.1 hin
    have htarget := (hx.sound.closed e he).2
    rcases hx.grown.edges e he with he | ⟨-, hjump | hge⟩
    · have := (hs.closed e he).1
      omega
    · -- a jump leads to a block that was open before
      have hold := hs.jumps_lt hjump
      constructor
      · rintro (heq | heq)
        · exact absurd heq hin.2.2
        · omega
      · exact fun h => absurd ⟨hjump.1, hin.2.2⟩ h
    · have heq : e.target = x.block := by
        by_contra hne
        exact hout ⟨hge, htarget, hne⟩
      refine ⟨fun _ h => ?_, fun _ => .inr heq⟩
      rw [(htried.joins e he heq).1] at h
      exact absurd h.1 (by decide)
  · intro e he heq
    have he := (hedges e he).resolve_right fun h => h.2 heq
    obtain ⟨hkind, hge⟩ := htried.joins e he heq
    refine .inl ⟨hge, (hx.sound.closed e he).1, fun hsource => ?_⟩
    cases (hx.sound.unended e he hsource).symm.trans hkind

/-- Statements that exit managers are added to the current block. -/
theorem unnamed_exits {place : Location} : ∀ (opened : List Operand) {y z : Builder} {a : Unit},
    y.block < y.graph.blocks.size →
    (opened.forM fun m => perform .other "exit" place [m]) c y = .ok (a, z) →
    z.block = y.block ∧ z.graph.edges = y.graph.edges ∧ ∃ exits : List Statement,
      exits.map Statement.operands = opened.map (fun m => [m]) ∧
      (∀ st ∈ exits, st.kind = .other ∧ st.op = "exit") ∧
      z.graph.unnamed y.block = y.graph.unnamed y.block ++ exits
  | [], y, z, a, _, hrun => by
    cases hrun
    refine ⟨rfl, rfl, [], rfl, fun st hst => ?_, (List.append_nil _).symm⟩
    cases hst
  | m :: rest, y, z, a, hlt, hrun => by
    let st : Statement :=
      { kind := .other, op := "exit", location := place, index := y.index, operands := [m] }
    let y₁ : Builder :=
      { y with graph := y.graph.addStatement y.block st, index := y.index + 1 }
    have hrest : (rest.forM fun m => perform .other "exit" place [m]) c y₁ = .ok (a, z) := hrun
    obtain ⟨hblock, hedges, exits, hoperands, hkinds, hunnamed⟩ := unnamed_exits rest
      (y := y₁) ((Graph.size_addStatement y.graph y.block st).symm ▸ hlt) hrest
    have hfirst : y₁.graph.unnamed y.block = y.graph.unnamed y.block ++ [st] := by
      unfold Graph.unnamed
      rw [Graph.statementsOf_addStatement_self _ _ hlt, List.filter_append]
      rfl
    refine ⟨hblock, hedges, st :: exits, congrArg ([m] :: ·) hoperands, fun st' hst => ?_, ?_⟩
    · rcases List.mem_cons.mp hst with rfl | hst
      · exact ⟨rfl, rfl⟩
      · exact hkinds st' hst
    · rw [hunnamed, hfirst, List.append_assoc]
      rfl

theorem exists_protects_manage {p : Source.Place} {entries : List (Expr × Option Expr)}
    {suite : List Stmt} (hs : Sound b) (hblock : 2 ≤ b.block) (hsize : 3 ≤ b.graph.blocks.size)
    (hrun : lowerStmt (room + 1) (.manage p entries suite) c b = .ok ((), b'))
    (hg : Grown (later b b') b'.graph g) :
    ∃ inside cleanup, Protects c g (.manage p entries suite) inside cleanup ∧
      Leaves g inside cleanup := by
  have hexpr := follows_lowerExpr room
  have hstmt := follows_lowerStmt room
  obtain ⟨place, b₀, hplace, hrun'⟩ := bind_eq_ok.mp hrun
  obtain rfl : b = b₀ := by cases hplace; rfl
  obtain ⟨opened, x, hopened, hrun'⟩ := bind_eq_ok.mp hrun'
  obtain ⟨_, y, hsuite, hexits⟩ := bind_eq_ok.mp hrun'
  have hrun₁ := (follows_managers hexpr place entries).steps hs hopened
  have hrun₂ := (follows_suite hstmt suite).steps hrun₁.sound hsuite
  have hrun₃ := ((paired_follows true).toSequential.forM (fun _ => (paired_follows true).perform
    (by decide)) _).steps hrun₂.sound hexits
  have hlt := hrun₁.sound.block
  have hlt' := hrun₂.sound.block
  have hsize₁ := hrun₁.size
  have hsize₂ := hrun₂.size
  have hsize₃ := hrun₃.size
  obtain ⟨hend, hkept, exits, hoperands, hkinds, hunnamed⟩ := unnamed_exits _ hlt' hexits
  have hcleanup : Region x y y.block := hrun₂.block.imp_right fun hge => ⟨hge, hlt'⟩
  have hregion : ∀ k, Region x y k → Region b b' k := by
    rintro k (rfl | ⟨hge, hlt''⟩)
    · exact hrun₁.block.imp_right fun hge => ⟨hge, by omega⟩
    · exact .inr ⟨by omega, by omega⟩
  refine ⟨Region x y, y.block, .exits hrun hopened hsuite hoperands hkinds
    (hunnamed ▸ hg.unnamed y.block), ⟨?_, ?_, fun _ _ _ => .inr hcleanup⟩⟩
  · have : Graph.exit = 1 := rfl
    rintro (heq | ⟨hge, -⟩)
    · rcases hrun₁.block with heq' | hge
      · omega
      · omega
    · omega
  · intro e he hin hout
    -- an edge from elsewhere was made while the body was lowered, or before
    have hjump : e.source ≠ y.block → e.kind.isJump = true := by
      intro hne
      have he : e ∈ y.graph.edges := by
        refine hkept ▸ (hg.edges e he).resolve_right fun hlead => ?_
        rcases hlead.1 with heq | hnot
        · exact hne (heq.trans hend)
        · exact hnot (hregion _ hin)
      rcases hrun₂.grown.edges e he with he | ⟨-, hjump | hge⟩
      · have hsource : e.source = x.block := by
          refine hin.resolve_right fun ⟨hge, _⟩ => ?_
          have := (hrun₁.sound.closed e he).1
          omega
        rw [hrun₁.sound.unended e he hsource]
        rfl
      · exact hjump.1
      · exact absurd (.inr ⟨hge, (hrun₂.sound.closed e ‹_›).2⟩) hout
    constructor
    · rintro (heq | heq) ⟨-, hne⟩
      · exact hne heq
      · exact hout (heq ▸ hcleanup)
    · intro h
      by_contra hne
      rw [not_or] at hne
      exact h ⟨hjump hne.1, hne.1⟩

end Leaving

/-- Control that has entered what a `try` statement with a last suite or a `with` statement
protects, anywhere in a function that lowers, leaves it on every walk to the exit of the function.
It cleans up then, in the block that it leaves or in the one that it comes to, if and only if it
does not jump from elsewhere: by returning, raising, or leaving or repeating a loop.  No other way
leads to the last suite. -/
theorem leaving_cleans_up_unless_jumping {image : Image} {f : Image.Function} {body : Image.Body}
    {params : List String} {maxDepth : Option Nat} {l : Lowered}
    (h : lowerBody image f body params maxDepth = .ok l) {stmts : List Stmt}
    (hbody : body.content = .statements stmts) {s : Stmt} (hs : StandsIn s stmts)
    (hcleans : cleansUp s = true) :
    ∃ c inside cleanup, Protects c l.graph s inside cleanup ∧
      (∀ e ∈ l.graph.edges, e.target = cleanup → inside e.source ∨ inside cleanup) ∧
      ∀ {k w}, inside k → Route l.graph k w Graph.exit →
        ∃ stay e rest, w = stay ++ e :: rest ∧ (∀ e' ∈ stay, inside e'.target) ∧
          inside e.source ∧ ¬inside e.target ∧
          ((e.source = cleanup ∨ e.target = cleanup) ↔
            ¬(e.kind.isJump = true ∧ e.source ≠ cleanup)) := by
  obtain ⟨c, room, y, z, hrun, hsound, hblock, hsize, -, hgrown⟩ := exists_run_of_standsIn h hbody hs
  have hprotects : ∃ inside cleanup, Protects c l.graph s inside cleanup ∧
      Leaves l.graph inside cleanup := by
    cases s with
    | guarded p star tried handlers orelse finalbody =>
      exact exists_protects_guarded hsound hsize hrun hgrown
    | manage p entries suite => exact exists_protects_manage hsound hblock hsize hrun hgrown
    | _ => cases hcleans
  obtain ⟨inside, cleanup, hprotects, hleaves⟩ := hprotects
  refine ⟨c, inside, cleanup, hprotects, hleaves.into, fun hk hroute => ?_⟩
  obtain ⟨stay, e, rest, heq, hstay, he, hsource, htarget⟩ := hroute.exists_exit hk hleaves.exit
  exact ⟨stay, e, rest, heq, hstay, hsource, htarget, hleaves.edges e he hsource htarget⟩

/-- A `try` statement that returns from its body and deletes a name in its last suite. -/
def returning : Stmt :=
  let n : Expr := .name ⟨1, 0, 1⟩ "n" .load
  .guarded ⟨1, 0, 4⟩ false [.ret ⟨2, 0, 2⟩ (some n)] [] [] [.delete ⟨4, 0, 4⟩ [n]]

def returningLowered : Except Refusal Lowered :=
  lowerBody .empty default ⟨.statements [returning], 0, 0⟩ ["n"] none

/-- The function returns without deleting the name. -/
theorem returning_cleans_up_unless_jumping :
    ∃ l, returningLowered = .ok l ∧ l.graph.statements.map Statement.op = ["return"] ∧
      ∃ c inside cleanup, Protects c l.graph returning inside cleanup ∧
        (∀ e ∈ l.graph.edges, e.target = cleanup → inside e.source ∨ inside cleanup) ∧
        ∀ {k w}, inside k → Route l.graph k w Graph.exit →
          ∃ stay e rest, w = stay ++ e :: rest ∧ (∀ e' ∈ stay, inside e'.target) ∧
            inside e.source ∧ ¬inside e.target ∧
            ((e.source = cleanup ∨ e.target = cleanup) ↔
              ¬(e.kind.isJump = true ∧ e.source ≠ cleanup)) := by
  have hops : returningLowered.toOption.map (fun l => l.graph.statements.map Statement.op) =
      some ["return"] := by
    decide +kernel
  obtain ⟨l, hlowered, hops⟩ := exists_ok_of_toOption hops
  exact ⟨l, hlowered, hops, leaving_cleans_up_unless_jumping hlowered rfl .here rfl⟩

end Readiness.Lowering
