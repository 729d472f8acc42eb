import Mathlib.Data.Finset.Lattice.Lemmas
import Readiness.Proofs.Lowering.Expressions

/-!
# Lowering statements follows a draft

Jumps, branches, loops and handlers follow a draft when their parts do, and hence the
lowering of every statement (`structural_follows`). What the suites of a statement bring about one
after the other, the statement brings about (`brings_if`, `while_moves`, `brings_guarded`).
-/

namespace Readiness.Lowering

open Graph (Draft Statement Operand Location EdgeKind Edge Grown)
open Graph.Draft (Setting Invariant Fits)
open Source (Expr Stmt Handler)
open List Finset Readiness.Graph

variable {σ : Setting} {R R₀ R₁ R₂ : Invariant σ} {blocks : List Nat} {e : LooseEnds}

section Jumps

variable {g : Graph} {i p : Nat}

/-- After a jump, lowering goes on in a block that nothing leads to. -/
theorem moves_of_jump {b : Builder} (h : Drafted R none g i e) (hwithin : Within b.graph g)
    (depth : Int) : Moves R false e b
      { b with graph := g.addBlock "unreachable" depth, block := g.blocks.size, index := i } :=
  ⟨(h.addBlock (by decide) depth).arrive h (Nat.le_refl _), rfl,
    hwithin.trans (within_addBlock _ _ _), nofun⟩

def withGuards (p : Nat) (blocks : List Nat) (g : Graph) : Graph :=
  blocks.foldl (fun g h => g.addEdge ⟨p, h, .exception⟩) g

theorem guards_bind {β : Type} (p : Nat) (c : Context) (f : Unit → Lower β) :
    ∀ (blocks : List Nat) (b : Builder),
      ((blocks.forM fun h => edge p h .exception) >>= f) c b =
        f () c { b with graph := withGuards p blocks b.graph }
  | [], _ => rfl
  | h :: rest, b => guards_bind p c f rest { b with graph := b.graph.addEdge ⟨p, h, .exception⟩ }

theorem withGuards_addStatement (p : Nat) (st : Statement) : ∀ (blocks : List Nat) (g : Graph),
    withGuards p blocks (g.addStatement p st) = (withGuards p blocks g).addStatement p st
  | [], _ => rfl
  | h :: rest, g => withGuards_addStatement p st rest (g.addEdge ⟨p, h, .exception⟩)

theorem within_withGuards (p : Nat) : ∀ (blocks : List Nat) (g : Graph),
    Within g (withGuards p blocks g)
  | [], g => .refl g
  | h :: rest, g => (within_addEdge g ⟨p, h, .exception⟩).trans (within_withGuards p rest _)

theorem Drafted.guards : ∀ (blocks : List Nat) {g : Graph}, Drafted R (some p) g i e →
    (∀ h ∈ blocks, h ∈ e.waiting ∨ σ.far h) → Drafted R (some p) (withGuards p blocks g) i e
  | [], _, h, _ => h
  | _ :: rest, _, h, hblocks => guards rest (h.act (.guard rfl (hblocks _ mem_cons_self)))
      fun h' hh' => hblocks h' (mem_cons_of_mem _ hh')

theorem Drafted.raise (h : Drafted R (some p) g i e) (blocks : List Nat) (st : Statement)
    (hindex : st.index = i) (hraises : st.Raises) (hne : blocks ≠ [] ∨ σ.far Graph.exit)
    (hblocks : ∀ h ∈ blocks, h ∈ e.waiting ∨ σ.far h) :
    Drafted R none (withGuards p blocks (g.addStatement p st)) (i + 1) e := by
  -- the edges but the last may as well be added before the statement
  rcases eq_nil_or_concat' blocks with rfl | ⟨start, last, rfl⟩
  · exact h.act (.drop rfl hraises (hne.resolve_left fun hne => hne rfl))
  have hstart := h.guards start fun h' hh' => hblocks h' (mem_append_left _ hh')
  have heq : withGuards p (start ++ [last]) (g.addStatement p st) =
      ((withGuards p start g).addStatement p st).addEdge ⟨p, last, .exception⟩ := by
    rw [← withGuards_addStatement]
    exact foldl_append
  rw [heq]
  exact hstart.quit st hindex (hblocks last (mem_append_right _ mem_cons_self))
    (.inr ⟨hraises, rfl⟩)

end Jumps

theorem follows_return (place : Location) (o : Operand) :
    Follows false (returnStep place o) := by
  intro σ R c b e a b' hd hs hrun
  cases hrun
  have hquit := hd.quit ⟨.return_, "return", place, b.index, none, [o], none, none, none⟩ rfl
    hd.fits.exit.2 (.inl ⟨rfl, rfl, rfl⟩)
  exact moves_of_jump hquit ((within_addStatement _ _ _).trans (within_addEdge _ _)) _

variable {place : Location} {a : Unit}

theorem exists_loop_of_jumpStep {word : String} {target : Loop → Nat} {kind : EdgeKind}
    {c : Context} {b b' : Builder} (hrun : jumpStep word target kind place c b = .ok (a, b')) :
    ∃ loop ∈ b.loops, (do
      edge (← current) (target loop) kind
      terminate : Lower Unit) c b = .ok (a, b') := by
  unfold jumpStep at hrun
  rw [get_bind] at hrun
  cases hloops : b.loops with
  | nil =>
    rw [hloops] at hrun
    cases hrun
  | cons loop rest =>
    rw [hloops] at hrun
    exact ⟨loop, mem_cons_self, hrun⟩

theorem follows_leave (place : Location) :
    Follows false (jumpStep "break" Loop.exit .leave place) := by
  intro σ R c b e a b' hd hs hrun
  obtain ⟨loop, hloop, hrun⟩ := exists_loop_of_jumpStep hrun
  cases hrun
  refine moves_of_jump ?_ (within_addEdge _ _) _
  rcases hs.exits loop hloop with hexit | hfar
  · exact hd.act (.pass rfl hexit (.inr rfl))
  · exact hd.act (.jump rfl hfar rfl)

theorem follows_proceed (place : Location) :
    Follows false (jumpStep "continue" Loop.header .proceed place) := by
  intro σ R c b e a b' hd hs hrun
  obtain ⟨loop, hloop, hrun⟩ := exists_loop_of_jumpStep hrun
  cases hrun
  refine moves_of_jump ?_ (within_addEdge _ _) _
  rcases hs.headers loop hloop with ⟨hheader, hout⟩ | hfar
  · exact hd.back hheader hout (.inr rfl)
  · exact hd.act (.jump rfl hfar rfl)

theorem follows_raise (place : Location) (operands : List Operand) :
    Follows false (raiseStep place operands) := by
  intro σ R c b e a b' hd hs hrun
  let st : Statement := ⟨.other, "raise", place, b.index, none, operands, none, none, none⟩
  have hraised (blocks : List Nat) := hd.raise blocks st rfl ⟨rfl, rfl⟩
  have hwithin (blocks : List Nat) :=
    (within_addStatement b.graph b.block st).trans (within_withGuards b.block blocks _)
  obtain ⟨graph, block, loops, handlers, renames, temporaries, index, comprehensions, declared,
    isGenerator⟩ := b
  cases handlers with
  | nil =>
    cases hrun
    exact moves_of_jump (hraised [Graph.exit] (.inl (by simp)) (by simpa using hd.fits.exit.2))
      (hwithin [Graph.exit]) _
  | cons blocks rest =>
    simp only [raiseStep, perform_bind, get_bind, current_bind, guards_bind] at hrun
    cases hrun
    obtain ⟨hne, hblocks⟩ := hs.handlers blocks mem_cons_self
    exact moves_of_jump (hraised blocks hne hblocks) (hwithin blocks) _

/-! ### Arms that join -/

/-- A test is made, and control comes to the block where the test holds; a block made before that
one waits for what follows. -/
theorem Drafted.test {g : Graph} {i p : Nat} (h : Drafted R (some p) g i e) (st : Statement)
    (hindex : st.index = i) (htests : st.Tests) {kind kind' : String} (hkind : kind ≠ headerKind)
    (hkind' : kind' ≠ headerKind) (depth depth' : Int) {g₁ g₂ : Graph}
    (h₁ : g₁ = g.addStatement p st) (h₂ : g₂ = g₁.addBlock kind depth) :
    Drafted R (some g₂.blocks.size)
      ((g₂.addBlock kind' depth').addEdge ⟨p, g₂.blocks.size, .branchTrue⟩) (i + 1)
      ⟨insert g₁.blocks.size e.waiting, e.needsYes, insert p e.needsNo, e.headers⟩ := by
  subst h₁ h₂
  have hd₂ := (h.branch st hindex htests).addBlock hkind depth
  have hd₃ := (hd₂.addBlock hkind' depth').answerYes h.not_needs.1 (mem_insert_self _ _) h.inside
  exact hd₃.arrive hd₂ (Nat.le_refl _)

theorem within_test (g : Graph) (p : Nat) (st : Statement) (kind kind' : String)
    (depth depth' : Int) (e : Edge) :
    Within g ((((g.addStatement p st).addBlock kind depth).addBlock kind' depth').addEdge e) :=
  (within_addStatement _ _ _).trans ((within_addBlock _ _ _).trans
    ((within_addBlock _ _ _).trans (within_addEdge _ _)))

theorem follows_suite {stmt : Stmt → Lower Unit} (hstmt : ∀ s, Follows false (stmt s)) :
    ∀ body : List Stmt, Follows false (body.forM stmt) :=
  (paired_follows false).toSequential.forM hstmt

variable {join : Nat} {c : Context} {b b₁ b' : Builder} {orelse : List Stmt}

section Branching

variable {stmt : Stmt → Lower Unit} (hstmt : ∀ s, Follows false (stmt s))

include hstmt in
/-- What follows when a test fails, up to the block where both ways join. -/
theorem alternative_moves (horelse : Brings R R₁ false (orelse.forM stmt)) {p : Nat} {k : EdgeKind}
    {kind : String} (hkind : kind ≠ headerKind)
    (hrun : elseStep stmt p join k kind orelse c b₁ = .ok (a, b')) (hd : b.Drafts R₀ e)
    (hs : Serves σ c b e) (hd₁ : Drafted R none b₁.graph b₁.index
      ⟨insert join e.waiting, e.needsYes, insert p e.needsNo, e.headers⟩) (hp : p ∉ e.needsNo)
    (hin : ∀ h ∈ e.headers, h ≤ p) (hjoin : b.graph.blocks.size ≤ join)
    (hk : k = .branchFalse ∨ k = .loopExit) (haround : b₁.around = b.around)
    (hwithin : Within b.graph b₁.graph) :
    Moves R₁ false e b b' ∧ b'.block = join ∧
      Grown (b.joining p join b₁.graph.blocks.size) b₁.graph b'.graph := by
  unfold elseStep at hrun
  split at hrun
  · rename_i hempty
    rw [edge_bind] at hrun
    have hm : Moves R false e b { b₁ with graph := b₁.graph.addEdge ⟨p, join, k⟩, block := join } :=
      ⟨(hd₁.answerNo hp (mem_insert_self _ _) hin hk).arrive hd hjoin, haround,
        hwithin.trans (within_addEdge _ _), nofun⟩
    cases hrun
    rw [isEmpty_iff.mp hempty] at horelse
    exact ⟨hm.trans (horelse.run rfl hm.drafts (hm.serves hs)), rfl,
      (Grown.refl _ _).addEdge ⟨.inl rfl, .inl rfl⟩⟩
  · rw [newBlock_bind, edge_bind, goTo_bind] at hrun
    obtain ⟨_, b₂, hrun₂, hrun⟩ := bind_eq_ok.mp hrun
    cases hrun
    have hd₂ := ((hd₁.addBlock hkind b₁.loops.length).answerNo hp (mem_insert_self _ _) hin
      (.inl rfl)).arrive hd₁ (Nat.le_refl _)
    have hwithin₂ := hwithin.trans ((within_addBlock _ kind b₁.loops.length).trans
      (within_addEdge _ ⟨p, b₁.graph.blocks.size, .branchFalse⟩))
    let u : Builder :=
      { b₁ with
        graph := (b₁.graph.addBlock kind b₁.loops.length).addEdge
          ⟨p, b₁.graph.blocks.size, .branchFalse⟩
        block := b₁.graph.blocks.size }
    have hs₂ : Serves σ c u ⟨insert join e.waiting, e.needsYes, e.needsNo, e.headers⟩ :=
      hs.mono haround hwithin₂ (subset_insert _ _) Subset.rfl (List.Subset.refl _)
    have hm := horelse.run hrun₂ hd₂ hs₂
    have hsteps : Steps u.Jumps u b₂ :=
      (follows_suite hstmt orelse).steps (sound_of_drafts hd₂ hs₂) hrun₂
    have hsize : u.graph.blocks.size = b₁.graph.blocks.size + 1 := size_addBlock _ _ _
    have hown : ∀ k, u.Owns k → b₁.graph.blocks.size ≤ k := fun k hk =>
      hk.elim ge_of_eq fun hge => by omega
    have haround₂ : u.around = b.around := haround
    refine ⟨⟨(hm.drafts.pass (mem_insert_self _ _)).arrive hd hjoin, hm.around.trans haround,
      (hwithin₂.trans hm.within).trans (within_addEdge _ _), nofun⟩, rfl,
      Grown.addEdge ?_ ⟨.inr (hown _ hsteps.block), .inl rfl⟩⟩
    have hentered : Grown (b.joining p join b₁.graph.blocks.size) b₁.graph u.graph :=
      ((Grown.refl _ _).addBlock _ _).addEdge ⟨.inl rfl, .inr (.inr (Nat.le_refl _))⟩
    refine hentered.trans (hsteps.grown.mono ⟨hown, fun e' he' => ⟨.inr (hown _ he'.1), ?_⟩,
      fun info hinfo hunbounded => hinfo (unbounded_congr haround₂ ▸ hunbounded)⟩)
    rw [← jumps_congr haround₂]
    exact .inr (he'.2.imp_right fun hge => by omega)

include hstmt in
theorem brings_if {body : List Stmt} (hbody : Brings R R₁ false (body.forM stmt))
    (horelse : Brings R₁ R₂ false (orelse.forM stmt)) (place : Location) (condition : Operand) :
    Brings R R₂ false (do
      perform .branch "if" place [condition]
      branchStep stmt body orelse) := by
  intro c b e a b' hd hs hrun
  rw [perform_bind] at hrun
  unfold branchStep at hrun
  rw [current_bind, newBlock_bind, newBlock_bind, edge_bind, goTo_bind] at hrun
  obtain ⟨_, b₁, hrun₁, hrun⟩ := bind_eq_ok.mp hrun
  let st : Statement := ⟨.branch, "if", place, b.index, none, [condition], none, none, none⟩
  have hd₁ := hd.test st rfl ⟨rfl, nofun⟩ (by decide : "if-join" ≠ headerKind)
    (by decide : "if-then" ≠ headerKind) b.loops.length b.loops.length rfl rfl
  have hwithin := within_test b.graph b.block st "if-join" "if-then" b.loops.length b.loops.length
  have hm := hbody.run hrun₁ hd₁
    (hs.mono rfl (hwithin _) (subset_insert _ _) (subset_insert _ _) (List.Subset.refl _))
  exact (alternative_moves hstmt horelse (by decide) hrun hd hs
    (hm.drafts.pass (mem_insert_self _ _)) hd.not_needs.2 hd.inside (size_addStatement _ _ _).ge
    (.inl rfl) hm.around (((hwithin _).trans hm.within).trans (within_addEdge _ _))).1

/-- A loop has been lowered, and control has come to its exit. -/
structure LoopMade (b' : Builder) (header exit : Nat) (known tested : Bool) : Prop where
  block : b'.block = exit
  kind : b'.graph.kindOf header = headerKind
  record : ∃ bound ≤ b'.graph.blocks.size, LoopRecord b'.graph header exit bound known tested

variable (b₁) in
include hstmt in
theorem loop_moves {known tested : Bool} {bind : Lower Unit} {body : List Stmt} {op : String}
    {o : Operand} (hrun : (do
      perform .branch op place [o]
      loopBody stmt b.graph.blocks.size known bind body orelse : Lower Unit) c b₁ = .ok (a, b'))
    (hbind : Follows false bind) (hbody : Brings R R₁ false (body.forM stmt))
    (horelse : Brings R₁ R₂ false (orelse.forM stmt)) (hd : b.Drafts R e) (hs : Serves σ c b e)
    (hd₁ : b₁.Drafts R ⟨e.waiting, e.needsYes, e.needsNo, b.graph.blocks.size :: e.headers⟩)
    (htest : Steps b.Jumps b.atHeader b₁) (huntested : tested = false → b₁ = b.atHeader)
    (hreach : Reaches b₁.graph b.graph.blocks.size b₁.block)
    (hloop : LoopOf c b'.graph b.graph.blocks.size b₁.graph.blocks.size b'.graph.blocks.size known
      tested) :
    Moves R₂ false e b b' ∧
      LoopMade b' b.graph.blocks.size b₁.graph.blocks.size known tested := by
  have haround : b₁.around = b.around := htest.around
  have hwithin : Within b.graph b₁.graph :=
    ((within_addBlock _ _ _).trans (within_addEdge _ _)).trans htest.grown.within
  rw [perform_bind] at hrun
  unfold loopBody at hrun
  rw [current_bind, newBlock_bind, modify_bind, newBlock_bind, edge_bind, goTo_bind] at hrun
  obtain ⟨_, b₂, hbound, hrun⟩ := bind_eq_ok.mp hrun
  obtain ⟨_, b₃, hrun₃, hrun⟩ := bind_eq_ok.mp hrun
  let st : Statement := ⟨.branch, op, place, b₁.index, none, [o], none, none, none⟩
  have hsize : (b₁.graph.addStatement b₁.block st).blocks.size = b₁.graph.blocks.size :=
    size_addStatement _ _ _
  have hd₂ := hd₁.test st rfl ⟨rfl, nofun⟩ (by decide : "loop-exit" ≠ headerKind)
    (by decide : "loop-body" ≠ headerKind) b₁.loops.length (b₁.loops.length + 1) rfl rfl
  have hwithin₂ := within_test b₁.graph b₁.block st "loop-exit" "loop-body" b₁.loops.length
    (b₁.loops.length + 1)
  have hs₁ : Serves σ c b₁
      ⟨e.waiting, e.needsYes, e.needsNo, b.graph.blocks.size :: e.headers⟩ :=
    hs.mono haround hwithin Subset.rfl Subset.rfl (subset_cons_self _ _)
  let x : Builder :=
    { b₁ with
      graph := (((b₁.graph.addStatement b₁.block st).addBlock "loop-exit" b₁.loops.length).addBlock
        "loop-body" (b₁.loops.length + 1)).addEdge ⟨b₁.block, ((b₁.graph.addStatement b₁.block
          st).addBlock "loop-exit" b₁.loops.length).blocks.size, .branchTrue⟩
      block := ((b₁.graph.addStatement b₁.block st).addBlock "loop-exit" b₁.loops.length).blocks.size
      index := b₁.index + 1
      loops := ⟨b.graph.blocks.size, (b₁.graph.addStatement b₁.block st).blocks.size, known⟩ ::
        b₁.loops }
  have hs₂ : Serves σ c x ⟨insert (b₁.graph.addStatement b₁.block st).blocks.size e.waiting,
      e.needsYes, insert b₁.block e.needsNo, b.graph.blocks.size :: e.headers⟩ :=
    Serves.push (hs₁.mono rfl (.refl _) (subset_insert _ _) (subset_insert _ _)
      (List.Subset.refl _)) rfl (hwithin₂ _) mem_cons_self (mem_insert_self _ _)
      ⟨b₁.block, .inr (mem_insert_self _ _), hreach.mono (hwithin₂ _)⟩
  have hm := ((hbind R).bind fun _ => hbody).run (bind_eq_ok.mpr ⟨_, _, hbound, hrun₃⟩) hd₂ hs₂
  have hd₃ := hm.drafts.back mem_cons_self ⟨b₁.block, .inr (mem_insert_self _ _),
    hreach.mono ((hwithin₂ _).trans hm.within)⟩ (.inl rfl)
  obtain ⟨hm₁, hblock, hgrown⟩ := alternative_moves hstmt horelse (by decide) hrun hd₁ hs₁ hd₃
    hd₁.not_needs.2 hd₁.inside hsize.ge (.inr rfl)
    (congrArg (fun a : List Loop × List (List Nat) => (a.1.drop 1, a.2)) hm.around)
    (((hwithin₂ _).trans hm.within).trans (within_addEdge _ _))
  rw [hsize] at hblock hgrown
  have hsize₂ : ((b₁.graph.addStatement b₁.block st).addBlock "loop-exit"
      b₁.loops.length).blocks.size = b₁.graph.blocks.size + 1 := by
    rw [size_addBlock, hsize]
  have hhead : LoopHead b b₁ x known tested := by
    have htested : Grown (splitting b₁.block b₁.graph.blocks.size) b₁.graph
        (b₁.graph.addStatement b₁.block st) := (Grown.refl _ _).addStatement rfl nofun
    refine ⟨sound_of_drafts hd hs, htest, ?_, (size_addBlock _ _ _).trans (congrArg (· + 1) hsize₂),
      hsize₂, ?_, huntested⟩
    · exact ((htested.addBlock _ _).addBlock _ _).addEdge ⟨rfl, hsize₂ ▸ Nat.le_succ _⟩
    · rw [← hsize]
      exact congrArg (fun a : List Loop × List (List Nat) => (_ :: a.1, a.2)) haround
  have hsteps : Steps x.Jumps x b₃ := (hbind.bind fun _ => follows_suite hstmt body).steps
    (sound_of_drafts hd₂ hs₂) (bind_eq_ok.mpr ⟨_, _, hbound, hrun₃⟩)
  have hrest : Grown (b.joining b₁.block b₁.graph.blocks.size b₃.graph.blocks.size)
      (b₃.graph.addEdge ⟨b₃.block, b.graph.blocks.size, .backEdge⟩) b'.graph := by
    rw [Builder.joining, ← jumps_congr haround, ← unbounded_congr haround]
    exact hgrown
  obtain ⟨hkind, hle, hrecord⟩ := hhead.record (hsteps.mono fun _ => .inl) hrest
  refine ⟨⟨?_, hm₁.around.trans haround, hwithin.trans hm₁.within, nofun⟩,
    hblock, hkind, _, hle, hrecord⟩
  exact hm₁.drafts.closeLoop hd (Nat.le_refl _) (hblock ▸ hs.closes hloop)

end Branching

section Loops

variable {room : Nat} (hstmt : ∀ s, Follows false (lowerStmt room s)) {body : List Stmt}
  (hbody : Brings R R₁ false (body.forM (lowerStmt room)))
  (horelse : Brings R₁ R₂ false (orelse.forM (lowerStmt room))) {p : Source.Place}
include hstmt hbody horelse

theorem while_moves {test : Expr} (hd : b.Drafts R e) (hs : Serves σ c b e)
    (hrun : lowerStmt (room + 1) (.loop p test body orelse) c b = .ok (a, b')) :
    Moves R₂ false e b b' ∧ ∃ o b₁, lowerExpr room test c b.atHeader = .ok (o, b₁) ∧
      LoopMade b' b.graph.blocks.size b₁.graph.blocks.size false true := by
  obtain ⟨place, b₀, hplace, hrun'⟩ := bind_eq_ok.mp hrun
  cases hplace
  dsimp only at hrun'
  rw [newBlock_bind, current_bind, edge_bind, goTo_bind] at hrun'
  obtain ⟨o, b₁, htest, hrun'⟩ := bind_eq_ok.mp hrun'
  have hwithin := (within_addBlock b.graph headerKind b.loops.length).trans
    (within_addEdge _ ⟨b.block, b.graph.blocks.size, .fallThrough⟩)
  obtain ⟨hm, hsteps⟩ := (follows_lowerExpr room test).run_steps htest
    (hd.header b.loops.length) (hs.mono rfl hwithin Subset.rfl Subset.rfl (subset_cons_self _ _))
  have hloop := LoopOf.loop (sound_of_drafts hd hs) hrun htest (.refl _ _ _ _)
  obtain ⟨hm', hmade⟩ := loop_moves b₁ hstmt hrun' follows_pure hbody horelse hd hs hm.drafts
    hsteps (nofun : true = false → _) (hm.reaches rfl) hloop
  exact ⟨hm', o, b₁, htest, hmade⟩

theorem each_moves {target iter : Expr} (hd : b.Drafts R e) (hs : Serves σ c b e)
    (hrun : lowerStmt (room + 1) (.each p target iter body orelse) c b = .ok (a, b')) :
    Moves R₂ false e b b' ∧ ∃ o b₁ b₂ trips, lowerExpr room iter c b = .ok (o, b₁) ∧
      tripCount iter c b₁ = .ok (trips, b₂) ∧ b.graph.blocks.size ≤ b₂.graph.blocks.size ∧
      LoopMade b' b₂.graph.blocks.size (b₂.graph.blocks.size + 1) trips.isSome false := by
  obtain ⟨place, b₀, hplace, hrun'⟩ := bind_eq_ok.mp hrun
  obtain rfl : b = b₀ := by cases hplace; rfl
  dsimp only at hrun'
  obtain ⟨iterable, b₁, hiter, hrun'⟩ := bind_eq_ok.mp hrun'
  obtain ⟨trips, b₂, htrips, hrun'⟩ := bind_eq_ok.mp hrun'
  rw [newBlock_bind, current_bind, edge_bind, goTo_bind] at hrun'
  have hP := paired_follows false
  have hexpr := follows_lowerExpr room
  have hm₁ := ((hexpr iter).weaken.bind fun _ => hP.tripCount iter).run
    (bind_eq_ok.mpr ⟨_, _, hiter, htrips⟩) hd hs
  have hs₁ := hm₁.serves hs
  have hloop := LoopOf.each (sound_of_drafts hd hs) hrun hiter htrips (.refl _ _ _ _)
  rw [← size_atHeader] at hloop
  obtain ⟨hm₂, hmade⟩ := loop_moves b₂.atHeader hstmt hrun' (hP.take.bind fun _ =>
      (follows_assign hexpr ..).weaken) hbody horelse hm₁.drafts hs₁
    (hm₁.drafts.header b₂.loops.length) (.refl (hm₁.drafts.sound_atHeader hs₁)) (fun _ => rfl)
    (.refl _) hloop
  exact ⟨hm₁.trans hm₂, iterable, b₁, b₂, trips, hiter, htrips, hm₁.within.size,
    size_atHeader b₂ ▸ hmade⟩

end Loops

/-! ### Handlers -/

def withBlocks (kind : String) (depth : Int) : Nat → Graph → Graph
  | 0, g => g
  | n + 1, g => withBlocks kind depth n (g.addBlock kind depth)

theorem blocks_bind {α β : Type} (kind : String) (c : Context) (l : List α) :
    ∀ (f : List Nat → Lower β) (b : Builder),
      ((l.mapM fun _ => newBlock kind) >>= f) c b =
        f (range' b.graph.blocks.size l.length) c
          { b with graph := withBlocks kind b.loops.length l.length b.graph } := by
  induction l with
  | nil => exact fun _ _ => rfl
  | cons x rest ih =>
    intro f b
    simp only [mapM_cons, bind_assoc, pure_bind]
    rw [newBlock_bind, ih, size_addBlock, length_cons, range'_succ]
    rfl

theorem within_withBlocks (kind : String) (depth : Int) : ∀ (n : Nat) (g : Graph),
    Within g (withBlocks kind depth n g)
  | 0, g => .refl g
  | n + 1, g => (within_addBlock g kind depth).trans (within_withBlocks kind depth n _)

theorem Drafted.addBlocks {f : Option Nat} {i : Nat} {waiting yes no : Finset Nat}
    {headers : List Nat} {kind : String} (hkind : kind ≠ headerKind) (depth : Int) (n : Nat)
    {g : Graph} (h : Drafted R f g i ⟨waiting, yes, no, headers⟩) :
    Drafted R f (withBlocks kind depth n g) i
      ⟨waiting ∪ (range' g.blocks.size n).toFinset, yes, no, headers⟩ := by
  induction n generalizing g waiting with
  | zero => simpa [withBlocks] using h
  | succ n ih =>
    have hrest := ih (h.addBlock hkind depth)
    rw [size_addBlock, insert_union, ← union_insert, ← toFinset_cons, ← range'_succ] at hrest
    exact hrest

/-- While the body of a `try` statement is lowered, its handlers are open. -/
theorem exists_body {suite : Lower Unit} (hrun : shielded blocks suite c b = .ok (a, b')) :
    ∃ opened closed y, (∀ l ∈ opened, l ∈ b.handlers ∨ l = blocks ∧ l ≠ []) ∧
      suite c { b with handlers := opened } = .ok ((), y) ∧ b' = { y with handlers := closed } ∧
      (y.handlers = opened → closed = b.handlers) := by
  cases blocks with
  | nil => exact ⟨b.handlers, b'.handlers, b', fun _ => .inl, hrun, rfl, id⟩
  | cons h blocks =>
    change ((modify _ : Lower Unit) >>= _) c b = _ at hrun
    rw [modify_bind] at hrun
    obtain ⟨_, y, hbody, hrun⟩ := bind_eq_ok.mp hrun
    cases hrun
    refine ⟨(h :: blocks) :: b.handlers, y.handlers.drop 1, y, fun l hl => ?_, hbody, rfl,
      congrArg (List.drop 1)⟩
    exact (mem_cons.mp hl).symm.imp_right fun heq => ⟨heq, heq ▸ cons_ne_nil _ _⟩

/-- The suites of handlers bring about an invariant one after the other. -/
def BringAll (stmt : Stmt → Lower Unit) (R : Invariant σ) : List Handler → Invariant σ → Prop
  | [], R' => R = R'
  | .mk _ _ _ body :: rest, R' => ∃ R₁, Brings R R₁ false (body.forM stmt) ∧ BringAll stmt R₁ rest R'

/-- Control has come to the last suite of a `try` statement: nothing but falling through leads
there. -/
structure Tried (c : Context) (stmt : Stmt → Lower Unit) (body : List Stmt) (b x : Builder) :
    Prop where
  le : b.graph.blocks.size ≤ x.block
  empty : x.graph.statementsOf x.block = []
  joins : ∀ e ∈ x.graph.edges, e.target = x.block →
    e.kind = .fallThrough ∧ b.graph.blocks.size ≤ e.source
  body : ∃ y z, body.forM stmt c y = .ok ((), z) ∧ b.graph.blocks.size ≤ y.block ∧
    y.block < y.graph.blocks.size ∧ y.graph.blocks.size ≤ z.graph.blocks.size ∧
    z.graph.blocks.size ≤ x.block

/-- Steps do not lead to an older block that was made after what is open. -/
theorem Steps.mem_edges {b₀ b b' : Builder} (h : Steps b.Jumps b b') (hs : Sound b₀)
    (haround : b.around = b₀.around) {k : Nat} (hle : b₀.graph.blocks.size ≤ k)
    (hk : k < b.graph.blocks.size) {e : Edge} (he : e ∈ b'.graph.edges) (htarget : e.target = k) :
    e ∈ b.graph.edges := by
  refine (h.grown.edges e he).resolve_right fun ⟨_, hlead⟩ => ?_
  rcases hlead with hjump | hge
  · have := hs.opens _ (opens_congr haround ▸ hjump.2)
    omega
  · omega

section Guarding

variable {expr : Expr → Lower Operand} {stmt : Stmt → Lower Unit}
  (hexpr : ∀ e, Follows true (expr e)) (hstmt : ∀ s, Follows false (stmt s))
include hexpr hstmt

/-- Each handler is entered once, and ends where the handlers join. -/
theorem handlers_moves (hd : b.Drafts R₀ e) (hs : Serves σ c b e)
    (hjoin : b.graph.blocks.size ≤ join) :
    ∀ (handlers : List (Handler × Nat)) {R : Invariant σ} {b₁ b' : Builder} {a : Unit},
      handlersInto expr stmt join handlers c b₁ = .ok (a, b') →
      BringAll stmt R (handlers.map Prod.fst) R₂ →
      Drafted R none b₁.graph b₁.index ⟨insert join (e.waiting ∪ (handlers.map Prod.snd).toFinset),
        e.needsYes, e.needsNo, e.headers⟩ →
      (handlers.map Prod.snd).Nodup →
      (∀ h ∈ handlers.map Prod.snd, b.graph.blocks.size ≤ h ∧ h ≠ join) →
      b₁.around = b.around → Within b.graph b₁.graph →
      (∀ e ∈ b₁.graph.edges, e.target = join →
        e.kind = .fallThrough ∧ b.graph.blocks.size ≤ e.source) →
      Drafted R₂ none b'.graph b'.index
        ⟨insert join e.waiting, e.needsYes, e.needsNo, e.headers⟩ ∧
        b'.around = b.around ∧ Within b.graph b'.graph ∧ ∀ e ∈ b'.graph.edges, e.target = join →
          e.kind = .fallThrough ∧ b.graph.blocks.size ≤ e.source
  | [], R, b₁, b', a, hrun, hbring, hd₁, _, _, haround, hwithin, hjoins => by
    cases hrun
    cases hbring
    exact ⟨by simpa using hd₁, haround, hwithin, hjoins⟩
  | (.mk p type name body, entry) :: rest, R, b₁, b', a, hrun, hbring, hd₁, hnodup, hfresh, haround,
    hwithin, hjoins => by
    obtain ⟨R', hbody, hrest⟩ := hbring
    unfold handlersInto at hrun
    rw [goTo_bind] at hrun
    obtain ⟨_, b₂, hcaught, hrun⟩ := bind_eq_ok.mp hrun
    obtain ⟨_, b₃, hrun₃, hrun⟩ := bind_eq_ok.mp hrun
    rw [current_bind, edge_bind] at hrun
    obtain ⟨hnotMem, hnodup⟩ := nodup_cons.mp hnodup
    obtain ⟨hentry, hne⟩ := hfresh entry mem_cons_self
    -- what waits besides the entry of this handler
    have hwaits : entry ∉ insert join (e.waiting ∪ (rest.map Prod.snd).toFinset) := by
      simp only [mem_insert, mem_union, mem_toFinset, not_or]
      exact ⟨hne, hd.fits.notMem_waiting hentry, hnotMem⟩
    rw [List.map_cons, toFinset_cons, union_insert, insert_comm] at hd₁
    have hjoin₁ := (hd₁.fits.pending join (.inl (mem_insert_of_mem (mem_insert_self _ _)))).1
    have hd₂ := hd₁.enter hwaits (hd.fits.exit.1.trans_le hentry).ne'
      (hd.fits.inside_of_size_le hentry)
    have hs₂ : Serves σ c { b₁ with block := entry }
        ⟨insert join (e.waiting ∪ (rest.map Prod.snd).toFinset), e.needsYes, e.needsNo, e.headers⟩ :=
      hs.mono haround hwithin (subset_union_left.trans (subset_insert _ _)) Subset.rfl
        (List.Subset.refl _)
    have hfirst : Follows false (caught expr p type name) := ((paired_follows true).caught
      (A := True) (g := expr) p (fun x _ => hexpr x) name).weaken
    have hrun₃ : (caught expr p type name >>= fun _ => body.forM stmt) c
        { b₁ with block := entry } = .ok ((), b₃) := bind_eq_ok.mpr ⟨_, _, hcaught, hrun₃⟩
    have hm := ((hfirst R).bind fun _ => hbody).run hrun₃ hd₂ hs₂
    have hsteps := (hfirst.bind fun _ => follows_suite hstmt body).steps (sound_of_drafts hd₂ hs₂)
      hrun₃
    refine handlers_moves hd hs hjoin rest hrun hrest (hm.drafts.pass (mem_insert_self _ _)) hnodup
      (fun h hh => hfresh h (mem_cons_of_mem _ hh)) (hm.around.trans haround)
      ((hwithin.trans hm.within).trans (within_addEdge _ _)) fun e' he' htarget => ?_
    rcases (mem_edges_addEdge _ _).mp he' with he' | rfl
    · exact hjoins e' (hsteps.mem_edges (sound_of_drafts hd hs) haround hjoin hjoin₁ he' htarget)
        htarget
    · exact ⟨rfl, hsteps.block.elim (fun heq => hentry.trans_eq heq.symm) hwithin.size.trans⟩

variable {handlers : List Handler} {finalbody : List Stmt}

/-- What follows the body of a `try` statement: the handlers, and the block where all ways join. -/
theorem settled_moves (hrun : (do
      let join ← newBlock "try-join"
      orelse.forM stmt
      edge (← current) join .fallThrough
      handlersInto expr stmt join (handlers.zip blocks)
      goTo join
      finalbody.forM stmt : Lower Unit) c b₁ = .ok (a, b'))
    (horelse : Brings R R₁ false (orelse.forM stmt)) (hhandlers : BringAll stmt R₁ handlers R₂)
    (hd : b.Drafts R₀ e) (hs : Serves σ c b e)
    (hd₁ : b₁.Drafts R ⟨e.waiting ∪ blocks.toFinset, e.needsYes, e.needsNo, e.headers⟩)
    (hlength : blocks.length = handlers.length) (hnodup : blocks.Nodup)
    (hfresh : ∀ h ∈ blocks, b.graph.blocks.size ≤ h) (haround : b₁.around = b.around)
    (hwithin : Within b.graph b₁.graph) (hblock : b.graph.blocks.size ≤ b₁.block) :
    ∃ x, Moves R₂ false e b x ∧ finalbody.forM stmt c x = .ok (a, b') ∧
      x.block = b₁.graph.blocks.size ∧ x.graph.statementsOf x.block = [] ∧
      ∀ e ∈ x.graph.edges, e.target = x.block →
        e.kind = .fallThrough ∧ b.graph.blocks.size ≤ e.source := by
  rw [newBlock_bind] at hrun
  obtain ⟨_, b₂, hrun₂, hrun⟩ := bind_eq_ok.mp hrun
  rw [current_bind, edge_bind] at hrun
  obtain ⟨_, b₃, hinto, hrun⟩ := bind_eq_ok.mp hrun
  rw [goTo_bind] at hrun
  have hjoin : ∀ h ∈ blocks, h ≠ b₁.graph.blocks.size := fun h hh =>
    (hd₁.fits.pending h (.inl (mem_union_right _ (mem_toFinset.mpr hh)))).1.ne
  have hwithin₁ := hwithin.trans (within_addBlock b₁.graph "try-join" b₁.loops.length)
  have hd₂ := hd₁.addBlock (by decide : "try-join" ≠ headerKind) b₁.loops.length
  let z : Builder := { b₁ with graph := b₁.graph.addBlock "try-join" b₁.loops.length }
  have hs₂ : Serves σ c z
      ⟨insert b₁.graph.blocks.size (e.waiting ∪ blocks.toFinset), e.needsYes, e.needsNo, e.headers⟩ :=
    hs.mono haround hwithin₁ (subset_union_left.trans (subset_insert _ _)) Subset.rfl
      (List.Subset.refl _)
  have hm := horelse.run hrun₂ hd₂ hs₂
  have hsteps : Steps z.Jumps z b₂ :=
    (follows_suite hstmt orelse).steps (sound_of_drafts hd₂ hs₂) hrun₂
  have hfst : (handlers.zip blocks).map Prod.fst = handlers := map_fst_zip hlength.ge
  have hsnd : (handlers.zip blocks).map Prod.snd = blocks := map_snd_zip hlength.le
  obtain ⟨hd₃, haround₃, hwithin₃, hjoins⟩ := handlers_moves hexpr hstmt hd hs hwithin.size
    (handlers.zip blocks) hinto (hfst.symm ▸ hhandlers)
    (hsnd.symm ▸ hm.drafts.pass (mem_insert_self _ _)) (hsnd.symm ▸ hnodup)
    (hsnd.symm ▸ fun h hh => ⟨hfresh h hh, hjoin h hh⟩) (hm.around.trans haround)
    ((hwithin₁.trans hm.within).trans (within_addEdge _ _)) fun e' he' htarget => by
      rcases (mem_edges_addEdge _ _).mp he' with he' | rfl
      · have hold := hsteps.mem_edges (sound_of_drafts hd hs) haround hwithin.size
          ((size_addBlock _ _ _).symm ▸ Nat.lt_succ_self _) he' htarget
        exact absurd (hd₁.fits.closed e' hold).2 (Nat.not_lt.mpr htarget.ge)
      · exact ⟨rfl, hsteps.block.elim (fun heq => hblock.trans_eq heq.symm) hwithin₁.size.trans⟩
  exact ⟨{ b₃ with block := b₁.graph.blocks.size }, ⟨hd₃.arrive hd hwithin.size, haround₃, hwithin₃,
    nofun⟩, hrun, rfl, (hd₃.fits.waiting _ (mem_insert_self _ _)).1, hjoins⟩

/-- A `try` statement up to its last suite. -/
theorem tried_moves {body : List Stmt} {orelse : List Stmt} {R' R'' : Invariant σ}
    (hbody : Brings R R' false (body.forM stmt)) (horelse : Brings R' R'' false (orelse.forM stmt))
    (hhandlers : BringAll stmt R'' handlers R₂) (hd : b.Drafts R e) (hs : Serves σ c b e)
    (hrun : guarded expr stmt body handlers orelse finalbody c b = .ok (a, b')) :
    ∃ x, Moves R₂ false e b x ∧ finalbody.forM stmt c x = .ok (a, b') ∧ Tried c stmt body b x := by
  unfold guarded at hrun
  rw [blocks_bind, current_bind, guards_bind, newBlock_bind, edge_bind, goTo_bind] at hrun
  have hwaits : ∀ h ∈ range' b.graph.blocks.size handlers.length,
      h ∈ e.waiting ∪ (range' b.graph.blocks.size handlers.length).toFinset ∨ σ.far h :=
    fun h hh => .inl (mem_union_right _ (mem_toFinset.mpr hh))
  have hd₁ := (hd.addBlocks (by decide : "except" ≠ headerKind) b.loops.length
    handlers.length).guards _ hwaits
  have hd₂ := ((hd₁.addBlock (by decide : "try-body" ≠ headerKind) b.loops.length).pass
    (mem_insert_self _ _)).arrive hd₁ (Nat.le_refl _)
  let g₁ := withGuards b.block (range' b.graph.blocks.size handlers.length)
    (withBlocks "except" b.loops.length handlers.length b.graph)
  have hbefore : Within b.graph g₁ :=
    (within_withBlocks "except" b.loops.length handlers.length b.graph).trans
      (within_withGuards b.block (range' b.graph.blocks.size handlers.length) _)
  obtain ⟨_, b₂, hsuite, hrun⟩ := bind_eq_ok.mp hrun
  obtain ⟨opened, closed, b₃, hopened, hrun₃, rfl, hclosed⟩ := exists_body hsuite
  let y : Builder :=
    { b with
      graph := (g₁.addBlock "try-body" b.loops.length).addEdge
        ⟨b.block, g₁.blocks.size, .fallThrough⟩
      block := g₁.blocks.size, handlers := opened }
  have hwithin : Within b.graph y.graph :=
    hbefore.trans ((within_addBlock _ _ _).trans (within_addEdge _ _))
  have hs₂ : Serves σ c y ⟨e.waiting ∪ (range' b.graph.blocks.size handlers.length).toFinset,
      e.needsYes, e.needsNo, e.headers⟩ := by
    refine ⟨fun l hl => ?_, fun l hl => (hs.exits l hl).imp_left (mem_union_left _),
      fun l hl => ?_, hs.marks, hs.closes⟩
    · exact (hs.headers l hl).imp_left fun ⟨hheader, y, hy, hreach⟩ =>
        ⟨hheader, y, hy.imp_left (mem_union_left _), hreach.mono hwithin⟩
    · rcases hopened l hl with hl | ⟨rfl, hne⟩
      · exact (hs.handlers l hl).imp_right fun h x hx => (h x hx).imp_left (mem_union_left _)
      · exact ⟨.inl hne, hwaits⟩
  have hm := hbody.run hrun₃ hd₂ hs₂
  have hsteps : Steps y.Jumps y b₃ :=
    (follows_suite hstmt body).steps (sound_of_drafts hd₂ hs₂) hrun₃
  obtain ⟨hloops, hhandlers'⟩ := Prod.mk.inj hm.around
  rw [current_bind, guards_bind] at hrun
  have hguards := within_withGuards b₃.block (range' b.graph.blocks.size handlers.length) b₃.graph
  obtain ⟨x, hm', hfinal, hblock, hempty, hjoins⟩ := settled_moves hexpr hstmt hrun horelse hhandlers
    hd hs (hm.drafts.guards _ hwaits) length_range' nodup_range'
    (fun h hh => (mem_range'_1.mp hh).1) (Prod.ext hloops (hclosed hhandlers'))
    ((hwithin.trans hm.within).trans hguards)
    (hsteps.block.elim (fun heq => hbefore.size.trans_eq heq.symm) hwithin.size.trans)
  exact ⟨x, hm', hfinal, hblock ▸ ((hwithin.trans hm.within).trans hguards).size, hempty, hjoins, y,
    b₃, hrun₃, hbefore.size, (size_addBlock _ _ _).symm ▸ Nat.lt_succ_self _, hm.within.size,
    hblock ▸ hguards.size⟩

theorem brings_guarded {body : List Stmt} {orelse : List Stmt} {R' R'' R₃ : Invariant σ}
    (hbody : Brings R R' false (body.forM stmt)) (horelse : Brings R' R'' false (orelse.forM stmt))
    (hhandlers : BringAll stmt R'' handlers R₂) (hfinal : Brings R₂ R₃ false (finalbody.forM stmt))
    :
    Brings R R₃ false (guarded expr stmt body handlers orelse finalbody) := by
  intro c b e a b' hd hs hrun
  obtain ⟨x, hm, hrun, -⟩ := tried_moves hexpr hstmt hbody horelse hhandlers hd hs hrun
  exact hm.trans (hfinal.run hrun hm.drafts (hm.serves hs))

end Guarding

/-! ### Every statement -/

theorem follows_managers {expr : Expr → Lower Operand} (hexpr : ∀ e, Follows true (expr e))
    (place : Location) (entries : List (Expr × Option Expr)) :
    Follows true (managers expr place entries) :=
  (paired_follows true).managers (A := True) (g := expr) fun x _ => hexpr x

theorem bringAll_of_follows {stmt : Stmt → Lower Unit} (hstmt : ∀ s, Follows false (stmt s)) :
    ∀ handlers : List Handler, BringAll stmt R handlers R
  | [] => rfl
  | .mk _ _ _ body :: rest => ⟨R, follows_suite hstmt body R, bringAll_of_follows hstmt rest⟩

theorem structural_follows : Structural (Follows false) fun _ m _ => Follows false m where
  toPaired := paired_follows false
  clause _ hinner _ _ _ _ := (follows_clause (follows_lowerExpr _) hinner ..).weaken
  ret := follows_return
  leave := follows_leave
  proceed := follows_proceed
  raise := follows_raise
  compound {_ _ _ s} hs h σ R := by
    have hplace := (paired_follows false).placeOf s.place R
    have hsuite := fun body => follows_suite h.all body R
    cases s with
    | branch p test body orelse =>
      exact hplace.bind fun place => ((follows_lowerExpr _ test).weaken R).bind fun o =>
        brings_if h.all (hsuite body) (hsuite orelse) place o
    | loop =>
      intro _ _ _ _ _ hd hs hrun
      exact (while_moves h.all (hsuite _) (hsuite _) hd hs hrun).1
    | each =>
      intro _ _ _ _ _ hd hs hrun
      exact (each_moves h.all (hsuite _) (hsuite _) hd hs hrun).1
    | guarded p star body handlers orelse finalbody =>
      exact hplace.bind fun _ => brings_guarded (follows_lowerExpr _) h.all (hsuite body)
        (hsuite orelse) (bringAll_of_follows h.all handlers) (hsuite finalbody)
    | _ => cases hs

theorem follows_lowerStmt (room : Nat) (s : Stmt) : Follows false (lowerStmt room s) :=
  structural_follows.lowerStmt (Nat.le_refl room) s

/-! ### A function -/

/-- The last step of lowering: the function returns. -/
theorem drafted_of_return {o : Operand} (hrun : (do
      perform .return_ "return" place [o]
      edge (← current) Graph.exit .return_ : Lower Unit) c b = .ok (a, b')) (hd : b.Drafts R e) :
    Drafted R none b'.graph b'.index e := by
  cases hrun
  exact hd.quit ⟨.return_, "return", place, b.index, none, [o], none, none, none⟩ rfl
    hd.fits.exit.2 (.inl ⟨rfl, rfl, rfl⟩)

/-- The statements of a function bring about an invariant. -/
def ContentBrings (room : Nat) (R R' : Invariant σ) : Image.Content → Prop
  | .value _ => R = R'
  | .statements body => Brings R R' false (body.forM (lowerStmt room))

theorem ContentBrings.refl (room : Nat) (R : Invariant σ) : ∀ what, ContentBrings room R R what
  | .value _ => rfl
  | .statements body => follows_suite (follows_lowerStmt room) body R

theorem drafted_of_content {room : Nat} {what : Image.Content}
    (hrun : content room what c b = .ok (a, b')) (hbrings : ContentBrings room R R' what)
    (hd : b.Drafts R e) (hs : Serves σ c b e) : Drafted R' none b'.graph b'.index e := by
  cases what with
  | value e =>
    obtain ⟨place, b₁, hplace, hrun⟩ := bind_eq_ok.mp hrun
    obtain ⟨o, b₂, hvalue, hrun⟩ := bind_eq_ok.mp hrun
    cases hbrings
    have hm := ((compositional_follows.placeOf e.place).bind fun _ =>
      follows_lowerExpr room e).run (bind_eq_ok.mpr ⟨_, _, hplace, hvalue⟩) hd hs
    exact drafted_of_return hrun hm.drafts
  | statements body =>
    obtain ⟨_, b₁, hbody, hrun⟩ := bind_eq_ok.mp hrun
    obtain ⟨place, b₂, hplace, hrun⟩ := bind_eq_ok.mp hrun
    cases hplace
    exact drafted_of_return hrun (Brings.run hbrings hbody hd hs).drafts

/-- Nothing is open around the draft of a function, and the loops that are closed in it are loops of
the source. -/
def whole (c : Context) : Setting :=
  ⟨fun _ => False, false, fun g h x => ∃ known tested, LoopOf c g h x g.blocks.size known tested⟩

section Functions

variable {image : Image} {f : Image.Function} {body : Image.Body} {params : List String}
  {maxDepth : Option Nat} {l : Lowered} (h : lowerBody image f body params maxDepth = .ok l)
include h

/-- What the statements of a function bring about holds of its graph. -/
theorem exists_drafted_of_lowerBody : ∃ c room, ∀ {R R' : Invariant (whole c)},
    R.keeps (.start "" f.name params) → ContentBrings room R R' body.content →
      ∃ i, Drafted R' none l.graph i ⟨{Graph.exit}, ∅, ∅, []⟩ := by
  obtain ⟨final, hrun, rfl⟩ := lowerBody_eq_ok_iff.mp h
  refine ⟨.ofBody image f body params, _, fun hstart hbrings => ⟨final.index,
    drafted_of_content hrun hbrings ⟨Draft.fits_start "" f.name params, hstart⟩ ?_⟩⟩
  exact ⟨nofun, nofun, nofun, nofun, fun hloop => ⟨_, _, hloop⟩⟩

/-- A lowered function has the graph of a draft in which only the exit is open. -/
theorem exists_complete_of_lowerBody : ∃ s : Draft, s.Complete ∧ s.graph = l.graph := by
  obtain ⟨c, room, hbrings⟩ := exists_drafted_of_lowerBody h
  obtain ⟨i, hd⟩ := hbrings (R := Draft.reached fun _ => id) (.start "" f.name params) (.refl _ _ _)
  exact ⟨_, ⟨hd.keeps, rfl, rfl⟩, rfl⟩

end Functions

end Readiness.Lowering
