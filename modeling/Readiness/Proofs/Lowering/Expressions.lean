import Readiness.Proofs.Lowering.Rules

/-!
# Lowering expressions follows a draft

A comprehension opens a loop for each clause (`opened_openClause`) and closes it when
its members have been lowered (`clause_moves`).  So the lowering of every expression follows a
draft (`compositional_follows`).
-/

namespace Readiness.Lowering

open Graph (Statement Operand Location Edge Grown)
open Graph.Draft (Setting Invariant)
open Source (Expr)
open Finset Readiness.Graph

/-- Steps that change neither the graph nor what is open follow every draft. -/
theorem follows_of_stand {α : Type} {t : Bool} {m : Lower α}
    (hm : ∀ ⦃c b a b'⦄, m c b = .ok (a, b') → b'.stand = b.stand) : Follows t m := by
  intro σ R c b e a b' hd hs hrun
  have hstand := hm hrun
  obtain ⟨graph, block, loops, handlers, renames, temporaries, index, comprehensions, declared,
    isGenerator⟩ := b'
  simp only [Prod.mk.injEq] at hstand
  obtain ⟨rfl, rfl, rfl, rfl, rfl⟩ := hstand
  exact ⟨hd, rfl, .refl _, fun _ => .refl _⟩

/-- Following a draft is kept by the steps without control flow. -/
theorem paired_follows (t : Bool) : Paired (Follows t) fun _ m _ => Follows t m where
  pure := @fun _ _ => follows_pure
  throw _ := follows_throw _
  bind := Follows.bind
  read := follows_of_stand (by rintro c b a b' ⟨⟩; rfl)
  get := follows_of_stand (by rintro c b a b' ⟨⟩; rfl)
  modify h := follows_of_stand (by rintro c b a b' ⟨⟩; exact h b)
  emit := follows_emit
  allocate := follows_allocate
  storeLocal := @fun _ _ _ _ => follows_storeLocal
  refl h := h
  given := Follows.given
  mono _ h := h
  cut _ _ _ := follows_throw _

theorem follows_assign {lower : Expr → Lower Operand} (hlower : ∀ e, Follows true (lower e))
    (place : Location) (retarget : Bool) (e : Expr) (v : Operand) :
    Follows true (assign lower place retarget e v) :=
  (paired_follows true).assign (A := True) (g := lower) retarget e v fun x _ => hlower x

variable {σ : Setting} {R R' : Invariant σ} {c : Context} {e : LooseEnds}

/-! ### Comprehensions -/

section Conditions

variable {header y : Nat} (hheader : header ∈ e.headers) (hy : y ∈ e.waiting)
include hheader hy

/-- A test in a comprehension goes to a new block or on with the next round. -/
theorem condition_moves {b b' : Builder} (hd : b.Drafts R e) (hs : Serves σ c b e)
    (hout : Reaches b.graph header y) (st : Statement) (hindex : st.index = b.index)
    (htests : st.Tests) (depth : Int) {n : Nat}
    (hn : n = (b.graph.addStatement b.block st).blocks.size) (hb' : b' =
      { b with
        graph := (((b.graph.addStatement b.block st).addBlock "if-then" depth).addEdge
          ⟨b.block, n, .branchTrue⟩).addEdge ⟨b.block, header, .branchFalse⟩
        block := n, index := b.index + 1 }) :
    Moves R true e b b' ∧ Steps (fun e => b.Jumps e ∨ e.target = header) b b' := by
  subst hn
  have h₁ := hd.branch st hindex htests
  have h₂ := (h₁.addBlock (by decide : "if-then" ≠ headerKind) depth).answerYes hd.not_needs.1
    (mem_insert_self _ _) hd.inside
  have hwithin := (within_addStatement b.graph b.block st).trans
    ((within_addBlock _ "if-then" depth).trans (within_addEdge _
      ⟨b.block, (b.graph.addStatement b.block st).blocks.size, .branchTrue⟩))
  have h₃ := h₂.skip hd.not_needs.2 hheader hd.inside
    ⟨y, mem_insert_of_mem hy, hout.mono hwithin⟩
  have hsize := (size_addStatement b.graph b.block st).ge
  have hm : Moves R true e b b' := by
    subst hb'
    exact ⟨h₃.arrive h₁ (Nat.le_refl _), rfl, hwithin.trans (within_addEdge _ _),
      fun _ => (reaches_addEdge _ ⟨_, _, _⟩).mono (within_addEdge _ _)⟩
  refine ⟨hm, steps_of_around hm.around (hb' ▸ .inr hsize) ?_
    (sound_of_drafts hm.drafts (hm.serves hs))⟩
  have hgrown : Grown (b.scope fun e => b.Jumps e ∨ e.target = header) b.graph
      (b.graph.addStatement b.block st) :=
    (Grown.refl _ _).addStatement (Or.inl rfl) fun hkind => by cases htests.1.symm.trans hkind
  subst hb'
  exact ((hgrown.addBlock _ _).addEdge ⟨.inl rfl, .inr hsize⟩).addEdge ⟨.inl rfl, .inl (.inr rfl)⟩

theorem conditions_moves {lower : Expr → Lower Operand} (hlower : ∀ e, Follows true (lower e)) :
    ∀ (tests : List Expr) {b b' : Builder} {a : Unit},
      b.Drafts R e → Serves σ c b e → Reaches b.graph header y →
      conditions lower header tests c b = .ok (a, b') →
      Moves R true e b b' ∧ Steps (fun e => b.Jumps e ∨ e.target = header) b b'
  | [], b, b', a, hd, hs, _, hrun => by
    cases hrun
    exact ⟨.refl hd, .refl (sound_of_drafts hd hs)⟩
  | test :: rest, b, b', a, hd, hs, hout, hrun => by
    obtain ⟨o, b₁, htest, hrun⟩ := bind_eq_ok.mp hrun
    obtain ⟨hm₁, hsteps₁⟩ := (hlower test).run_steps htest hd hs
    let place : Location := ⟨c.file, test.place.line + c.shift, test.place.column⟩
    obtain ⟨hm₂, hsteps₂⟩ := condition_moves hheader hy hm₁.drafts (hm₁.serves hs)
      (hout.mono hm₁.within) ⟨.branch, "if", place, b₁.index, none, [o], none, none, none⟩ rfl
      ⟨rfl, nofun⟩ b₁.loops.length rfl rfl
    have hm := hm₁.trans hm₂
    obtain ⟨hm₃, hsteps₃⟩ :=
      conditions_moves hlower rest hm.drafts (hm.serves hs) (hout.mono hm.within) hrun
    rw [jumps_congr hm.around] at hsteps₃
    rw [jumps_congr hm₁.around] at hsteps₂
    exact ⟨hm.trans hm₃, ((hsteps₁.mono fun _ => .inl).trans hsteps₂).trans hsteps₃⟩

end Conditions

/-- One more loop has been opened, which can be left. -/
structure Opened (R : Invariant σ) (e : LooseEnds) (b : Builder) (l : Loop) (b' : Builder) :
    Prop where
  drafts : b'.Drafts R ⟨insert l.exit e.waiting, e.needsYes, e.needsNo, l.header :: e.headers⟩
  around : b'.around = (l :: b.loops, b.handlers)
  within : Within b.graph b'.graph
  le : b.graph.blocks.size ≤ l.header
  lt : l.header < l.exit
  reaches : Reaches b'.graph b.block l.header
  exits : Reaches b'.graph l.header l.exit

section Opening

variable {l : Loop} {b b' b'' : Builder}

theorem Opened.moves {t : Bool} (h : Opened R e b l b') (hm : Moves R' t
    ⟨insert l.exit e.waiting, e.needsYes, e.needsNo, l.header :: e.headers⟩ b' b'') :
    Opened R' e b l b'' :=
  ⟨hm.drafts, hm.around.trans h.around, h.within.trans hm.within, h.le, h.lt,
    h.reaches.mono hm.within, h.exits.mono hm.within⟩

theorem Moves.opened (hm : Moves R true e b b') (h : Opened R e b' l b'') : Opened R e b l b'' :=
  ⟨h.drafts, h.around.trans (congrArg (fun a => (l :: a.1, a.2)) hm.around),
    hm.within.trans h.within, hm.within.size.trans h.le, h.lt,
    ((hm.reaches rfl).mono h.within).trans h.reaches, h.exits⟩

theorem Opened.serves (h : Opened R e b l b') (hs : Serves σ c b e) :
    Serves σ c b' ⟨insert l.exit e.waiting, e.needsYes, e.needsNo, l.header :: e.headers⟩ := by
  have hold : Serves σ c b
      ⟨insert l.exit e.waiting, e.needsYes, e.needsNo, l.header :: e.headers⟩ :=
    hs.mono rfl (.refl _) (subset_insert _ _) Subset.rfl (List.subset_cons_self _ _)
  exact hold.push h.around h.within List.mem_cons_self (mem_insert_self _ _)
    ⟨_, .inl (mem_insert_self _ _), h.exits⟩

/-- The innermost loop is closed: control goes back to its header and on from its exit. -/
theorem Opened.close (h : Opened R e b l b') (hd : b.Drafts R' e)
    (hb'' : b'' =
      { b' with
        graph := b'.graph.addEdge ⟨b'.block, l.header, .backEdge⟩
        block := l.exit, loops := b.loops })
    (hcloses : σ.closes b''.graph l.header l.exit) : Moves R true e b b'' := by
  subst hb''
  have hle := h.le.trans h.lt.le
  have h₁ := h.drafts.back List.mem_cons_self ⟨_, .inl (mem_insert_self _ _), h.exits⟩ (.inl rfl)
  have h₂ := h₁.enter (hd.fits.notMem_waiting hle) (hd.fits.exit.1.trans_le hle).ne'
    (List.forall_mem_cons.mpr ⟨h.lt.le, hd.fits.inside_of_size_le hle⟩)
  exact ⟨h₂.closeLoop hd h.le hcloses, Prod.ext rfl (Prod.mk.inj h.around).2,
    h.within.trans (within_addEdge _ _),
    fun _ => (h.reaches.trans h.exits).mono (within_addEdge _ _)⟩

theorem Opened.eq_of_closeLoop (h : Opened R e b l b') {a : Unit}
    (hclose : closeLoop c b' = .ok (a, b'')) : b'' =
      { b' with
        graph := b'.graph.addEdge ⟨b'.block, l.header, .backEdge⟩
        block := l.exit, loops := b.loops } := by
  unfold closeLoop at hclose
  rw [get_bind, (Prod.mk.inj h.around).1] at hclose
  cases hclose
  rfl

theorem Drafted.sound_atHeader (hd : b.Drafts R e) (hs : Serves σ c b e) : Sound b.atHeader :=
  sound_of_drafts (hd.header b.loops.length) (hs.mono rfl ((within_addBlock _ _ _).trans
    (within_addEdge _ _)) Subset.rfl Subset.rfl (List.subset_cons_self _ _))

/-- The steps that open a loop with a test in its header. -/
theorem opened_of_drafts (hd : b.Drafts R e) (hs : Serves σ c b e) (depth : Int) (known : Bool)
    (st : Statement) (hindex : st.index = b.index) (htests : st.Tests) {g₁ g₂ : Graph}
    (h₁ : g₁ = b.atHeader.graph.addStatement b.graph.blocks.size st)
    (h₂ : g₂ = (g₁.addBlock "loop-exit" b.loops.length).addEdge
      ⟨b.graph.blocks.size, g₁.blocks.size, .loopExit⟩)
    (hb' : b' =
      { b with
        graph := (g₂.addBlock "loop-body" depth).addEdge
          ⟨b.graph.blocks.size, g₂.blocks.size, .branchTrue⟩
        block := g₂.blocks.size, index := b.index + 1
        loops := ⟨b.graph.blocks.size, g₁.blocks.size, known⟩ :: b.loops }) :
    Opened R e b ⟨b.graph.blocks.size, g₁.blocks.size, known⟩ b' ∧
      LoopHead b b.atHeader b' known false := by
  have hd₀ := hd.header b.loops.length
  have hd₁ := hd₀.branch st hindex htests
  change Drafted R none (b.atHeader.graph.addStatement _ st) _ _ at hd₁
  rw [← h₁] at hd₁
  have hd₂ := (hd₁.addBlock (by decide : "loop-exit" ≠ headerKind) b.loops.length).answerNo
    hd₀.not_needs.2 (mem_insert_self _ _) hd₀.inside (.inr rfl)
  rw [← h₂] at hd₂
  have hd₃ := (hd₂.addBlock (by decide : "loop-body" ≠ headerKind) depth).answerYes
    hd₀.not_needs.1 (mem_insert_self _ _) hd₀.inside
  have hheader : Within b.graph b.atHeader.graph :=
    (within_addBlock _ _ _).trans (within_addEdge _ _)
  have hbody : Within g₂ b'.graph := hb' ▸ (within_addBlock _ "loop-body" depth).trans
    (within_addEdge _ ⟨b.graph.blocks.size, g₂.blocks.size, .branchTrue⟩)
  have hall : Within b.atHeader.graph b'.graph :=
    (h₂ ▸ h₁ ▸ (within_addStatement _ b.graph.blocks.size st).trans
      ((within_addBlock _ "loop-exit" b.loops.length).trans (within_addEdge _ _))).trans hbody
  have hsize₁ : g₁.blocks.size = b.atHeader.graph.blocks.size := h₁ ▸ size_addStatement _ _ _
  have hsize₂ : g₂.blocks.size = b.atHeader.graph.blocks.size + 1 :=
    hsize₁ ▸ h₂ ▸ size_addBlock _ _ _
  have hlt := size_atHeader b
  refine ⟨⟨hb' ▸ hd₃.arrive hd₂ (Nat.le_refl _), hb' ▸ rfl, hheader.trans hall, Nat.le_refl _, ?_,
    (reaches_addEdge _ ⟨_, _, _⟩).mono hall, ?_⟩,
    sound_of_drafts hd hs, .refl (hd.sound_atHeader hs), ?_, ?_, hb' ▸ hsize₂, ?_, fun _ => rfl⟩
  · change b.graph.blocks.size < g₁.blocks.size
    omega
  · exact (h₂ ▸ reaches_addEdge _ ⟨_, _, _⟩ : Reaches g₂ _ _).mono hbody
  · have htested : Grown (splitting b.graph.blocks.size b.atHeader.graph.blocks.size)
        b.atHeader.graph g₁ := by
      rw [h₁]
      exact (Grown.refl _ _).addStatement rfl fun hkind => by cases htests.1.symm.trans hkind
    have hexit := (htested.addBlock "loop-exit" b.loops.length).addEdge
      (e := ⟨b.graph.blocks.size, g₁.blocks.size, .loopExit⟩) ⟨rfl, hsize₁.ge⟩
    rw [← h₂] at hexit
    rw [hb']
    exact (hexit.addBlock _ _).addEdge ⟨rfl, hsize₂ ▸ Nat.le_succ _⟩
  · subst hb'
    exact (size_addBlock _ _ _).trans (congrArg (· + 1) hsize₂)
  · rw [hb', ← hsize₁]

end Opening

section Clauses

variable {room : Nat} (hlower : ∀ e, Follows true (lowerExpr room e))
include hlower

/-- The loop of a clause from its header to where its members are lowered. -/
theorem opened_openClause {suffix : String} {target iter : Expr} {tests : List Expr}
    {iterable : Operand} {b b' : Builder} {r : Option Nat} (hd : b.Drafts R e)
    (hs : Serves σ c b e)
    (hrun : openClause (lowerExpr room) suffix target iter tests iterable c b = .ok (r, b')) :
    ∃ count b₀ x, tripCount iter c b = .ok (count, b₀) ∧
      Opened R e b ⟨b₀.graph.blocks.size, b₀.graph.blocks.size + 1, count.isSome⟩ b' ∧
      LoopHead b₀ b₀.atHeader x count.isSome false ∧
      Steps (fun e => x.Jumps e ∨ e.target = b₀.graph.blocks.size) x b' := by
  obtain ⟨count, b₁, hcount, hrun⟩ := bind_eq_ok.mp hrun
  have hm₁ := (paired_follows true).tripCount iter R hd hs hcount
  simp -implicitDefEqProofs only [newBlock_bind, current_bind, edge_bind, goTo_bind] at hrun
  obtain ⟨place, b₂, hplace, hrun⟩ := bind_eq_ok.mp hrun
  cases hplace
  simp -implicitDefEqProofs only [perform_bind, newBlock_bind, edge_bind] at hrun
  rw [modify_bind] at hrun
  simp -implicitDefEqProofs only [newBlock_bind, edge_bind, goTo_bind] at hrun
  obtain ⟨hopen, hhead⟩ := opened_of_drafts hm₁.drafts (hm₁.serves hs) (b₁.loops.length + 1)
    count.isSome ⟨.branch, "for", ⟨c.file, c.base, 0⟩, b₁.index, none, [iterable], none, none, none⟩
    rfl ⟨rfl, nofun⟩ rfl rfl rfl
  have hs₂ := hopen.serves (hm₁.serves hs)
  -- the names, the first item and its target only move on
  obtain ⟨_, b₃, hrename, hrun⟩ := bind_eq_ok.mp hrun
  obtain ⟨item, b₄, hitem, hrun⟩ := bind_eq_ok.mp hrun
  obtain ⟨_, b₅, hassign, hrun⟩ := bind_eq_ok.mp hrun
  obtain ⟨_, b₆, hconditions, hrun⟩ := bind_eq_ok.mp hrun
  cases hrun
  obtain ⟨hm₃, hsteps₃⟩ := ((paired_follows true).modify fun b => by
    cases b.renames <;> rfl).run_steps hrename hopen.drafts hs₂
  obtain ⟨hm₄, hsteps₄⟩ :=
    (paired_follows true).take.run_steps hitem hm₃.drafts (hm₃.serves hs₂)
  have hm₃₄ := hm₃.trans hm₄
  obtain ⟨hm₅, hsteps₅⟩ := (follows_assign hlower _ true target item).run_steps hassign
    hm₃₄.drafts (hm₃₄.serves hs₂)
  have hm := hm₃₄.trans hm₅
  obtain ⟨hm₆, hsteps₆⟩ := conditions_moves List.mem_cons_self (mem_insert_self _ _) hlower tests
    hm.drafts (hm.serves hs₂) (hopen.moves hm).exits hconditions
  rw [jumps_congr hm.around] at hsteps₆
  have hsteps := (hsteps₃.followed (fun _ => id) hsteps₄).followed (fun _ => id) hsteps₅
  have hopened := hm₁.opened ((hopen.moves hm).moves hm₆)
  rw [size_addStatement, size_atHeader] at hopened
  exact ⟨count, b₁, _, hcount, hopened, hhead, (hsteps.mono fun _ => .inl).trans hsteps₆⟩

/-- A loop of a comprehension leads from the block before it to its exit. -/
theorem follows_clause {α : Type} {t : Bool} {inner : Lower α} (hinner : Follows t inner)
    (suffix : String) (target iter : Expr) (tests : List Expr) (iterable : Operand) :
    Follows true (clause (lowerExpr room) suffix target iter tests iterable inner) := by
  intro σ R c b e a b' hd hs hrun
  obtain ⟨r, b₁, hopen, hrun⟩ := bind_eq_ok.mp hrun
  obtain ⟨r', y, hin, hrun⟩ := bind_eq_ok.mp hrun
  obtain ⟨_, b₂, hclose, hrun⟩ := bind_eq_ok.mp hrun
  obtain rfl : b₂ = b' := by cases hrun; rfl
  obtain ⟨count, b₀, x, hcount, hopened, -⟩ := opened_openClause hlower hd hs hopen
  obtain ⟨hm, hsteps⟩ := hinner.run_steps hin hopened.drafts (hopened.serves hs)
  exact (hopened.moves hm).close hd ((hopened.moves hm).eq_of_closeLoop hclose) (hs.closes
    (.clause (sound_of_drafts hd hs) hopen hsteps hclose hcount (.refl _ _ _ _)))

theorem record_of_clause {suffix : String} {target iter : Expr} {tests : List Expr}
    {iterable : Operand} {b b₀ b₁ y b' : Builder} {count r : Option Nat} (hs : Sound b)
    (hopen : openClause (lowerExpr room) suffix target iter tests iterable c b = .ok (r, b₁))
    (hsteps : Steps b₁.Jumps b₁ y) (hclose : closeLoop c y = .ok ((), b'))
    (hcount : tripCount iter c b = .ok (count, b₀)) :
    b'.graph.kindOf b₀.graph.blocks.size = headerKind ∧
      ∃ bound ≤ b'.graph.blocks.size, LoopRecord b'.graph b₀.graph.blocks.size
        (b₀.graph.blocks.size + 1) bound count.isSome false := by
  obtain ⟨_, _, x, hcount', hopened, hhead, hbody⟩ :=
    opened_openClause hlower hs.drafts (serves_apart c b) hopen
  cases hcount.symm.trans hcount'
  have hsteps' := hbody.followed (fun _ => .inl) hsteps
  unfold closeLoop at hclose
  rw [get_bind, hsteps.loops, (Prod.mk.inj hopened.around).1] at hclose
  cases hclose
  obtain ⟨hkind, hle, hrecord⟩ := hhead.record hsteps' (.refl _ _)
  exact ⟨hkind, _, hle, size_atHeader b₀ ▸ hrecord⟩

end Clauses

/-- Lowering an expression leads from its first block to its last. -/
theorem compositional_follows : Compositional (Follows true) fun _ m _ => Follows true m :=
  ⟨paired_follows true, fun hlower hinner _ _ _ _ => follows_clause hlower hinner ..⟩

theorem follows_lowerExpr (room : Nat) (e : Expr) : Follows true (lowerExpr room e) :=
  compositional_follows.lowerExpr (Nat.le_refl room) e

end Readiness.Lowering
