import Readiness.Lowering.Statement
import Readiness.Proofs.Lowering.Draft

/-!
# The region of a run

`Steps` says that a run adds to the current block and to its own blocks, with edges that lead to
these or jump to what was open before.  `LoopOf` says that a loop of the source has been lowered to
blocks of a graph, and `LoopRecord` what leads into the blocks of a loop.
-/

namespace Readiness
variable {s : Scope}

namespace Graph

/-- Nothing but exceptions leaves a block. -/
def Unended (g : Graph) (k : Nat) : Prop := ∀ e ∈ g.edges, e.source = k → e.kind = .exception

section Closing

variable {g g' : Graph}

theorem Closed.addBlock (h : Closed g) (kind : String) (depth : Int) :
    Closed (g.addBlock kind depth) := by
  intro e he
  rw [size_addBlock]
  obtain ⟨hsource, htarget⟩ := h e he
  exact ⟨hsource.trans (Nat.lt_succ_self _), htarget.trans (Nat.lt_succ_self _)⟩

theorem Closed.addEdge (h : Closed g) {e : Edge} (hsource : e.source < g.blocks.size)
    (htarget : e.target < g.blocks.size) : Closed (g.addEdge e) := by
  intro e' he'
  rcases (mem_edges_addEdge _ _).mp he' with he' | rfl
  · exact h e' he'
  · exact ⟨hsource, htarget⟩

end Closing
end Graph

variable {lo hi : Nat}

namespace Lowering

open Graph (Statement Operand Edge Scope Grown Closed Unended)
open Source (Expr Stmt)

/-! ### Builders -/

namespace Builder

variable (b : Builder)

/-- The loops and handlers around the current block. -/
abbrev around : List Loop × List (List Nat) := (b.loops, b.handlers)

/-- The blocks that jumps may lead to. -/
def Opens (t : Nat) : Prop :=
  t = Graph.exit ∨ (∃ l ∈ b.loops, t = l.header ∨ t = l.exit) ∨ ∃ blocks ∈ b.handlers, t ∈ blocks

/-- The edges along which control may jump. -/
def Jumps (e : Edge) : Prop := e.kind.isJump = true ∧ b.Opens e.target

/-- Whether the number of rounds of a loop around is not known. -/
def unbounded : Bool := b.loops.any fun l => !l.isBounded

/-- The current block, or a block that is still to be made. -/
def Owns (k : Nat) : Prop := k = b.block ∨ b.graph.blocks.size ≤ k

/-- What a run may add, where `leads` holds of the edges that may lead to older blocks. -/
def scope (leads : Edge → Prop) : Scope where
  holds k := b.Owns k
  leads e := b.Owns e.source ∧ (leads e ∨ b.graph.blocks.size ≤ e.target)
  marks info := b.unbounded = true → info.inUnboundedLoop = true

/-- Control comes to the header of a new loop. -/
def atHeader : Builder :=
  { b with
    graph := (b.graph.addBlock Graph.headerKind b.loops.length).addEdge
      ⟨b.block, b.graph.blocks.size, .fallThrough⟩
    block := b.graph.blocks.size }

end Builder

/-- The parts of a builder are in bounds, and its current block has not ended. -/
structure Sound (b : Builder) : Prop where
  block : b.block < b.graph.blocks.size
  opens : ∀ t, b.Opens t → t < b.graph.blocks.size
  closed : Closed b.graph
  unended : Unended b.graph b.block

section Opening

variable {b b' : Builder}

theorem opens_congr (h : b'.around = b.around) : b'.Opens = b.Opens := by
  obtain ⟨hloops, hhandlers⟩ := Prod.mk.inj h
  funext t
  unfold Builder.Opens
  rw [hloops, hhandlers]

theorem jumps_congr (h : b'.around = b.around) : b'.Jumps = b.Jumps := by
  funext e
  unfold Builder.Jumps
  rw [opens_congr h]

theorem unbounded_congr (h : b'.around = b.around) : b'.unbounded = b.unbounded := by
  unfold Builder.unbounded
  rw [(Prod.mk.inj h).1]

theorem Sound.jumps_lt (h : Sound b) {e : Edge} (he : b.Jumps e) :
    e.target < b.graph.blocks.size := h.opens _ he.2

end Opening

/-- Steps of lowering, where `leads` holds of the edges that may lead to older blocks. -/
structure Steps (leads : Edge → Prop) (b b' : Builder) : Prop where
  loops : b'.loops = b.loops
  handlers : b'.handlers = b.handlers
  block : b.Owns b'.block
  grown : Grown (b.scope leads) b.graph b'.graph
  sound : Sound b'

/-! ### Loops -/

/-- A graph leaves the blocks from `lo` to `hi` alone, but for one of them. -/
structure Untouched (lo hi except : Nat) (g g' : Graph) : Prop where
  size : g.blocks.size ≤ g'.blocks.size
  kinds : ∀ k, k < g.blocks.size → g'.kindOf k = g.kindOf k
  statements : ∀ k, lo ≤ k → k < hi → k ≠ except → g'.statementsOf k = g.statementsOf k
  edges : ∀ e ∈ g'.edges, lo ≤ e.target → e.target < hi → e.target ≠ except → e ∈ g.edges

theorem Untouched.refl (lo hi except : Nat) (g : Graph) : Untouched lo hi except g g :=
  ⟨Nat.le_refl _, fun _ _ => rfl, fun _ _ _ _ => rfl, fun _ he _ _ _ => he⟩

variable {g g' : Graph}

/-- Growth that does not touch the blocks. -/
theorem Untouched.grow {except : Nat} {g'' : Graph} (h : Untouched lo hi except g g')
    (hg : Grown s g' g'') (hholds : ∀ k, lo ≤ k → k < hi → k ≠ except → ¬s.holds k)
    (hleads : ∀ e, s.leads e → lo ≤ e.target → e.target < hi → e.target = except) :
    Untouched lo hi except g g'' where
  size := h.size.trans hg.size
  kinds k hk := (hg.kinds k (Nat.lt_of_lt_of_le hk h.size)).trans (h.kinds k hk)
  statements k hlo hhi hne :=
    (hg.statements k (hholds k hlo hhi hne)).trans (h.statements k hlo hhi hne)
  edges e he hlo hhi hne :=
    h.edges e ((hg.edges e he).resolve_right fun hlead => hne (hleads e hlead hlo hhi)) hlo hhi hne

/-- A loop of the source that has been lowered to blocks of a graph: its header, its exit, where its
blocks end, whether the number of its rounds is known, and whether it has a test. -/
inductive LoopOf (c : Context) (g : Graph) :
    (header exit finish : Nat) → (known tested : Bool) → Prop
  | loop {room : Nat} {p : Source.Place} {test : Expr} {body orelse : List Stmt}
    {b b₁ b' : Builder} {o : Operand} :
    Sound b → lowerStmt (room + 1) (.loop p test body orelse) c b = .ok ((), b') →
    lowerExpr room test c b.atHeader = .ok (o, b₁) →
    Untouched b.graph.blocks.size b'.graph.blocks.size b₁.graph.blocks.size b'.graph g →
    LoopOf c g b.graph.blocks.size b₁.graph.blocks.size b'.graph.blocks.size false true
  | each {room : Nat} {p : Source.Place} {target iter : Expr} {body orelse : List Stmt}
    {b b₁ b₂ b' : Builder} {o : Operand} {trips : Option Nat} :
    Sound b → lowerStmt (room + 1) (.each p target iter body orelse) c b = .ok ((), b') →
    lowerExpr room iter c b = .ok (o, b₁) → tripCount iter c b₁ = .ok (trips, b₂) →
    Untouched b₂.graph.blocks.size b'.graph.blocks.size (b₂.graph.blocks.size + 1) b'.graph g →
    LoopOf c g b₂.graph.blocks.size (b₂.graph.blocks.size + 1) b'.graph.blocks.size trips.isSome
      false
  /-- The loop of a clause, around the steps from `b₁` to `y`. -/
  | clause {room : Nat} {suffix : String} {target iter : Expr} {tests : List Expr}
    {iterable : Operand} {b b₀ b₁ y b' : Builder} {count r : Option Nat} :
    Sound b → openClause (lowerExpr room) suffix target iter tests iterable c b = .ok (r, b₁) →
    Steps b₁.Jumps b₁ y → closeLoop c y = .ok ((), b') → tripCount iter c b = .ok (count, b₀) →
    Untouched b₀.graph.blocks.size b'.graph.blocks.size (b₀.graph.blocks.size + 1) b'.graph g →
    LoopOf c g b₀.graph.blocks.size (b₀.graph.blocks.size + 1) b'.graph.blocks.size count.isSome
      false

/-- Growth that leaves the blocks of a loop alone. -/
theorem LoopOf.grow {c : Context} {header exit finish : Nat} {known tested : Bool}
    (h : LoopOf c g header exit finish known tested) (hg : Grown s g g')
    (hholds : ∀ k, header ≤ k → k < finish → k ≠ exit → ¬s.holds k)
    (hleads : ∀ e, s.leads e → header ≤ e.target → e.target < finish → e.target = exit) :
    LoopOf c g' header exit finish known tested := by
  cases h with
  | loop hs hrun htest hkeeps => exact .loop hs hrun htest (hkeeps.grow hg hholds hleads)
  | each hs hrun hiter htrips hkeeps =>
    exact .each hs hrun hiter htrips (hkeeps.grow hg hholds hleads)
  | clause hs hopen hsteps hclose hcount hkeeps =>
    exact .clause hs hopen hsteps hclose hcount (hkeeps.grow hg hholds hleads)

/-- The allocations of a block are those of a loop with an unknown number of rounds. -/
def MarkedAt (g : Graph) (k : Nat) : Prop :=
  ∀ st ∈ g.statementsOf k, st.kind = .allocation →
    ∃ info, st.allocation = some info ∧ info.inUnboundedLoop = true

/-- The blocks of a loop: its test are those from the header to the exit, its body those from the
exit to a bound. -/
structure LoopRecord (g : Graph) (header exit bound : Nat) (known tested : Bool) : Prop where
  lt : header < exit
  le : exit < bound
  marked : known = false → ∀ k, exit < k → k < bound → MarkedAt g k
  untested : tested = false → exit = header + 1 ∧
    ∀ st ∈ g.statementsOf header, st.kind ≠ .allocation
  toHeader : ∀ e ∈ g.edges, e.target = header → e.source < header ∨
    exit < e.source ∧ e.source < bound
  toTest : ∀ e ∈ g.edges, header < e.target → e.target < exit →
    header ≤ e.source ∧ e.source < exit
  toBody : ∀ e ∈ g.edges, exit < e.target → e.target < bound →
    header ≤ e.source ∧ e.source < bound ∧ e.source ≠ exit

/-- The record stays right while nothing touches the blocks of the loop. -/
theorem LoopRecord.keep {header exit bound finish : Nat} {known tested : Bool}
    (h : LoopRecord g header exit bound known tested) (hfinish : bound ≤ finish)
    (hg : Untouched header finish exit g g') : LoopRecord g' header exit bound known tested := by
  have hlt := h.lt
  have hle := h.le
  refine ⟨hlt, hle, fun hknown k hlo hhi st hst => ?_, fun htested => ?_, ?_, ?_, ?_⟩
  · rw [hg.statements k (by omega) (by omega) (by omega)] at hst
    exact h.marked hknown k hlo hhi st hst
  · rw [hg.statements header (by omega) (by omega) (by omega)]
    exact h.untested htested
  · exact fun e he htarget => h.toHeader e
      (hg.edges e he (by omega) (by omega) (by omega)) htarget
  · exact fun e he hlo hhi => h.toTest e (hg.edges e he (by omega) (by omega) (by omega)) hlo hhi
  · exact fun e he hlo hhi => h.toBody e (hg.edges e he (by omega) (by omega) (by omega)) hlo hhi

/-! ### Runs -/

section Composing

variable {leads leads' : Edge → Prop} {b b' b'' : Builder}

theorem steps_of_around (haround : b'.around = b.around) (hblock : b.Owns b'.block)
    (hgrown : Grown (b.scope leads) b.graph b'.graph) (hsound : Sound b') : Steps leads b b' :=
  ⟨(Prod.mk.inj haround).1, (Prod.mk.inj haround).2, hblock, hgrown, hsound⟩

theorem Steps.around (h : Steps leads b b') : b'.around = b.around :=
  Prod.ext h.loops h.handlers

theorem Steps.size (h : Steps leads b b') : b.graph.blocks.size ≤ b'.graph.blocks.size :=
  h.grown.size

theorem Steps.mono (h : Steps leads b b') (hleads : ∀ e, leads e → leads' e) : Steps leads' b b' :=
  ⟨h.loops, h.handlers, h.block,
    h.grown.mono ⟨fun _ => id, fun e he => ⟨he.1, he.2.imp_left (hleads e)⟩, fun _ => id⟩, h.sound⟩

theorem Steps.owns (h : Steps leads b b') {k : Nat} (hk : b'.Owns k) : b.Owns k := by
  rcases hk with rfl | hge
  · exact h.block
  · exact .inr (h.size.trans hge)

theorem Steps.refl (hs : Sound b) : Steps leads b b := ⟨rfl, rfl, .inl rfl, .refl _ _, hs⟩

theorem Steps.trans (h : Steps leads b b') (h' : Steps leads b' b'') : Steps leads b b'' := by
  refine ⟨h'.loops.trans h.loops, h'.handlers.trans h.handlers, h.owns h'.block,
    h.grown.trans (h'.grown.mono ⟨fun k hk => h.owns hk, fun e he => ?_, ?_⟩), h'.sound⟩
  · exact ⟨h.owns he.1, he.2.imp_right h.size.trans⟩
  · intro info hinfo
    rw [Builder.scope, unbounded_congr h.around] at hinfo
    exact hinfo

/-- Steps are followed by others with the same jumps. -/
theorem Steps.followed (h : Steps leads b b') (hjumps : ∀ e, b.Jumps e → leads e)
    (h' : Steps b'.Jumps b' b'') : Steps leads b b'' :=
  h.trans (h'.mono (jumps_congr h.around ▸ hjumps))

end Composing

/-! ### What loops add -/

/-- What is added when control splits at `p`: a test, and edges to new blocks. -/
def splitting (p n : Nat) : Scope where
  holds k := k = p
  leads e := e.source = p ∧ n ≤ e.target
  marks _ := False

/-- What is added from the block `n` on when the test at `p` fails, up to where both ways join. -/
def Builder.joining (b : Builder) (p join n : Nat) : Scope where
  holds k := n ≤ k
  leads e := (e.source = p ∨ n ≤ e.source) ∧ (e.target = join ∨ b.Jumps e ∨ n ≤ e.target)
  marks info := b.unbounded = true → info.inUnboundedLoop = true

/-- A loop has been opened: its test runs from the header to `t`, and its body starts in `x`. -/
structure LoopHead (b t x : Builder) (known tested : Bool) : Prop where
  sound : Sound b
  test : Steps b.Jumps b.atHeader t
  split : Grown (splitting t.block t.graph.blocks.size) t.graph x.graph
  size : x.graph.blocks.size = t.graph.blocks.size + 2
  block : x.block = t.graph.blocks.size + 1
  around : x.around = (⟨b.graph.blocks.size, t.graph.blocks.size, known⟩ :: b.loops, b.handlers)
  untested : tested = false → t = b.atHeader

theorem size_atHeader (b : Builder) : b.atHeader.graph.blocks.size = b.graph.blocks.size + 1 :=
  Graph.size_addBlock _ _ _

section Records

variable {b t x y : Builder} {g : Graph} {known tested : Bool} (h : LoopHead b t x known tested)
  (hbody : Steps (fun e => x.Jumps e ∨ e.target = b.graph.blocks.size) x y)
  (hrest : Grown (b.joining t.block t.graph.blocks.size y.graph.blocks.size)
    (y.graph.addEdge ⟨y.block, b.graph.blocks.size, .backEdge⟩) g)
include h

theorem LoopHead.opens_le {k : Nat} (hk : x.Opens k) : k < b.graph.blocks.size ∨
    k = b.graph.blocks.size ∨ k = t.graph.blocks.size := by
  obtain ⟨hloops, hhandlers⟩ := Prod.mk.inj h.around
  rcases hk with hk | ⟨l, hl, hk⟩ | ⟨l, hl, hk⟩
  · exact .inl (h.sound.opens k (.inl hk))
  · rcases List.mem_cons.mp (hloops ▸ hl) with rfl | hl
    · exact .inr hk
    · exact .inl (h.sound.opens k (.inr (.inl ⟨l, hl, hk⟩)))
  · exact .inl (h.sound.opens k (.inr (.inr ⟨l, hhandlers ▸ hl, hk⟩)))

theorem LoopHead.test_bounds : b.graph.blocks.size ≤ t.block ∧ t.block < t.graph.blocks.size ∧
    b.graph.blocks.size < t.graph.blocks.size := by
  have hsize := size_atHeader b
  have hblock : b.atHeader.block = b.graph.blocks.size := rfl
  have hgrow := h.test.size
  have hlt := h.test.sound.block
  rcases h.test.block with hown | hown <;> omega

include hbody

theorem LoopHead.body_bounds : t.graph.blocks.size < y.block ∧ y.block < y.graph.blocks.size ∧
    t.graph.blocks.size + 2 ≤ y.graph.blocks.size := by
  have hsize := h.size
  have hblock := h.block
  have hgrow := hbody.size
  have hlt := hbody.sound.block
  rcases hbody.block with hown | hown <;> omega

include hrest

/-- Where the edges of a loop lead. -/
theorem LoopHead.edges {e : Edge} (he : e ∈ g.edges) :
    e.target < b.graph.blocks.size ∨
    e.target = b.graph.blocks.size ∧ (e.source < b.graph.blocks.size ∨
      t.graph.blocks.size < e.source ∧ e.source < y.graph.blocks.size) ∨
    b.graph.blocks.size < e.target ∧ e.target < t.graph.blocks.size ∧
      b.graph.blocks.size ≤ e.source ∧ e.source < t.graph.blocks.size ∨
    e.target = t.graph.blocks.size ∨
    t.graph.blocks.size < e.target ∧ b.graph.blocks.size ≤ e.source ∧
      e.source < y.graph.blocks.size ∧ e.source ≠ t.graph.blocks.size ∨
    y.graph.blocks.size ≤ e.target := by
  have hheader := size_atHeader b
  have hblock : b.atHeader.block = b.graph.blocks.size := rfl
  have hxsize := h.size
  have hxblock := h.block
  obtain ⟨htlo, hthi, hlt⟩ := h.test_bounds
  obtain ⟨hylo, hyhi, hysize⟩ := h.body_bounds hbody
  rcases hrest.edges e he with he | ⟨-, heq | hjump | hge⟩
  · rcases (Graph.mem_edges_addEdge _ _).mp he with he | rfl
    · have hclosed := hbody.sound.closed e he
      rcases hbody.grown.edges e he with he | ⟨hsource, htarget⟩
      · rcases h.split.edges e he with he | ⟨hsource, htarget⟩
        · have hclosed := h.test.sound.closed e he
          rcases h.test.grown.edges e he with he | ⟨hsource, hjump | hge⟩
          · rcases (Graph.mem_edges_addEdge _ _).mp he with he | rfl
            · exact .inl (h.sound.closed e he).2
            · exact .inr (.inl ⟨rfl, .inl h.sound.block⟩)
          · exact .inl (h.sound.jumps_lt hjump)
          · rcases hsource with hown | hown <;> omega
        · omega
      · have hown : t.graph.blocks.size < e.source := by
          rcases hsource with hown | hown <;> omega
        rcases htarget with (hjump | heq) | hge
        · have := h.opens_le hjump.2
          omega
        · omega
        · omega
    · exact .inr (.inl ⟨rfl, .inr ⟨hylo, hyhi⟩⟩)
  · exact .inr (.inr (.inr (.inl heq)))
  · exact .inl (h.sound.jumps_lt hjump)
  · exact .inr (.inr (.inr (.inr (.inr hge))))

theorem LoopHead.record : g.kindOf b.graph.blocks.size = Graph.headerKind ∧
    y.graph.blocks.size ≤ g.blocks.size ∧
    LoopRecord g b.graph.blocks.size t.graph.blocks.size y.graph.blocks.size known tested := by
  have hheader := size_atHeader b
  have hxsize := h.size
  have hxblock := h.block
  obtain ⟨htlo, hthi, hlt⟩ := h.test_bounds
  obtain ⟨hylo, hyhi, hysize⟩ := h.body_bounds hbody
  have hgrow := h.test.size
  have hedges := fun e he => h.edges hbody hrest (e := e) he
  have hkept : ∀ k, k < y.graph.blocks.size → g.statementsOf k = y.graph.statementsOf k :=
    fun k hk => hrest.statements k (Nat.not_le.mpr hk)
  refine ⟨?_, hrest.size, by omega, by omega, fun hknown k hlo hhi st hst hkind => ?_,
    fun htested => ?_, fun e he htarget => ?_, fun e he hlo hhi => ?_, fun e he hlo hhi => ?_⟩
  · rw [hrest.kinds _ (by change _ < y.graph.blocks.size; omega), Graph.kindOf_addEdge,
      hbody.grown.kinds _ (by omega), h.split.kinds _ hlt, h.test.grown.kinds _ (by omega)]
    exact Graph.kindOf_addBlock_size _ _ _
  · rw [hkept k hhi] at hst
    rcases hbody.grown.allocations k st hst hkind with ⟨st', hst', -⟩ | ⟨info, hinfo, hmark⟩
    · rw [h.split.statements k (by change k ≠ _; omega),
        Graph.statementsOf_of_size_le _ (Nat.le_of_lt hlo)] at hst'
      cases hst'
    · refine ⟨info, hinfo, hmark ?_⟩
      rw [Builder.unbounded, (Prod.mk.inj h.around).1, List.any_cons, hknown]
      rfl
  · obtain rfl := h.untested htested
    have hout : ¬x.Owns b.graph.blocks.size := by
      rintro (hown | hown) <;> omega
    refine ⟨hheader, fun st hst hkind => ?_⟩
    rw [hkept _ (by omega), hbody.grown.statements _ hout] at hst
    rcases h.split.allocations _ st hst hkind with ⟨st', hst', -⟩ | ⟨_, -, ⟨⟩⟩
    change st' ∈ (b.graph.addBlock _ _).statementsOf _ at hst'
    rw [Graph.statementsOf_addBlock, Graph.statementsOf_of_size_le _ (Nat.le_refl _)] at hst'
    cases hst'
  · have := hedges e he
    omega
  · have := hedges e he
    omega
  · have := hedges e he
    omega

end Records

/-! ### Parts of runs -/

/-- The current block before a run and the blocks that it has made. -/
def Region (b b' : Builder) (k : Nat) : Prop :=
  k = b.block ∨ b.graph.blocks.size ≤ k ∧ k < b'.graph.blocks.size

/-- What may be added after a run: nothing in its region but at its last block. -/
def later (b b' : Builder) : Scope where
  holds k := k = b'.block ∨ ¬Region b b' k
  leads e := (e.source = b'.block ∨ ¬Region b b' e.source) ∧
    (e.target < b.graph.blocks.size ∨ b'.graph.blocks.size ≤ e.target)
  marks _ := True

end Lowering
end Readiness
