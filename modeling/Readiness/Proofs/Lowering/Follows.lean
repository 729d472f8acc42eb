import Readiness.Proofs.Lowering.Actions

/-!
# Lowering follows a draft

`Brings` says that lowering which succeeds takes a draft along by actions, leaves its loose ends as
they were and brings about an invariant; `Follows` says that it keeps every invariant.  It holds of
sequences of lowerings of which it holds, of adding a statement that does not end its block
(`follows_emit`) and of naming a value (`follows_storeLocal`).  Hence what lowering adds is confined
to its own blocks (`Follows.steps`).
-/

namespace Readiness.Lowering

open Graph (Draft Statement StatementKind Operand CallInfo AllocationInfo Location
  EdgeKind)
open Graph.Draft (Setting Invariant Action Fits Confined confined)
open Finset Readiness.Graph

/-! ### Runs that succeed -/

section Runs

variable {α β : Type} {c : Context} {b b' : Builder}

/-- A sequence succeeds when its first part does and the rest does from there. -/
theorem bind_eq_ok {x : Lower α} {f : α → Lower β} {r : β × Builder} :
    (x >>= f) c b = .ok r ↔ ∃ a b', x c b = .ok (a, b') ∧ f a c b' = .ok r := by
  change (x c b >>= fun p => f p.1 c p.2) = .ok r ↔ _
  cases x c b with
  | error e => simp [bind, Except.bind]
  | ok p =>
    obtain ⟨a, b'⟩ := p
    simp [bind, Except.bind]

theorem pure_eq_ok {a a' : α} : (pure a : Lower α) c b = .ok (a', b') ↔ a = a' ∧ b = b' := by
  change Except.ok (a, b) = Except.ok (a', b') ↔ _
  simp

/-- What is known of a result says that there is one. -/
theorem exists_ok_of_toOption {ε : Type} {x : Except ε α} {f : α → β} {v : β}
    (h : x.toOption.map f = some v) : ∃ a, x = .ok a ∧ f a = v := by
  cases x with
  | error e => cases h
  | ok a => exact ⟨a, rfl, Option.some.inj h⟩

variable (c b)

@[simp] theorem current_bind (f : Nat → Lower β) : (current >>= f) c b = f b.block c b := rfl

@[simp] theorem goTo_bind (block : Nat) (f : Unit → Lower β) :
    (goTo block >>= f) c b = f () c { b with block } := rfl

@[simp] theorem newBlock_bind (kind : String) (f : Nat → Lower β) :
    (newBlock kind >>= f) c b =
      f b.graph.blocks.size c { b with graph := b.graph.addBlock kind b.loops.length } := rfl

@[simp] theorem edge_bind (source target : Nat) (kind : EdgeKind) (f : Unit → Lower β) :
    (edge source target kind >>= f) c b =
      f () c { b with graph := b.graph.addEdge ⟨source, target, kind⟩ } := rfl

@[simp] theorem modify_bind (g : Builder → Builder) (f : Unit → Lower β) :
    ((modify g : Lower Unit) >>= f) c b = f () c (g b) := rfl

@[simp] theorem get_bind (f : Builder → Lower β) :
    ((get : Lower Builder) >>= f) c b = f b c b := rfl

@[simp] theorem perform_bind (kind : StatementKind) (op : String) (place : Location)
    (operands : List Operand) (f : Unit → Lower β) :
    (perform kind op place operands >>= f) c b =
      f () c { b with
        graph := b.graph.addStatement b.block
          { kind, op, location := place, index := b.index, operands }
        index := b.index + 1 } := rfl

end Runs

variable {σ : Setting} {R R' R'' : Invariant σ}

/-- An invariant holds of the draft with these parts. -/
abbrev Drafted (R : Invariant σ) (focus : Option Nat) (graph : Graph) (index : Nat)
    (ends : LooseEnds) : Prop :=
  R.Holds { ends with graph, focus, index }

/-- A block leads to one that waits or to a branch that lacks a way. -/
abbrev LeadsOut (g : Graph) (ends : LooseEnds) (h : Nat) : Prop :=
  ∃ y, (y ∈ ends.waiting ∨ y ∈ ends.needsNo) ∧ Reaches g h y

namespace Drafted

variable {f f₀ : Option Nat} {g g₀ : Graph} {i i₀ p q : Nat} {k : EdgeKind} {e : LooseEnds}
  {waiting yes no yes₀ no₀ : Finset Nat} {headers : List Nat}

theorem inside (h : Drafted R (some p) g i e) : ∀ h ∈ e.headers, h ≤ p := (h.fits.focus p rfl).2.1

theorem not_needs (h : Drafted R (some p) g i e) : p ∉ e.needsYes ∧ p ∉ e.needsNo :=
  ⟨fun hp => (h.fits.pending p (.inr (.inl hp))).2 rfl,
    fun hp => (h.fits.pending p (.inr (.inr hp))).2 rfl⟩

theorem addBlock (h : Drafted R f g i ⟨waiting, yes, no, headers⟩) {kind : String}
    (hkind : kind ≠ headerKind) (depth : Int) :
    Drafted R f (g.addBlock kind depth) i ⟨insert g.blocks.size waiting, yes, no, headers⟩ :=
  h.act (.block depth hkind)

theorem pass (h : Drafted R (some p) g i e) (hq : q ∈ e.waiting) :
    Drafted R none (g.addEdge ⟨p, q, .fallThrough⟩) i e :=
  h.act (.pass rfl hq (.inl rfl))

theorem back (h : Drafted R (some p) g i e) (hq : q ∈ e.headers) (hout : LeadsOut g e q)
    (hk : k = .backEdge ∨ k = .proceed) : Drafted R none (g.addEdge ⟨p, q, k⟩) i e :=
  h.act (.back rfl hq hout hk)

theorem branch (h : Drafted R (some p) g i ⟨waiting, yes, no, headers⟩) (st : Statement)
    (hindex : st.index = i) (htests : st.Tests) :
    Drafted R none (g.addStatement p st) (i + 1) ⟨waiting, insert p yes, insert p no, headers⟩ :=
  h.act (.branch rfl hindex htests)

theorem quit (h : Drafted R (some p) g i e) (st : Statement) (hindex : st.index = i)
    (hq : q ∈ e.waiting ∨ σ.far q)
    (hquit : st.kind = .return_ ∧ q = Graph.exit ∧ k = .return_ ∨ st.Raises ∧ k = .exception) :
    Drafted R none ((g.addStatement p st).addEdge ⟨p, q, k⟩) (i + 1) e :=
  h.act (.quit rfl hindex hq hquit)

theorem answerYes (h : Drafted R f g i ⟨waiting, insert p yes, no, headers⟩) (hp : p ∉ yes)
    (hq : q ∈ waiting) (hin : ∀ h ∈ headers, h ≤ p) :
    Drafted R f (g.addEdge ⟨p, q, .branchTrue⟩) i ⟨waiting, yes, no, headers⟩ := by
  have h' : Drafted R f _ i ⟨waiting, (insert p yes).erase p, no, headers⟩ :=
    h.act (.yes (mem_insert_self _ _) hq hin)
  rwa [erase_insert hp] at h'

theorem answerNo (h : Drafted R f g i ⟨waiting, yes, insert p no, headers⟩) (hp : p ∉ no)
    (hq : q ∈ waiting) (hin : ∀ h ∈ headers, h ≤ p) (hk : k = .branchFalse ∨ k = .loopExit) :
    Drafted R f (g.addEdge ⟨p, q, k⟩) i ⟨waiting, yes, no, headers⟩ := by
  have h' : Drafted R f _ i ⟨waiting, yes, (insert p no).erase p, headers⟩ :=
    h.act (.no (mem_insert_self _ _) hq hin hk)
  rwa [erase_insert hp] at h'

theorem skip (h : Drafted R f g i ⟨waiting, yes, insert p no, headers⟩) (hp : p ∉ no)
    (hq : q ∈ headers) (hin : ∀ h ∈ headers, h ≤ p) (hout : ∃ y ∈ waiting, Reaches g q y) :
    Drafted R f (g.addEdge ⟨p, q, .branchFalse⟩) i ⟨waiting, yes, no, headers⟩ := by
  have h' : Drafted R f _ i ⟨waiting, yes, (insert p no).erase p, headers⟩ :=
    h.act (.skip (mem_insert_self _ _) hq hin hout)
  rwa [erase_insert hp] at h'

theorem enter (h : Drafted R none g i ⟨insert p waiting, yes, no, headers⟩) (hp : p ∉ waiting)
    (hne : p ≠ Graph.exit) (hin : ∀ h ∈ headers, h ≤ p) :
    Drafted R (some p) g i ⟨waiting, yes, no, headers⟩ := by
  have h' : Drafted R (some p) g i ⟨(insert p waiting).erase p, yes, no, headers⟩ :=
    h.act (.enter rfl (mem_insert_self _ _) hne hin)
  rwa [erase_insert hp] at h'

/-- Control comes to a block that was made after an earlier draft. -/
theorem arrive (h : Drafted R none g i ⟨insert p waiting, yes, no, headers⟩)
    (h₀ : Drafted R' f₀ g₀ i₀ ⟨waiting, yes₀, no₀, headers⟩) (hp : g₀.blocks.size ≤ p) :
    Drafted R (some p) g i ⟨waiting, yes, no, headers⟩ :=
  h.enter (h₀.fits.notMem_waiting hp) (h₀.fits.exit.1.trans_le hp).ne'
    (h₀.fits.inside_of_size_le hp)

/-- A loop that was opened after an earlier draft is closed. -/
theorem closeLoop (h : Drafted R (some q) g i ⟨e.waiting, e.needsYes, e.needsNo, p :: e.headers⟩)
    (h₀ : Drafted R' f₀ g₀ i₀ e) (hp : g₀.blocks.size ≤ p) (hcloses : σ.closes g p q) :
    Drafted R (some q) g i e :=
  h.act (.closeLoop rfl rfl (fun k hk => (h₀.fits.pending k hk).1.trans_le hp)
    (fun h' hh' => (h₀.fits.headers h' hh').trans_le hp) hcloses)

/-- Control comes to the header of a new loop. -/
theorem header (h : Drafted R (some p) g i e) (depth : Int) :
    Drafted R (some g.blocks.size)
      ((g.addBlock headerKind depth).addEdge ⟨p, g.blocks.size, .fallThrough⟩) i
      ⟨e.waiting, e.needsYes, e.needsNo, g.blocks.size :: e.headers⟩ :=
  h.act (.header rfl depth)

end Drafted

/-- An invariant holds of the draft that a builder has made. -/
abbrev Builder.Drafts (b : Builder) (R : Invariant σ) (e : LooseEnds) : Prop :=
  Drafted R (some b.block) b.graph b.index e

/-- The loops and handlers around are open in a draft or around it. -/
structure Serves (σ : Setting) (c : Context) (b : Builder) (e : LooseEnds) : Prop where
  headers : ∀ l ∈ b.loops,
    l.header ∈ e.headers ∧ LeadsOut b.graph e l.header ∨ σ.far l.header
  exits : ∀ l ∈ b.loops, l.exit ∈ e.waiting ∨ σ.far l.exit
  handlers : ∀ blocks ∈ b.handlers,
    (blocks ≠ [] ∨ σ.far Graph.exit) ∧ ∀ h ∈ blocks, h ∈ e.waiting ∨ σ.far h
  marks : σ.marks = true → b.unbounded = true
  closes : ∀ {g header exit known tested},
    LoopOf c g header exit g.blocks.size known tested → σ.closes g header exit

/-- Lowering that leaves the loose ends as they were.  When `through` holds, the block after it can
be reached from the one before. -/
structure Moves (R : Invariant σ) (through : Bool) (e : LooseEnds) (b b' : Builder) : Prop where
  drafts : b'.Drafts R e
  around : b'.around = b.around
  within : Within b.graph b'.graph
  reaches : through = true → Reaches b'.graph b.block b'.block

/-- Lowering that succeeds takes a draft along and brings about an invariant. -/
def Brings {α : Type} (R R' : Invariant σ) (through : Bool) (m : Lower α) : Prop :=
  ∀ ⦃c b e a b'⦄, b.Drafts R e → Serves σ c b e → m c b = .ok (a, b') → Moves R' through e b b'

def Follows {α : Type} (through : Bool) (m : Lower α) : Prop :=
  ∀ ⦃σ : Setting⦄ (R : Invariant σ), Brings R R through m

section Serving

variable {c : Context} {b b' : Builder} {e e' : LooseEnds}

theorem Serves.mono (h : Serves σ c b e) (haround : b'.around = b.around)
    (hwithin : Within b.graph b'.graph) (hwaiting : e.waiting ⊆ e'.waiting)
    (hno : e.needsNo ⊆ e'.needsNo) (hheaders : e.headers ⊆ e'.headers) : Serves σ c b' e' := by
  obtain ⟨hloops, hhandlers⟩ := Prod.mk.inj haround
  refine ⟨fun l hl => ?_, fun l hl => (h.exits l (hloops ▸ hl)).imp_left (@hwaiting _),
    fun blocks hblocks => ?_, unbounded_congr haround ▸ h.marks, h.closes⟩
  · refine (h.headers l (hloops ▸ hl)).imp_left fun ⟨hheader, y, hy, hreach⟩ => ?_
    exact ⟨hheaders hheader, y, hy.imp (@hwaiting y) (@hno y), hreach.mono hwithin⟩
  · exact (h.handlers blocks (hhandlers ▸ hblocks)).imp_right fun hall x hx =>
      (hall x hx).imp_left (@hwaiting x)

theorem Serves.push (h : Serves σ c b e) {l : Loop}
    (haround : b'.around = (l :: b.loops, b.handlers)) (hwithin : Within b.graph b'.graph)
    (hheader : l.header ∈ e.headers) (hexit : l.exit ∈ e.waiting)
    (hout : LeadsOut b'.graph e l.header) : Serves σ c b' e := by
  obtain ⟨hloops, hhandlers⟩ := Prod.mk.inj haround
  refine ⟨fun l' hl' => ?_, fun l' hl' => ?_, hhandlers ▸ h.handlers, fun hmarks => ?_, h.closes⟩
  · rcases List.mem_cons.mp (hloops ▸ hl') with rfl | hl'
    · exact .inl ⟨hheader, hout⟩
    · exact (h.headers l' hl').imp_left fun ⟨hheader', y, hy, hreach⟩ =>
        ⟨hheader', y, hy, hreach.mono hwithin⟩
  · rcases List.mem_cons.mp (hloops ▸ hl') with rfl | hl'
    · exact .inl hexit
    · exact h.exits l' hl'
  · have hunbounded := h.marks hmarks
    unfold Builder.unbounded at hunbounded ⊢
    rw [hloops, List.any_cons, hunbounded, Bool.or_true]

/-- A builder that has made a draft is sound. -/
theorem sound_of_drafts (hd : b.Drafts R e) (hs : Serves σ c b e) : Sound b := by
  obtain ⟨hlt, -, hunended⟩ := hd.fits.focus b.block rfl
  refine ⟨hlt, fun t ht => ?_, hd.fits.closed, hunended⟩
  rcases ht with rfl | ⟨l, hl, rfl | rfl⟩ | ⟨blocks, hblocks, ht⟩
  · exact hd.fits.exit.1
  · exact (hs.headers l hl).elim (fun h => hd.fits.headers _ h.1) (hd.fits.far _)
  · exact hd.fits.open_lt (hs.exits l hl)
  · exact hd.fits.open_lt ((hs.handlers blocks hblocks).2 t ht)

/-- A draft of its own, around which everything is open that a builder may jump to. -/
def Builder.apart (b : Builder) : Setting := ⟨b.Opens, b.unbounded, fun _ _ _ => True⟩

theorem Sound.drafts (hs : Sound b) :
    b.Drafts (confined b.apart b.Owns (b.graph.blocks.size ≤ ·) b.graph) ⟨∅, ∅, ∅, []⟩ := by
  have hnone : ∀ k : Nat, ¬(k ∈ (∅ : Finset Nat) ∨ k ∈ (∅ : Finset Nat) ∨ k ∈ (∅ : Finset Nat)) := by
    simp
  refine ⟨⟨⟨hs.opens _ (.inl rfl), .inr (.inl rfl)⟩, hs.opens, hs.closed,
    fun k hk => absurd hk (hnone k), fun w hw => absurd (.inl hw) (hnone w), nofun, ?_⟩,
    .refl _ _, fun k hk => ⟨.inr hk, hk⟩, ?_, ?_⟩
  · rintro k ⟨⟩
    exact ⟨hs.block, nofun, hs.unended⟩
  · rintro k (hk | ⟨⟨⟩⟩)
    · exact absurd hk (hnone k)
    · exact .inl rfl
  · rintro k (hk | hk)
    · exact absurd (.inl hk) (hnone k)
    · cases hk

theorem serves_apart (c : Context) (b : Builder) : Serves b.apart c b ⟨∅, ∅, ∅, []⟩ :=
  ⟨fun l hl => .inr (.inr (.inl ⟨l, hl, .inl rfl⟩)), fun l hl => .inr (.inr (.inl ⟨l, hl, .inr rfl⟩)),
    fun blocks hblocks => ⟨.inr (.inl rfl), fun _ hh => .inr (.inr (.inr ⟨blocks, hblocks, hh⟩))⟩,
    id, fun _ => trivial⟩

end Serving

section Moving

variable {t : Bool} {b b' b'' : Builder} {e : LooseEnds}

theorem Moves.serves {c : Context} (hm : Moves R t e b b') (h : Serves σ c b e) : Serves σ c b' e :=
  h.mono hm.around hm.within Subset.rfl Subset.rfl (List.Subset.refl _)

theorem Moves.refl (h : b.Drafts R e) : Moves R t e b b :=
  ⟨h, rfl, .refl _, fun _ => .refl _⟩

theorem Moves.trans (h : Moves R t e b b') (h' : Moves R' t e b' b'') : Moves R' t e b b'' :=
  ⟨h'.drafts, h'.around.trans h.around, h.within.trans h'.within,
    fun ht => ((h.reaches ht).mono h'.within).trans (h'.reaches ht)⟩

end Moving

section Closure

variable {α β : Type} {t : Bool} {m : Lower α} {c : Context} {b b' : Builder} {a : α}
  {e : LooseEnds}

theorem Follows.run (h : Follows t m) (hrun : m c b = .ok (a, b')) (hd : b.Drafts R e)
    (hs : Serves σ c b e) : Moves R t e b b' :=
  h R hd hs hrun

theorem Brings.run (h : Brings R R' t m) (hrun : m c b = .ok (a, b')) (hd : b.Drafts R e)
    (hs : Serves σ c b e) : Moves R' t e b b' :=
  h hd hs hrun

theorem Follows.weaken (h : Follows true m) : Follows t m := by
  intro σ R c b e a b' hd hs hrun
  obtain ⟨hdrafts, haround, hwithin, hreach⟩ := h R hd hs hrun
  exact ⟨hdrafts, haround, hwithin, fun _ => hreach rfl⟩

theorem follows_pure {a : α} : Follows t (pure a) := by
  intro σ R c b e a' b' hd hs hrun
  obtain ⟨-, rfl⟩ := pure_eq_ok.mp hrun
  exact .refl hd

theorem follows_throw (e : Refusal) : Follows t (throw e : Lower α) := by
  intro σ R c b e a b' hd hs hrun
  cases hrun

theorem Brings.given {f : α → Lower β} (h : Brings R R' t m)
    (hf : ∀ a, Gives m a → Brings R' R'' t (f a)) : Brings R R'' t (m >>= f) := by
  intro c b e a b'' hd hs hrun
  obtain ⟨a', b', hm, hrest⟩ := bind_eq_ok.mp hrun
  have hmoves := h hd hs hm
  exact hmoves.trans (hf a' ⟨c, b, b', hm⟩ hmoves.drafts (hmoves.serves hs) hrest)

theorem Brings.bind {f : α → Lower β} (h : Brings R R' t m) (hf : ∀ a, Brings R' R'' t (f a)) :
    Brings R R'' t (m >>= f) := h.given fun a _ => hf a

theorem Follows.given {f : α → Lower β} (h : Follows t m) (hf : ∀ a, Gives m a → Follows t (f a)) :
    Follows t (m >>= f) :=
  fun _ R => (h R).given fun a ha => hf a ha R

theorem Follows.bind {f : α → Lower β} (h : Follows t m) (hf : ∀ a, Follows t (f a)) :
    Follows t (m >>= f) := h.given fun a _ => hf a

theorem Moves.steps (c : Context) (hm : Moves
    (confined b.apart b.Owns (b.graph.blocks.size ≤ ·) b.graph) t ⟨∅, ∅, ∅, []⟩ b b') :
    Steps b.Jumps b b' :=
  steps_of_around hm.around (hm.drafts.keeps.live _ (.inr rfl)) hm.drafts.keeps.grown
    (sound_of_drafts hm.drafts (hm.serves (serves_apart c b)))

/-- Lowering from a builder that is sound adds to its own blocks. -/
theorem Follows.steps (h : Follows t m) (hs : Sound b)
    (hrun : m c b = .ok (a, b')) : Steps b.Jumps b b' :=
  (h _ hs.drafts (serves_apart c b) hrun).steps c

theorem Follows.run_steps (h : Follows t m) (hrun : m c b = .ok (a, b')) (hd : b.Drafts R e)
    (hs : Serves σ c b e) : Moves R t e b b' ∧ Steps b.Jumps b b' :=
  ⟨h R hd hs hrun, h.steps (sound_of_drafts hd hs) hrun⟩

end Closure

/-! ### Steps of lowering -/

/-- A kind of statement that does not end its block. -/
def IsPlain (kind : StatementKind) (op : String) : Prop :=
  kind ≠ .branch ∧ kind ≠ .return_ ∧ ¬(kind = .other ∧ op = "raise")

theorem isPlain_assignment (op : String) : IsPlain .assignment op :=
  ⟨by decide, by decide, fun h => (nomatch h.1)⟩

theorem isPlain_call (op : String) : IsPlain .call op :=
  ⟨by decide, by decide, fun h => (nomatch h.1)⟩

theorem isPlain_allocation (op : String) : IsPlain .allocation op :=
  ⟨by decide, by decide, fun h => (nomatch h.1)⟩

theorem isPlain_other {op : String} (h : op ≠ "raise") : IsPlain .other op :=
  ⟨by decide, by decide, fun hop => h hop.2⟩

section Builders

variable {t : Bool}

theorem follows_emit {kind : StatementKind} {op : String} {place : Location}
    {target attr : Option String} {operands : List Operand} {call : Option CallInfo}
    {allocation : Option AllocationInfo} (h : IsPlain kind op) (hkind : kind ≠ .allocation)
    (hcall : IsDescribed kind op operands call) :
    Follows t (emit kind op place target operands attr call allocation) := by
  intro σ R c b e a b' hd hs hrun
  cases hrun
  let st : Statement := ⟨kind, op, place, b.index, target, operands, attr, call, allocation⟩
  have hends : ¬st.Ends := fun hends => hends.elim h.1 fun hends => hends.elim h.2.1 h.2.2
  exact ⟨hd.act (.emit rfl hends rfl hcall (absurd · hkind) (absurd · hkind)), rfl,
    within_addStatement _ _ st, fun _ => .refl _⟩

/-- An allocation is marked when a loop around has an unknown number of rounds. -/
theorem follows_allocate {op allocator : String} {place : Location} {operands : List Operand}
    {size : Option Int} {manual : Bool} {hint : Entity}
    (hsize : IsSize operands allocator manual size) :
    Follows t (allocate op allocator place operands size manual hint) := by
  intro σ R c b e a b' hd hs hrun
  cases hrun
  have hends := isPlain_allocation op
  exact ⟨hd.act (.emit rfl (fun h => h.elim hends.1 fun h => h.elim hends.2.1 hends.2.2) rfl
      ⟨nofun, nofun, nofun⟩ (fun _ => ⟨_, rfl, hsize⟩) fun _ => ⟨_, rfl, hs.marks⟩), rfl,
    within_addStatement _ _ _, fun _ => .refl _⟩

/-- A value that was made last was made by a statement with a target. -/
theorem exists_last_of_isLastValue {g : Graph} {k : Nat} {v : Operand}
    (h : isLastValue (g.block k).statements v = true) :
    ∃ init last, g.statementsOf k = init ++ [last] ∧ last.target.isSome := by
  unfold isLastValue at h
  split at h
  · rename_i n s hback
    obtain ⟨init, hinit⟩ := Array.back?_eq_some_iff.mp hback
    refine ⟨init.toList, s, ?_, ?_⟩
    · rw [Graph.statementsOf, hinit, Array.toList_push]
    · rw [Bool.and_eq_true] at h
      rw [beq_iff_eq.mp h.2]
      rfl
  · cases h

/-- The last statement of the current block may get another name for its value. -/
theorem follows_storeLocal {target : String} {v : Operand} {place : Location} {retarget : Bool} :
    Follows t (storeLocal target v place retarget) := by
  intro σ R c b e a b' hd hs hrun
  obtain ⟨b₀, b₁, hget, hrest⟩ := bind_eq_ok.mp hrun
  cases hget
  split at hrest
  · rename_i hcond
    cases hrest
    obtain ⟨init, last, hlast, hnamed⟩ :=
      exists_last_of_isLastValue (Bool.and_eq_true _ _ ▸ hcond).2
    exact ⟨hd.act (.rename rfl hlast hnamed target), rfl, within_retarget _ _ target,
      fun _ => .refl _⟩
  · exact follows_emit (isPlain_assignment _) (by decide)
      ⟨nofun, fun _ _ => List.cons_ne_nil _ _, nofun⟩ R hd hs hrest

end Builders

end Readiness.Lowering
