import Readiness.Proofs.Lowering.Statements

/-!
# Statements inside a function

`exists_run_of_standsIn` finds the run of a statement anywhere in the body; nothing but its last
block is added to in its region afterwards.  Every header in the graph of a function is that of a
loop of the source (`exists_loopOf_of_lowerBody`).
-/

namespace Readiness

open List

/-- A statement stands in a suite, at any depth. -/
inductive Source.StandsIn (s : Source.Stmt) : List Source.Stmt → Prop
  | here {rest : List Source.Stmt} : StandsIn s (s :: rest)
  | later {t : Source.Stmt} {rest : List Source.Stmt} : StandsIn s rest → StandsIn s (t :: rest)
  | inside {t : Source.Stmt} {suite rest : List Source.Stmt} : suite ∈ t.suites → StandsIn s suite →
    StandsIn s (t :: rest)

namespace Lowering

open Graph (Draft Grown headerKind kindOf_addBlock_of_lt kindOf_addBlock_size
  kindOf_addStatement kindOf_retarget size_addBlock)
open Graph.Draft (Setting Invariant Action Confined)
open Source (Stmt Handler StandsIn)

variable {c : Context}

section Occurrences

variable {σ : Setting} {R R' : Invariant σ} {room : Nat} {b b' : Builder} {a : Unit}

/-- Where nothing may nest, no statement lowers. -/
theorem exists_room_of_lowerStmt {t : Stmt}
    (hrun : lowerStmt room t c b = .ok (a, b')) : ∃ r, room = r + 1 := by
  cases room with
  | succ room => exact ⟨room, rfl⟩
  | zero =>
    obtain ⟨place, b₀, hplace, hrun⟩ := bind_eq_ok.mp hrun
    cases hkind : unsupportedStmt? t with
    | none | some kind =>
      rw [hkind] at hrun
      cases hrun

variable {suite : List Stmt}

theorem bringAll_of_mem {stmt : Stmt → Lower Unit} (hstmt : ∀ s, Follows false (stmt s))
    {p : Source.Place} {type : Option Source.Expr} {name : Option String}
    (h : Brings R R' false (suite.forM stmt)) :
    ∀ {handlers : List Handler}, .mk p type name suite ∈ handlers → BringAll stmt R handlers R'
  | .mk _ _ _ body :: rest, hmem => by
    rcases mem_cons.mp hmem with heq | hmem
    · cases heq
      exact ⟨R', h, bringAll_of_follows hstmt rest⟩
    · exact ⟨R, follows_suite hstmt body R, bringAll_of_mem hstmt h hmem⟩

/-- What a suite of a statement brings about, the statement brings about. -/
theorem brings_of_mem_suites {t : Stmt} (hmem : suite ∈ t.suites)
    (h : Brings R R' false (suite.forM (lowerStmt room))) :
    Brings R R' false (lowerStmt (room + 1) t) := by
  have hexpr := follows_lowerExpr room
  have hstmt := follows_lowerStmt room
  have hplace := fun p => (paired_follows false).placeOf p R
  have hsuite (R : Invariant σ) (body : List Stmt) : Brings R R false (body.forM (lowerStmt room)) :=
    follows_suite hstmt body R
  cases t with
  | branch p test body orelse =>
    refine (hplace p).bind fun place => ((hexpr test).weaken R).bind fun o => ?_
    rcases mem_cons.mp hmem with rfl | hmem
    · exact brings_if hstmt h (hsuite R' orelse) place o
    · cases mem_singleton.mp hmem
      exact brings_if hstmt (hsuite R body) h place o
  | loop p test body orelse =>
    intro c b e a b' hd hs hrun
    rcases mem_cons.mp hmem with rfl | hmem
    · exact (while_moves hstmt h (hsuite R' orelse) hd hs hrun).1
    · cases mem_singleton.mp hmem
      exact (while_moves hstmt (hsuite R body) h hd hs hrun).1
  | each p target iter body orelse =>
    intro c b e a b' hd hs hrun
    rcases mem_cons.mp hmem with rfl | hmem
    · exact (each_moves hstmt h (hsuite R' orelse) hd hs hrun).1
    · cases mem_singleton.mp hmem
      exact (each_moves hstmt (hsuite R body) h hd hs hrun).1
  | manage p entries body =>
    obtain rfl := mem_singleton.mp hmem
    refine (hplace p).bind fun place =>
      ((follows_managers hexpr place entries).weaken R).bind fun opened =>
        h.bind fun _ => ?_
    exact (paired_follows false).toSequential.forM
      (fun m => (paired_follows false).perform (by decide)) _ R'
  | guarded p star body handlers orelse finalbody =>
    refine (hplace p).bind fun _ => ?_
    simp only [Stmt.suites, mem_cons, mem_map] at hmem
    rcases hmem with rfl | rfl | rfl | ⟨⟨p, type, name, suite⟩, hmem, rfl⟩
    · exact brings_guarded hexpr hstmt h (hsuite R' orelse) (bringAll_of_follows hstmt handlers)
        (hsuite R' finalbody)
    · exact brings_guarded hexpr hstmt (hsuite R body) h (bringAll_of_follows hstmt handlers)
        (hsuite R' finalbody)
    · exact brings_guarded hexpr hstmt (hsuite R body) (hsuite R orelse)
        (bringAll_of_follows hstmt handlers) h
    · exact brings_guarded hexpr hstmt (hsuite R body) (hsuite R orelse)
        (bringAll_of_mem hstmt h hmem) (hsuite R' finalbody)
  | _ => cases hmem

/-- What a statement brings about, every suite in which it stands brings about. -/
theorem brings_of_standsIn {s : Stmt} (h : ∀ room, Brings R R' false (lowerStmt room s))
    (hs : StandsIn s suite) : ∀ room, Brings R R' false (suite.forM (lowerStmt room)) := by
  have hstmt := follows_lowerStmt
  induction hs with
  | here => exact fun room => (h room).bind fun _ => follows_suite (hstmt room) _ R'
  | later _ ih => exact fun room => (hstmt room _ R).bind fun _ => ih room
  | inside hmem _ ih =>
    intro room
    refine Brings.bind ?_ fun _ => follows_suite (hstmt room) _ R'
    intro c b e a b' hd hs hrun
    obtain ⟨room, rfl⟩ := exists_room_of_lowerStmt hrun
    exact brings_of_mem_suites hmem (ih room) hd hs hrun

end Occurrences

/-! ### Occurrences of a statement -/

/-- A statement has been lowered, and what is open is outside its region but for its last block. -/
def Occurred (σ : Setting) (s : Stmt) (d : Draft) : Prop :=
  ∃ c room y z, lowerStmt (room + 1) s c y = .ok ((), z) ∧ Sound y ∧ 2 ≤ y.block ∧
    3 ≤ y.graph.blocks.size ∧ y.graph.blocks.size ≤ z.graph.blocks.size ∧
    Confined σ (fun k => k = z.block ∨ ¬Region y z k)
      (fun t => t < y.graph.blocks.size ∨ z.graph.blocks.size ≤ t) z.graph d

def occurred (σ : Setting) (s : Stmt) : Invariant σ where
  keeps := Occurred σ s
  act := fun _ ⟨c, room, y, z, hrun, hs, hblock, hsize, hle, hd⟩ hact =>
    ⟨c, room, y, z, hrun, hs, hblock, hsize, hle, hd.act hact⟩

theorem brings_occurred {σ : Setting} (hfar : ∀ t, ¬σ.far t) (s : Stmt) (room : Nat) :
    Brings (Draft.reached hfar) (occurred σ s) false (lowerStmt room s) := by
  intro c y e a z hd hs hrun
  obtain ⟨room, rfl⟩ := exists_room_of_lowerStmt hrun
  have hm := (follows_lowerStmt (room + 1) s).run hrun hd hs
  have hsound := sound_of_drafts hd hs
  have hblock : 2 ≤ y.block := by
    have hentry : 0 < y.block := hd.keeps.bounded.live y.block (.inr rfl)
    have hexit : y.block ≠ 1 :=
      hd.fits.source_ne rfl _ (hd.fits.exit.2.resolve_right (hfar _))
    omega
  have hlt := hsound.block
  have hle := hm.within.size
  have hold : ∀ k, k < y.graph.blocks.size → k ≠ y.block → ¬Region y z k :=
    fun k hk hne hregion => hregion.elim hne fun hge => Nat.not_lt.mpr hge.1 hk
  refine ⟨⟨hm.drafts.fits, c, room, y, z, hrun, hsound, hblock, by omega, hle, .refl _ _,
    fun k hk => ⟨.inr fun hregion => ?_, .inr hk⟩, fun k hk => ?_, fun k hk => .inl ?_⟩,
    hm.around, hm.within, nofun⟩
  · have hk : z.graph.blocks.size ≤ k := hk
    rcases hregion with heq | hregion <;> omega
  · rcases hk with hk | ⟨⟨⟩⟩
    · obtain ⟨hlt, hne⟩ := hd.fits.pending k hk
      exact .inr (hold k hlt fun heq => hne (heq ▸ rfl))
    · exact .inl rfl
  · exact hk.elim (fun hk => (hd.fits.pending k (.inl hk)).1) (hd.fits.headers k)

/-! ### Loops of the source -/

/-- The loop of a header has been closed, and what is open is outside its blocks but for its exit.
-/
def LoopClosed (c : Context) (s : Draft) (k : Nat) : Prop :=
  ∃ exit finish known tested, LoopOf c s.graph k exit finish known tested ∧
    Confined (whole c) (fun j => ¬(k ≤ j ∧ j < finish ∧ j ≠ exit))
      (fun j => ¬(k ≤ j ∧ j < finish ∧ j ≠ exit)) s.graph s

variable {k : Nat}

theorem LoopClosed.act {s s' : Draft} (h : LoopClosed c s k) (hact : Action (whole c) s s')
    : LoopClosed c s' k := by
  obtain ⟨exit, finish, known, tested, hloop, hout⟩ := h
  have hout' := hout.act hact
  refine ⟨exit, finish, known, tested, hloop.grow hout'.grown (fun j hlo hhi hne hj => ?_)
    fun e he hlo hhi => ?_, .refl _ _, hout'.new, hout'.live, hout'.awaits⟩
  · exact hj ⟨hlo, hhi, hne⟩
  · by_contra hne
    exact he.2.elim And.right fun hinto => hinto ⟨hlo, hhi, hne⟩

/-- Every header is that of a loop that is open or has been closed. -/
def Headed (c : Context) (s : Draft) : Prop :=
  ∀ k, s.graph.kindOf k = headerKind → k ∈ s.headers ∨ LoopClosed c s k

theorem kindOf_of_size_le {g : Graph} (hk : g.blocks.size ≤ k) : g.kindOf k = "" := by
  rw [Graph.kindOf, Graph.block, Array.getD_eq_getD_getElem?, Array.getElem?_eq_none hk]
  rfl

theorem eq_of_kindOf_addBlock {g : Graph} {kind : String} {depth : Int}
    (hk : (g.addBlock kind depth).kindOf k = headerKind) :
    g.kindOf k = headerKind ∨ k = g.blocks.size ∧ kind = headerKind := by
  rcases Nat.lt_trichotomy k g.blocks.size with hlt | rfl | hgt
  · exact .inl (kindOf_addBlock_of_lt g kind depth hlt ▸ hk)
  · exact .inr ⟨rfl, kindOf_addBlock_size g kind depth ▸ hk⟩
  · exact absurd ((kindOf_of_size_le ((size_addBlock _ _ _).trans_le hgt)).symm.trans hk) (by decide)

theorem Headed.act {s s' : Draft} (h : Headed c s) (hact : Action (whole c) s s') :
    Headed c s' := by
  have hclosed : ∀ {k}, LoopClosed c s k → LoopClosed c s' k := fun hk => hk.act hact
  intro k hk
  cases hact with
  | block depth hkind =>
    rcases eq_of_kindOf_addBlock hk with hk | ⟨-, hk⟩
    · exact (h k hk).imp_right hclosed
    · exact absurd hk hkind
  | emit => exact (h k (kindOf_addStatement _ _ _ k ▸ hk)).imp_right hclosed
  | rename => exact (h k (kindOf_retarget _ _ _ k ▸ hk)).imp_right hclosed
  | quit | drop | branch => exact (h k (kindOf_addStatement _ _ _ k ▸ hk)).imp_right hclosed
  | header hfocus depth =>
    rcases eq_of_kindOf_addBlock hk with hk | ⟨rfl, -⟩
    · exact (h k hk).imp (mem_cons_of_mem _) hclosed
    · exact .inl mem_cons_self
  | @closeLoop k' x rest hheaders hfocus hpending hrest hcloses =>
    rcases h k hk with hmem | hk
    · rw [hheaders] at hmem
      rcases mem_cons.mp hmem with rfl | hmem
      · obtain ⟨known, tested, hloop⟩ := hcloses
        refine .inr ⟨x, _, known, tested, hloop, .refl _ _, fun j hj => ?_, fun j hj hin => ?_,
          fun j hj hin => ?_⟩
        · have hj : s.graph.blocks.size ≤ j := hj
          exact ⟨fun hin => by omega, fun hin => by omega⟩
        · rcases hj with hj | hj
          · exact Nat.not_lt.mpr hin.1 (hpending j hj)
          · cases hfocus.symm.trans hj
            exact hin.2.2 rfl
        · rcases hj with hj | hj
          · exact Nat.not_lt.mpr hin.1 (hpending j (.inl hj))
          · have hj : j ∈ s.headers.tail := hj
            rw [hheaders] at hj
            exact Nat.not_lt.mpr hin.1 (hrest j hj)
      · refine .inl ?_
        change k ∈ s.headers.tail
        rw [hheaders]
        exact hmem
    · exact .inr (hclosed hk)
  | _ => exact (h k hk).imp_right hclosed

theorem headed_start (c : Context) (name : String) (params : List String) :
    Headed c (.start "" name params) := by
  intro k hk
  rcases Nat.lt_or_ge k 3 with hlt | hge
  · match k, hlt with
    | 0, _ => exact absurd hk (by decide : "entry" ≠ headerKind)
    | 1, _ => exact absurd hk (by decide : "exit" ≠ headerKind)
    | 2, _ => exact absurd hk (by decide : "body" ≠ headerKind)
  · exact absurd ((kindOf_of_size_le hge).symm.trans hk) (by decide)

/-! ### Functions -/

section Functions

variable {image : Image} {f : Image.Function} {body : Image.Body} {params : List String}
  {maxDepth : Option Nat} {l : Lowered}

theorem exists_loopOf_of_lowerBody (h : lowerBody image f body params maxDepth = .ok l)
    (hk : l.graph.kindOf k = headerKind) :
    ∃ c exit finish known tested, LoopOf c l.graph k exit finish known tested := by
  obtain ⟨c, room, hbrings⟩ := exists_drafted_of_lowerBody h
  obtain ⟨i, hd⟩ := hbrings (R := ⟨Headed c, fun _ => Headed.act⟩) (headed_start c f.name params)
    (.refl _ _ _)
  obtain ⟨exit, finish, known, tested, hloop, -⟩ := (hd.keeps k hk).resolve_left nofun
  exact ⟨c, exit, finish, known, tested, hloop⟩

/-- The run of a statement of a function.  Nothing is added to its region afterwards, but for its
last block. -/
theorem exists_run_of_standsIn (h : lowerBody image f body params maxDepth = .ok l)
    {stmts : List Stmt} (hbody : body.content = .statements stmts) {s : Stmt}
    (hs : StandsIn s stmts) :
    ∃ c room y z, lowerStmt (room + 1) s c y = .ok ((), z) ∧ Sound y ∧ 2 ≤ y.block ∧
      3 ≤ y.graph.blocks.size ∧ y.graph.blocks.size ≤ z.graph.blocks.size ∧
      Grown (later y z) z.graph l.graph := by
  obtain ⟨c, room, hbrings⟩ := exists_drafted_of_lowerBody h
  have hstmts : ContentBrings room (Draft.reached fun _ => id) (occurred (whole c) s)
      body.content := by
    rw [hbody]
    exact brings_of_standsIn (brings_occurred (fun _ => id) s) hs room
  obtain ⟨i, hd⟩ := hbrings (Draft.Reached.start "" f.name params) hstmts
  obtain ⟨c', room', y, z, hrun, hsound, hblock, hsize, hle, hout⟩ := hd.keeps
  exact ⟨c', room', y, z, hrun, hsound, hblock, hsize, hle, hout.grown.mono ⟨fun _ => id,
    fun e he => ⟨he.1, he.2.resolve_left And.right⟩, fun _ _ => trivial⟩⟩

end Functions
end Lowering
end Readiness
