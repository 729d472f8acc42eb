import Readiness.Proofs.Graph.Growth
import Readiness.Proofs.Graph.Route
import Readiness.Proofs.Lifetime.Joining

/-!
# A release follows the allocation it meets

Statements open only what they allocate (`mem_opened_advance`), and a release among
them meets only what was open before them or was allocated among them (`pair_foldl`).  So every
recorded pair has a walk from the entry that executes the allocation and later the release
(`pairs_follow`).
-/

namespace Readiness.Lifetime

open Readiness.Graph (Statement Edge Route)
open List

variable {g : Graph} {k : Setting} {limit : Option Nat} {w w' : Walk} {b : Nat} {s t : State}

/-! ## Statements -/

def Allocates (statements : List Statement) (i : Int) : Prop :=
  ∃ a ∈ statements, isAllocation a = true ∧ a.index = i

variable {i : Int}

theorem Allocates.mono {l l' : List Statement} (h : Allocates l i) (hsub : l ⊆ l') :
    Allocates l' i := by
  obtain ⟨a, ha, halloc, hindex⟩ := h
  exact ⟨a, hsub ha, halloc, hindex⟩

variable {a : Statement}

theorem mem_opened_step (h : i ∈ (step k (.blank, s) a).2.opened) :
    i ∈ s.opened ∨ Allocates [a] i := by
  unfold step at h
  dsimp only at h
  split at h
  · rename_i halloc
    exact (mem_opened_allocate.mp h).imp_right fun hi =>
      ⟨a, mem_singleton_self a, halloc, hi.symm⟩
  · left
    split at h
    · exact (mem_opened_release.mp h).1
    · cases ht : a.target <;> cases hc : copied? a <;> simpa [ht, hc, State.rebind] using h

variable {statements : List Statement}

theorem mem_opened_advance (h : i ∈ (advance k s statements).opened) :
    i ∈ s.opened ∨ Allocates statements i := by
  induction statements generalizing s with
  | nil => exact .inl h
  | cons a rest ih =>
    rw [advance_cons] at h
    rcases ih h with hopen | hrest
    · exact (mem_opened_step hopen).imp_right (·.mono (by simp))
    · exact .inr (hrest.mono (subset_cons_self a rest))

variable {f : Int}

theorem not_allocate_pair : ¬ (allocate k a .blank s).1.Shows (.pair i f) := by
  unfold allocate
  by_cases h : a.index ∈ s.opened ∧ a.index ∉ k.transfers <;>
    cases a.target <;> simp [h, Record.Shows, Record.blank]

theorem pair_meet {candidates : List Int} (h : (meet a .blank s candidates).1.Shows (.pair i f)) :
    i ∈ candidates ∧ a.index = f := by
  unfold meet at h
  cases hlast : candidates.getLast? with
  | none => simp [hlast, Record.Shows, Record.blank] at h
  | some site =>
    simp only [hlast, Record.Shows, Record.blank, mem_note, not_mem_nil, or_false,
      Prod.mk.injEq] at h
    exact ⟨h.1 ▸ mem_of_getLast? hlast, h.2.symm⟩

/-- Only a release shows a pair, and it meets an open allocation. -/
theorem pair_step (h : (step k (.blank, s) a).1.Shows (.pair i f)) :
    i ∈ s.opened ∧ isRelease a = true ∧ a.index = f := by
  unfold step at h
  dsimp only at h
  split at h
  · exact absurd h not_allocate_pair
  · split at h
    · rename_i hrel
      unfold release at h
      split at h
      · exact absurd h (Record.not_blank_shows _)
      · obtain ⟨hi, hf⟩ := pair_meet h
        exact ⟨hi, hrel, hf⟩
      · obtain ⟨hi, hf⟩ := pair_meet h
        exact ⟨mem_of_mem_filter hi, hrel, hf⟩
    · refine absurd h ?_
      cases ht : a.target <;> cases hc : copied? a <;> by_cases hop : a.op = "copy" <;>
        simp [hop, Record.not_blank_shows]

/-- A release among statements meets what was open before them or was allocated among them before
the release. -/
theorem pair_foldl (h : (statements.foldl (step k) (.blank, s)).1.Shows (.pair i f)) :
    ∃ before a rest, statements = before ++ a :: rest ∧ isRelease a = true ∧ a.index = f ∧
      (i ∈ s.opened ∨ Allocates before i) := by
  induction statements generalizing s with
  | nil => exact absurd h (Record.not_blank_shows _)
  | cons first rest ih =>
    rw [foldl_cons, foldl_step_shows] at h
    rcases h with h | h
    · obtain ⟨hopen, hrel, hindex⟩ := pair_step h
      exact ⟨[], first, rest, rfl, hrel, hindex, .inl hopen⟩
    · obtain ⟨before, a, later, rfl, hrel, hindex, hopen⟩ := ih h
      refine ⟨first :: before, a, later, rfl, hrel, hindex, ?_⟩
      rcases hopen with hopen | hbefore
      · exact (mem_opened_step hopen).imp_right (·.mono (by simp))
      · exact .inr (hbefore.mono (subset_cons_self first before))

/-! ## Walks along edges -/

/-- The statements that are executed along edges before the last block. -/
def passed (g : Graph) (es : List Edge) : List Statement :=
  es.flatMap fun e => g.statementsOf e.source

/-- The statements that are executed along edges and in the block where they end. -/
def executed (g : Graph) (es : List Edge) (b : Nat) : List Statement :=
  passed g es ++ g.statementsOf b

/-- Some walk from the entry executes an allocation and later a release. -/
def Follows (g : Graph) (i f : Int) : Prop :=
  ∃ es b, Route g Graph.entry es b ∧ ∃ a r, isAllocation a = true ∧ a.index = i ∧
    isRelease r = true ∧ r.index = f ∧ [a, r].Sublist (executed g es b)

/-- A walk from the entry comes to the block, and every open allocation is executed on one. -/
structure Traced (g : Graph) (b : Nat) (s : State) : Prop where
  reached : ∃ es, Route g Graph.entry es b
  allocated : ∀ i ∈ s.opened, ∃ es, Route g Graph.entry es b ∧ Allocates (passed g es) i

theorem traced_start (g : Graph) : Traced g Graph.entry .empty :=
  ⟨⟨[], .done _⟩, nofun⟩

theorem Traced.join (hs : Traced g b s) (ht : Traced g b t) : Traced g b (s.join t) := by
  refine ⟨hs.reached, fun i hi => ?_⟩
  rcases mem_append.mp (mem_eraseDups.mp hi) with hi | hi
  · exact hs.allocated i hi
  · exact ht.allocated i hi

theorem Traced.edge {e : Edge} (hs : Traced g b s) (he : e ∈ g.outgoing b)
    (ht : refine (g.statementsOf b) e (after g k b s) = some t) : Traced g e.target t := by
  obtain ⟨hedge, rfl⟩ := Graph.mem_outgoing.mp he
  have hopened : t.opened = (after g k e.source s).opened := by
    rcases refine_cases ht with rfl | ⟨_, _, _, -, -, -, rfl⟩ <;> rfl
  obtain ⟨es, hes⟩ := hs.reached
  refine ⟨⟨es ++ [e], hes.concat hedge⟩, fun i hi => ?_⟩
  rw [hopened] at hi
  rcases mem_opened_advance hi with hopen | hhere
  · obtain ⟨es, hes, hbefore⟩ := hs.allocated i hopen
    exact ⟨es ++ [e], hes.concat hedge, hbefore.mono (by simp [passed])⟩
  · exact ⟨es ++ [e], hes.concat hedge, hhere.mono (by simp [passed])⟩

/-- The pairs that a block shows in a traced state have walks. -/
theorem Traced.follows (hs : Traced g b s) (h : (shown g k b s).Shows (.pair i f)) :
    Follows g i f := by
  have hfold : ((g.statementsOf b).foldl (step k) (.blank, s)).1.Shows (.pair i f) := by
    unfold shown visit at h
    dsimp only at h
    split at h
    · simpa [finish, Record.Shows] using h
    · exact h
  obtain ⟨before, r, rest, hsplit, hrel, hindex, hopen⟩ := pair_foldl hfold
  have hwalk : ∃ es, Route g Graph.entry es b ∧ Allocates (passed g es ++ before) i := by
    rcases hopen with hopen | hbefore
    · obtain ⟨es, hes, hpassed⟩ := hs.allocated i hopen
      exact ⟨es, hes, hpassed.mono (subset_append_left _ _)⟩
    · obtain ⟨es, hes⟩ := hs.reached
      exact ⟨es, hes, hbefore.mono (subset_append_right _ _)⟩
  obtain ⟨es, hes, a, ha, halloc, hi⟩ := hwalk
  refine ⟨es, b, hes, a, r, halloc, hi, hrel, hindex, ?_⟩
  have hlist : executed g es b = (passed g es ++ before) ++ r :: rest := by
    rw [executed, hsplit, append_assoc]
  rw [hlist]
  exact (singleton_sublist.mpr ha).append (singleton_sublist.mpr mem_cons_self)

/-- Every recorded pair is an allocation and a release that some walk from the entry executes in
this order, whatever the limit is. -/
theorem pairs_follow (g : Graph) (k : Setting) (limit : Option Nat) :
    ∀ p ∈ (walk g k limit).pairs, Follows g p.1 p.2 := by
  have hfound : ∀ i f, (walk g k limit).Shows (.pair i f) → Follows g i f :=
    walk_keeps (I := fun r => ∀ i f, r.Shows (.pair i f) → Follows g i f) (traced_start g)
      (fun _ _ _ => Traced.join) Traced.edge (fun i f h => absurd h (Record.not_blank_shows _))
      fun hs hI i f h => ((enter_shows _ _ _).mp h).elim (hI i f) hs.follows
  exact fun p hp => hfound p.1 p.2 hp

/-- A loop in which every round releases what the round before has allocated. -/
def handedOn : Graph :=
  { Graph.start "f" "f" ["n"] with
    blocks := #[
      { kind := "entry" },
      { kind := "exit" },
      { kind := "header", statements := #[
        { kind := .branch, op := "while", location := ⟨"f", 1, 0⟩, index := 0
          operands := [.var "n"] }] },
      { kind := "body", statements := #[
        { kind := .call, op := "free", location := ⟨"f", 2, 0⟩, index := 1, operands := [.var "p"]
          call := some { dispatch := .static, calleeName := "free", deallocates := true } },
        { kind := .allocation, op := "malloc", location := ⟨"f", 3, 0⟩, index := 2
          target := some "p", allocation := some { allocator := "malloc", manual := true } }] }]
    edges := #[⟨0, 2, .fallThrough⟩, ⟨2, 3, .branchTrue⟩, ⟨3, 2, .backEdge⟩,
      ⟨2, 1, .loopExit⟩] }

/-- The release stands before the allocation, and the walk goes round the loop to come to it again.
-/
theorem handedOn_pairs_follow :
    (walk handedOn ⟨["n"], ["p"], []⟩ (some 1)).pairs = [(2, 1)] ∧ Follows handedOn 2 1 := by
  have hpairs : (walk handedOn ⟨["n"], ["p"], []⟩ (some 1)).pairs = [(2, 1)] := by cbv
  refine ⟨hpairs, pairs_follow handedOn ⟨["n"], ["p"], []⟩ (some 1) (2, 1) ?_⟩
  rw [hpairs]
  exact List.mem_singleton_self _

end Readiness.Lifetime
