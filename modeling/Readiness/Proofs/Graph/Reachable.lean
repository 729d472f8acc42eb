import Mathlib.Data.List.Nodup
import Readiness.Graph.Order

/-!
# The search finds what can be reached

A call of `visit` that may nest deeply enough is a search that is not cut short (`Explores`,
`explores_foldl`): it sees its block, sees what follows every block that it has added, and
finishes what it has seen.  So `reachable` lists exactly the blocks that can be reached from the
entry (`mem_reachable_iff`), each of them once.  What the order of the list says is kept along the
search (`Arranged`).
-/

namespace Readiness.Graph

open List

theorem Reaches.trans {g : Graph} {a b c : Nat} (hab : Reaches g a b) (hbc : Reaches g b c) :
    Reaches g a c := by
  induction hbc with
  | refl => exact hab
  | step _ hc ih => exact ih.step hc

/-- A search from given blocks in turn that is not cut short. -/
inductive Explores (next : Nat → List Nat) : Trail → List Nat → Trail → Prop
  | done (t : Trail) : Explores next t [] t
  | skip {t t' : Trail} {b : Nat} {rest : List Nat} : b ∈ t.seen → Explores next t rest t' →
    Explores next t (b :: rest) t'
  | enter {t mid t' : Trail} {b : Nat} {rest : List Nat} : b ∉ t.seen →
    Explores next { t with seen := b :: t.seen } (next b) mid →
    Explores next { mid with finished := b :: mid.finished } rest t' →
    Explores next t (b :: rest) t'

section Explores

variable {next : Nat → List Nat} {pool roots : List Nat} {t t' : Trail}

theorem Explores.mono (h : Explores next t roots t') : ∀ x ∈ t.seen, x ∈ t'.seen := by
  induction h with
  | done => exact fun _ => id
  | skip _ _ ih => exact ih
  | enter _ _ _ ihin ihrest => exact fun x hx => ihrest x (ihin x (mem_cons_of_mem _ hx))

theorem Explores.started (h : Explores next t roots t') : ∀ x ∈ roots, x ∈ t'.seen := by
  induction h with
  | done => exact fun x hx => (not_mem_nil hx).elim
  | skip hseen hrest ih => exact forall_mem_cons.mpr ⟨hrest.mono _ hseen, ih⟩
  | enter _ hin hrest _ ih =>
    exact forall_mem_cons.mpr ⟨hrest.mono _ (hin.mono _ mem_cons_self), ih⟩

theorem Explores.closed (h : Explores next t roots t') :
    ∀ x ∈ t'.seen, x ∈ t.seen ∨ ∀ c ∈ next x, c ∈ t'.seen := by
  induction h with
  | done => exact fun _ => .inl
  | skip _ _ ih => exact ih
  | enter _ hin hrest ihin ihrest =>
    intro x hx
    rcases ihrest x hx with hx | hx
    · rcases ihin x hx with hx | hx
      · rcases mem_cons.mp hx with rfl | hx
        · exact .inr fun c hc => hrest.mono c (hin.started c hc)
        · exact .inl hx
      · exact .inr fun c hc => hrest.mono c (hx c hc)
    · exact .inr hx

theorem Explores.reaches {g : Graph} (h : Explores g.successors t roots t') :
    ∀ x ∈ t'.seen, x ∈ t.seen ∨ ∃ c ∈ roots, Reaches g c x := by
  induction h with
  | done => exact fun _ => .inl
  | skip _ _ ih =>
    exact fun x hx => (ih x hx).imp_right fun ⟨c, hc, h⟩ => ⟨c, mem_cons_of_mem _ hc, h⟩
  | @enter _ _ _ b _ _ _ _ ihin ihrest =>
    intro x hx
    rcases ihrest x hx with hx | ⟨c, hc, h⟩
    · rcases ihin x hx with hx | ⟨c, hc, h⟩
      · rcases mem_cons.mp hx with rfl | hx
        · exact .inr ⟨x, mem_cons_self, .refl x⟩
        · exact .inl hx
      · exact .inr ⟨b, mem_cons_self, ((Reaches.refl b).step hc).trans h⟩
    · exact .inr ⟨c, mem_cons_of_mem _ hc, h⟩

def unseen (pool seen : List Nat) : List Nat := pool.filter fun x => !seen.contains x

theorem length_unseen_le {seen seen' : List Nat} (h : ∀ x ∈ seen, x ∈ seen') :
    (unseen pool seen').length ≤ (unseen pool seen).length := by
  refine (monotone_filter_right pool ?_).length_le
  intro x hx
  simp only [contains_eq_mem, Bool.not_eq_true', decide_eq_false_iff_not] at hx ⊢
  exact fun hmem => hx (h x hmem)

theorem length_unseen_cons_lt {seen : List Nat} {b : Nat} (hb : b ∈ pool) (hnew : b ∉ seen) :
    (unseen pool (b :: seen)).length < (unseen pool seen).length := by
  have hfilter : unseen pool (b :: seen) = (unseen pool seen).filter fun x => x != b := by
    unfold unseen
    rw [filter_filter]
    apply filter_congr
    intro x _
    by_cases hxb : x = b <;> by_cases hx : x ∈ seen <;> simp [hxb, hx]
  rw [hfilter, length_filter_lt_length_iff_exists]
  exact ⟨b, mem_filter.mpr ⟨hb, by simpa using hnew⟩, by simp⟩

/-- A search that may nest as deeply as there are unseen blocks is not cut short. -/
theorem explores_foldl (hclosed : ∀ b ∈ pool, ∀ c ∈ next b, c ∈ pool) (depth : Nat) :
    ∀ (roots : List Nat) (t : Trail), (∀ c ∈ roots, c ∈ pool) →
      (unseen pool t.seen).length ≤ depth →
      Explores next t roots (roots.foldl (fun t c => visit next depth c t) t) := by
  induction depth with
  | zero =>
    intro roots t hroots hdepth
    induction roots with
    | nil => exact .done t
    | cons b rest ih =>
      obtain ⟨hb, hrest⟩ := forall_mem_cons.mp hroots
      by_cases hseen : b ∈ t.seen
      · exact .skip hseen (ih hrest)
      · have hlt := length_unseen_cons_lt hb hseen
        omega
  | succ depth ihdepth =>
    intro roots
    induction roots with
    | nil => exact fun t _ _ => .done t
    | cons b rest ih =>
      intro t hroots hdepth
      obtain ⟨hb, hrest⟩ := forall_mem_cons.mp hroots
      rw [foldl_cons, visit]
      by_cases hseen : b ∈ t.seen
      · rw [if_pos (contains_iff_mem.mpr hseen)]
        exact .skip hseen (ih t hrest hdepth)
      · rw [if_neg (fun h => hseen (contains_iff_mem.mp h))]
        have hlt := length_unseen_cons_lt hb hseen
        have hin := ihdepth (next b) { t with seen := b :: t.seen } (hclosed b hb)
          (Nat.le_of_lt_succ (Nat.lt_of_lt_of_le hlt hdepth))
        exact .enter hseen hin (ih _ hrest (Nat.le_trans
          (length_unseen_le fun x hx => hin.mono x (mem_cons_of_mem b hx)) hdepth))

end Explores

/-- A walk from the entry, the last block first. -/
inductive Walk (g : Graph) : List Nat → Prop
  | entry : Walk g [entry]
  | step {a b : Nat} {path : List Nat} : Walk g (a :: path) → b ∈ g.successors a →
    Walk g (b :: a :: path)

def Dominates (g : Graph) (h b : Nat) : Prop := ∀ path, Walk g (b :: path) → h ∈ b :: path

/-- What a search knows when it has come along a path. -/
structure Arranged (g : Graph) (path : List Nat) (trail : Trail) : Prop where
  seen : ∀ x, x ∈ trail.seen ↔ x ∈ path ∨ x ∈ trail.finished
  apart : ∀ x ∈ path, x ∉ trail.finished
  nodup : trail.finished.Nodup
  later : ∀ u rest, u :: rest <:+ trail.finished → ∀ v ∈ g.successors u,
    v ∈ rest ∨ ∃ p, Walk g (u :: p) ∧ (u :: p).Nodup ∧ v ∈ u :: p
  earlier : ∀ u rest, u :: rest <:+ trail.finished → ∀ v, Dominates g v u → v ∉ rest

variable {g : Graph} {path : List Nat} {trail : Trail} {b : Nat}

theorem arranged_empty (g : Graph) : Arranged g [] ⟨[], []⟩ := by
  refine ⟨by simp, by simp, nodup_nil, ?_, ?_⟩
  · intro u rest h
    cases suffix_nil.mp h
  · intro u rest h
    cases suffix_nil.mp h

/-- A block that has not been seen is put on the path. -/
theorem Arranged.push (h : Arranged g path trail) (hb : b ∉ trail.seen) :
    Arranged g (b :: path) { trail with seen := b :: trail.seen } := by
  refine ⟨?_, ?_, h.nodup, h.later, h.earlier⟩
  · intro x
    rw [mem_cons, mem_cons, h.seen, or_assoc]
  · intro x hx hfinished
    rcases mem_cons.mp hx with rfl | hx
    · exact hb ((h.seen x).mpr (.inr hfinished))
    · exact h.apart x hx hfinished

/-- The last block of the path is finished when all that follows it has been seen. -/
theorem Arranged.finish (h : Arranged g (b :: path) trail) (hwalk : Walk g (b :: path))
    (hnodup : (b :: path).Nodup) (hseen : ∀ c ∈ g.successors b, c ∈ trail.seen) :
    Arranged g path { trail with finished := b :: trail.finished } := by
  refine ⟨?_, ?_, nodup_cons.mpr ⟨h.apart b mem_cons_self, h.nodup⟩, ?_, ?_⟩
  · intro x
    rw [h.seen, mem_cons, mem_cons, or_assoc, or_left_comm]
  · intro x hx hfinished
    rcases mem_cons.mp hfinished with rfl | hfinished
    · exact (nodup_cons.mp hnodup).1 hx
    · exact h.apart x (mem_cons_of_mem b hx) hfinished
  · intro u rest hsuffix v hv
    rcases suffix_cons_iff.mp hsuffix with heq | hsuffix
    · cases heq
      rcases (h.seen v).mp (hseen v hv) with hpath | hfinished
      · exact .inr ⟨path, hwalk, hnodup, hpath⟩
      · exact .inl hfinished
    · exact h.later u rest hsuffix v hv
  · intro u rest hsuffix v hv
    rcases suffix_cons_iff.mp hsuffix with heq | hsuffix
    · cases heq
      exact h.apart v (hv path hwalk)
    · exact h.earlier u rest hsuffix v hv

theorem Explores.arranged {t t' : Trail} {roots : List Nat} (h : Explores g.successors t roots t') :
    ∀ {path : List Nat}, path.Nodup → (∀ c ∈ roots, Walk g (c :: path)) → Arranged g path t →
      Arranged g path t' := by
  induction h with
  | done =>
    intro _ _ _ ht
    exact ht
  | skip _ _ ih =>
    intro path hnodup hwalk ht
    exact ih hnodup (forall_mem_cons.mp hwalk).2 ht
  | @enter t _ _ b _ hseen hin _ ihin ihrest =>
    intro path hnodup hwalk ht
    obtain ⟨hb, hrest⟩ := forall_mem_cons.mp hwalk
    have hbpath : (b :: path).Nodup :=
      nodup_cons.mpr ⟨fun hmem => hseen ((ht.seen b).mpr (.inl hmem)), hnodup⟩
    have hmid := ihin hbpath (fun c hc => hb.step hc) (ht.push hseen)
    exact ihrest hnodup hrest (hmid.finish hb hbpath hin.started)

def blocksMet (g : Graph) : List Nat := entry :: g.edges.toList.map Edge.target

theorem successors_mem_blocksMet (g : Graph) (b : Nat) : ∀ c ∈ g.successors b, c ∈ blocksMet g := by
  intro c hc
  obtain ⟨e, he, rfl⟩ := mem_map.mp hc
  exact mem_cons_of_mem _ (mem_map.mpr ⟨e, mem_of_mem_filter he, rfl⟩)

theorem explores_reachable (g : Graph) : Explores g.successors ⟨[], []⟩ [entry]
    (visit g.successors (g.edges.size + 1) entry ⟨[], []⟩) := by
  refine explores_foldl (fun c _ => successors_mem_blocksMet g c) (g.edges.size + 1) [entry]
    ⟨[], []⟩ (forall_mem_singleton.mpr mem_cons_self) (Nat.le_trans (length_filter_le _ _) ?_)
  simp [blocksMet]

theorem arranged_reachable (g : Graph) :
    Arranged g [] (visit g.successors (g.edges.size + 1) entry ⟨[], []⟩) :=
  (explores_reachable g).arranged nodup_nil (forall_mem_singleton.mpr .entry) (arranged_empty g)

/-- The blocks listed as reachable are those that can be reached from the entry. -/
theorem mem_reachable_iff (g : Graph) (b : Nat) : b ∈ g.reachable ↔ Reaches g entry b := by
  have hexplored := explores_reachable g
  have hmem := (arranged_reachable g).seen b
  rw [or_iff_right not_mem_nil] at hmem
  rw [reachable, ← hmem]
  constructor
  · intro hb
    obtain ⟨c, hc, h⟩ := (hexplored.reaches b hb).resolve_left not_mem_nil
    exact mem_singleton.mp hc ▸ h
  · intro hb
    clear hmem
    induction hb with
    | refl => exact hexplored.started _ (mem_singleton.mpr rfl)
    | @step c d _ hd ih => exact ((hexplored.closed c ih).resolve_left not_mem_nil) d hd

end Readiness.Graph
