import Mathlib.Data.List.Permutation
import Readiness.Escape
import Readiness.Proofs.Escape.Heap
import Readiness.Proofs.Flow.Closure
import Readiness.Proofs.Flow.Rules
import Readiness.Proofs.Graph.Reachable

/-!
# Objects that leave are reported

As long as the allocation has no reason to escape, its objects are confined: they are
seen through names in `reaching` only, and nothing from outside sees them (`Confined`).

On a walk without blind stores of objects of an allocation, an object of it that a
returned value or an object from outside sees is reported as escaping and never promoted
(`escapes_of_sees`).
-/

open Relation (ReflTransGen)

namespace Readiness.Escape

open Graph (Statement Operand Edge)
open Flow (Values)
open Flow.Values (mem_reaching_iff ofGraph)
open List Heap

variable {g : Graph} {world : String → Option Nat} {h h' : Heap} {s a : Statement} {v : Values}

/-! ## Heaps -/

/-- A statement can have made the object with a number, when so many objects have been made. -/
def Genuine (g : Graph) (count n : Nat) (s : Statement) : Prop :=
  n < count ∧ s ∈ g.statements ∧ s.kind = .allocation

variable {n : Nat}

theorem Genuine.succ {count : Nat} (hn : Genuine g count n s) : Genuine g (count + 1) n s :=
  ⟨Nat.lt_succ_of_lt hn.1, hn.2⟩

/-- An object has a name, holds another one or is held. -/
def Heap.Has (h : Heap) (o : Obj) : Prop :=
  (∃ x, h.names x = some o) ∨ ∃ o', h.holds o o' ∨ h.holds o' o

/-- All objects that were made have numbers below the count and come from allocations. -/
def Heap.Orderly (g : Graph) (h : Heap) : Prop :=
  ∀ n s, h.Has (.made n s) → Genuine g h.count n s

variable {target : Option String} {x : String}

variable {u : Option Obj}

theorem bind_names_cases {o : Obj} (hx : (h.bind target u).names x = some o) :
    (target = some x ∧ u = some o) ∨ h.names x = some o := by
  cases target with
  | none => exact Or.inr hx
  | some t =>
    change Function.update h.names t u x = some o at hx
    by_cases hxt : x = t
    · subst hxt
      rw [Function.update_self] at hx
      exact Or.inl ⟨rfl, hx⟩
    · rw [Function.update_of_ne hxt] at hx
      exact Or.inr hx

@[simp] theorem bind_holds (h : Heap) (target : Option String) (u : Option Obj) :
    (h.bind target u).holds = h.holds := by
  cases target <;> rfl

@[simp] theorem bind_count (h : Heap) (target : Option String) (u : Option Obj) :
    (h.bind target u).count = h.count := by
  cases target <;> rfl

variable {y : Obj}

theorem sees_bind {x : Obj} : (h.bind target u).Sees x y ↔ h.Sees x y := by
  unfold Heap.Sees
  rw [bind_holds]

variable {holder : Obj}

/-- What an object sees after a store it saw before, or it saw the holder and an item sees it. -/
theorem sees_put {x : Obj} {items : List (Option Obj)} (hxy : (h.put holder items).Sees x y) :
    h.Sees x y ∨ h.Sees x holder ∧ ∃ p, some p ∈ items ∧ h.Sees p y := by
  induction hxy with
  | refl => exact Or.inl .refl
  | @tail b c _ hbc ih =>
    rcases hbc with hbc | ⟨rfl, hc⟩
    · rcases ih with ih | ⟨hholder, p, hp, ih⟩
      · exact Or.inl (ih.tail hbc)
      · exact Or.inr ⟨hholder, p, hp, ih.tail hbc⟩
    · rcases ih with ih | ⟨hholder, -⟩
      · exact Or.inr ⟨ih, c, hc, .refl⟩
      · exact Or.inr ⟨hholder, c, hc, .refl⟩

section

variable (hord : h.Orderly g)
include hord

/-- Nothing but a new object sees what it holds. -/
theorem sees_new {items : List (Option Obj)} {x : Obj}
    (hx : x ≠ .made h.count s) (hxy : (h.put (.made h.count s) items).Sees x y) : h.Sees x y := by
  rcases sees_put hxy with hxy | ⟨hholder, -⟩
  · exact hxy
  · rcases ReflTransGen.cases_tail hholder with heq | ⟨b, -, hb⟩
    · exact absurd heq.symm hx
    · exact absurd (hord _ _ (.inr ⟨b, .inr hb⟩)).1 (Nat.lt_irrefl _)

theorem Heap.Orderly.value {o : Operand} {n : Nat}
    (hv : h.value world o = some (.made n s)) : Genuine g h.count n s := by
  cases o with
  | const c => cases hv
  | var x => exact hord n s (.inl ⟨x, hv⟩)
  | global x e =>
    obtain ⟨k, -, hk⟩ := Option.map_eq_some_iff.mp hv
    cases hk

theorem Heap.Orderly.sees {x : Obj} (hsees : h.Sees x (.made n s))
    (hx : x = .made n s → Genuine g h.count n s) : Genuine g h.count n s := by
  rcases ReflTransGen.cases_tail hsees with heq | ⟨b, -, hb⟩
  · exact hx heq.symm
  · exact hord n s (.inr ⟨b, .inr hb⟩)

theorem Heap.Orderly.bind (hu : ∀ n s, u = some (.made n s) → Genuine g h.count n s) :
    (h.bind target u).Orderly g := by
  rw [Orderly, bind_count]
  rintro n s (⟨x, hx⟩ | hholds)
  · rcases bind_names_cases hx with ⟨-, hu'⟩ | hx
    · exact hu n s hu'
    · exact hord n s (.inl ⟨x, hx⟩)
  · rw [bind_holds] at hholds
    exact hord n s (.inr hholds)

theorem Heap.Orderly.put {items : List (Option Obj)}
    (hholder : ∀ n s, holder = .made n s → Genuine g h.count n s)
    (hitems : ∀ n s, some (.made n s) ∈ items → Genuine g h.count n s) :
    (h.put holder items).Orderly g := by
  rintro n s (hx | ⟨b, (hb | ⟨hb, -⟩) | hb | ⟨-, hb⟩⟩)
  · exact hord n s (.inl hx)
  · exact hord n s (.inr ⟨b, .inl hb⟩)
  · exact hholder n s hb.symm
  · exact hord n s (.inr ⟨b, .inr hb⟩)
  · exact hitems n s hb

theorem Heap.Orderly.items {operands : List Operand} :
    ∀ n s, some (.made n s) ∈ operands.map (h.value world) → Genuine g h.count n s := by
  intro n s hmem
  obtain ⟨o, -, ho⟩ := mem_map.mp hmem
  exact hord.value ho

end

theorem orderly_initial (hinit : Initial g h) : h.Orderly g := by
  rintro n a (⟨x, hx⟩ | ⟨b, hb | hb⟩)
  · obtain ⟨-, k, hk⟩ := hinit.names x _ hx
    cases hk
  · obtain ⟨k, -, hk, -⟩ := hinit.holds _ _ hb
    cases hk
  · obtain ⟨-, k, -, hk⟩ := hinit.holds _ _ hb
    cases hk

theorem orderly_step (ha : a ∈ g.statements) (hord : h.Orderly g) (hstep : Step world a h h') :
    h'.Orderly g := by
  cases hstep with
  | make hkind =>
    have hgrown : ({ h with count := h.count + 1 } : Heap).Orderly g := fun n s hhas =>
      (hord n s hhas).succ
    have hnew : ∀ n s, Obj.made h.count a = .made n s → Genuine g (h.count + 1) n s := by
      rintro n s ⟨rfl, rfl⟩
      exact ⟨Nat.lt_succ_self _, ha, hkind⟩
    refine (hgrown.put hnew ?_).bind ?_
    · intro n s hmem
      exact (hord.items n s hmem).succ
    · intro n s hn
      exact hnew n s (Option.some.inj hn)
  | pick _ => exact hord.bind fun n s hv => hord.value hv
  | load _ hload =>
    refine hord.bind ?_
    intro n s hv
    obtain ⟨b, -, hb⟩ := hload _ hv
    exact hord n s (.inr ⟨b, .inr hb⟩)
  | put _ hholder =>
    refine (hord.put ?_ hord.items).bind ?_
    · rintro n s rfl
      exact hord.value hholder
    · intro n s hn
      cases hn
  | branch _ => exact hord

/-! ## Marks -/

/-- A name to which the value of an allocation may pass. -/
def Follows (v : Values) (s : Statement) (x : String) : Prop :=
  ∃ t, s.target = some t ∧ x ∈ v.reaching t

theorem Follows.of_mem_reaching {x y : String} (hx : Follows v s x) (hy : y ∈ v.reaching x) :
    Follows v s y := by
  obtain ⟨t, ht, hx⟩ := hx
  rw [mem_reaching_iff] at hx hy
  exact ⟨t, ht, (mem_reaching_iff v t y).mpr (hx.trans hy)⟩

theorem Follows.of_flows {x y : String} (hx : Follows v s x) (hxy : v.Flows x y) :
    Follows v s y :=
  hx.of_mem_reaching ((mem_reaching_iff v x y).mpr (.single hxy))

/-- Without a reason to escape, no name that follows an allocation is marked, and none but its own
target is visible to the caller. -/
theorem unmarked_of_escapeReasons (hnone : v.escapeReasons s = []) (hx : Follows v s x) :
    v.sinks.of x = [] ∧ (x ∈ v.outward → s.target = some x) := by
  obtain ⟨t, ht, hx⟩ := hx
  have hfound : ∀ reason, reason ∉ v.sinks.of x ++
      (if v.outward.contains x && x != t then [EscapeReason.storedOutward] else []) := by
    intro reason hreason
    have hmem : reason ∈ v.escapeReasons s := by
      unfold Values.escapeReasons
      simp only [ht]
      exact mem_eraseDups.mpr
        (mem_append_right _ (mem_flatMap.mpr ⟨x, hx, hreason⟩))
    rw [hnone] at hmem
    cases hmem
  constructor
  · rw [eq_nil_iff_forall_not_mem]
    intro reason hreason
    exact hfound reason (mem_append_left _ hreason)
  · intro hout
    by_contra hne
    have hxt : x ≠ t := fun heq => hne (heq ▸ ht)
    apply hfound .storedOutward
    apply mem_append_right
    simp [hout, hxt]

theorem aliases_of_picks {x t : String} (ha : a ∈ g.statements) (hp : Picks a (.var x))
    (ht : a.target = some t) : t ∈ (ofGraph g).aliases.of x := by
  cases hp with
  | copy hkind hop hhead =>
    exact Values.aliases_of_assignment ha hkind (Or.inl hop) hhead ht
  | select happ hsign hmem =>
    obtain ⟨hkind, rfl, call, hcall, hfree, hdispatch⟩ := happ
    refine Values.aliases_of_selection ha hkind hcall hfree hdispatch ?_ hmem ht
    simp only [mem_cons, not_mem_nil, or_false] at hsign ⊢
    tauto

theorem aliases_of_loads {x t : String} (ha : a ∈ g.statements) (hl : Loads a (.var x))
    (ht : a.target = some t) : t ∈ (ofGraph g).aliases.of x := by
  cases hl with
  | field hkind hop hhead =>
    exact Values.aliases_of_assignment ha hkind (Or.inr hop) hhead ht
  | item happ hhead =>
    obtain ⟨hkind, hop, call, hcall, hfree, hdispatch⟩ := happ
    refine Values.aliases_of_selection ha hkind hcall hfree hdispatch ?_
      (mem_of_mem_head? hhead) ht
    simp [hop]

theorem held_of_puts {base : Operand} {items : List Operand} (ha : a ∈ g.statements)
    (hp : Puts a base items) (hx : .var x ∈ items) : (ofGraph g).Held x base := by
  cases hp with
  | store hkind hop hbase hitem =>
    rw [mem_singleton] at hx
    exact Values.held_of_store ha hkind hop hbase (hx ▸ hitem)
  | method hkind hcall hfree hdispatch hname hreceiver =>
    refine Values.held_of_mutation ha hkind hcall hfree hdispatch ?_ hreceiver hx
    simp only [mem_cons, not_mem_nil, or_false] at hname
    rcases hname with hname | hname | hname | hname <;> rw [hname] <;> rfl

/-! ## Confinement -/

/-- A statement stores an object of an allocation through a name, and the holder is seen through a
name that does not follow, or from outside although no name that follows is marked. -/
def BlindStore (v : Values) (world : String → Option Nat) (s a : Statement) (h : Heap) : Prop :=
  ∃ base items holder item p n,
    Puts a (.var base) items ∧ h.names base = some holder ∧
    item ∈ items ∧ h.value world item = some p ∧ h.Sees p (.made n s) ∧
    ((∃ x o, h.names x = some o ∧ h.Sees o holder ∧ x ∉ v.reaching base) ∨
      ((∃ k, h.Sees (.outside k) holder) ∧
        ∀ x ∈ v.reaching base, v.sinks.of x = [] ∧ (x ∈ v.outward → s.target = some x)))

/-- The objects of an allocation are seen through names that follow it only, and nothing from
outside sees them. -/
structure Confined (v : Values) (s : Statement) (h : Heap) : Prop where
  names : ∀ x o n, h.names x = some o → h.Sees o (.made n s) → Follows v s x
  outside : ∀ k n, ¬ h.Sees (.outside k) (.made n s)

theorem Confined.follows_of_value (hc : Confined v s h) {o : Operand} {p : Obj}
    (hv : h.value world o = some p) (hsees : h.Sees p (.made n s)) :
    ∃ x, o = .var x ∧ Follows v s x := by
  cases o with
  | const c => cases hv
  | var x => exact ⟨x, rfl, hc.names x p n hv hsees⟩
  | global x e =>
    obtain ⟨k, -, rfl⟩ := Option.map_eq_some_iff.mp hv
    exact absurd hsees (hc.outside k n)

theorem confined_bind (hc : Confined v s h)
    (hu : ∀ t o n, target = some t → u = some o → h.Sees o (.made n s) → Follows v s t) :
    Confined v s (h.bind target u) := by
  constructor
  · intro x o n hx hsees
    rw [sees_bind] at hsees
    rcases bind_names_cases hx with ⟨ht, hu'⟩ | hx
    · exact hu x o n ht hu' hsees
    · exact hc.names x o n hx hsees
  · intro k n hsees
    exact hc.outside k n (sees_bind.mp hsees)

theorem confined_initial (hinit : Initial g h) : Confined v s h := by
  have hout : ∀ {x y : Obj}, h.Sees x y → (∃ k, x = .outside k) → ∃ k, y = .outside k := by
    intro x y hxy hx
    induction hxy with
    | refl => exact hx
    | tail _ hbc _ =>
      obtain ⟨-, k, -, hk⟩ := hinit.holds _ _ hbc
      exact ⟨k, hk⟩
  constructor
  · intro x o n hx hsees
    obtain ⟨-, ho⟩ := hinit.names x o hx
    obtain ⟨k, hk⟩ := hout hsees ho
    cases hk
  · intro k n hsees
    obtain ⟨k', hk⟩ := hout hsees ⟨k, rfl⟩
    cases hk

/-- A new object is seen through its target only. -/
theorem confined_make (ha : a ∈ g.statements) (hkind : a.kind = .allocation)
    (hord : h.Orderly g) (hc : Confined (ofGraph g) s h) :
    Confined (ofGraph g) s (h.make a (a.operands.map (h.value world))) := by
  have hput : ∀ x y, (({ h with count := h.count + 1 } : Heap).put (.made h.count a)
      (a.operands.map (h.value world))).Sees x y ↔
      (h.put (.made h.count a) (a.operands.map (h.value world))).Sees x y := fun _ _ => Iff.rfl
  constructor
  · intro x o n hx hsees
    rw [Heap.make, sees_bind, hput] at hsees
    rcases bind_names_cases hx with ⟨ht, ho⟩ | hx
    · obtain rfl := Option.some.inj ho
      rcases sees_put hsees with hsees | ⟨-, p, hp, hsees⟩
      · -- the new object saw nothing before the allocation, so it is the object itself
        rcases ReflTransGen.cases_head hsees with heq | ⟨b, hb, -⟩
        · obtain ⟨-, rfl⟩ := Obj.made.inj heq
          exact ⟨x, ht, (mem_reaching_iff _ x x).mpr .refl⟩
        · exact absurd (hord _ _ (.inr ⟨b, .inl hb⟩)).1 (Nat.lt_irrefl _)
      · obtain ⟨item, hitem, hvalue⟩ := mem_map.mp hp
        obtain ⟨y, rfl, hy⟩ := hc.follows_of_value hvalue hsees
        exact hy.of_flows (Or.inr (Values.hold_of_allocation ha hkind hitem ht))
    · have hold : o ≠ .made h.count a := by
        rintro rfl
        exact Nat.lt_irrefl _ (hord _ _ (.inl ⟨x, hx⟩)).1
      exact hc.names x o n hx (sees_new hord hold hsees)
  · intro k n hsees
    rw [Heap.make, sees_bind, hput] at hsees
    exact hc.outside k n (sees_new hord (by rintro ⟨⟩) hsees)

/-- A store that is not blind keeps the objects of an allocation confined. -/
theorem confined_put {base : Operand} {items : List Operand} (ha : a ∈ g.statements)
    (hp : Puts a base items) (hholder : h.value world base = some holder)
    (hnone : (ofGraph g).escapeReasons s = [])
    (hblind : ¬ BlindStore (ofGraph g) world s a h) (hc : Confined (ofGraph g) s h) :
    Confined (ofGraph g) s (h.put holder (items.map (h.value world))) := by
  -- an item that sees an object of the allocation has a name that follows, and so has its base
  have hstored : ∀ p n, some p ∈ items.map (h.value world) → h.Sees p (.made n s) →
      ∃ x, base = .var x ∧ Follows (ofGraph g) s x ∧
        ∃ item ∈ items, h.value world item = some p := by
    intro p n hmem hsees
    obtain ⟨item, hitem, hvalue⟩ := mem_map.mp hmem
    obtain ⟨y, rfl, hy⟩ := hc.follows_of_value hvalue hsees
    have hheld := held_of_puts ha hp hitem
    obtain ⟨hsinks, -⟩ := unmarked_of_escapeReasons hnone hy
    cases base with
    | var x => exact ⟨x, rfl, hy.of_flows (Or.inr hheld), _, hitem, hvalue⟩
    | const c | global x e =>
      change .storedOutward ∈ (ofGraph g).sinks.of y at hheld
      rw [hsinks] at hheld
      cases hheld
  constructor
  · intro x o n hx hsees
    rcases sees_put hsees with hsees | ⟨hsees, p, hmem, hp'⟩
    · exact hc.names x o n hx hsees
    · obtain ⟨y, rfl, hy, item, hitem, hvalue⟩ := hstored p n hmem hp'
      by_contra hnot
      refine hblind ⟨y, items, holder, item, p, n, hp, hholder, hitem, hvalue, hp',
        Or.inl ⟨x, o, hx, hsees, ?_⟩⟩
      exact fun hreach => hnot (hy.of_mem_reaching hreach)
  · intro k n hsees
    rcases sees_put hsees with hsees | ⟨hsees, p, hmem, hp'⟩
    · exact hc.outside k n hsees
    · obtain ⟨y, rfl, hy, item, hitem, hvalue⟩ := hstored p n hmem hp'
      refine hblind ⟨y, items, holder, item, p, n, hp, hholder, hitem, hvalue, hp',
        Or.inr ⟨⟨k, hsees⟩, ?_⟩⟩
      exact fun x hx => unmarked_of_escapeReasons hnone (hy.of_mem_reaching hx)

/-- Every statement that is no blind store keeps the objects of an allocation confined. -/
theorem confined_step (ha : a ∈ g.statements) (hord : h.Orderly g)
    (hnone : (ofGraph g).escapeReasons s = [])
    (hblind : ¬ BlindStore (ofGraph g) world s a h)
    (hc : Confined (ofGraph g) s h) (hstep : Step world a h h') :
    Confined (ofGraph g) s h' := by
  cases hstep with
  | make hkind => exact confined_make ha hkind hord hc
  | pick hpick =>
    refine confined_bind hc ?_
    intro t o n ht hvalue hsees
    obtain ⟨x, rfl, hx⟩ := hc.follows_of_value hvalue hsees
    exact hx.of_flows (Or.inl (aliases_of_picks ha hpick ht))
  | load hloads hload =>
    refine confined_bind hc ?_
    intro t o n ht hu hsees
    obtain ⟨b, hvalue, hb⟩ := hload o hu
    obtain ⟨x, rfl, hx⟩ := hc.follows_of_value hvalue (ReflTransGen.head hb hsees)
    exact hx.of_flows (Or.inl (aliases_of_loads ha hloads ht))
  | put hputs hholder =>
    refine confined_bind (confined_put ha hputs hholder hnone hblind hc) ?_
    intro t o n _ hu
    cases hu
  | branch _ => exact hc

/-! ## Walks -/

variable {trace : List (Statement × Heap)} {rest : List Statement}

variable {b : Nat}

/-- A walk stays in reachable blocks and has statements of its block left. -/
theorem runs_reachable (hrun : Runs g world trace b rest h) :
    Graph.Reaches g Graph.entry b ∧ ∀ s ∈ rest, s ∈ g.statementsOf b := by
  induction hrun with
  | start _ => exact ⟨.refl _, fun _ => id⟩
  | step _ _ ih => exact ⟨ih.1, fun s hs => ih.2 s (mem_cons_of_mem _ hs)⟩
  | edge _ he ih => exact ⟨.step ih.1 (mem_map.mpr ⟨_, he, rfl⟩), fun _ => id⟩

theorem mem_statements_of_runs (hrun : Runs g world trace b (a :: rest) h) : a ∈ g.statements := by
  obtain ⟨hreach, hrest⟩ := runs_reachable hrun
  exact mem_flatMap.mpr
    ⟨b, (Graph.mem_reachable_iff g b).mpr hreach, hrest a mem_cons_self⟩

theorem orderly_of_runs (hrun : Runs g world trace b rest h) : h.Orderly g := by
  induction hrun with
  | start hinit => exact orderly_initial hinit
  | step hprev hstep ih => exact orderly_step (mem_statements_of_runs hprev) ih hstep
  | edge _ _ ih => exact ih

/-- On a walk without blind stores the objects of an allocation that has no reason to escape stay
confined. -/
theorem confined_of_runs (hrun : Runs g world trace b rest h)
    (hnone : (ofGraph g).escapeReasons s = [])
    (hblind : ∀ p ∈ trace, ¬ BlindStore (ofGraph g) world s p.1 p.2) :
    Confined (ofGraph g) s h := by
  induction hrun with
  | start hinit => exact confined_initial hinit
  | step hprev hstep ih =>
    have hc := ih fun p hp => hblind p (mem_cons_of_mem _ hp)
    exact confined_step (mem_statements_of_runs hprev) (orderly_of_runs hprev) hnone
      (hblind _ mem_cons_self) hc hstep
  | edge _ _ ih => exact ih hblind

/-- An object of an allocation is seen by what a statement returns or by an object from
outside. -/
def Leaves (world : String → Option Nat) (s r : Statement) (h : Heap) : Prop :=
  ∃ n, (∃ o root, r.operands.head? = some o ∧ h.value world o = some root ∧
      h.Sees root (.made n s)) ∨ ∃ k, h.Sees (.outside k) (.made n s)

theorem escapeReasons_ne_nil_of_leaves {r : Statement} (hrun : Runs g world trace b (r :: rest) h)
    (hreturn : r.kind = .return_) (hleaves : Leaves world s r h)
    (hblind : ∀ p ∈ trace, ¬ BlindStore (ofGraph g) world s p.1 p.2) :
    (ofGraph g).escapeReasons s ≠ [] := by
  intro hnone
  have hc := confined_of_runs hrun hnone hblind
  obtain ⟨n, ⟨o, root, hhead, hvalue, hsees⟩ | ⟨k, hsees⟩⟩ := hleaves
  · obtain ⟨x, rfl, hx⟩ := hc.follows_of_value hvalue hsees
    have hsink := Values.sinks_of_return (mem_statements_of_runs hrun) hreturn hhead
    rw [(unmarked_of_escapeReasons hnone hx).1] at hsink
    cases hsink
  · exact hc.outside k n hsees

theorem genuine_of_leaves (hord : h.Orderly g) {r : Statement} (hleaves : Leaves world s r h) :
    s ∈ g.statements ∧ s.kind = .allocation := by
  obtain ⟨n, ⟨o, root, -, hvalue, hsees⟩ | ⟨k, hsees⟩⟩ := hleaves
  · exact (hord.sees hsees fun heq => hord.value (heq ▸ hvalue)).2
  · exact (hord.sees hsees fun heq => by cases heq).2

/-- On a walk that makes no blind store of objects of an allocation, an object of it that a returned
value or an object from outside sees makes its site one that escapes and is not promoted. -/
theorem escapes_of_sees (g : Graph) (world : String → Option Nat)
    (trace : List (Statement × Heap)) (b : Nat) (r : Statement) (rest : List Statement) (h : Heap)
    (hrun : Runs g world trace b (r :: rest) h) (hreturn : r.kind = .return_)
    (s : Statement) (info : Graph.AllocationInfo) (hinfo : s.allocation = some info)
    (hleaves : Leaves world s r h)
    (hblind : ∀ p ∈ trace, ¬ BlindStore (Values.ofGraph g) world s p.1 p.2) :
    site (Values.ofGraph g) s info ∈ (analyse g (Values.ofGraph g)).sites ∧
      (site (Values.ofGraph g) s info).escapes = true ∧
      (site (Values.ofGraph g) s info).canPromote = false := by
  have hreasons := escapeReasons_ne_nil_of_leaves hrun hreturn hleaves hblind
  obtain ⟨hs, hkind⟩ := genuine_of_leaves (orderly_of_runs hrun) hleaves
  refine ⟨?_, ?_, ?_⟩
  · unfold analyse Report.Escapes.ofSites
    refine List.mem_mergeSort.mpr (List.mem_filterMap.mpr ⟨s, hs, ?_⟩)
    simp [hkind, hinfo]
  · simp [site, hreasons]
  · simp [site, hreasons]

/-! ## A list with two names -/

/-- Makes a list with two names, puts another list into it through `base` and returns it through
`result`. -/
def twoNames (base result : String) : List Statement :=
  [{ kind := .allocation, op := "list", location := ⟨"f", 1, 0⟩, index := 0, target := some "a"
     allocation := some { allocator := "list", size := some 56 } },
   { kind := .assignment, op := "copy", location := ⟨"f", 2, 0⟩, index := 1, target := some "b"
     operands := [.var "a"] },
   { kind := .allocation, op := "list", location := ⟨"f", 3, 0⟩, index := 2, target := some "x"
     allocation := some { allocator := "list", size := some 64 } },
   { kind := .call, op := "append", location := ⟨"f", 4, 0⟩, index := 3
     operands := [.var base, .var "x"]
     call := some { dispatch := .method, calleeName := "append", hasReceiver := true } },
   { kind := .return_, op := "return", location := ⟨"f", 5, 0⟩, index := 4
     operands := [.var result] }]

/-- The function of these statements. -/
def twoNamesGraph (base result : String) : Graph :=
  { Graph.start "f" "f" [] with
    blocks := #[{ kind := "entry", statements := (twoNames base result).toArray },
      { kind := "exit" }]
    edges := #[⟨0, 1, .return_⟩] }

-- The copy does not lead back to the list, so what is put in through the copy seems to stay.
example : ((analyse (twoNamesGraph "b" "a") (ofGraph (twoNamesGraph "b" "a"))).sites.map
    fun site => (site.location.line, site.escapes, site.canPromote)) =
      [(1, true, false), (3, false, true)] := by cbv

/-- The heap before any statement. -/
def emptyHeap : Heap := ⟨fun _ => none, fun _ _ => False, 0⟩

def twoNamesAt (i : Nat) : Statement := (twoNames "a" "b").getD i default

/-- The heap after the two allocations and the copy. -/
def twoNamesHeap : Heap :=
  let first := emptyHeap.make (twoNamesAt 0) []
  (first.bind (some "b") (first.names "a")).make (twoNamesAt 2) []

theorem twoNamesHeap_names (x : String) :
    twoNamesHeap.names x =
      if x = "x" then some (.made 1 (twoNamesAt 2))
      else if x = "b" ∨ x = "a" then some (.made 0 (twoNamesAt 0)) else none := by
  by_cases hx : x = "x"
  · subst hx
    rfl
  · by_cases hb : x = "b"
    · subst hb
      rfl
    · by_cases ha : x = "a"
      · subst ha
        rfl
      · simp [twoNamesHeap, Heap.make, Heap.bind, Heap.put, emptyHeap, twoNamesAt, twoNames,
          Function.update_of_ne, hx, hb, ha]

theorem not_twoNamesHeap_holds (x y : Obj) : ¬ twoNamesHeap.holds x y := by
  rintro ((h | ⟨-, h⟩) | ⟨-, h⟩) <;> cases h

theorem eq_of_twoNamesHeap_sees {x : Obj} (h : twoNamesHeap.Sees x y) : x = y := by
  rcases ReflTransGen.cases_head h with heq | ⟨z, hz, -⟩
  · exact heq
  · exact absurd hz (not_twoNamesHeap_holds x z)

/-- The statements that have run before the return, each with the heap before it. -/
def twoNamesTrace : List (Statement × Heap) :=
  let first := emptyHeap.make (twoNamesAt 0) []
  [(twoNamesAt 3, twoNamesHeap), (twoNamesAt 2, first.bind (some "b") (first.names "a")),
    (twoNamesAt 1, first), (twoNamesAt 0, emptyHeap)]

def twoNamesEnd : Heap := twoNamesHeap.put (.made 0 (twoNamesAt 0)) [twoNamesHeap.names "x"]

theorem runs_twoNames :
    Runs (twoNamesGraph "a" "b") (fun _ => none) twoNamesTrace 0 [twoNamesAt 4] twoNamesEnd := by
  have hinit : Initial (twoNamesGraph "a" "b") emptyHeap := by
    refine ⟨?_, ?_, rfl⟩
    · intro x o hx
      cases hx
    · intro x y hxy
      cases hxy
  have hput : Puts (twoNamesAt 3) (.var "a") (twoNamesAt 3).args :=
    .method rfl rfl rfl rfl (by decide) rfl
  have h₁ : Runs (twoNamesGraph "a" "b") (fun _ => none) [] 0 (twoNames "a" "b") emptyHeap :=
    .start hinit
  have h₂ := h₁.step (s := twoNamesAt 0) (.make rfl)
  have h₃ := h₂.step (.pick (.copy rfl rfl rfl))
  have h₄ := h₃.step (.make rfl)
  exact h₄.step (.put hput rfl)

theorem not_blindStore_twoNames :
    ∀ p ∈ twoNamesTrace, ¬ BlindStore (ofGraph (twoNamesGraph "a" "b")) (fun _ => none)
      (twoNamesAt 2) p.1 p.2 := by
  rintro p hp ⟨base, items, holder, item, q, n, hputs, hbase, -, -, -, hcase⟩
  simp only [twoNamesTrace, mem_cons, not_mem_nil, or_false] at hp
  rcases hp with rfl | rfl | rfl | rfl
  · have ha : base = "a" := by
      cases hputs with
      | store hkind => cases hkind
      | method _ _ _ _ _ hreceiver => exact (Operand.var.inj (Option.some.inj hreceiver)).symm
    subst ha
    obtain rfl : Obj.made 0 (twoNamesAt 0) = holder := Option.some.inj hbase
    rcases hcase with ⟨x, o, hx, hsees, hnot⟩ | ⟨⟨k, hsees⟩, -⟩
    · obtain rfl := eq_of_twoNamesHeap_sees hsees
      rw [twoNamesHeap_names] at hx
      split at hx
      · cases hx
      · split at hx
        · rename_i hab
          apply hnot
          rcases hab with rfl | rfl
          · exact contains_iff_mem.mp (by cbv)
          · exact contains_iff_mem.mp (by cbv)
        · cases hx
    · cases eq_of_twoNamesHeap_sees hsees
  · cases hputs with
    | store hkind | method hkind => cases hkind
  · cases hputs with
    | store _ hop => exact absurd hop (by decide)
    | method hkind => cases hkind
  · cases hputs with
    | store hkind | method hkind => cases hkind

theorem twoNames_escapes :
    site (Values.ofGraph (twoNamesGraph "a" "b")) (twoNamesAt 2)
        { allocator := "list", size := some 64 } ∈
      (analyse (twoNamesGraph "a" "b") (Values.ofGraph (twoNamesGraph "a" "b"))).sites ∧
    (site (Values.ofGraph (twoNamesGraph "a" "b")) (twoNamesAt 2)
        { allocator := "list", size := some 64 }).escapes = true ∧
    (site (Values.ofGraph (twoNamesGraph "a" "b")) (twoNamesAt 2)
        { allocator := "list", size := some 64 }).canPromote = false := by
  have hsees : twoNamesEnd.Sees (.made 0 (twoNamesAt 0)) (.made 1 (twoNamesAt 2)) :=
    .single (Or.inr ⟨rfl, List.mem_singleton.mpr rfl⟩)
  exact escapes_of_sees (twoNamesGraph "a" "b") (fun _ => none) twoNamesTrace 0 (twoNamesAt 4) []
    twoNamesEnd runs_twoNames rfl (twoNamesAt 2) { allocator := "list", size := some 64 } rfl
    ⟨1, Or.inl ⟨.var "b", .made 0 (twoNamesAt 0), rfl, rfl, hsees⟩⟩ not_blindStore_twoNames

end Readiness.Escape
