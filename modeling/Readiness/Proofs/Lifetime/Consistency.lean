import Readiness.Lifetime.Events
import Readiness.Proofs.Lifetime.Matching
import Readiness.Proofs.Lifetime.Pairing

/-!
# Reports on manual memory agree with themselves

A walk notes only what the statements that can be reached do (`Record.Tells`), so the counts of a
report are those of its events, and its links lead from allocations to releases and back
(`report_consistent`).
-/

namespace Readiness.Lifetime

open Readiness.Graph (Statement Edge Reaches Route)
open Report (LifetimeEvent Lifetimes EventKind)
open List

variable {g : Graph} {k : Setting} {limit : Option Nat} {w w' : Walk} {b : Nat} {s t : State}
  {r : Record} {a : Statement} {i : Int} {statements : List Statement}

/-! ## What a walk notes -/

def Releases (statements : List Statement) (i : Int) : Prop :=
  ∃ a ∈ statements, isRelease a = true ∧ a.index = i

/-- What a walk executes can be reached if its first block can. -/
theorem executed_subset {c : Nat} {es : List Edge} (hc : Reaches g Graph.entry c)
    (h : Route g c es b) : executed g es b ⊆ g.statements := by
  have hblock : ∀ {c}, Reaches g Graph.entry c → g.statementsOf c ⊆ g.statements := fun hc _ ha =>
    mem_flatMap.mpr ⟨_, (Graph.mem_reachable_iff g _).mpr hc, ha⟩
  induction h with
  | done => exact hblock hc
  | step he _ ih =>
    rw [executed, passed, flatMap_cons, append_assoc]
    have hnext := hc.step (Graph.mem_successors.mpr ⟨_, he, rfl, rfl⟩)
    exact append_subset.mpr ⟨hblock hc, ih hnext⟩

theorem Traced.subset (hs : Traced g b s) : g.statementsOf b ⊆ g.statements := by
  obtain ⟨es, hes⟩ := hs.reached
  exact fun _ ha => executed_subset (.refl _) hes (mem_append_right _ ha)

theorem Traced.allocates (hs : Traced g b s) : ∀ i ∈ s.opened, Allocates g.statements i := by
  intro i hi
  obtain ⟨es, hes, hpassed⟩ := hs.allocated i hi
  exact hpassed.mono fun _ ha => executed_subset (.refl _) hes (mem_append_left _ ha)

/-- The record tells only what the statements do, and each leak and double release once. -/
structure Record.Tells (statements : List Statement) (k : Setting) (r : Record) : Prop where
  pairs : ∀ p ∈ r.pairs, Allocates statements p.1 ∧ Releases statements p.2
  leaks : ∀ i ∈ r.leaks, Allocates statements i ∧ i ∉ k.transfers
  leaks_nodup : r.leaks.Nodup
  doubles : ∀ i ∈ r.doubleReleases, Releases statements i
  doubles_nodup : r.doubleReleases.Nodup

theorem nodup_note {α : Type} [DecidableEq α] {xs : List α} (h : xs.Nodup) (x : α) :
    (note x xs).Nodup := by
  unfold note
  split
  · exact h
  · rename_i hx
    exact h.append (nodup_singleton x) (by simpa using hx)

theorem forall_mem_note {α : Type} [DecidableEq α] {P : α → Prop} {xs : List α} {x : α} (hx : P x)
    (h : ∀ y ∈ xs, P y) : ∀ y ∈ note x xs, P y := by
  intro y hy
  rcases (mem_note y x xs).mp hy with rfl | hy
  · exact hx
  · exact h y hy

namespace Record.Tells

theorem blank : Record.blank.Tells statements k := ⟨nofun, nofun, nodup_nil, nofun, nodup_nil⟩

theorem leak (h : r.Tells statements k) (hi : Allocates statements i ∧ i ∉ k.transfers) :
    Record.Tells statements k { r with leaks := note i r.leaks } :=
  ⟨h.pairs, forall_mem_note hi h.leaks, nodup_note h.leaks_nodup i, h.doubles, h.doubles_nodup⟩

theorem allocate (h : r.Tells statements k) (ha : Allocates statements a.index) :
    (allocate k a r s).1.Tells statements k := by
  have hnoted : (if s.opened.contains a.index && !k.transfers.contains a.index then
      { r with leaks := note a.index r.leaks } else r).Tells statements k := by
    split
    · rename_i hleak
      have hkept : a.index ∈ s.opened ∧ a.index ∉ k.transfers := by simpa using hleak
      exact h.leak ⟨ha, hkept.2⟩
    · exact h
  unfold Lifetime.allocate
  cases a.target <;> exact hnoted

theorem meet (h : r.Tells statements k) (ha : Releases statements a.index) {candidates : List Int}
    (hopen : ∀ i ∈ candidates, Allocates statements i) :
    (meet a r s candidates).1.Tells statements k := by
  unfold Lifetime.meet
  split
  · exact ⟨h.pairs, h.leaks, h.leaks_nodup, forall_mem_note ha h.doubles,
      nodup_note h.doubles_nodup _⟩
  · rename_i site hlast
    exact ⟨forall_mem_note ⟨hopen site (mem_of_getLast? hlast), ha⟩ h.pairs, h.leaks, h.leaks_nodup,
      h.doubles, h.doubles_nodup⟩

/-- A statement notes what it does. -/
theorem step (h : r.Tells statements k) (ha : a ∈ statements)
    (hopen : ∀ i ∈ s.opened, Allocates statements i) :
    (step k (r, s) a).1.Tells statements k := by
  unfold Lifetime.step
  dsimp only
  split
  · rename_i halloc
    exact h.allocate ⟨a, ha, halloc, rfl⟩
  · split
    · rename_i hrel
      have hreleases : Releases statements a.index := ⟨a, ha, hrel, rfl⟩
      unfold release
      split
      · exact h
      · exact h.meet hreleases hopen
      · exact h.meet hreleases fun i hi => hopen i (mem_of_mem_filter hi)
    · have hlacking : (if a.op = "copy" then r.lacking a.lacksOperand? else r).Tells statements k := by
        split
        · exact ⟨h.pairs, h.leaks, h.leaks_nodup, h.doubles, h.doubles_nodup⟩
        · exact h
      cases a.target with
      | none => exact h
      | some name => cases copied? a <;> exact hlacking

theorem foldl (rest : List Statement) (hsub : rest ⊆ statements) (h : r.Tells statements k)
    (hopen : ∀ i ∈ s.opened, Allocates statements i) :
    (rest.foldl (Lifetime.step k) (r, s)).1.Tells statements k := by
  induction rest generalizing r s with
  | nil => exact h
  | cons a rest ih =>
    obtain ⟨ha, hrest⟩ := cons_subset.mp hsub
    have hnext : ∀ i ∈ (Lifetime.step k (r, s) a).2.opened, Allocates statements i := by
      intro i hi
      rw [step_state k a r .blank] at hi
      rcases mem_opened_step hi with hi | hi
      · exact hopen i hi
      · exact hi.mono (by simpa using ha)
    exact ih hrest (h.step ha hopen) hnext

theorem finish (h : r.Tells statements k) (hopen : ∀ i ∈ s.opened, Allocates statements i) :
    (finish k r s).Tells statements k := by
  have hleft : ∀ i ∈ s.opened.filter fun i => !k.transfers.contains i,
      Allocates statements i ∧ i ∉ k.transfers := by
    intro i hi
    obtain ⟨hi, hout⟩ := mem_filter.mp hi
    exact ⟨hopen i hi, by simpa using hout⟩
  unfold Lifetime.finish
  generalize s.opened.filter (fun i => !k.transfers.contains i) = left at hleft
  induction left generalizing r with
  | nil => exact h
  | cons i left ih =>
    rw [forall_mem_cons] at hleft
    exact ih (h.leak hleft.1) hleft.2

theorem enter (hs : Traced g b s) (h : w.found.Tells g.statements k) :
    (w.enter g k b s).found.Tells g.statements k := by
  have hvisit : (visit g k b (w.found, s)).1.Tells g.statements k := by
    have hfold := h.foldl (g.statementsOf b) hs.subset hs.allocates
    have hopen : ∀ i ∈ ((g.statementsOf b).foldl (Lifetime.step k) (w.found, s)).2.opened,
        Allocates g.statements i := by
      rw [foldl_step_state]
      intro i hi
      exact (mem_opened_advance hi).elim (hs.allocates i) (·.mono hs.subset)
    unfold visit
    dsimp only
    split
    · exact hfold.finish hopen
    · exact hfold
  unfold Walk.enter
  dsimp only
  split
  · exact hvisit
  · exact ⟨hvisit.pairs, hvisit.leaks, hvisit.leaks_nodup, hvisit.doubles, hvisit.doubles_nodup⟩

end Record.Tells

theorem tells_walk (g : Graph) (k : Setting) (limit : Option Nat) :
    (walk g k limit).Tells g.statements k :=
  walk_keeps (traced_start g) (fun _ _ _ => .join) .edge .blank .enter

/-! ## Statements that have their parts -/

/-- The statement has the parts that its kind calls for. -/
structure Whole (a : Statement) : Prop where
  allocation : a.lacksAllocation? "manual" = none
  call : a.lacksCall? "deallocates" = none
  values : Flow.Values.lacks? a = none
  operand : isAllocation a = false → isRelease a = false → a.op = "copy" ∨ a.kind = .branch →
    a.lacksOperand? = none

theorem missing_step (ha : Whole a) (h : r.missing = none) : (step k (r, s) a).1.missing = none := by
  have hmeet : ∀ candidates, (meet a r s candidates).1.missing = none := by
    intro candidates
    unfold meet
    cases candidates.getLast? <;> exact h
  unfold step
  dsimp only
  split
  · unfold allocate
    dsimp only
    cases a.target <;> dsimp only <;> split <;> exact h
  · rename_i halloc
    split
    · unfold release
      cases aim k a s <;> first | exact h | exact hmeet _
    · rename_i hrel
      have hlacking : (if a.op = "copy" then r.lacking a.lacksOperand? else r).missing = none := by
        split
        · rename_i hop
          have hoperand := ha.operand (eq_false_of_ne_true halloc) (eq_false_of_ne_true hrel)
            (.inl hop)
          rw [Record.lacking, h, hoperand]
          rfl
        · exact h
      cases a.target with
      | none => exact h
      | some name => cases copied? a <;> exact hlacking

theorem missing_foldl (ha : ∀ a ∈ statements, Whole a) (h : r.missing = none) :
    (statements.foldl (step k) (r, s)).1.missing = none := by
  induction statements generalizing r s with
  | nil => exact h
  | cons a rest ih =>
    rw [forall_mem_cons] at ha
    exact ih ha.2 (missing_step ha.1 h)

theorem untestable?_eq_none (ha : ∀ a ∈ statements, Whole a) : untestable? statements = none := by
  unfold untestable?
  split
  · rename_i a hlast
    split
    · rename_i hbranch
      exact (ha a (mem_of_getLast? hlast)).operand (by simp [isAllocation, hbranch.1])
        (by simp [isRelease, hbranch.1]) (.inr hbranch.1)
    · rfl
  · rfl

theorem missing_walk (hg : ∀ a ∈ g.statements, Whole a) : (walk g k limit).missing = none := by
  refine walk_keeps (P := Traced g) (I := fun r => r.missing = none) (traced_start g)
    (fun _ _ _ => .join) .edge rfl fun {w b s} hs h => ?_
  have hb : ∀ a ∈ g.statementsOf b, Whole a := fun a ha => hg a (hs.subset ha)
  have hvisit : (visit g k b (w.found, s)).1.missing = none := by
    unfold visit
    dsimp only
    split <;> exact missing_foldl hb h
  unfold Walk.enter
  dsimp only
  split
  · exact hvisit
  · rw [untestable?_eq_none hb, Record.lacking, hvisit]
    rfl

/-- A report is given of statements that have their parts. -/
theorem exists_report (hg : ∀ a ∈ g.statements, Whole a) (values : Flow.Values)
    (limit : Option Nat) : ∃ report, analyse g values limit = .ok report := by
  have hundescribed : undescribed? g = none := by
    refine findSome?_eq_none_iff.mpr fun a ha => ?_
    rw [(hg a ha).allocation, (hg a ha).call]
    rfl
  have hvalues : Flow.Values.missing? g = none :=
    findSome?_eq_none_iff.mpr fun a ha => (hg a ha).values
  unfold analyse
  rw [hundescribed, hvalues]
  dsimp only
  split
  · exact ⟨_, rfl⟩
  · rw [observe, missing_walk hg]
    exact ⟨_, rfl⟩

/-- A report sums up what a walk finds, or nothing where there is nothing to follow. -/
theorem exists_found {values : Flow.Values} {report : Lifetimes}
    (h : analyse g values limit = .ok report) :
    ∃ found, report = summary g found ∧
      (found = observe g values limit ∨ found = .blank ∧ manual g = []) := by
  unfold analyse at h
  split at h
  · cases h
  · split at h
    · rename_i hempty
      cases h
      refine ⟨.blank, ?_, .inr ⟨rfl, isEmpty_iff.mp hempty⟩⟩
      simp [summary, isEmpty_iff.mp hempty, partners, owners, releases, orderedPairs, Record.blank]
      rfl
    · dsimp only at h
      split at h
      · cases h
      · cases h
        exact ⟨_, rfl, .inl rfl⟩

/-! ## Reports -/

/-- What makes a report agree with the statements of a graph and with itself. -/
structure Consistent (g : Graph) (values : Flow.Values) (report : Lifetimes) : Prop where
  events : (report.events.map fun e => (e.kind, e.index)).Perm
    ((g.statements.filter isAllocation).map (fun a => (.allocates, a.index)) ++
      (g.statements.filter isRelease).map fun a => (.releases, a.index))
  increasing : report.events.Pairwise fun e e' => e.index < e'.index
  linked : ∀ e ∈ report.events, ∀ i, e.pairedWith = some i →
    ∃ e' ∈ report.events, e'.index = i ∧ e'.pairedWith = some e.index ∧ e'.kind ≠ e.kind
  leaks : report.leaks =
    (report.events.countP fun e => e.kind == .allocates && e.unmatched : Nat)
  doubles : report.doubleReleases =
    (report.events.countP fun e => e.kind == .releases && e.unmatched : Nat)
  proper : 2 * report.proper = (report.events.countP fun e => e.pairedWith.isSome : Nat)
  proper_le : ∀ kind, report.proper ≤ (report.events.countP fun e => e.kind == kind : Nat)
  handed : ∀ a ∈ g.statements, isAllocation a = true →
    (values.escapeReasons a).any EscapeReason.isTransfer = true →
      ∀ e ∈ report.events, e.index = a.index → e.unmatched = false

/-- What is unmatched among the allocations, or among the releases. -/
def Record.unmatched (r : Record) : EventKind → List Int
  | .allocates => r.leaks
  | .releases => r.doubleReleases

def kindOf (a : Statement) : EventKind := if isAllocation a then .allocates else .releases

section Events

variable (found : Record) (partner : Table Int Int) (a : Statement)

@[simp] theorem event_kind : (event found partner a).kind = kindOf a := by
  unfold event kindOf
  split <;> rfl

@[simp] theorem event_index : (event found partner a).index = a.index := by
  unfold event
  split <;> rfl

@[simp] theorem event_pairedWith : (event found partner a).pairedWith = partner.get? a.index := by
  unfold event
  split <;> rfl

@[simp] theorem event_unmatched :
    (event found partner a).unmatched = (found.unmatched (kindOf a)).contains a.index := by
  unfold event kindOf
  split <;> rfl

end Events

theorem isAllocation_eq_false (h : isRelease a = true) : isAllocation a = false := by
  unfold isRelease at h
  unfold isAllocation
  cases hk : a.kind <;> simp_all

theorem mem_manual : a ∈ manual g ↔
    a ∈ g.statements ∧ (isAllocation a = true ∨ isRelease a = true) := by
  simp only [manual, mem_append, mem_filter, ← and_or_left]

/-- Statements that are marked are as many as the marks. -/
theorem countP_eq_length {l : List Statement} (hl : (l.map Statement.index).Nodup)
    {p : Statement → Bool} {marks : List Int} (hmarks : marks.Nodup)
    (h : ∀ i, i ∈ marks ↔ ∃ a ∈ l, p a = true ∧ a.index = i) : l.countP p = marks.length := by
  rw [countP_eq_length_filter, ← length_map Statement.index]
  refine ((perm_ext_iff_of_nodup (hl.sublist (filter_sublist.map _)) hmarks).mpr fun i => ?_).length_eq
  rw [h]
  simp [and_assoc]

theorem length_le_countP {l : List Statement} {p : Statement → Bool} {marks : List Int}
    (hmarks : marks.Nodup) (h : ∀ i ∈ marks, ∃ a ∈ l, p a = true ∧ a.index = i) :
    marks.length ≤ l.countP p := by
  rw [countP_eq_length_filter, ← length_map Statement.index]
  refine length_le_of_nodup hmarks fun i hi => ?_
  obtain ⟨a, ha, hp, rfl⟩ := h i hi
  exact mem_map_of_mem (mem_filter.mpr ⟨ha, hp⟩)

section Distinct

variable (hindex : (g.statements.map Statement.index).Nodup)
include hindex

theorem nodup_manual : ((manual g).map Statement.index).Nodup := by
  have hsub : ∀ p : Statement → Bool, ((g.statements.filter p).map Statement.index).Nodup := fun p =>
    hindex.sublist (filter_sublist.map _)
  unfold manual
  rw [map_append]
  refine (hsub _).append (hsub _) fun i ha hr => ?_
  obtain ⟨a, ha', rfl⟩ := mem_map.mp ha
  obtain ⟨r, hr', heq⟩ := mem_map.mp hr
  obtain ⟨ha, halloc⟩ := mem_filter.mp ha'
  obtain ⟨hr, hrel⟩ := mem_filter.mp hr'
  cases inj_on_of_nodup_map hindex hr ha heq
  cases halloc.symm.trans (isAllocation_eq_false hrel)

theorem allocates_ne_releases {i j : Int} (hi : Allocates g.statements i)
    (hj : Releases g.statements j) : i ≠ j := by
  rintro rfl
  obtain ⟨a, ha, halloc, rfl⟩ := hi
  obtain ⟨r, hr, hrel, heq⟩ := hj
  cases inj_on_of_nodup_map hindex hr ha heq
  cases halloc.symm.trans (isAllocation_eq_false hrel)

end Distinct

/-- Some statement is an allocation, or a release, with this index. -/
def Does (statements : List Statement) : EventKind → Int → Prop
  | .allocates => Allocates statements
  | .releases => Releases statements

theorem Does.exists_manual {kind : EventKind} (h : Does g.statements kind i) :
    ∃ a ∈ manual g, kindOf a = kind ∧ a.index = i := by
  cases kind with
  | allocates =>
    obtain ⟨a, ha, halloc, rfl⟩ := h
    exact ⟨a, mem_manual.mpr ⟨ha, .inl halloc⟩, if_pos halloc, rfl⟩
  | releases =>
    obtain ⟨a, ha, hrel, rfl⟩ := h
    refine ⟨a, mem_manual.mpr ⟨ha, .inr hrel⟩, ?_, rfl⟩
    rw [kindOf, isAllocation_eq_false hrel]
    rfl

theorem get?_partners_iff {pairs : List (Int × Int)} (hends : ∀ p ∈ pairs, ∀ q ∈ pairs, p.1 ≠ q.2)
    {x y : Int} : (partners pairs).get? x = some y ↔
      (x, y) ∈ (owners pairs).entries ∨ (y, x) ∈ (owners pairs).entries := by
  rw [Table.get?_eq_some_iff, entries_partners hends, mem_bothEnds]

theorem size_partners {pairs : List (Int × Int)} (hends : ∀ p ∈ pairs, ∀ q ∈ pairs, p.1 ≠ q.2) :
    (partners pairs).size = 2 * (owners pairs).entries.length := by
  rw [Table.size, entries_partners hends, length_bothEnds]

def ordered (g : Graph) : List Statement :=
  (manual g).mergeSort fun a b => decide (a.index ≤ b.index)

theorem ordered_perm (g : Graph) : (ordered g).Perm (manual g) := mergeSort_perm _ _

theorem ordered_increasing (h : ((manual g).map Statement.index).Nodup) :
    (ordered g).Pairwise fun a b => a.index < b.index := by
  have hle : (ordered g).Pairwise fun a b => decide (a.index ≤ b.index) = true :=
    pairwise_mergeSort (fun a b c hab hbc => by simp only [decide_eq_true_eq] at *; omega)
      (fun a b => by simp only [Bool.or_eq_true, decide_eq_true_eq]; omega) _
  have hne : (ordered g).Pairwise fun a b => a.index ≠ b.index :=
    pairwise_map.mp (((ordered_perm g).map _).nodup_iff.mpr h)
  exact (hle.and hne).imp fun h => lt_of_le_of_ne (of_decide_eq_true h.1) h.2

theorem events_perm (g : Graph) (found : Record) (partner : Table Int Int) :
    (((ordered g).map (event found partner)).map fun e => (e.kind, e.index)).Perm
      ((g.statements.filter isAllocation).map (fun a => (.allocates, a.index)) ++
        (g.statements.filter isRelease).map fun a => (.releases, a.index)) := by
  rw [map_map]
  refine ((ordered_perm g).map _).trans (.of_eq ?_)
  rw [manual, map_append]
  congr 1 <;> refine map_congr_left fun a ha => ?_ <;> have hkind := (mem_filter.mp ha).2
  · simp [kindOf, hkind]
  · simp [kindOf, isAllocation_eq_false hkind]

section Reports

variable (hindex : (g.statements.map Statement.index).Nodup) {found : Record}
  (hfound : found.Tells g.statements k)
include hindex

theorem eq_of_manual {b : Statement} (ha : a ∈ manual g) (hb : b ∈ manual g)
    (h : a.index = b.index) : a = b :=
  inj_on_of_nodup_map (nodup_manual hindex) ha hb h

/-- The events with a mark are as many as the marks, when each mark stands at such an event. -/
theorem countP_events {partner : Table Int Int} {p : LifetimeEvent → Bool} {marks : List Int}
    (hmarks : marks.Nodup)
    (h : ∀ i, i ∈ marks ↔ ∃ a ∈ manual g, p (event found partner a) = true ∧ a.index = i) :
    ((ordered g).map (event found partner)).countP p = marks.length := by
  rw [countP_map, (ordered_perm g).countP_eq]
  exact countP_eq_length (nodup_manual hindex) hmarks h

include hfound

theorem countP_unmatched (partner : Table Int Int) (kind : EventKind) :
    ((ordered g).map (event found partner)).countP (fun e => e.kind == kind && e.unmatched) =
      (found.unmatched kind).length := by
  have hdoes : ∀ i ∈ found.unmatched kind, Does g.statements kind i := by
    cases kind with
    | allocates => exact fun i hi => (hfound.leaks i hi).1
    | releases => exact hfound.doubles
  have hnodup : (found.unmatched kind).Nodup := by
    cases kind with
    | allocates => exact hfound.leaks_nodup
    | releases => exact hfound.doubles_nodup
  refine countP_events hindex hnodup fun i => ⟨fun hi => ?_, ?_⟩
  · obtain ⟨a, ha, rfl, rfl⟩ := (hdoes i hi).exists_manual
    exact ⟨a, ha, by simpa using hi, rfl⟩
  · rintro ⟨a, -, hmarked, rfl⟩
    have hmarked : kindOf a = kind ∧ a.index ∈ found.unmatched (kindOf a) := by simpa using hmarked
    exact hmarked.1 ▸ hmarked.2

theorem ends_distinct : ∀ p ∈ found.pairs, ∀ q ∈ found.pairs, p.1 ≠ q.2 := fun p hp q hq =>
  allocates_ne_releases hindex (hfound.pairs p hp).1 (hfound.pairs q hq).2

/-- Partners are an allocation and a release. -/
theorem does_of_partners {x y : Int} (h : (partners found.pairs).get? x = some y) :
    ∃ kind kind', kind ≠ kind' ∧ Does g.statements kind x ∧ Does g.statements kind' y := by
  have howners := isMatching_owners found.pairs
  rcases (get?_partners_iff (ends_distinct hindex hfound)).mp h with h | h
  · exact ⟨.allocates, .releases, nofun, hfound.pairs _ (howners.subset _ h)⟩
  · exact ⟨.releases, .allocates, nofun, (hfound.pairs _ (howners.subset _ h)).symm⟩

theorem countP_paired :
    ((ordered g).map (event found (partners found.pairs))).countP (fun e => e.pairedWith.isSome) =
      (partners found.pairs).size := by
  rw [Table.size, ← length_map Prod.fst]
  refine countP_events hindex (partners found.pairs).nodup fun i => ?_
  have hget : i ∈ (partners found.pairs).keys ↔ ∃ j, (partners found.pairs).get? i = some j := by
    simp [Table.keys, Table.get?_eq_some_iff]
  refine hget.trans ⟨?_, ?_⟩
  · rintro ⟨j, hj⟩
    obtain ⟨kind, -, -, hdoes, -⟩ := does_of_partners hindex hfound hj
    obtain ⟨a, ha, -, rfl⟩ := hdoes.exists_manual
    exact ⟨a, ha, by simp [hj], rfl⟩
  · rintro ⟨a, -, hpaired, rfl⟩
    rw [event_pairedWith] at hpaired
    exact Option.isSome_iff_exists.mp hpaired

theorem linked_events {e : LifetimeEvent}
    (he : e ∈ (ordered g).map (event found (partners found.pairs))) (h : e.pairedWith = some i) :
    ∃ e' ∈ (ordered g).map (event found (partners found.pairs)),
      e'.index = i ∧ e'.pairedWith = some e.index ∧ e'.kind ≠ e.kind := by
  obtain ⟨a, ha, rfl⟩ := mem_map.mp he
  rw [event_pairedWith] at h
  obtain ⟨kind, kind', hne, hx, hy⟩ := does_of_partners hindex hfound h
  obtain ⟨b, hb, hbkind, hbindex⟩ := hx.exists_manual
  obtain ⟨c, hc, hckind, rfl⟩ := hy.exists_manual
  cases eq_of_manual hindex hb ((ordered_perm g).mem_iff.mp ha) hbindex
  have hends := ends_distinct hindex hfound
  refine ⟨_, mem_map_of_mem ((ordered_perm g).mem_iff.mpr hc), event_index _ _ _, ?_, ?_⟩
  · rw [event_pairedWith, event_index, get?_partners_iff hends]
    exact ((get?_partners_iff hends).mp h).symm
  · rw [event_kind, event_kind, hbkind, hckind]
    exact hne.symm

omit hindex in
theorem length_owners_le (partner : Table Int Int) (kind : EventKind) :
    (owners found.pairs).entries.length ≤
      ((ordered g).map (event found partner)).countP fun e => e.kind == kind := by
  have howners := isMatching_owners found.pairs
  have hdoes : ∃ end_ : Int × Int → Int, ((owners found.pairs).entries.map end_).Nodup ∧
      ∀ p ∈ found.pairs, Does g.statements kind (end_ p) := by
    cases kind with
    | allocates => exact ⟨Prod.fst, howners.nodup_fst, fun p hp => (hfound.pairs p hp).1⟩
    | releases => exact ⟨Prod.snd, howners.nodup_snd, fun p hp => (hfound.pairs p hp).2⟩
  obtain ⟨end_, hnodup, hdoes⟩ := hdoes
  rw [countP_map, (ordered_perm g).countP_eq, ← length_map end_]
  refine length_le_countP hnodup fun i hi => ?_
  obtain ⟨p, hp, rfl⟩ := mem_map.mp hi
  obtain ⟨a, ha, hkind, hindex⟩ := (hdoes p (howners.subset p hp)).exists_manual
  exact ⟨a, ha, by simp [hkind], hindex⟩

end Reports

theorem consistent_summary (hindex : (g.statements.map Statement.index).Nodup) {found : Record}
    {values : Flow.Values} (hfound : found.Tells g.statements k)
    (hk : k.transfers = transfers values (g.statements.filter isAllocation)) :
    Consistent g values (summary g found) := by
  have hends := ends_distinct hindex hfound
  have hsize := size_partners hends
  have hproper : (summary g found).proper = (owners found.pairs).entries.length := by
    simp [summary, hsize]
  refine
    { events := events_perm g found _
      increasing := pairwise_map.mpr
        ((ordered_increasing (nodup_manual hindex)).imp fun h => by simpa using h)
      linked := fun e he i => linked_events hindex hfound he
      leaks := congrArg Nat.cast (countP_unmatched hindex hfound _ .allocates).symm
      doubles := congrArg Nat.cast (countP_unmatched hindex hfound _ .releases).symm
      proper := ?_, proper_le := fun kind => ?_, handed := ?_ }
  · rw [hproper]
    exact_mod_cast (hsize.symm.trans (countP_paired hindex hfound).symm)
  · rw [hproper]
    exact_mod_cast length_owners_le hfound _ kind
  · intro a ha halloc hreason e he heq
    obtain ⟨b, hb, rfl⟩ := mem_map.mp he
    rw [event_index] at heq
    have hmanual := mem_manual.mpr ⟨ha, .inl halloc⟩
    cases eq_of_manual hindex ((ordered_perm g).mem_iff.mp hb) hmanual heq
    have htransfer : a.index ∈ k.transfers := by
      rw [hk]
      exact mem_filterMap.mpr ⟨a, mem_filter.mpr ⟨ha, halloc⟩, if_pos hreason⟩
    have hkind : kindOf a = .allocates := if_pos halloc
    rw [event_unmatched, hkind, Bool.eq_false_iff]
    intro hleak
    exact (hfound.leaks _ (contains_iff_mem.mp hleak)).2 htransfer

/-- A report is consistent, and one is given unless a statement that can be reached lacks a part. -/
theorem report_consistent (g : Graph) (hindex : (g.statements.map Statement.index).Nodup)
    (values : Flow.Values) (limit : Option Nat) :
    (∃ report, analyse g values limit = .ok report ∧ Consistent g values report) ∨
      (∃ part, analyse g values limit = .error part) ∧ ∃ a ∈ g.statements, ¬ Whole a := by
  cases h : analyse g values limit with
  | ok report =>
    refine .inl ⟨report, rfl, ?_⟩
    obtain ⟨found, rfl, rfl | ⟨rfl, -⟩⟩ := exists_found h
    · exact consistent_summary hindex (tells_walk g _ limit) rfl
    · exact consistent_summary (k := ⟨[], [], _⟩) hindex .blank rfl
  | error part =>
    refine .inr ⟨⟨part, rfl⟩, ?_⟩
    by_contra hnone
    have hwhole : ∀ a ∈ g.statements, Whole a := fun a ha => by_contra fun hlacks =>
      hnone ⟨a, ha, hlacks⟩
    obtain ⟨report, hreport⟩ := exists_report hwhole values limit
    cases h.symm.trans hreport

theorem handedOn_report_consistent :
    (handedOn.statements.map Statement.index).Nodup ∧ ∃ report,
      analyse handedOn (Flow.Values.ofGraph handedOn) (some 1) = .ok report ∧
        Consistent handedOn (Flow.Values.ofGraph handedOn) report := by
  have hindex : (handedOn.statements.map Statement.index).Nodup := by decide
  have hparts : ∀ a ∈ handedOn.statements, a.lacksAllocation? "manual" = none ∧
      a.lacksCall? "deallocates" = none ∧ Flow.Values.lacks? a = none ∧ (isAllocation a = false →
        isRelease a = false → a.op = "copy" ∨ a.kind = .branch → a.lacksOperand? = none) := by
    decide
  refine ⟨hindex, (report_consistent handedOn hindex _ (some 1)).resolve_right ?_⟩
  rintro ⟨-, a, ha, hlacks⟩
  obtain ⟨hallocation, hcall, hvalues, hoperand⟩ := hparts a ha
  exact hlacks ⟨hallocation, hcall, hvalues, hoperand⟩

end Readiness.Lifetime
