import Mathlib.Algebra.BigOperators.Group.List.Basic
import Readiness.Escape
import Readiness.Proofs.Flow.Closure
import Readiness.Proofs.Graph.Finishing

/-!
# Reasons are paths

`EscapesFor` says by paths why a value outlives the call, and `mem_escapeReasons_iff` that these are
the reasons found.  The report has one site for each allocation that control can come to, and counts
and adds up those without a reason whose size is known (`report_of_paths`).
-/

open Relation (ReflTransGen)

namespace Readiness

open List
open Graph (Statement AllocationInfo Operand)

namespace Flow.Values

/-- A name may be another one, or a part taken out of it. -/
def Aliases (v : Values) (a b : String) : Prop := b ∈ v.aliases.of a

/-- The names that the caller may see are those to which aliases of a parameter lead. -/
theorem mem_outward_iff (g : Graph) (x : String) :
    x ∈ (ofGraph g).outward ↔ ∃ p ∈ g.params, ReflTransGen (ofGraph g).Aliases p x := by
  let v := ofGraph g
  have hnext : ∀ n, ∀ y ∈ v.aliases.of n, y ∈ g.params.eraseDups ++ v.aliases.values.flatten :=
    fun n y hy => mem_append_right _ (mem_flatten_of_mem_of hy)
  have hroom : (g.params.eraseDups ++ v.aliases.values.flatten).length ≤
      v.room g.params.eraseDups.length := by
    simp only [length_append, length_flatten_eq, room]
    omega
  have hclose := mem_close_iff hnext (fun y hy => mem_append_left _ hy)
    (nodup_eraseDups g.params) hroom x
  refine hclose.trans ?_
  simp only [mem_eraseDups]
  rfl

end Flow.Values

namespace Escape

open Flow (Values)
open Flow.Values (ofGraph)
open Report (AllocationSite)

variable {g : Graph} {s : Statement} {r : EscapeReason}

/-! ### Reasons -/

/-- Why the value of an allocation outlives the call: it is made any number of times, it may pass to
a name that is marked with the reason, or it may pass to another name that the caller may see. -/
inductive EscapesFor (g : Graph) (s : Statement) : EscapeReason → Prop
  | loop {info : AllocationInfo} : s.allocation = some info → info.inUnboundedLoop = true →
    EscapesFor g s .unboundedLoop
  | marked {t x : String} {r : EscapeReason} : s.target = some t →
    ReflTransGen (ofGraph g).Flows t x → r ∈ (ofGraph g).sinks.of x → EscapesFor g s r
  | visible {t x p : String} : s.target = some t → ReflTransGen (ofGraph g).Flows t x →
    x ≠ t → p ∈ g.params → ReflTransGen (ofGraph g).Aliases p x →
    EscapesFor g s .storedOutward

theorem mem_loop_iff (s : Statement) (r : EscapeReason) :
    r ∈ (if (s.allocation.map AllocationInfo.inUnboundedLoop).getD false then
        [EscapeReason.unboundedLoop] else []) ↔
      r = .unboundedLoop ∧ ∃ info, s.allocation = some info ∧ info.inUnboundedLoop = true := by
  cases s.allocation with
  | none => simp
  | some info => by_cases h : info.inUnboundedLoop = true <;> simp [h]

theorem mem_found_iff (v : Values) (t : String) (r : EscapeReason) :
    r ∈ (v.reaching t).flatMap (fun n => v.sinks.of n ++
        (if v.outward.contains n && n != t then [EscapeReason.storedOutward] else [])) ↔
      ∃ x, ReflTransGen v.Flows t x ∧
        (r ∈ v.sinks.of x ∨ r = .storedOutward ∧ x ∈ v.outward ∧ x ≠ t) := by
  simp only [mem_flatMap, Values.mem_reaching_iff, mem_append]
  refine exists_congr fun x => and_congr_right fun _ => or_congr_right ?_
  by_cases hx : x ∈ v.outward ∧ x ≠ t
  · simp [hx]
  · simp only [hx, and_false, iff_false]
    rw [if_neg (by simpa using hx)]
    exact not_mem_nil

variable (g : Graph)

/-- The reasons found for an allocation are those that paths give. -/
theorem mem_escapeReasons_iff (s : Statement) (r : EscapeReason) :
    r ∈ (ofGraph g).escapeReasons s ↔ EscapesFor g s r := by
  unfold Values.escapeReasons
  dsimp only
  split
  · rename_i htarget
    rw [mem_loop_iff]
    constructor
    · rintro ⟨rfl, info, hinfo, hloop⟩
      exact .loop hinfo hloop
    · rintro (⟨hinfo, hloop⟩ | ⟨ht, -, -⟩ | ⟨ht, -, -, -, -⟩)
      · exact ⟨rfl, _, hinfo, hloop⟩
      · rw [htarget] at ht
        cases ht
      · rw [htarget] at ht
        cases ht
  · rename_i t htarget
    rw [mem_eraseDups, mem_append, mem_loop_iff, mem_found_iff]
    constructor
    · rintro (⟨rfl, info, hinfo, hloop⟩ | ⟨x, hpath, hsink | ⟨rfl, hseen, hne⟩⟩)
      · exact .loop hinfo hloop
      · exact .marked htarget hpath hsink
      · obtain ⟨p, hp, halias⟩ := (Values.mem_outward_iff g x).mp hseen
        exact .visible htarget hpath hne hp halias
    · rintro (⟨hinfo, hloop⟩ | ⟨ht, hpath, hsink⟩ | ⟨ht, hpath, hne, hp, halias⟩)
      · exact .inl ⟨rfl, _, hinfo, hloop⟩
      · obtain rfl := Option.some.inj (htarget.symm.trans ht)
        exact .inr ⟨_, hpath, .inl hsink⟩
      · obtain rfl := Option.some.inj (htarget.symm.trans ht)
        exact .inr ⟨_, hpath, .inr ⟨rfl, (Values.mem_outward_iff g _).mpr ⟨_, hp, halias⟩, hne⟩⟩

/-! ### Sites -/

/-- The allocations that control can come to, each with its description. -/
def allocations : List (Statement × AllocationInfo) :=
  g.statements.filterMap fun s =>
    if s.kind = .allocation then s.allocation.map fun info => (s, info) else none

/-- A value can be put on the stack: nothing lets it outlive the call, and its size is known. -/
def Promotable (a : Statement × AllocationInfo) : Prop :=
  (∀ r, ¬ EscapesFor g a.1 r) ∧ ∃ n, a.2.size = some n

/-- What the site of an allocation says of it. -/
structure Describes (g : Graph) (a : Statement × AllocationInfo) (site : AllocationSite) : Prop where
  location : site.location = a.1.location
  bytes : site.bytes = a.2.size
  escapes : site.escapes = true ↔ ∃ r, EscapesFor g a.1 r
  canPromote : site.canPromote = true ↔ Promotable g a

theorem describes_site (a : Statement × AllocationInfo) :
    Describes g a (site (ofGraph g) a.1 a.2) := by
  have hnone : ((ofGraph g).escapeReasons a.1).isEmpty = true ↔
      ∀ r, ¬ EscapesFor g a.1 r := by
    rw [List.isEmpty_iff, eq_nil_iff_forall_not_mem]
    exact forall_congr' fun r => not_congr (mem_escapeReasons_iff g a.1 r)
  refine ⟨rfl, rfl, ?_, ?_⟩
  · change (!((ofGraph g).escapeReasons a.1).isEmpty) = true ↔ _
    rw [Bool.not_eq_true', ← Bool.not_eq_true, hnone]
    simp
  · change (((ofGraph g).escapeReasons a.1).isEmpty && a.2.size.isSome) = true ↔ _
    rw [Bool.and_eq_true, hnone, Option.isSome_iff_exists]
    rfl

/-- The sites of a report are those of the allocations, in the order of their places. -/
theorem exists_sites_eq : ∃ as : List (Statement × AllocationInfo),
    as.Perm (allocations g) ∧ (analyse g (ofGraph g)).sites =
      as.map fun a => site (ofGraph g) a.1 a.2 := by
  let placed (a : Statement × AllocationInfo) := site (ofGraph g) a.1 a.2
  have hsites : (allocations g).map placed = g.statements.filterMap fun s =>
      if s.kind = .allocation then s.allocation.map (site (ofGraph g) s) else none := by
    rw [allocations, map_filterMap]
    refine filterMap_congr fun s _ => ?_
    split
    · rw [Option.map_map]
      rfl
    · rfl
  refine ⟨(allocations g).mergeSort fun a b => notAfter (placed a) (placed b),
    mergeSort_perm _ _, ?_⟩
  rw [map_mergeSort (s := notAfter) (f := placed) fun a _ b _ => rfl, hsites]
  rfl

/-! ### The report -/

/-- A statement has the parts that its kind needs. -/
@[mk_iff]
structure HasParts (s : Statement) : Prop where
  allocation : s.kind = .allocation → s.allocation ≠ none
  call : s.kind = .call → ∃ call, s.call = some call ∧
    (call.deallocates = false → call.dispatch = .method → s.receiver? ≠ none)
  operand : s.kind = .return_ ∨ s.kind = .assignment ∧ s.op ≠ "catch" → s.operands ≠ []

theorem hasParts_iff_lacks (s : Statement) (property : String) :
    HasParts s ↔ Values.lacks? s = none ∧ s.lacksAllocation? property = none := by
  rw [hasParts_iff]
  unfold Values.lacks? Statement.lacksAllocation? Statement.lacksOperand?
  cases hkind : s.kind with
  | call =>
    cases hcall : s.call with
    | none => simp
    | some call =>
      cases hdeallocates : call.deallocates <;> simp [Statement.lacksReceiver?, hcall, hdeallocates]
  | assignment => by_cases hop : s.op = "catch" <;> simp [hop]
  | _ => simp

/-- Nothing is missing exactly when every statement has its parts. -/
theorem missing?_eq_none_iff : missing? g = none ↔ ∀ s ∈ g.statements, HasParts s := by
  rw [missing?, Option.orElse_eq_orElse, Option.orElse_eq_or, Option.or_eq_none_iff,
    Values.missing?, findSome?_eq_none_iff, findSome?_eq_none_iff]
  simp only [hasParts_iff_lacks _ "size_bytes", imp_and, forall_and]

open scoped Classical in
/-- What a report says of a graph: it has one site for each allocation in a block that control can
come to, and it counts and adds up those that can be put on the stack. -/
structure Reports (g : Graph) (report : Report.Escapes) : Prop where
  reached : ∃ blocks : List Nat, blocks.Nodup ∧ (∀ b, b ∈ blocks ↔ g.Reaches Graph.entry b) ∧
    g.statements = blocks.flatMap g.statementsOf
  sites : ∃ as : List (Statement × AllocationInfo), as.Perm (allocations g) ∧
    List.Forall₂ (Describes g) as report.sites
  promotable : report.promotable = ((allocations g).filter fun a => Promotable g a).length
  savings : report.savings =
    (((allocations g).filter fun a => Promotable g a).map fun a => a.2.size.getD 0).foldl
      (· + ·) 0

theorem filterMap_bytes (sites : List AllocationSite)
    (h : ∀ a ∈ sites, a.bytes.isSome) :
    sites.filterMap AllocationSite.bytes = sites.map fun a => a.bytes.getD 0 := by
  induction sites with
  | nil => rfl
  | cons a rest ih =>
    obtain ⟨n, hn⟩ := Option.isSome_iff_exists.mp (h a mem_cons_self)
    rw [filterMap_cons_some hn, map_cons, hn, ih fun b hb => h b (mem_cons_of_mem _ hb)]
    rfl

theorem reports_analyse : Reports g (analyse g (ofGraph g)) := by
  classical
  obtain ⟨as, hperm, hsites⟩ := exists_sites_eq g
  have hpromoted : (analyse g (ofGraph g)).sites.filter AllocationSite.canPromote =
      (as.filter fun a => Promotable g a).map fun a => site (ofGraph g) a.1 a.2 := by
    rw [hsites, filter_map]
    congr 1
    refine filter_congr fun a _ => ?_
    rw [Function.comp_apply, Bool.eq_iff_iff, decide_eq_true_iff]
    exact (describes_site g a).canPromote
  have hfiltered := hperm.filter fun a => decide (Promotable g a)
  refine ⟨?_, ⟨as, hperm, ?_⟩, ?_, ?_⟩
  · exact ⟨g.reachable, Graph.nodup_reachable g, Graph.mem_reachable_iff g, rfl⟩
  · rw [hsites, forall₂_map_right_iff, forall₂_same]
    exact fun a _ => describes_site g a
  · change (((analyse g (ofGraph g)).sites.filter AllocationSite.canPromote).length : Int) = _
    rw [hpromoted, length_map, hfiltered.length_eq]
  · change (((analyse g (ofGraph g)).sites.filter AllocationSite.canPromote).filterMap
      AllocationSite.bytes).foldl (· + ·) 0 = _
    have hsized : ∀ a ∈ (as.filter fun a => Promotable g a).map
        fun a => site (ofGraph g) a.1 a.2, a.bytes.isSome := by
      intro b hb
      obtain ⟨a, ha, rfl⟩ := mem_map.mp hb
      obtain ⟨n, hn⟩ := (of_decide_eq_true (mem_filter.mp ha).2).2
      exact Option.isSome_iff_exists.mpr ⟨n, hn⟩
    rw [hpromoted, filterMap_bytes _ hsized, map_map]
    exact (hfiltered.map fun a => a.2.size.getD 0).foldl_eq (f := (· + ·)) 0

/-- The reasons of an allocation are exactly those that paths of aliases and holders give, the
report counts what the reasons leave over, and nothing is missing for it when the statements have
their parts. -/
theorem report_of_paths :
    (∀ s r, r ∈ (ofGraph g).escapeReasons s ↔ EscapesFor g s r) ∧
      (missing? g = none ↔ ∀ s ∈ g.statements, HasParts s) ∧
      Reports g (analyse g (ofGraph g)) :=
  ⟨mem_escapeReasons_iff g, missing?_eq_none_iff g, reports_analyse g⟩

end Escape
end Readiness
