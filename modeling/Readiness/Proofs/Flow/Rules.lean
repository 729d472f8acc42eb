import Mathlib.Data.List.Basic
import Readiness.Flow.Values

/-!
# What statements put into the relations

One lemma for each rule says which names it relates or marks: allocations and stores
relate an item to its holder, copies, loads and selections relate a value to its new name, and a
return marks its value.
-/

namespace Readiness.Flow
namespace Values

open Graph (Statement Operand)

variable {g : Graph} {v w : Values} {a : Statement} {n t : String}

theorem mem_of_add {α : Type} [DecidableEq α] (r : Relation α) (name other : String)
    (value x : α) :
    x ∈ (r.add name value).of other ↔ x ∈ r.of other ∨ other = name ∧ x = value := by
  unfold Relation.add
  dsimp only
  split
  · rename_i hold
    constructor
    · exact Or.inl
    · rintro (h | ⟨rfl, rfl⟩)
      · exact h
      · exact hold
  · by_cases hname : other = name
    · subst hname
      simp [Relation.of, Table.get?_set_self]
    · simp [Relation.of, Table.get?_set_of_ne _ hname, hname]

/-! ## Growth -/

/-- All that is related or marked on the left is so on the right. -/
structure Le (v w : Values) : Prop where
  aliases : ∀ n, ∀ x ∈ v.aliases.of n, x ∈ w.aliases.of n
  hold : ∀ n, ∀ x ∈ v.hold.of n, x ∈ w.hold.of n
  sinks : ∀ n, ∀ x ∈ v.sinks.of n, x ∈ w.sinks.of n

theorem le_refl (v : Values) : v.Le v := ⟨fun _ _ => id, fun _ _ => id, fun _ _ => id⟩

theorem Le.trans {u : Values} (h : u.Le v) (h' : v.Le w) : u.Le w :=
  ⟨fun n x hx => h'.aliases n x (h.aliases n x hx), fun n x hx => h'.hold n x (h.hold n x hx),
    fun n x hx => h'.sinks n x (h.sinks n x hx)⟩

theorem le_sink (v : Values) (o : Operand) (reason : EscapeReason) : v.Le (v.sink o reason) := by
  cases o with
  | var n =>
    refine ⟨fun _ _ => id, fun _ _ => id, ?_⟩
    intro m x hx
    exact (mem_of_add _ _ _ _ _).mpr (Or.inl hx)
  | const c | global n e => exact le_refl v

theorem le_aliasEdge (v : Values) (o : Operand) (target : Option String) :
    v.Le (v.aliasEdge o target) := by
  cases o with
  | var n =>
    cases target with
    | none => exact le_refl v
    | some t =>
      refine ⟨?_, fun _ _ => id, fun _ _ => id⟩
      intro m x hx
      exact (mem_of_add _ _ _ _ _).mpr (Or.inl hx)
  | const c | global n e => exact le_refl v

theorem le_holdEdge (v : Values) (item holder : Operand) : v.Le (v.holdEdge item holder) := by
  cases item with
  | var n =>
    cases holder with
    | var h =>
      refine ⟨fun _ _ => id, ?_, fun _ _ => id⟩
      intro m x hx
      exact (mem_of_add _ _ _ _ _).mpr (Or.inl hx)
    | const c | global h e => exact le_sink v (.var n) _
  | const c | global n e => exact le_refl v

theorem le_foldl {β : Type} {f : Values → β → Values}
    (hf : ∀ (v : Values) (x : β), v.Le (f v x)) (items : List β) :
    ∀ v : Values, v.Le (items.foldl f v) := by
  induction items with
  | nil => exact le_refl
  | cons x rest ih =>
    intro v
    exact (hf v x).trans (ih (f v x))

/-- What one step of a growing fold reaches is there at its end. -/
theorem attains_of_mem {β : Type} {f : Values → β → Values}
    (hf : ∀ (v : Values) (x : β), v.Le (f v x)) {P : Values → Prop}
    (hP : ∀ v w : Values, v.Le w → P v → P w) {x : β} (hx : ∀ v : Values, P (f v x))
    {items : List β} (hmem : x ∈ items) : ∀ v : Values, P (items.foldl f v) := by
  induction items with
  | nil => cases hmem
  | cons y rest ih =>
    intro v
    rcases List.mem_cons.mp hmem with rfl | hmem
    · exact hP _ _ (le_foldl hf rest (f v x)) (hx v)
    · exact ih hmem (f v y)

theorem le_heldBy (v : Values) (items : List Operand) (target : Option String) :
    v.Le (v.heldBy items target) := by
  cases target with
  | none => exact le_refl v
  | some t => exact le_foldl (fun v o => le_holdEdge v o _) items v

theorem le_sinkAll (v : Values) (items : List Operand) (reason : EscapeReason) :
    v.Le (v.sinkAll items reason) :=
  le_foldl (fun v o => le_sink v o reason) items v

theorem le_onCall (g : Graph) (v : Values) (s : Statement) (call : Graph.CallInfo) :
    v.Le (onCall g v s call) := by
  unfold onCall
  split
  · exact le_refl v
  · split
    · split
      · exact le_refl v
      · split
        · exact le_foldl (fun v o => le_aliasEdge v o _) _ v
        · exact le_heldBy v _ _
    · split
      · exact le_refl v
      · split
        · exact le_heldBy v _ _
        · exact le_sinkAll v _ _
    · split
      · exact le_refl v
      · rename_i receiver _
        dsimp only
        have hargs : v.Le (if isMutating call.calleeName then
            s.args.foldl (fun v o => v.holdEdge o receiver) v
            else if hasBuiltinType g receiver then v else v.sinkAll s.args .passedToCall) := by
          split
          · exact le_foldl (fun v o => le_holdEdge v o _) _ v
          · split
            · exact le_refl v
            · exact le_sinkAll v _ _
        split
        · exact hargs.trans (le_aliasEdge _ _ _)
        · exact hargs
    · exact le_sinkAll v _ _

theorem le_onAssignment (v : Values) (s : Statement) : v.Le (v.onAssignment s) := by
  unfold onAssignment
  split
  · split
    · exact le_holdEdge v _ _
    · split
      · exact le_sink v _ _
      · split
        · exact le_refl v
        · exact le_aliasEdge v _ _
  · exact le_refl v

theorem le_onStatement (g : Graph) (v : Values) (s : Statement) : v.Le (onStatement g v s) := by
  unfold onStatement
  split
  · exact le_heldBy v _ _
  · split
    · exact le_onCall g v s _
    · exact le_refl v
  · exact le_refl v
  · exact le_onAssignment v s
  · exact le_sinkAll v _ _
  · split
    · exact le_sinkAll v _ _
    · split
      · exact le_sinkAll v _ _
      · exact le_refl v

/-- What a statement adds whatever was there before is in the relations of its function. -/
theorem attains_of_mem_statements {P : Values → Prop} (hP : ∀ v w : Values, v.Le w → P v → P w)
    (ha : a ∈ g.statements) (hadd : ∀ v, P (onStatement g v a)) : P (ofGraph g) := by
  have hfold := attains_of_mem (le_onStatement g) hP hadd ha ⟨.empty, .empty, .empty, []⟩
  refine hP _ _ ?_ hfold
  exact ⟨fun _ _ => id, fun _ _ => id, fun _ _ => id⟩

/-! ## Single edges -/

theorem mem_aliases_aliasEdge (v : Values) (n t : String) :
    t ∈ (v.aliasEdge (.var n) (some t)).aliases.of n :=
  (mem_of_add _ _ _ _ _).mpr (Or.inr ⟨rfl, rfl⟩)

theorem mem_hold_holdEdge (v : Values) (n h : String) :
    h ∈ (v.holdEdge (.var n) (.var h)).hold.of n :=
  (mem_of_add _ _ _ _ _).mpr (Or.inr ⟨rfl, rfl⟩)

theorem mem_sinks_holdEdge (v : Values) (n : String) {holder : Operand}
    (h : holder.var? = none) : .storedOutward ∈ (v.holdEdge (.var n) holder).sinks.of n := by
  cases holder with
  | var m => cases h
  | const c | global m e => exact (mem_of_add _ _ _ _ _).mpr (Or.inr ⟨rfl, rfl⟩)

/-- An item is related to its holder, or marked when the holder is no local name. -/
def Held (v : Values) (n : String) : Operand → Prop
  | .var h => h ∈ v.hold.of n
  | _ => .storedOutward ∈ v.sinks.of n

theorem held_mono (holder : Operand) (v w : Values) (h : v.Le w) (hv : v.Held n holder) :
    w.Held n holder := by
  cases holder with
  | var m => exact h.hold n m hv
  | const c | global m e => exact h.sinks n _ hv

theorem held_holdEdge (v : Values) (n : String) (holder : Operand) :
    (v.holdEdge (.var n) holder).Held n holder := by
  cases holder with
  | var m => exact mem_hold_holdEdge v n m
  | const c | global m e => exact mem_sinks_holdEdge v n rfl

/-! ## Rules -/

section

variable (ha : a ∈ g.statements)
include ha

/-- A new value contains its operands. -/
theorem hold_of_allocation (hkind : a.kind = .allocation)
    (hn : .var n ∈ a.operands) (ht : a.target = some t) : t ∈ (ofGraph g).hold.of n := by
  refine attains_of_mem_statements (P := fun v => v.Held n (.var t)) (held_mono _) ha ?_
  intro v
  simp only [onStatement, hkind, heldBy, ht]
  exact attains_of_mem (fun v o => le_holdEdge v o _) (held_mono (.var t))
    (fun v => held_holdEdge v n (.var t)) hn v

/-- An assignment that is no store gives its first operand a new name. -/
theorem aliases_of_assignment (hkind : a.kind = .assignment)
    (hop : a.op = "copy" ∨ a.op = "load_attr") (hn : a.operands.head? = some (.var n))
    (ht : a.target = some t) : t ∈ (ofGraph g).aliases.of n := by
  refine attains_of_mem_statements (P := fun v => t ∈ v.aliases.of n)
    (fun v w h => h.aliases n t) ha ?_
  intro v
  cases hlast : a.operands.getLast? with
  | none =>
    rw [List.getLast?_eq_none_iff] at hlast
    simp [hlast] at hn
  | some last =>
    rcases hop with hop | hop <;>
      simpa [onStatement, hkind, onAssignment, hn, hlast, hop, ht] using
        mem_aliases_aliasEdge v n t

/-- A selection or an item has the operands as possible sources. -/
theorem aliases_of_selection {call : Graph.CallInfo} (hkind : a.kind = .call)
    (hcall : a.call = some call) (hfree : call.deallocates = false)
    (hdispatch : call.dispatch = .operator) (hop : a.op ∈ ["select", "and", "or", "[]"])
    (hn : .var n ∈ a.operands) (ht : a.target = some t) : t ∈ (ofGraph g).aliases.of n := by
  have hselect : isSelecting a.op = true := by simpa [isSelecting] using hop
  have hdetached : isDetached a.op = false := by
    simp only [List.mem_cons, List.not_mem_nil, or_false] at hop
    rcases hop with hop | hop | hop | hop <;> rw [hop] <;> rfl
  refine attains_of_mem_statements (P := fun v => t ∈ v.aliases.of n)
    (fun v w h => h.aliases n t) ha ?_
  intro v
  simp only [onStatement, hkind, hcall, onCall, hfree, hdispatch, hdetached, hselect, ht, if_true,
    Bool.false_eq_true, if_false]
  exact attains_of_mem (P := fun v => t ∈ v.aliases.of n) (fun v o => le_aliasEdge v o _)
    (fun v w h => h.aliases n t) (fun v => mem_aliases_aliasEdge v n t) hn v

theorem held_of_store {base : Operand} (hkind : a.kind = .assignment)
    (hop : a.op = "store_attr" ∨ a.op = "store_item") (hbase : a.operands.head? = some base)
    (hn : a.operands.getLast? = some (.var n)) : (ofGraph g).Held n base := by
  refine attains_of_mem_statements (held_mono base) ha ?_
  intro v
  simp only [onStatement, hkind, onAssignment, hbase, hn, hop, if_true]
  exact held_holdEdge v n base

theorem held_of_mutation {call : Graph.CallInfo} {receiver : Operand} (hkind : a.kind = .call)
    (hcall : a.call = some call) (hfree : call.deallocates = false)
    (hdispatch : call.dispatch = .method) (hname : isMutating call.calleeName = true)
    (hreceiver : a.receiver? = some receiver) (hn : .var n ∈ a.args) :
    (ofGraph g).Held n receiver := by
  refine attains_of_mem_statements (held_mono receiver) ha ?_
  intro v
  have hargs := attains_of_mem (fun v o => le_holdEdge v o receiver) (held_mono receiver)
    (fun v => held_holdEdge v n receiver) hn v
  simp only [onStatement, hkind, hcall, onCall, hfree, hdispatch, hreceiver, hname, if_true,
    Bool.false_eq_true, if_false]
  split
  · exact held_mono receiver _ _ (le_aliasEdge _ _ _) hargs
  · exact hargs

theorem sinks_of_return (hkind : a.kind = .return_)
    (hn : a.operands.head? = some (.var n)) : .returned ∈ (ofGraph g).sinks.of n := by
  refine attains_of_mem_statements (P := fun v => .returned ∈ v.sinks.of n)
    (fun v w h => h.sinks n _) ha ?_
  intro v
  have hmem : .var n ∈ a.operands.take 1 := by
    cases hops : a.operands with
    | nil => simp [hops] at hn
    | cons first rest =>
      rw [hops, List.head?_cons] at hn
      simp [Option.some.inj hn]
  simp only [onStatement, hkind, sinkAll]
  exact attains_of_mem (P := fun v => .returned ∈ v.sinks.of n) (fun v o => le_sink v o _)
    (fun v w h => h.sinks n _) (fun v => (mem_of_add _ _ _ _ _).mpr (Or.inr ⟨rfl, rfl⟩)) hmem v

end

end Values
end Readiness.Flow
