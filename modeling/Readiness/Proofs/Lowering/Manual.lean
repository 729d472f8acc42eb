import Mathlib.Data.List.Forall2
import Readiness.Proofs.Lowering.Rules
import Readiness.Proofs.Lowering.Simultaneous
import Readiness.Proofs.Lowering.Values

/-!
# Lowering manual memory

Every statement of the body becomes one statement of the graph, in order
(`forM_lowerStmt`).  The graph has a single block between its entry and its exit
(`lowerBody_straight`).
-/

namespace Readiness.Lowering

open Source (Expr Stmt)
open Graph (Operand Location Statement)
open List

inductive MemoryAct
  | allocate (name : String)
  | release (name : String)
  deriving DecidableEq

variable {a : MemoryAct}

namespace MemoryAct

inductive Writes : MemoryAct → Stmt → Prop
  | allocate (p p₁ p₂ p₃ p₄ : Source.Place) (name : String) (size : Const) :
    Writes (.allocate name)
      (.assign p [.name p₁ name .store]
        (.call p₂ (.name p₃ "malloc" .load) [.constant p₄ size] []))
  | release (p p₁ p₂ p₃ : Source.Place) (name : String) :
    Writes (.release name)
      (.discard p (.call p₁ (.name p₂ "free" .load) [.name p₃ name .load] []))

theorem Writes.two_le_size {st : Stmt} (h : a.Writes st) : 2 ≤ st.outline.size := by
  cases h <;> simp [Stmt.outline, Expr.outline, Source.Outline.size, Source.sizes,
    Source.outlines]

/-- A statement of a flow graph does what an act says. -/
inductive Performs (s : Statement) : MemoryAct → Prop
  | allocate {name : String} {info : Graph.AllocationInfo} (kind : s.kind = .allocation)
    (allocation : s.allocation = some info) (manual : info.manual = true)
    (target : s.target = some name) : Performs s (.allocate name)
  | release {name : String} {info : Graph.CallInfo} (kind : s.kind = .call)
    (call : s.call = some info) (deallocates : info.deallocates = true)
    (args : s.args = [.var name]) : Performs s (.release name)

def name : MemoryAct → String
  | allocate n | release n => n

end MemoryAct

variable {o : Operand}

/-! ### Calls -/

section Calls

variable {c : Context} {b : Builder}

variable {e : Entity}

theorem called_name {f : String} (hf : resolve c b f = .global f e) (room : Nat) (p : Source.Place)
    (context : Source.Context) :
    called (lowerExpr (room + 1)) (.name p f context) c b = .ok (.value (.global f e), b) := by
  have hatom : atom? c b (.name p f context) = some (.global f e) := congrArg some hf
  exact bind_of_eq_ok (lowerExpr_atom hatom room)

theorem arguments_atom {a : Expr} (ha : atom? c b a = some o) (room : Nat) (place : Location) :
    arguments (lowerExpr (room + 1)) [a] [] place c b = .ok (([o], [], false), b) := by
  have hone : [a].mapM (item (lowerExpr (room + 1)) place) c b = .ok ([o], b) := by
    cases a with
    | starred => cases ha
    | _ => exact bind_of_eq_ok (lowerExpr_atom ha room)
  have hplain : [a].any isStarred = false := by
    cases a with
    | starred => cases ha
    | _ => rfl
  unfold arguments
  rw [bind_of_eq_ok hone, hplain]
  rfl

/-- A call of a name from outside with one constant or name as its argument. -/
theorem lowerExpr_call {f : String} {a : Expr} (hf : resolve c b f = .global f e)
    (ha : atom? c b a = some o) (room : Nat) (p p₁ : Source.Place) (context : Source.Context) :
    lowerExpr (room + 2) (.call p (.name p₁ f context) [a] []) c b =
      namedCall f e ⟨c.file, p.line + c.shift, p.column⟩ [a] [o] [] false c b := by
  refine (bind_of_eq_ok (placeOf_eq c b p)).trans ?_
  refine (bind_of_eq_ok (called_name hf room p₁ context)).trans ?_
  refine (bind_of_eq_ok (arguments_atom ha room _)).trans ?_
  rfl

theorem namedCall_free (he : e.class? = none) (place : Location) (args : List Expr) (o : Operand) :
    namedCall "free" e place args [o] [] false c b =
      .ok (.var (temporaryName (b.temporaries + 1)),
        b.plus [{ kind := .call, op := "free", location := place, index := b.index
                  target := some (temporaryName (b.temporaries + 1)), operands := [o]
                  call := some { dispatch := .static, calleeName := "free", callee := e
                                 deallocates := true } }]) := by
  have hshort : ClassRef.lastPart "free" = "free" := by decide
  have hmanual : manualAllocators.contains "free" = false := by decide
  have harray : arrayAllocators.contains "free" = false := by decide
  have hrelease : releaseFunctions.contains "free" = true := by decide
  unfold namedCall
  rw [hshort, hmanual, harray, he, hrelease]
  rfl

end Calls

/-! ### Statements -/

/-- Some names are local, `malloc` and `free` are not, and `free` is no class. -/
structure Context.Manages (c : Context) (names : List String) : Prop where
  locals : ∀ n ∈ names, n ∈ c.locals
  malloc : "malloc" ∉ c.locals
  free : "free" ∉ c.locals
  function : (outerValue c.image c.captured "free").class? = none

variable {room : Nat}

section Statements

variable {c : Context} {b : Builder}

theorem localName?_of_mem {id : String} (hrenames : b.renames = []) (h : id ∈ c.locals) :
    localName? c b id = some id := by
  simp [localName?, hrenames, h]

theorem resolve_of_notMem {id : String} (hrenames : b.renames = []) (h : id ∉ c.locals) :
    resolve c b id = .global id (outerValue c.image c.captured id) := by
  simp only [resolve, localName?, hrenames, findSome?_nil, contains_eq_mem, h,
    decide_false, Bool.false_eq_true, if_false]

/-- The value that has just been made is the last one. -/
theorem isLastValue_plus (hb : b.block < b.graph.blocks.size) {s : Statement}
    (hs : s.target = some (temporaryName (b.temporaries + 1))) :
    isLastValue (((b.plus [s]).graph.block (b.plus [s]).block).statements)
      (.var (temporaryName (b.temporaries + 1))) = true := by
  have hback : ((b.graph.addStatement b.block s).block b.block).statements.back? = some s := by
    rw [Graph.addStatement, Graph.block_modify, if_pos ⟨rfl, hb⟩, Array.back?_push]
  change isLastValue ((b.graph.addStatement b.block s).block b.block).statements _ = true
  unfold isLastValue
  rw [hback]
  simp [startsWith_temporaryName, hs]

/-- An assigned name takes the place of the fresh name under which the value has been made. -/
theorem lowerStmt_assign {name : String} {e : Expr} {s : Statement} (hrenames : b.renames = [])
    (hname : name ∈ c.locals) (hb : b.block < b.graph.blocks.size)
    (hs : s.target = some (temporaryName (b.temporaries + 1)))
    (he : lowerExpr room e c b = .ok (.var (temporaryName (b.temporaries + 1)), b.plus [s]))
    (p p₁ : Source.Place) :
    lowerStmt (room + 1) (.assign p [.name p₁ name .store] e) c b =
      .ok ((), b.plus [{ s with target := some name }]) := by
  have hlocal : localName? c (b.plus [s]) name = some name := localName?_of_mem hrenames hname
  have hstore (place : Location) :
      store name (.var (temporaryName (b.temporaries + 1))) place true c (b.plus [s]) =
        .ok ((), b.plus [{ s with target := some name }]) := by
    rw [store_eq hlocal, storeLocal_eq, isLastValue_plus hb hs]
    exact congrArg (fun b => Except.ok ((), b)) (retargeted_adding b _ [] s name)
  refine (bind_of_eq_ok (placeOf_eq c b p)).trans ?_
  refine (bind_of_eq_ok he).trans ?_
  exact bind_of_eq_ok (hstore _)

theorem lowerStmt_discard {e : Expr} {b' : Builder} (he : lowerExpr room e c b = .ok (o, b'))
    (p : Source.Place) : lowerStmt (room + 1) (.discard p e) c b = .ok ((), b') :=
  (bind_of_eq_ok (placeOf_eq c b p)).trans (bind_of_eq_ok he)

/-- Every act adds the statement that performs it. -/
theorem lowerStmt_act {names : List String} {st : Stmt} (hc : c.Manages names)
    (hrenames : b.renames = []) (hb : b.block < b.graph.blocks.size) (ha : a.name ∈ names)
    (hwrites : a.Writes st) (room : Nat) :
    ∃ s, lowerStmt (room + 3) st c b = .ok ((), b.plus [s]) ∧ a.Performs s ∧
      s.index = b.index := by
  cases hwrites with
  | allocate p p₁ p₂ p₃ p₄ name size =>
    have hname : name ∈ c.locals := hc.locals name ha
    have hcall := lowerExpr_call (resolve_of_notMem hrenames hc.malloc)
      (show atom? c b (.constant p₄ size) = some (.const size) from rfl) room p₂ p₃ .load
    exact ⟨_, lowerStmt_assign hrenames hname hb rfl hcall p p₁, .allocate rfl rfl rfl rfl, rfl⟩
  | release p p₁ p₂ p₃ name =>
    have hname : localName? c b name = some name :=
      localName?_of_mem hrenames (hc.locals name ha)
    have hatom : atom? c b (.name p₃ name .load) = some (.var name) := by
      rw [atom?, resolve, hname]
    have hcall := lowerExpr_call (resolve_of_notMem hrenames hc.free) hatom room p₁ p₂ .load
    rw [namedCall_free hc.function] at hcall
    exact ⟨_, lowerStmt_discard hcall p, .release rfl rfl rfl rfl, rfl⟩

inductive PerformsFrom : Nat → List MemoryAct → List Statement → Prop
  | nil (i : Nat) : PerformsFrom i [] []
  | cons {i : Nat} {a : MemoryAct} {s : Statement} {acts : List MemoryAct} {ss : List Statement}
    (performs : a.Performs s) (index : s.index = i) (rest : PerformsFrom (i + 1) acts ss) :
    PerformsFrom i (a :: acts) (s :: ss)

namespace PerformsFrom

variable {i : Nat} {acts : List MemoryAct} {ss : List Statement}

theorem length_eq (h : PerformsFrom i acts ss) : ss.length = acts.length := by
  induction h with
  | nil => rfl
  | cons _ _ _ ih => simp [ih]

theorem exists_performs (h : PerformsFrom i acts ss) : ∀ s ∈ ss, ∃ a : MemoryAct, a.Performs s := by
  induction h with
  | nil => simp
  | cons hperforms _ _ ih => exact forall_mem_cons.mpr ⟨⟨_, hperforms⟩, ih⟩

/-- Acts and statements stand at the same places. -/
theorem getElem? (h : PerformsFrom i acts ss) {j : Nat} (ha : acts[j]? = some a) :
    ∃ s, ss[j]? = some s ∧ a.Performs s ∧ s.index = (i + j : Nat) := by
  induction h generalizing j with
  | nil => cases ha
  | @cons i _ s _ _ hperforms hindex _ ih =>
    cases j with
    | zero =>
      cases ha
      exact ⟨s, rfl, hperforms, hindex⟩
    | succ j =>
      obtain ⟨s, hs, hperforms, hindex⟩ := ih ha
      exact ⟨s, hs, hperforms, by omega⟩

theorem pairwise_index (h : PerformsFrom i acts ss) :
    (∀ s ∈ ss, (i : Int) ≤ s.index) ∧ ss.Pairwise fun s t => s.index < t.index := by
  induction h with
  | nil => simp
  | @cons i _ s _ ss _ hindex _ ih =>
    have hlt : ∀ t ∈ ss, (i : Int) < t.index := fun t ht => by
      have := ih.1 t ht
      omega
    refine ⟨forall_mem_cons.mpr ⟨hindex.ge, fun t ht => (hlt t ht).le⟩, .cons ?_ ih.2⟩
    exact fun t ht => hindex ▸ hlt t ht

end PerformsFrom

/-- A body adds the statements that perform its acts. -/
theorem forM_lowerStmt {names : List String} {acts : List MemoryAct} {body : List Stmt}
    (hc : c.Manages names) (hwrites : List.Forall₂ MemoryAct.Writes acts body)
    (hacts : ∀ a ∈ acts, a.name ∈ names) (hroom : ∀ st ∈ body, 3 ≤ room) :
    ∀ {b : Builder}, b.renames = [] → b.block < b.graph.blocks.size →
      ∃ ss, body.forM (lowerStmt room) c b = .ok ((), b.plus ss) ∧
        PerformsFrom b.index acts ss := by
  induction hwrites with
  | nil => exact fun _ _ => ⟨[], rfl, .nil _⟩
  | @cons a st acts body hfirst _ ih =>
    intro b hrenames hb
    obtain ⟨room, rfl⟩ := Nat.exists_eq_add_of_le' (hroom st mem_cons_self)
    obtain ⟨s, hrun, hperforms, hindex⟩ :=
      lowerStmt_act hc hrenames hb (hacts a mem_cons_self) hfirst room
    obtain ⟨ss, hrest, hss⟩ := ih (fun a ha => hacts a (mem_cons_of_mem _ ha))
      (fun st hst => hroom st (mem_cons_of_mem _ hst)) (b := b.plus [s]) hrenames
      (by simpa [Builder.plus, Builder.adding] using hb)
    refine ⟨s :: ss, ?_, .cons hperforms hindex hss⟩
    rw [show s :: ss = [s] ++ ss from rfl, plus_append]
    exact (bind_of_eq_ok hrun).trans hrest

end Statements

/-! ### Bodies -/

/-- A graph with a single block between its entry and its exit. -/
structure Straight (g : Graph) (statements : List Statement) : Prop where
  edges : g.edges = #[⟨Graph.entry, 2, .fallThrough⟩, ⟨2, Graph.exit, .return_⟩]
  entry : g.statementsOf Graph.entry = []
  body : g.statementsOf 2 = statements
  exit : g.statementsOf Graph.exit = []

/-- The names that a body binds are those it allocates memory for. -/
theorem stored_bodyOutlines {acts : List MemoryAct} {body : List Stmt}
    (hwrites : List.Forall₂ MemoryAct.Writes acts body) :
    Source.declared (Source.bodyOutlines body) = [] ∧
      ∀ n, n ∈ Source.stored (Source.bodyOutlines body) ↔ .allocate n ∈ acts := by
  induction hwrites with
  | nil => exact ⟨rfl, fun n => iff_of_false nofun nofun⟩
  | @cons a st acts body hfirst _ ih =>
    cases hfirst with
    | allocate p p₁ p₂ p₃ p₄ name size =>
      have hstored : Source.stored (Source.bodyOutlines (.assign p [.name p₁ name .store]
          (.call p₂ (.name p₃ "malloc" .load) [.constant p₄ size] []) :: body)) =
            name :: Source.stored (Source.bodyOutlines body) := rfl
      refine ⟨ih.1, fun n => ?_⟩
      simpa [hstored] using or_congr_right (ih.2 n)
    | release p p₁ p₂ p₃ name => exact ⟨ih.1, fun n => (ih.2 n).trans (by simp)⟩

theorem two_le_sizes {acts : List MemoryAct} {body : List Stmt}
    (hwrites : List.Forall₂ MemoryAct.Writes acts body) (st : Stmt) (hst : st ∈ body) :
    2 ≤ Source.sizes (Source.bodyOutlines body) := by
  cases hwrites with
  | nil => cases hst
  | cons hfirst _ =>
    exact Nat.le_add_right_of_le hfirst.two_le_size

section Plus

variable (b : Builder) (ss : List Statement)

theorem graph_plus_cons (s : Statement) :
    (b.plus (s :: ss)).graph = ((b.plus [s]).plus ss).graph := rfl

theorem edges_plus : (b.plus ss).graph.edges = b.graph.edges := by
  induction ss generalizing b with
  | nil => rfl
  | cons s ss ih => exact (ih (b.plus [s])).trans rfl

theorem statementsOf_plus_of_ne {block : Nat} (hblock : block ≠ b.block) :
    (b.plus ss).graph.statementsOf block = b.graph.statementsOf block := by
  induction ss generalizing b with
  | nil => rfl
  | cons s ss ih =>
    rw [graph_plus_cons, ih (b.plus [s]) hblock]
    exact Graph.statementsOf_addStatement_of_ne _ _ hblock

theorem statementsOf_plus (hb : b.block < b.graph.blocks.size) :
    (b.plus ss).graph.statementsOf b.block = b.graph.statementsOf b.block ++ ss := by
  induction ss generalizing b with
  | nil => exact (append_nil _).symm
  | cons s ss ih =>
    have hsize : b.block < (b.plus [s]).graph.blocks.size := by
      simpa [Builder.plus, Builder.adding] using hb
    refine (ih (b.plus [s]) hsize).trans ?_
    rw [append_cons]
    exact congrArg (· ++ ss) (Graph.statementsOf_addStatement_self _ _ hb)

end Plus

theorem straight_opening (name : String) (params : List String) (ss : List Statement) :
    Straight (((Builder.opening name params).plus ss).graph.addEdge ⟨2, Graph.exit, .return_⟩)
      ss where
  edges := congrArg (Array.push · _) (edges_plus (.opening name params) ss)
  entry := statementsOf_plus_of_ne (.opening name params) ss (Nat.zero_ne_add_one 1)
  body := statementsOf_plus (.opening name params) ss (Nat.lt_add_one 2)
  exit := statementsOf_plus_of_ne (.opening name params) ss (Nat.ne_add_one 1)

def ending (place : Location) (index : Nat) : Statement :=
  { kind := .return_, op := "return", location := place, index, operands := [.const .none] }

section Bodies

variable {image : Image} {f : Image.Function} {body : Image.Body} {params : List String}
  {maxDepth : Option Nat}

variable {names : List String} {acts : List MemoryAct} {code : List Stmt}
  (hcode : body.content = .statements code) (hwrites : List.Forall₂ MemoryAct.Writes acts code)

include hcode hwrites in
theorem le_roomOf (hdepth : ∀ n, maxDepth = some n → 3 ≤ n) (st : Stmt) (hst : st ∈ code) :
    3 ≤ roomOf body maxDepth := by
  have hsize := two_le_sizes hwrites st hst
  cases maxDepth with
  | none => simpa [roomOf, hcode, contentOutlines] using hsize
  | some n => exact hdepth n rfl

/-- A body that does not return returns nothing at its end. -/
theorem content_of_forM {c : Context} {b b' : Builder}
    (h : code.forM (lowerStmt room) c b = .ok ((), b')) :
    ∃ place final, content room (.statements code) c b = .ok ((), final) ∧
      final.graph = (b'.graph.addStatement b'.block (ending place b'.index)).addEdge
        ⟨b'.block, Graph.exit, .return_⟩ :=
  ⟨_, _, bind_of_eq_ok h, rfl⟩

variable (hacts : ∀ a ∈ acts, a.name ∈ names) (hnames : ∀ n ∈ names, .allocate n ∈ acts)
  (houter : ∀ n ∈ ["malloc", "free"], n ∉ params ∧ n ∉ names)
  (hfree : (outerValue image (capturedBy image f) "free").class? = none)
include hcode hwrites hacts hnames houter hfree

theorem manages_ofBody : (Context.ofBody image f body params).Manages names := by
  obtain ⟨hnone, hstores⟩ := stored_bodyOutlines hwrites
  have hlocals : ∀ n, n ∈ (Context.ofBody image f body params).locals ↔
      n ∈ params ∨ .allocate n ∈ acts := by
    intro n
    simp [Context.ofBody, contentOutlines, hcode, hnone, hstores]
  have hnot : ∀ n ∈ ["malloc", "free"], n ∉ (Context.ofBody image f body params).locals := by
    intro n hn hmem
    rcases (hlocals n).mp hmem with hparam | hact
    · exact (houter n hn).1 hparam
    · exact (houter n hn).2 (hacts _ hact)
  exact ⟨fun n hn => (hlocals n).mpr (.inr (hnames n hn)), hnot _ (by simp), hnot _ (by simp),
    hfree⟩

/-- A function that only manages memory becomes one block of the statements that perform its acts,
up to the one that ends it. -/
theorem lowerBody_straight (hdepth : ∀ n, maxDepth = some n → 3 ≤ n) :
    ∃ l ss place, lowerBody image f body params maxDepth = .ok l ∧ PerformsFrom 0 acts ss ∧
      Straight l.graph (ss ++ [ending place ss.length]) := by
  have hc := manages_ofBody hcode hwrites hacts hnames houter hfree
  obtain ⟨ss, hrun, hss⟩ := forM_lowerStmt hc hwrites hacts (le_roomOf hcode hwrites hdepth)
    (b := .opening f.name params) rfl (Nat.lt_add_one 2)
  obtain ⟨place, final, hcontent, hgraph⟩ := content_of_forM hrun
  have hindex : ((Builder.opening f.name params).plus ss).index = ss.length := Nat.zero_add _
  rw [hindex] at hgraph
  refine ⟨_, ss, place, lowerBody_eq_ok_iff.mpr ⟨final, hcode ▸ hcontent, rfl⟩, hss, ?_⟩
  have hstraight := straight_opening f.name params (ss ++ [ending place ss.length])
  rw [plus_append] at hstraight
  exact hgraph ▸ hstraight

end Bodies

end Readiness.Lowering
