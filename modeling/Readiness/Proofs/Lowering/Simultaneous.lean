import Readiness.Proofs.Lowering.Meaning

/-!
# Assigning several names at once

Lowering hands names on as they are and copies one after the other, so a copy reads
what the copies before it have written.

`origin` says which of the values before the copies a name has after them
(`run_copies`).  `lowering_copies_in_order` says that lowering adds exactly the copies, and that
they assign simultaneously, whatever the values and repeated targets included, just when every copy
whose result stays reads a name that has its own value at that moment.
-/

namespace Readiness

open Source (Expr)
open Graph (Statement Operand Location)
open List

def Graph.Operand.via (source : String → Operand) : Operand → Operand
  | .var y => source y
  | o => o

variable {ts es : List Expr}

namespace Lowering

/-! ### Copies in order -/

abbrev MoveList := List (String × Operand)

def copies (place : Location) : Nat → MoveList → List Statement
  | _, [] => []
  | i, (x, o) :: moves => copy place i x o :: copies place (i + 1) moves

def lastSource? (moves : MoveList) (x : String) : Option Operand :=
  (moves.reverse.find? fun move => move.1 == x).map Prod.snd

/-- What a name has been copied from after copies one after the other. -/
def origin (moves : MoveList) : String → Operand :=
  moves.foldl (fun source move => Function.update source move.1 (move.2.via source)) .var

section Copies

variable {moves after : MoveList} {x y : String} {o : Operand}

theorem length_copies (place : Location) (i : Nat) :
    (copies place i moves).length = moves.length := by
  induction moves generalizing i with
  | nil => rfl
  | cons move moves ih => simp [copies, ih]

theorem copies_append (place : Location) (i : Nat) (before : MoveList) :
    copies place i (before ++ after) =
      copies place i before ++ copies place (i + before.length) after := by
  induction before generalizing i with
  | nil => rfl
  | cons move before ih => simp [copies, ih, Nat.add_assoc, Nat.add_comm 1]

theorem lastSource?_concat :
    lastSource? (moves ++ [(y, o)]) x = if y = x then some o else lastSource? moves x := by
  by_cases hyx : y = x <;> simp [lastSource?, hyx]

theorem origin_concat : origin (moves ++ [(y, o)]) =
    Function.update (origin moves) y (o.via (origin moves)) := foldl_append

/-- Copies to other names change neither the source of a name nor where its value is from. -/
theorem append_of_forall_ne (before : MoveList) (h : ∀ move ∈ after, move.1 ≠ x) :
    lastSource? (before ++ after) x = lastSource? before x ∧
      origin (before ++ after) x = origin before x := by
  induction after using List.reverseRecOn with
  | nil => simp
  | append_singleton after move ih =>
    obtain ⟨y, o⟩ := move
    have hyx : y ≠ x := h _ mem_concat_self
    obtain ⟨hsource, horigin⟩ := ih fun move hmove => h move (mem_append_left _ hmove)
    rw [← append_assoc, lastSource?_concat, origin_concat, if_neg hyx,
      Function.update_of_ne hyx.symm]
    exact ⟨hsource, horigin⟩

/-- The last copy to a name decides. -/
theorem append_cons_of_forall_ne (before : MoveList) (o : Operand)
    (h : ∀ move ∈ after, move.1 ≠ x) :
    lastSource? (before ++ (x, o) :: after) x = some o ∧
      origin (before ++ (x, o) :: after) x = o.via (origin before) := by
  rw [append_cons]
  obtain ⟨hsource, horigin⟩ := append_of_forall_ne (before ++ [(x, o)]) h
  rw [hsource, horigin, lastSource?_concat, origin_concat, if_pos rfl, Function.update_self]
  exact ⟨rfl, rfl⟩

/-- Either no copy has a name as its target or one of them is the last. -/
theorem forall_ne_or_exists_last (moves : MoveList) (x : String) :
    (∀ move ∈ moves, move.1 ≠ x) ∨
      ∃ before o after, moves = before ++ (x, o) :: after ∧ ∀ move ∈ after, move.1 ≠ x := by
  induction moves with
  | nil => exact .inl nofun
  | cons move moves ih =>
    rcases ih with hne | ⟨before, o, after, rfl, hafter⟩
    · by_cases hx : move.1 = x
      · exact .inr ⟨[], move.2, moves, by rw [← hx]; rfl, hne⟩
      · exact .inl (forall_mem_cons.2 ⟨hx, hne⟩)
    · exact .inr ⟨move :: before, o, after, rfl, hafter⟩

/-- Copies in order give every name the value that its origin had before them. -/
theorem run_copies {V : Type} (m : Meaning V) (env : Env V) (place : Location) (i : Nat)
    (moves : MoveList) (x : String) :
    m.run env (copies place i moves) x = m.read env (origin moves x) := by
  induction moves using List.reverseRecOn generalizing x with
  | nil => rfl
  | append_singleton moves move ih =>
    obtain ⟨y, o⟩ := move
    have hread : m.read (m.run env (copies place i moves)) o =
        m.read env (o.via (origin moves)) := by
      cases o with
      | var z => exact ih z
      | const v | global z e => rfl
    rw [copies_append, copies, copies, Meaning.run_concat, Meaning.step_of_target rfl,
      result_copy, origin_concat, hread]
    by_cases hxy : x = y
    · rw [hxy, Function.update_self, Function.update_self]
    · rw [Function.update_of_ne hxy, Function.update_of_ne hxy, ih]

end Copies

/-! ### Copies at once -/

/-- Every copy whose result stays reads a name that has its own value at that moment. -/
def Undisturbed (moves : MoveList) : Prop :=
  ∀ before x y after, moves = before ++ (x, .var y) :: after →
    (∀ move ∈ after, move.1 ≠ x) → origin before y = .var y

/-- Every name is copied from its last source as that was before the copies. -/
theorem origin_eq_iff (moves : MoveList) :
    (∀ x, origin moves x = (lastSource? moves x).getD (.var x)) ↔ Undisturbed moves := by
  constructor
  · rintro h before x y after rfl hafter
    obtain ⟨hsource, horigin⟩ := append_cons_of_forall_ne before (.var y) hafter
    have hx := h x
    rw [hsource, horigin] at hx
    exact hx
  · intro h x
    rcases forall_ne_or_exists_last moves x with hne | ⟨before, o, after, rfl, hafter⟩
    · obtain ⟨hsource, horigin⟩ := append_of_forall_ne [] hne
      rw [nil_append] at hsource horigin
      rw [hsource, horigin]
      rfl
    · obtain ⟨hsource, horigin⟩ := append_cons_of_forall_ne before o hafter
      rw [hsource, horigin]
      cases o with
      | var y => exact h before x y after rfl hafter
      | const v | global y e => rfl

/-- The interpretation whose values are the operands themselves. -/
def symbolic : Meaning Operand where
  constant := .const
  outside := .global
  holds _ := true
  binary _ v _ := v
  unary _ v := v
  comparison _ v _ := v
  item v _ := v
  slice v _ _ := v
  tuple _ := .const .none
  other _ _ := .const .none

theorem symbolic_read (o : Operand) : symbolic.read .var o = o := by
  cases o <;> rfl

/-- The copies assign simultaneously in every interpretation just when they do so for operands. -/
theorem run_copies_simultaneous_iff (place : Location) (i : Nat) (moves : MoveList) :
    (∀ (V : Type) (m : Meaning V) env x, m.run env (copies place i moves) x =
      m.read env ((lastSource? moves x).getD (.var x))) ↔ Undisturbed moves := by
  rw [← origin_eq_iff]
  constructor
  · intro h x
    have hx := h Operand symbolic .var x
    rwa [run_copies, symbolic_read, symbolic_read] at hx
  · intro h V m env x
    rw [run_copies, h x]

/-! ### Lowering -/

section Assignments

variable {c : Context} {b : Builder}

variable (c b)

def atom? : Expr → Option Operand
  | .constant _ v => some (.const v)
  | .name _ id _ => some (resolve c b id)
  | _ => none

def target? : Expr → Option String
  | .name _ id _ => localName? c b id
  | _ => none

/-- The copies from constants and names to local names. -/
def moves? : List Expr → List Expr → Option MoveList
  | [], [] => some []
  | t :: ts, e :: es => do
    let x ← target? c b t
    let o ← atom? c b e
    let moves ← moves? ts es
    return (x, o) :: moves
  | _, _ => none

variable {c b}

theorem lowerExpr_atom {e : Expr} {o : Operand} (h : atom? c b e = some o) (room : Nat) :
    lowerExpr (room + 1) e c b = .ok (o, b) := by
  cases e with
  | constant p v =>
    cases h
    rfl
  | name p id context =>
    cases h
    exact (bind_of_eq_ok (placeOf_eq c b p)).trans (load_eq c b id)
  | _ => cases h

variable {moves : MoveList}

/-- A move comes from a target and a source. -/
theorem moves?_cons {t e : Expr} (h : moves? c b (t :: ts) (e :: es) = some moves) :
    ∃ x o rest, target? c b t = some x ∧ atom? c b e = some o ∧ moves? c b ts es = some rest ∧
      moves = (x, o) :: rest := by
  simp only [moves?, Option.bind_eq_bind, Option.bind_eq_some_iff] at h
  obtain ⟨x, hx, o, ho, rest, hrest, hmoves⟩ := h
  exact ⟨x, o, rest, hx, ho, hrest, (Option.some.inj hmoves).symm⟩

theorem mapM_atoms (h : moves? c b ts es = some moves) (room : Nat) :
    es.mapM (lowerExpr (room + 1)) c b = .ok (moves.map Prod.snd, b) := by
  fun_induction moves? c b ts es generalizing moves with
  | case1 =>
    cases h
    rfl
  | case2 t ts e es ih =>
    obtain ⟨x, o, rest, -, ho, hrest, rfl⟩ := moves?_cons h
    rw [mapM_cons, bind_of_eq_ok (lowerExpr_atom ho room), bind_of_eq_ok (ih hrest)]
    rfl
  | case3 => cases h

/-- Assigning one by one adds the copies; names stand for the same local names all along. -/
theorem forM_assign {b' : Builder} (h : moves? c b ts es = some moves)
    (hb' : ∀ id, localName? c b' id = localName? c b id) (lower : Expr → Lower Operand)
    (place : Location) :
    ((ts.zip (moves.map Prod.snd)).forM fun (t, o) => assign lower place false t o) c b' =
      .ok ((), b'.adding b'.temporaries (copies place b'.index moves)) := by
  fun_induction moves? c b ts es generalizing moves b' with
  | case1 =>
    cases h
    rfl
  | case2 t ts e es ih =>
    obtain ⟨x, o, rest, hx, -, hrest, rfl⟩ := moves?_cons h
    have hassign : assign lower place false t o c b' =
        .ok ((), b'.adding b'.temporaries [copy place b'.index x o]) := by
      cases t with
      | name p id context =>
        have hid : localName? c b' id = some x := (hb' id).trans hx
        change store id o place false c b' = _
        rw [store_eq hid, storeLocal_eq]
        rfl
      | _ => cases hx
    have hnames : ∀ id, localName? c (b'.adding b'.temporaries [copy place b'.index x o]) id =
        localName? c b id := hb'
    refine (bind_of_eq_ok hassign).trans ((ih hrest hnames).trans ?_)
    exact congrArg (fun b => Except.ok ((), b)) (adding_append b' _ _ [_] _).symm
  | case3 => cases h

/-- Lowering an assignment of names and constants to as many local names adds one copy for each, in
order, and nothing else.  Each name then has the value of its origin.  The copies assign
simultaneously, giving each name the value that its last source had before and leaving the others
alone, if and only if every copy whose result stays reads a name that has its own value then. -/
theorem lowering_copies_in_order {t v : Expr} {ts vs : List Expr} {moves : MoveList}
    (hdisplays : parallel? [t] v = some (ts, vs)) (hmoves : moves? c b ts vs = some moves)
    (p : Source.Place) (room : Nat) :
    ∃ ss, lowerStmt (room + 2) (.assign p [t] v) c b = .ok ((), b.adding b.temporaries ss) ∧
      ss.length = moves.length ∧
      (∀ (V : Type) (m : Meaning V) env x, m.run env ss x = m.read env (origin moves x)) ∧
      ((∀ (V : Type) (m : Meaning V) env x,
        m.run env ss x = m.read env ((lastSource? moves x).getD (.var x))) ↔
          Undisturbed moves) := by
  refine ⟨copies ⟨c.file, p.line + c.shift, p.column⟩ b.index moves, ?_, length_copies _ _, ?_, ?_⟩
  · refine (bind_of_eq_ok (placeOf_eq c b p)).trans ?_
    dsimp only
    rw [hdisplays]
    refine (bind_of_eq_ok (mapM_atoms hmoves room)).trans ?_
    exact forM_assign hmoves (fun _ => rfl) (lowerExpr (room + 1)) _
  · exact fun V m env x => run_copies m env _ _ moves x
  · exact run_copies_simultaneous_iff _ _ moves

end Assignments

def pair (first second : String) (context : Source.Context) : List Expr :=
  [.name ⟨1, 0, 0⟩ first context, .name ⟨1, 0, 0⟩ second context]

/-- The exchange `a, b = b, a`: its second copy reads what its first has written. -/
theorem exchange_copies_in_order :
    ∃ ss, lowerStmt 2 (.assign ⟨1, 0, 1⟩ [.tuple ⟨1, 0, 0⟩ (pair "a" "b" .store)]
          (.tuple ⟨1, 0, 0⟩ (pair "b" "a" .load))) (.ofLocals ["a", "b"]) .blank =
        .ok ((), Builder.blank.adding 0 ss) ∧
      (∀ (V : Type) (m : Meaning V) env,
        m.run env ss "a" = env "b" ∧ m.run env ss "b" = env "b") ∧
      ¬ ∀ (V : Type) (m : Meaning V) env x, m.run env ss x = m.read env
        ((lastSource? [("a", .var "b"), ("b", .var "a")] x).getD (.var x)) := by
  have hdisplays : parallel? [.tuple ⟨1, 0, 0⟩ (pair "a" "b" .store)]
      (.tuple ⟨1, 0, 0⟩ (pair "b" "a" .load)) =
        some (pair "a" "b" .store, pair "b" "a" .load) := rfl
  have hmoves : moves? (.ofLocals ["a", "b"]) .blank (pair "a" "b" .store) (pair "b" "a" .load) =
      some [("a", .var "b"), ("b", .var "a")] := rfl
  obtain ⟨ss, hrun, -, horigin, hiff⟩ := lowering_copies_in_order hdisplays hmoves ⟨1, 0, 1⟩ 0
  refine ⟨ss, hrun, fun V m env => ⟨horigin V m env "a", horigin V m env "b"⟩, fun h => ?_⟩
  have hread : Operand.var "b" = .var "a" := hiff.1 h [("a", .var "b")] "b" "a" [] rfl nofun
  exact absurd (Operand.var.inj hread) (by decide)

end Lowering
end Readiness
