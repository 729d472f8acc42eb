import Readiness.Proofs.Lowering.Rules

/-!
# Local names

An outline says in which scope each part of a function is evaluated.  The local names of a lowered
function are its parameters and the names that are bound where the walk for them looks, without
those declared to belong to an outer scope.  By the rule of the language the names bound in
comprehensions by assignment expressions, in hints of nested functions, in keywords of classes and
by patterns are local as well (`locals_of_lowerBody`).
-/

namespace Readiness.Source

open List

variable {l : Label} {x : String} {parts : List Outline}

/-- A label occurs in an outline; the scopes are those on the way from its root to the label. -/
inductive Outline.Occurs : Outline → List Scope → Label → Prop
  | here {label : Label} {children : List Outline} {scope : Scope} :
    Occurs (.node label children scope) [scope] label
  | inside {label l : Label} {children : List Outline} {scope : Scope} {o : Outline}
    {path : List Scope} : o ∈ children → Occurs o path l →
    Occurs (.node label children scope) (scope :: path) l

/-- Somewhere in the parts a label occurs in scopes of which a property holds. -/
def Has (parts : List Outline) (P : List Scope → Label → Prop) : Prop :=
  ∃ o ∈ parts, ∃ path label, o.Occurs path label ∧ P path label

theorem mem_visitedIn : l ∈ visitedIn parts ↔ ∃ o ∈ parts, o.scope = .around ∧ l ∈ o.visited := by
  induction parts with
  | nil => simp [visitedIn]
  | cons o rest ih =>
    rw [visitedIn, mem_append, ih, exists_mem_cons_iff]
    split <;> simp [*]

mutual

theorem Outline.occurs_of_mem_visited : ∀ o : Outline, o.scope = .around → l ∈ o.visited →
    ∃ path, o.Occurs path l ∧ ∀ s ∈ path, s = .around
  | .node label children scope, hscope, h => by
    rcases mem_cons.mp h with rfl | h
    · exact ⟨_, .here, forall_mem_singleton.mpr hscope⟩
    · obtain ⟨o, ho, path, hoccurs, hpath⟩ := occurs_of_mem_visitedIn children h
      exact ⟨_, .inside ho hoccurs, forall_mem_cons.mpr ⟨hscope, hpath⟩⟩

theorem occurs_of_mem_visitedIn : ∀ parts : List Outline, l ∈ visitedIn parts →
    ∃ o ∈ parts, ∃ path, o.Occurs path l ∧ ∀ s ∈ path, s = .around
  | [], h => nomatch h
  | o :: rest, h => by
    rw [visitedIn, mem_append] at h
    rcases h with h | h
    · split at h
      next hscope => exact ⟨o, mem_cons_self, o.occurs_of_mem_visited hscope h⟩
      next => cases h
    · obtain ⟨o', ho', hoccurs⟩ := occurs_of_mem_visitedIn rest h
      exact ⟨o', mem_cons_of_mem o ho', hoccurs⟩

end

theorem Outline.Occurs.mem_visited {o : Outline} {path : List Scope} (h : o.Occurs path l)
    (hpath : ∀ s ∈ path, s = .around) : o.scope = .around ∧ l ∈ o.visited := by
  induction h with
  | here => exact ⟨hpath _ mem_cons_self, mem_cons_self⟩
  | inside ho _ ih =>
    rw [forall_mem_cons] at hpath
    exact ⟨hpath.1, mem_cons_of_mem _ (mem_visitedIn.mpr ⟨_, ho, ih hpath.2⟩)⟩

/-- The walk finds what occurs in no scope but that of the parts. -/
theorem mem_flatMap_visitedIn (names : Label → List String) : x ∈ (visitedIn parts).flatMap names ↔
    Has parts fun path label => x ∈ names label ∧ ∀ s ∈ path, s = .around := by
  rw [mem_flatMap]
  constructor
  · rintro ⟨label, hlabel, hx⟩
    obtain ⟨o, ho, path, hoccurs, hpath⟩ := occurs_of_mem_visitedIn parts hlabel
    exact ⟨o, ho, path, label, hoccurs, hx, hpath⟩
  · rintro ⟨o, ho, path, label, hoccurs, hx, hpath⟩
    exact ⟨label, mem_visitedIn.mpr ⟨o, ho, hoccurs.mem_visited hpath⟩, hx⟩

/-- The rule of the language for what a label binds in the scope of a function.  Assignment
expressions bind out of comprehensions too. -/
def Binds (x : String) (path : List Scope) (label : Label) : Prop :=
  (x ∈ label.stores ∨ label = .capture (some x)) ∧ path ⊆ [.around, .besides] ∨
    label = .assigned x ∧ .inner ∉ path

/-- The places that the walk passes by. -/
def LeftOut (x : String) (path : List Scope) (label : Label) : Prop :=
  Binds x path label ∧ (label = .capture (some x) ∨ ∃ s ∈ path, s ≠ .around)

def Declares (x : String) (path : List Scope) (label : Label) : Prop :=
  x ∈ label.declares ∧ ∀ s ∈ path, s = .around

theorem has_binds_iff : Has parts (Binds x) ↔ x ∈ stored parts ∨ Has parts (LeftOut x) := by
  rw [stored, mem_flatMap_visitedIn]
  constructor
  · rintro ⟨o, ho, path, label, hoccurs, hbinds⟩
    by_cases hleft : label = .capture (some x) ∨ ∃ s ∈ path, s ≠ .around
    · exact .inr ⟨o, ho, path, label, hoccurs, hbinds, hleft⟩
    · rw [not_or, not_exists] at hleft
      have hpath : ∀ s ∈ path, s = .around := fun s hs => not_not.mp fun hne => hleft.2 s ⟨hs, hne⟩
      refine .inl ⟨o, ho, path, label, hoccurs, ?_, hpath⟩
      rcases hbinds with ⟨hx | hcapture, -⟩ | ⟨rfl, -⟩
      · exact hx
      · exact absurd hcapture hleft.1
      · exact mem_singleton_self x
  · rintro (⟨o, ho, path, label, hoccurs, hx, hpath⟩ | ⟨o, ho, path, label, hoccurs, hbinds, -⟩)
    · exact ⟨o, ho, path, label, hoccurs, .inl ⟨.inl hx, fun s hs => by simp [hpath s hs]⟩⟩
    · exact ⟨o, ho, path, label, hoccurs, hbinds⟩

end Readiness.Source

namespace Readiness.Lowering

open Source (Has Binds LeftOut Declares)
open List

/-- The rule of the language: parameters and names bound in the scope of a function are local,
unless they are declared to belong to an outer scope. -/
def IsLocalName (params : List String) (content : Image.Content) (x : String) : Prop :=
  (x ∈ params ∨ Has (contentOutlines content) (Binds x)) ∧
    ¬Has (contentOutlines content) (Declares x)

theorem mem_locals_ofBody {image : Image} {f : Image.Function} {body : Image.Body}
    {params : List String} {x : String} : x ∈ (Context.ofBody image f body params).locals ↔
      (x ∈ params ∨ x ∈ Source.stored (contentOutlines body.content)) ∧
        ¬Has (contentOutlines body.content) (Declares x) := by
  have hdeclared : x ∈ Source.declared (contentOutlines body.content) ↔
      Has (contentOutlines body.content) (Declares x) := Source.mem_flatMap_visitedIn _
  simp [Context.ofBody, hdeclared]

/-- The local names of a lowered function are those of the language without those that are bound
only in a place left out. -/
theorem locals_of_lowerBody {image : Image} {f : Image.Function} {body : Image.Body}
    {params : List String} {maxDepth : Option Nat} {l : Lowered}
    (h : lowerBody image f body params maxDepth = .ok l) (x : String) :
    (x ∈ l.locals ↔ (x ∈ params ∨ Has (contentOutlines body.content) fun path label =>
        x ∈ label.stores ∧ ∀ s ∈ path, s = .around) ∧
      ¬Has (contentOutlines body.content) (Declares x)) ∧
    (IsLocalName params body.content x ↔ x ∈ l.locals ∨
      Has (contentOutlines body.content) (LeftOut x) ∧
        ¬Has (contentOutlines body.content) (Declares x)) := by
  obtain ⟨final, -, rfl⟩ := lowerBody_eq_ok_iff.mp h
  rw [mem_locals_ofBody]
  refine ⟨by rw [Source.stored, Source.mem_flatMap_visitedIn], ?_⟩
  rw [IsLocalName, Source.has_binds_iff, ← or_and_right, or_assoc]

/-- A function whose second line assigns a name in a comprehension: `ys = [(t := x) for x in xs]`.
-/
def collecting : List Source.Stmt :=
  let name (id : String) (context : Source.Context) : Source.Expr := .name ⟨2, 0, 2⟩ id context
  [.assign ⟨2, 0, 2⟩ [name "ys" .store]
    (.listComp ⟨2, 0, 2⟩ (.named ⟨2, 0, 2⟩ "t" ⟨2, 0, 2⟩ (name "x" .load))
      [.mk (name "x" .store) (name "xs" .load) []])]

def collectingLowered : Except Refusal Lowered :=
  lowerBody .empty default ⟨.statements collecting, 0, 0⟩ ["xs"] none

/-- The name `t` is of the scope of the function, but not among its local names. -/
theorem collecting_locals : ∃ l, collectingLowered = .ok l ∧ l.locals = ["xs", "ys"] ∧
    IsLocalName ["xs"] (.statements collecting) "t" := by
  have hlocals : collectingLowered.toOption.map Lowered.locals = some ["xs", "ys"] := by
    decide +kernel
  obtain ⟨l, hlowered, hlocals⟩ := exists_ok_of_toOption hlocals
  refine ⟨l, hlowered, hlocals, (locals_of_lowerBody hlowered "t").2.mpr (.inr ⟨?_, ?_⟩)⟩
  · refine ⟨_, mem_cons_self, _, _, .inside (.tail _ (.head _)) (.inside (.head _)
      (.inside (.head _) .here)), .inr ⟨rfl, by decide⟩, .inr ⟨.comprehension, by decide, nofun⟩⟩
  · exact fun h => absurd ((Source.mem_flatMap_visitedIn Source.Label.declares).mpr h) (by decide)

end Readiness.Lowering
