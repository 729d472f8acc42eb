import Readiness.Proofs.Outcome
import Readiness.Report.History

/-!
# How reading a report fails

`faults_of_reading`: besides format faults, which name the line in a history, there are
faults of parts that are not checked, and integers that are too long to be read or written.
-/

namespace Readiness

/-- A value that holds neither members nor words. -/
def Json.IsBare : Json → Prop
  | .bool _ | .int _ | .float _ => True
  | _ => False

namespace Report

variable {α β : Type} {P : DocumentFault → Prop}

/-- The figures that are doubles, by their sections. -/
def realFigures : List (Analysis × String) :=
  [(.specialisation, "specialization_factor"), (.constants, "reduction_pct")]

/-- Where a document makes reading fail with something other than a format fault. -/
inductive Unchecked (doc : Json) : DocumentFault → Prop
  | bareSection {a : Analysis} {part : Json} :
    ((doc.get? "analyses").getD (.obj [])).get? a.word = some part → part.IsBare →
      Unchecked doc .bareSection
  | bareFailures {part : Json} : doc.get? "failures" = some part → part.IsBare ∨ part = .null →
      Unchecked doc .bareFailures
  | tooLarge {a : Analysis} {part : Json} {key : String} {i : Int} : (a, key) ∈ realFigures →
    ((doc.get? "analyses").getD (.obj [])).get? a.word = some part →
      part.get? key = some (.int i) → (Decimal.ofInt i).isInf = true → Unchecked doc .tooLarge
  | score {i : Int} : doc.get? "score" = some (.int i) → Decimal.isWritable i = false →
      Unchecked doc .unwritable
  | timestamp {part : Json} : doc.get? "timestamp" = some part → part.isWritable = false →
      Unchecked doc .unwritable

variable {read : Json → Reading α}
variable {read : Json → Reading α}

theorem get?_of_intField {place key : String} {doc : Json} {i : Int}
    (h : intField place doc key = .ok i) : doc.get? key = some (.int i) := by
  unfold intField fieldOf at h
  split at h
  · cases h
  · rename_i value hvalue
    cases value with
    | int j =>
      cases h
      exact hvalue
    | _ => cases h

section Checked

variable (hP : ∀ fault, P (.format fault)) (place : String) (doc : Json) (key : String)
include hP

theorem fails_format (fault : FormatFault) : Fails P (.error (.format fault) : Reading α) := by
  rintro _ ⟨⟩
  exact hP fault

theorem fails_fieldOf {expected : String} {read? : Json → Option α} :
    Fails P (fieldOf place doc expected read? key) := by
  unfold fieldOf
  split
  · exact fails_format hP _
  · split
    · exact fails_ok
    · exact fails_format hP _

theorem fails_floatField (hlarge : ∀ i, doc.get? key = some (.int i) →
    (Decimal.ofInt i).isInf = true → P .tooLarge) : Fails P (floatField place doc key) := by
  unfold floatField
  split
  · rename_i i hi
    split
    · rename_i hinf
      rintro _ ⟨⟩
      exact hlarge i hi hinf
    · exact fails_ok
  · exact fails_fieldOf hP place doc key

omit place key in
theorem fails_scoreOf (hlong : ∀ i, doc.get? "score" = some (.int i) →
    Decimal.isWritable i = false → P .unwritable) : Fails P (scoreOf doc) := by
  intro f hf
  rcases error_of_bind hf with hf | ⟨i, hi, hf⟩
  · exact fails_fieldOf hP _ doc _ f hf
  · split at hf
    · cases hf
    · cases hf
      split
      · exact hP _
      · rename_i hwritable
        exact hlong i (get?_of_intField hi) (Bool.eq_false_iff.mpr hwritable)

omit place key in
theorem fails_failureOf : Fails P (failureOf doc) :=
  (fails_fieldOf hP _ doc _).bind fun _ => (fails_fieldOf hP _ doc _).bind fun _ => fails_ok

end Checked

/-- A section fails as its reader does, or because it is bare. -/
theorem fails_sectionOf {analyses : Json} {a : Analysis}
    (hread : ∀ part, analyses.get? a.word = some part → Fails P (read part))
    (hbare : ∀ part, analyses.get? a.word = some part → part.IsBare → P .bareSection) :
    Fails P (sectionOf read analyses a) := by
  unfold sectionOf
  split
  · exact fails_ok
  · exact fails_ok
  · rename_i part hnull hget
    refine Fails.bind ?_ fun told => ?_
    · unfold tellsFailure
      split
      · exact fails_ok
      · exact fails_ok
      · exact fails_ok
      · rintro _ ⟨⟩
        refine hbare part hget ?_
        cases part <;> simp_all [Json.IsBare]
    · split
      · exact fails_ok
      · exact (hread part hget).bind fun _ => fails_ok

theorem fails_failureItems {part? : Option Json}
    (h : ∀ part, part? = some part → part.IsBare ∨ part = .null → P .bareFailures) :
    Fails P (failureItems part?) := by
  unfold failureItems
  split
  · exact fails_ok
  · exact fails_ok
  · exact fails_ok
  · exact fails_ok
  · rename_i part _ _ _
    rintro _ ⟨⟩
    refine h part rfl ?_
    cases part <;> simp_all [Json.IsBare]

theorem fails_timestampOf {doc : Json} (h : ∀ part, doc.get? "timestamp" = some part →
    part.isWritable = false → P .unwritable) : Fails P (timestampOf doc) := by
  unfold timestampOf
  split
  · exact fails_ok
  · rename_i part hget
    split
    · exact fails_ok
    · rename_i hwritable
      rintro _ ⟨⟩
      exact h part hget (Bool.eq_false_iff.mpr hwritable)

/-- What reading a document may fail with. -/
def Expected (doc : Json) (f : DocumentFault) : Prop := (∃ fault, f = .format fault) ∨ Unchecked doc f

theorem fails_ofDocument (doc : Json) : Fails (Expected doc) (ofDocument doc) := by
  have hP : ∀ fault, Expected doc (.format fault) := fun fault => .inl ⟨fault, rfl⟩
  have hfield : ∀ {α : Type} {place expected key : String} {read? : Json → Option α} (part : Json),
      Fails (Expected doc) (fieldOf place part expected read? key) :=
    fun part => fails_fieldOf hP _ part _
  have hsection : ∀ {α : Type} {read : Json → Reading α} (a : Analysis),
      (∀ part, (∀ key i, (a, key) ∈ realFigures → part.get? key = some (.int i) →
        (Decimal.ofInt i).isInf = true → Expected doc .tooLarge) → Fails (Expected doc) (read part)) →
      Fails (Expected doc) (sectionOf read ((doc.get? "analyses").getD (.obj [])) a) :=
    fun a hread => fails_sectionOf
      (fun part hget => hread part fun key i hkey hint hinf => .inr (.tooLarge hkey hget hint hinf))
      fun part hget hbare => .inr (.bareSection hget hbare)
  unfold ofDocument
  split
  · refine (hfield _).bind fun listed => ?_
    split
    · dsimp only
      split
      · refine (hsection _ fun part hlarge => ?_).bind fun _ => ?_
        · refine (fails_floatField hP _ _ _ fun i => hlarge _ i (by decide)).bind fun factor => ?_
          split
          · exact fails_format hP _
          · exact (hfield part).bind fun _ => fails_ok
        refine (hsection _ fun part _ => (hfield part).bind fun _ => (hfield part).bind fun _ =>
          (hfield part).bind fun _ => fails_ok).bind fun _ => ?_
        refine (hsection _ fun part _ => (hfield part).bind fun _ => (hfield part).bind fun _ =>
          fails_ok).bind fun _ => ?_
        refine (hsection _ fun part hlarge => (hfield part).bind fun _ => (fails_floatField hP _ _ _
          fun i => hlarge _ i (by decide)).bind fun _ => fails_ok).bind fun _ => ?_
        refine (hsection _ fun part _ => (hfield part).bind fun _ => (hfield part).bind fun _ =>
          (hfield part).bind fun _ => fails_ok).bind fun _ => ?_
        refine (fails_failureItems fun part hget hpart =>
          .inr (.bareFailures hget hpart)).bind fun items => ?_
        refine (Fails.mapM (fails_failureOf hP) items).bind fun _ => ?_
        refine (fails_scoreOf hP _ fun i hi hlong => .inr (.score hi hlong)).bind fun _ => ?_
        refine (hfield _).bind fun _ => (hfield _).bind fun _ => Fails.bind ?_ fun _ => fails_ok
        exact fails_timestampOf fun part hget hlong => .inr (.timestamp hget hlong)
      · exact fails_format hP _
    · exact fails_format hP _
  · exact fails_format hP _

end Report

namespace History

open Report (Unchecked)

/-- What makes a line of a history fail with something other than a format fault: its report, or an
integer that is too long to be read. -/
inductive Obstructs (line : Text) : DocumentFault → Prop
  | report {doc : Json} {fault : DocumentFault} : Json.read line = .ok doc →
    Unchecked ((doc.get? "report").getD .null) fault → Obstructs line fault
  | longInteger {e : Json.ReadError} {digits : Nat} : Json.read line = .error e →
    e.fault = .longInteger digits → Obstructs line (.longInteger digits)

theorem obstructs_of_recordOf {key : Option Text} {line : Text} {fault : DocumentFault}
    (h : recordOf key line = .error (.inr fault)) : Obstructs line fault := by
  unfold recordOf at h
  cases hread : Json.read line with
  | error e =>
    simp only [hread] at h
    split at h
    · rename_i digits hfault
      cases h
      exact .longInteger hread hfault
    · cases h
  | ok doc =>
    simp only [hread] at h
    split at h
    · split at h
      · cases h
      · split at h
        · cases h
        · split at h
          · cases h
          · cases h
          · rename_i fault' hother hreport
            cases h
            refine .report hread ?_
            rcases Report.fails_ofDocument _ _ hreport with ⟨format, rfl⟩ | hunchecked
            · exact absurd rfl (hother format)
            · exact hunchecked
    · cases h

/-- Reading lines fails at one of them, with its number if it is a format fault. -/
theorem exists_line_of_recordsOf {path : String} {key : Option Text} {e : HistoryFault} :
    ∀ {lines : List Text} {number : Nat}, recordsOf path key number lines = .error e →
      ∃ i line, lines[i]? = some line ∧
        ((∃ fault, e = .line path (number + i) fault ∧ recordOf key line = .error (.inl fault)) ∨
          ∃ fault, e = .document fault ∧ Obstructs line fault)
  | [], _, h => nomatch h
  | line :: rest, number, h => by
    have hlater (hrest : recordsOf path key (number + 1) rest = .error e) :
        ∃ i l, (line :: rest)[i]? = some l ∧
          ((∃ fault, e = .line path (number + i) fault ∧ recordOf key l = .error (.inl fault)) ∨
            ∃ fault, e = .document fault ∧ Obstructs l fault) := by
      obtain ⟨i, l, hl, hfault⟩ := exists_line_of_recordsOf hrest
      rw [Nat.add_assoc, Nat.add_comm 1] at hfault
      exact ⟨i + 1, l, hl, hfault⟩
    rw [recordsOf] at h
    split at h
    · exact hlater h
    · split at h
      · rename_i fault hline
        cases h
        exact ⟨0, line, rfl, .inl ⟨fault, rfl, hline⟩⟩
      · rename_i fault hline
        cases h
        exact ⟨0, line, rfl, .inr ⟨fault, rfl, obstructs_of_recordOf hline⟩⟩
      · exact hlater h
      · cases hrest : recordsOf path key (number + 1) rest with
        | ok records =>
          rw [hrest] at h
          cases h
        | error e' =>
          rw [hrest] at h
          cases h
          exact hlater hrest

/-- Reading a report fails with a format fault, unless a section or the failures are bare, a share
is an integer that no double can hold, or a number is too long to be written.  Reading a history
fails at one of its lines: with a format fault that names the line, unless the report of the line is
such a document or the line holds an integer that is too long. -/
theorem faults_of_reading (doc : Json) (path : String) (text : Text) (key : Option Text) :
    (∀ f, Report.ofDocument doc = .error f → (∃ fault, f = .format fault) ∨ Unchecked doc f) ∧
    ∀ e, read path (some text) key = .error e → ∃ i line, text.lines[i]? = some line ∧
      ((∃ fault, e = .line (FileName.normal path) (i + 1) fault ∧
          recordOf key line = .error (.inl fault)) ∨
        ∃ fault, e = .document fault ∧ Obstructs line fault) := by
  refine ⟨Report.fails_ofDocument doc, fun e h => ?_⟩
  obtain ⟨i, line, hline, hfault⟩ := exists_line_of_recordsOf h
  rw [Nat.add_comm 1] at hfault
  exact ⟨i, line, hline, hfault⟩

/-- A document with a number in place of a section. -/
def bareDocument : Json := .obj [("issues", .arr []), ("analyses", .obj [("escapes", .int 5)])]

theorem bareDocument_faults :
    Report.ofDocument bareDocument = .error .bareSection ∧ Unchecked bareDocument .bareSection := by
  have hread : Report.ofDocument bareDocument = .error .bareSection := rfl
  obtain ⟨fault, hfault⟩ | hunchecked := (faults_of_reading _ "" .empty none).1 _ hread
  · cases hfault
  · exact ⟨hread, hunchecked⟩

end History
end Readiness
