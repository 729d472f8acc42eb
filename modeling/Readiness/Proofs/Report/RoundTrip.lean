import Readiness.Proofs.Json.OneLine
import Readiness.Report.Document

/-!
# Reports survive their documents

Reading the document of a report gives the report without its findings, which has the
same document; a report that was read is read back as it is.
-/

namespace Readiness

open List

theorem Text.ofString_inj {s t : String} : Text.ofString s = Text.ofString t ↔ s = t := by
  constructor
  · intro h
    have hmap : s.toList.map Point.char = t.toList.map Point.char := congrArg Text.points h
    exact String.toList_inj.mp ((map_inj_right fun a b h => by injection h).mp hmap)
  · rintro rfl
    rfl

namespace Json

@[simp] theorem findMember?_cons (key k : Text) (v : Json) (rest : List (Text × Json)) :
    findMember? key ((k, v) :: rest) = if k = key then some v else findMember? key rest := by
  by_cases h : k = key <;> simp [findMember?, h]

end Json

theorem Analysis.word_injective : Function.Injective Analysis.word := by
  intro a b h
  cases a <;> cases b <;> first | rfl | exact absurd h (by decide)

variable {r : Report}

namespace Report

open Json (bind_eq_ok)

/-! ## The parts of a report that documents keep -/

def Specialisation.withoutFindings (s : Specialisation) : Specialisation :=
  { s with slots := [], instances := [] }

/-- Whether the share of concrete slots lies between zero and one. -/
def Specialisation.InRange (s : Specialisation) : Prop := 0.0 ≤ s.factor ∧ s.factor ≤ 1.0

def Escapes.withoutFindings (s : Escapes) : Escapes := { s with sites := [] }

/-- The section without the calls that it counts. -/
def Dispatches.withoutFindings (s : Dispatches) : Dispatches := { s with sites := [] }

/-- The section without its candidates and numbers of statements. -/
def Constants.withoutFindings (s : Constants) : Constants :=
  { s with candidates := [], eliminable := 0, total := 0 }

def Lifetimes.withoutFindings (s : Lifetimes) : Lifetimes := { s with events := [] }

/-- The report with the figures of its sections only. -/
def withoutFindings (r : Report) : Report :=
  { r with
    specialisation := r.specialisation.map Specialisation.withoutFindings
    escapes := r.escapes.map Escapes.withoutFindings
    dispatches := r.dispatches.map Dispatches.withoutFindings
    constants := r.constants.map Constants.withoutFindings
    lifetimes := r.lifetimes.map Lifetimes.withoutFindings }

/-- Whether the section on specialisation, if there is one, has a share between zero and one. -/
def InRange (r : Report) : Prop := ∀ s, r.specialisation = some s → s.InRange

/-! ## Sections -/

section Sections

variable {α : Type}

theorem get?_figures (summary : List (String × Quantity)) (key : String) :
    (figures summary).get? key = (summary.lookup key).map Quantity.toJson := by
  induction summary with
  | nil => rfl
  | cons entry rest ih =>
    obtain ⟨name, q⟩ := entry
    simp only [figures, Json.get?, map_cons, Json.findMember?_cons, Text.ofString_inj] at ih ⊢
    rw [lookup_cons, ih]
    by_cases h : name = key
    · subst h
      simp
    · have hne : (key == name) = false := by simpa using Ne.symm h
      simp [h, hne]

theorem tellsFailure_figures {summary : List (String × Quantity)}
    (h : summary.lookup "failed" = none) : tellsFailure (figures summary) = .ok false := by
  have hget : (figures summary).get? "failed" = none := by
    rw [get?_figures, h]
    rfl
  simpa [figures, Json.get?, Json.findMember?, tellsFailure, failedKey] using hget

section Fields

variable {place key : String} {doc : Json}

theorem fieldOf_of_get? {α : Type} {expected : String} {read? : Json → Option α} {v : Json} {a : α}
    (h : doc.get? key = some v) (hread : read? v = some a) :
    fieldOf place doc expected read? key = .ok a := by
  simp only [fieldOf, h, hread]

theorem floatField_of_get? {x : Float} (h : doc.get? key = some (.float x)) :
    floatField place doc key = .ok x := by
  simp only [floatField, h]
  exact fieldOf_of_get? h rfl

end Fields

/-- A section is written as figures that do not tell a failure and is read back from them as its
`bare` form, when it is `valid`; what is read is valid and bare. -/
structure Codec (summary : α → List (String × Quantity)) (read : Json → Reading α)
    (bare : α → α) (valid : α → Prop) : Prop where
  reads : ∀ s, valid s → read (figures (summary s)) = .ok (bare s)
  keeps : ∀ s, (summary s).lookup "failed" = none
  accepts : ∀ doc s, read doc = .ok s → valid s ∧ bare s = s

theorem codec_specialisation :
    Codec Specialisation.summary Specialisation.ofDocument Specialisation.withoutFindings
      Specialisation.InRange where
  reads s h := by
    have hget := get?_figures s.summary
    refine bind_eq_ok.mpr ⟨s.factor, floatField_of_get? (hget _), ?_⟩
    rw [if_neg (by simp [h.1, h.2])]
    refine bind_eq_ok.mpr ⟨s.hasAbstract, fieldOf_of_get? (hget _) rfl, ?_⟩
    rw [hget]
    rfl
  keeps _ := rfl
  accepts doc s h := by
    obtain ⟨factor, -, h⟩ := bind_eq_ok.mp h
    by_cases hout : (!(0.0 ≤ factor && factor ≤ 1.0)) = true
    · rw [if_pos hout] at h
      cases h
    · have hrange : 0.0 ≤ factor ∧ factor ≤ 1.0 := by simpa using hout
      rw [if_neg hout] at h
      obtain ⟨hasAbstract, -, h⟩ := bind_eq_ok.mp h
      cases h
      exact ⟨hrange, rfl⟩

theorem codec_escapes :
    Codec Escapes.summary Escapes.ofDocument Escapes.withoutFindings fun _ => True where
  reads s _ := by
    have hget := get?_figures s.summary
    refine bind_eq_ok.mpr ⟨s.count, fieldOf_of_get? (hget _) rfl, ?_⟩
    refine bind_eq_ok.mpr ⟨s.promotable, fieldOf_of_get? (hget _) rfl, ?_⟩
    exact bind_eq_ok.mpr ⟨s.savings, fieldOf_of_get? (hget _) rfl, rfl⟩
  keeps _ := rfl
  accepts doc s h := by
    obtain ⟨count, -, h⟩ := bind_eq_ok.mp h
    obtain ⟨promotable, -, h⟩ := bind_eq_ok.mp h
    obtain ⟨savings, -, h⟩ := bind_eq_ok.mp h
    cases h
    exact ⟨trivial, rfl⟩

theorem codec_dispatches :
    Codec Dispatches.summary Dispatches.ofDocument Dispatches.withoutFindings fun _ => True where
  reads s _ := by
    have hget := get?_figures s.summary
    refine bind_eq_ok.mpr ⟨s.dynamic, fieldOf_of_get? (hget _) rfl, ?_⟩
    exact bind_eq_ok.mpr ⟨s.resolvable, fieldOf_of_get? (hget _) rfl, rfl⟩
  keeps _ := rfl
  accepts doc s h := by
    obtain ⟨dynamic, -, h⟩ := bind_eq_ok.mp h
    obtain ⟨resolvable, -, h⟩ := bind_eq_ok.mp h
    cases h
    exact ⟨trivial, rfl⟩

theorem codec_constants :
    Codec Constants.summary Constants.ofDocument Constants.withoutFindings fun _ => True where
  reads s _ := by
    have hget := get?_figures s.summary
    refine bind_eq_ok.mpr ⟨s.foldable, fieldOf_of_get? (hget _) rfl, ?_⟩
    exact bind_eq_ok.mpr ⟨s.reduction, floatField_of_get? (hget _), rfl⟩
  keeps _ := rfl
  accepts doc s h := by
    obtain ⟨foldable, -, h⟩ := bind_eq_ok.mp h
    obtain ⟨reduction, -, h⟩ := bind_eq_ok.mp h
    cases h
    exact ⟨trivial, rfl⟩

theorem codec_lifetimes :
    Codec Lifetimes.summary Lifetimes.ofDocument Lifetimes.withoutFindings fun _ => True where
  reads s _ := by
    have hget := get?_figures s.summary
    refine bind_eq_ok.mpr ⟨s.leaks, fieldOf_of_get? (hget _) rfl, ?_⟩
    refine bind_eq_ok.mpr ⟨s.doubleReleases, fieldOf_of_get? (hget _) rfl, ?_⟩
    exact bind_eq_ok.mpr ⟨s.proper, fieldOf_of_get? (hget _) rfl, rfl⟩
  keeps _ := rfl
  accepts doc s h := by
    obtain ⟨leaks, -, h⟩ := bind_eq_ok.mp h
    obtain ⟨doubleReleases, -, h⟩ := bind_eq_ok.mp h
    obtain ⟨proper, -, h⟩ := bind_eq_ok.mp h
    cases h
    exact ⟨trivial, rfl⟩

def sections (r : Report) : Json :=
  .obj (Analysis.all.map fun a => (Text.ofString a.word, r.sectionDocument a))

theorem get?_sections (r : Report) (a : Analysis) :
    r.sections.get? a.word = some (r.sectionDocument a) := by
  have hfind : ∀ as : List Analysis, a ∈ as →
      Json.findMember? (Text.ofString a.word)
        (as.map fun a => (Text.ofString a.word, r.sectionDocument a))
        = some (r.sectionDocument a) := by
    intro as
    induction as with
    | nil => exact nofun
    | cons b rest ih =>
      intro hmem
      simp only [map_cons, Json.findMember?_cons, Text.ofString_inj]
      by_cases hword : b.word = a.word
      · rw [if_pos hword, Analysis.word_injective hword]
      · rw [if_neg hword]
        exact ih ((mem_cons.mp hmem).resolve_left fun h => hword (h ▸ rfl))
  exact hfind Analysis.all (by cases a <;> decide)

variable {summary : α → List (String × Quantity)} {read : Json → Reading α}

/-- A section is read back from the sections of a report, and stays absent where it was. -/
theorem Codec.sectionOf_sections {bare : α → α} {valid : α → Prop}
    (codec : Codec summary read bare valid) {a : Analysis} {part : Option α}
    (hpart : r.summary? a = part.map summary) (hvalid : ∀ s, part = some s → valid s) :
    sectionOf read r.sections a = .ok (part.map bare) := by
  unfold sectionOf
  rw [get?_sections, sectionDocument, hpart]
  cases part with
  | none => rfl
  | some s =>
    refine bind_eq_ok.mpr ⟨false, tellsFailure_figures (codec.keeps s), ?_⟩
    exact bind_eq_ok.mpr ⟨bare s, codec.reads s (hvalid s rfl), rfl⟩

theorem Codec.of_sectionOf {bare : α → α} {valid : α → Prop} (codec : Codec summary read bare valid)
    {analyses : Json} {a : Analysis} {part : Option α} (h : sectionOf read analyses a = .ok part) :
    (∀ s, part = some s → valid s) ∧ part.map bare = part := by
  unfold sectionOf at h
  split at h
  · cases h
    exact ⟨nofun, rfl⟩
  · cases h
    exact ⟨nofun, rfl⟩
  · obtain ⟨told, -, h⟩ := bind_eq_ok.mp h
    cases told with
    | true =>
      cases h
      exact ⟨nofun, rfl⟩
    | false =>
      obtain ⟨s, hread, h⟩ := bind_eq_ok.mp h
      cases h
      obtain ⟨hvalid, hbare⟩ := codec.accepts _ s hread
      refine ⟨fun _ hs => Option.some.inj hs ▸ hvalid, ?_⟩
      rw [Option.map_some, hbare]

end Sections

/-! ## Reports -/

theorem sections_withoutFindings (r : Report) : r.withoutFindings.sections = r.sections := by
  have hsummary : ∀ a, r.withoutFindings.summary? a = r.summary? a := by
    intro a
    cases a <;> exact (Option.map_map ..)
  have hdocument : ∀ a, r.withoutFindings.sectionDocument a = r.sectionDocument a := by
    intro a
    unfold sectionDocument
    rw [hsummary]
    rfl
  unfold sections
  simp only [hdocument]

theorem failureOf_failureDocument (f : Failure) : failureOf (failureDocument f) = .ok f := by
  refine bind_eq_ok.mpr ⟨f.analysis, rfl, ?_⟩
  exact bind_eq_ok.mpr ⟨f.reason, rfl, rfl⟩

theorem mapM_failureOf (failures : List Failure) :
    (failures.map failureDocument).mapM failureOf = .ok failures := by
  induction failures with
  | nil => rfl
  | cons f rest ih =>
    rw [map_cons, mapM_cons]
    refine bind_eq_ok.mpr ⟨f, failureOf_failureDocument f, ?_⟩
    exact bind_eq_ok.mpr ⟨rest, ih, rfl⟩

theorem mapM_text? (texts : List Text) : (texts.map Json.str).mapM Json.text? = some texts := by
  induction texts with
  | nil => rfl
  | cons t rest ih => simp [mapM_cons, ih, Json.text?]

theorem Score.ofInt?_value (score : Score) : Score.ofInt? score.value = some score := by
  simp [Score.ofInt?, score.value_le]

theorem ofDocument_toDocument (h : r.InRange) :
    ofDocument r.toDocument = .ok r.withoutFindings := by
  refine bind_eq_ok.mpr ⟨r.issues.map .str, rfl, ?_⟩
  rw [mapM_text?]
  refine bind_eq_ok.mpr ⟨r.issues, rfl, ?_⟩
  refine bind_eq_ok.mpr ⟨_, codec_specialisation.sectionOf_sections rfl h, ?_⟩
  refine bind_eq_ok.mpr ⟨_, codec_escapes.sectionOf_sections rfl fun _ _ => trivial, ?_⟩
  refine bind_eq_ok.mpr ⟨_, codec_dispatches.sectionOf_sections rfl fun _ _ => trivial, ?_⟩
  refine bind_eq_ok.mpr ⟨_, codec_constants.sectionOf_sections rfl fun _ _ => trivial, ?_⟩
  refine bind_eq_ok.mpr ⟨_, codec_lifetimes.sectionOf_sections rfl fun _ _ => trivial, ?_⟩
  refine bind_eq_ok.mpr ⟨r.failures.map failureDocument, rfl, ?_⟩
  refine bind_eq_ok.mpr ⟨r.failures, mapM_failureOf r.failures, ?_⟩
  refine bind_eq_ok.mpr ⟨r.score, ?_, ?_⟩
  · refine bind_eq_ok.mpr ⟨r.score.value, rfl, ?_⟩
    rw [Score.ofInt?_value]
    rfl
  refine bind_eq_ok.mpr ⟨r.target, rfl, ?_⟩
  exact bind_eq_ok.mpr ⟨r.isReady, rfl, rfl⟩

theorem of_ofDocument {doc : Json} (h : ofDocument doc = .ok r) :
    r.InRange ∧ r.withoutFindings = r := by
  unfold ofDocument at h
  split at h
  · obtain ⟨listed, -, h⟩ := bind_eq_ok.mp h
    split at h
    · obtain ⟨issues, -, h⟩ := bind_eq_ok.mp h
      dsimp only at h
      split at h
      · obtain ⟨specialisation, hspecialisation, h⟩ := bind_eq_ok.mp h
        obtain ⟨escapes, hescapes, h⟩ := bind_eq_ok.mp h
        obtain ⟨dispatches, hdispatches, h⟩ := bind_eq_ok.mp h
        obtain ⟨constants, hconstants, h⟩ := bind_eq_ok.mp h
        obtain ⟨lifetimes, hlifetimes, h⟩ := bind_eq_ok.mp h
        obtain ⟨items, -, h⟩ := bind_eq_ok.mp h
        obtain ⟨failures, -, h⟩ := bind_eq_ok.mp h
        obtain ⟨score, -, h⟩ := bind_eq_ok.mp h
        obtain ⟨target, -, h⟩ := bind_eq_ok.mp h
        obtain ⟨isReady, -, h⟩ := bind_eq_ok.mp h
        obtain ⟨timestamp, -, h⟩ := bind_eq_ok.mp h
        cases h
        refine ⟨(codec_specialisation.of_sectionOf hspecialisation).1, ?_⟩
        unfold withoutFindings
        simp only [(codec_specialisation.of_sectionOf hspecialisation).2,
          (codec_escapes.of_sectionOf hescapes).2, (codec_dispatches.of_sectionOf hdispatches).2,
          (codec_constants.of_sectionOf hconstants).2, (codec_lifetimes.of_sectionOf hlifetimes).2]
      · cases h
    · cases h
  · cases h

theorem toDocument_withoutFindings (r : Report) : r.withoutFindings.toDocument = r.toDocument := by
  have h := sections_withoutFindings r
  unfold toDocument
  unfold sections at h
  rw [h]
  rfl

/-- Reading undoes writing up to the findings, which leave no trace in a document; and a report that
was read from any document is read back from its own document as it is. -/
theorem document_round_trip :
    (∀ r : Report, r.InRange →
      ofDocument r.toDocument = .ok r.withoutFindings ∧
        r.withoutFindings.toDocument = r.toDocument) ∧
      ∀ (doc : Json) (r : Report), ofDocument doc = .ok r → ofDocument r.toDocument = .ok r := by
  constructor
  · intro r hr
    exact ⟨ofDocument_toDocument hr, toDocument_withoutFindings r⟩
  · intro doc r hread
    obtain ⟨hr, hbare⟩ := of_ofDocument hread
    rw [ofDocument_toDocument hr, hbare]

/-- A report with findings, a failed analysis and three that were not run. -/
def partlyRun : Report :=
  { target := "f(int)", score := ⟨75, by decide⟩, isReady := false, issues := ["1 heap allocation(s)"]
    specialisation :=
      some { slots := [⟨some 0, "n", "int", true⟩], hasAbstract := false, factor := 0.5
             isComplete := true, instances := ["f(int)"] }
    failures := [{ analysis := "devirtualization", reason := "boom" }]
    timestamp := "2024-01-01T00:00:00+00:00" }

theorem partlyRun_round_trip :
    partlyRun.InRange ∧ ofDocument partlyRun.toDocument = .ok partlyRun.withoutFindings ∧
      ofDocument partlyRun.withoutFindings.toDocument = .ok partlyRun.withoutFindings := by
  have hrange : partlyRun.InRange := by
    intro s hs
    cases hs
    exact ⟨by decide +kernel, by decide +kernel⟩
  obtain ⟨writes, reads⟩ := document_round_trip
  obtain ⟨hread, -⟩ := writes partlyRun hrange
  exact ⟨hrange, hread, reads _ _ hread⟩

end Report
end Readiness
