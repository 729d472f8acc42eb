import Mathlib.Data.List.Basic
import Mathlib.Data.List.Forall2
import Readiness.Proofs.Report.RoundTrip
import Readiness.Report.History

/-!
# Histories lose and reorder nothing

Reading the longer file gives the old records and then the added ones, in order.  Reading for a key
gives the added records of that key after some of the old ones: all of that key exactly when no old
line has a key that is no text and only shows as it.
-/

namespace Readiness

open List

variable {ps : List Point}

/-! ## Lines -/

namespace Text

def EndsLine (t : Text) : Prop := t.points = [] ∨ t.points.getLast? = some (.char '\n')

def endsLine (p : Point) : Bool := p.isChar '\n' || p.isChar '\r'

theorem linesFrom_cons_of_endsLine {p : Point} {rest : List Point} (done : List Point)
    (hp : endsLine p = true) (hpair : ∀ tail, p = .char '\r' → rest = .char '\n' :: tail → False) :
    linesFrom done (p :: rest) = ⟨(.char '\n' :: done).reverse⟩ :: linesFrom [] rest := by
  rw [linesFrom.eq_4 _ _ _ fun tail h hrest => hpair tail h hrest]
  exact if_pos hp

theorem linesFrom_cons_of_not_endsLine {p : Point} (rest done : List Point)
    (hp : endsLine p = false) : linesFrom done (p :: rest) = linesFrom (p :: done) rest := by
  rw [linesFrom.eq_4 _ _ _ fun tail h _ => by subst h; cases hp]
  exact if_neg (by rw [endsLine] at hp; simp [hp])

theorem linesFrom_append (done : List Point) (h : ps.getLast? = some (.char '\n')) (qs : List Point) :
    linesFrom done (ps ++ qs) = linesFrom done ps ++ linesFrom [] qs := by
  fun_induction linesFrom done ps with
  | case1 | case2 => cases h
  | case3 done rest ih =>
    simp only [cons_append, linesFrom]
    cases rest with
    | nil => rfl
    | cons q rest => rw [ih h]
  | case4 done p rest hpair hp ih =>
    rw [cons_append, cons_append]
    cases rest with
    | nil =>
      obtain rfl : p = .char '\n' := by simpa using h
      exact linesFrom_cons_of_endsLine done rfl (fun _ h => nomatch h)
    | cons q rest =>
      rw [← ih h]
      refine linesFrom_cons_of_endsLine done hp fun tail hp htail => ?_
      cases htail
      exact hpair _ hp rfl
  | case5 done p rest hpair hp ih =>
    rw [cons_append, linesFrom_cons_of_not_endsLine _ _ (Bool.not_eq_true _ ▸ hp)]
    cases rest with
    | nil =>
      obtain rfl : p = .char '\n' := by simpa using h
      exact absurd rfl hp
    | cons q rest => exact ih h

theorem lines_append {t : Text} (h : t.EndsLine) (u : Text) : (t ++ u).lines = t.lines ++ u.lines := by
  unfold lines
  rw [points_append]
  rcases h with hnil | hlast
  · rw [hnil]
    rfl
  · exact linesFrom_append [] hlast u.points

theorem EndsLine.append {t u : Text} (ht : t.EndsLine) (hu : u.EndsLine) : (t ++ u).EndsLine := by
  unfold EndsLine at ht hu ⊢
  rw [points_append]
  rcases hu with hnil | hlast
  · rwa [hnil, append_nil]
  · exact .inr (by rw [getLast?_append, hlast]; rfl)

theorem lines_lineEnd (h : ∀ p ∈ ps, endsLine p = false) :
    lines ⟨ps ++ [.char '\n']⟩ = [⟨ps ++ [.char '\n']⟩] := by
  have hdone : ∀ done : List Point,
      linesFrom done (ps ++ [.char '\n']) = [⟨done.reverse ++ ps ++ [.char '\n']⟩] := by
    induction ps with
    | nil =>
      intro done
      have hline : linesFrom done [.char '\n'] = ⟨(.char '\n' :: done).reverse⟩ :: linesFrom [] [] :=
        linesFrom_cons_of_endsLine done rfl (fun _ h => nomatch h)
      rw [nil_append, hline]
      simp [linesFrom]
    | cons p ps ih =>
      intro done
      rw [cons_append, linesFrom_cons_of_not_endsLine _ _ (h p mem_cons_self),
        ih fun q hq => h q (mem_cons_of_mem _ hq)]
      simp
  exact hdone []

end Text

variable {line : Text} {lines : List Text} {records : List Record}

namespace History

/-! ## Additions -/

/-- Lines that hold nothing but blanks. -/
structure BlankLines where
  text : Text
  blank : isBlankLine text = true
  endsLine : text.EndsLine

/-- What is added at the end of a history: a record, or blank lines. -/
inductive Addition
  | record (r : Record)
  | blanks (b : BlankLines)

def Addition.appendTo (file : Option Text) : Addition → Text
  | record r => append file r
  | blanks b => file.getD .empty ++ b.text

def extended (file : Option Text) (additions : List Addition) : Option Text :=
  additions.foldl (fun file a => some (a.appendTo file)) file

def recordsIn (additions : List Addition) : List Record :=
  additions.filterMap fun
    | .record r => some r
    | .blanks _ => none

def Complete (file : Option Text) : Prop := (file.getD .empty).EndsLine

theorem isBlankLine_of_mem_linesFrom {done : List Point} (hdone : done.all isBlankPoint = true)
    (hps : ps.all isBlankPoint = true) (h : line ∈ Text.linesFrom done ps) :
    isBlankLine line = true := by
  have hreverse : ∀ {done : List Point}, done.all isBlankPoint = true →
      isBlankLine ⟨done.reverse⟩ = true := fun hdone => by
    rw [isBlankLine, all_reverse]
    exact hdone
  have hend : ∀ {done : List Point}, done.all isBlankPoint = true →
      isBlankLine ⟨(.char '\n' :: done).reverse⟩ = true := fun hdone =>
    hreverse (by rw [all_cons, hdone]; decide)
  fun_induction Text.linesFrom done ps with
  | case1 => cases h
  | case2 done hne =>
    obtain rfl := mem_singleton.mp h
    exact hreverse hdone
  | case3 done rest ih =>
    simp only [all_cons, Bool.and_eq_true] at hps
    rcases mem_cons.mp h with rfl | h
    · exact hend hdone
    · exact ih rfl hps.2.2 h
  | case4 done p rest hpair hp ih =>
    rw [all_cons, Bool.and_eq_true] at hps
    rcases mem_cons.mp h with rfl | h
    · exact hend hdone
    · exact ih rfl hps.2 h
  | case5 done p rest hpair hp ih =>
    rw [all_cons, Bool.and_eq_true] at hps
    exact ih (by rw [all_cons, hps.1, hdone]; rfl) hps.2 h

/-! ## Reading lines -/

section Reading

variable {path : String} {key : Option Text} {number : Nat}

theorem recordsOf_blank (h : ∀ line ∈ lines, isBlankLine line = true) :
    recordsOf path key number lines = .ok [] := by
  induction lines generalizing number with
  | nil => rfl
  | cons line rest ih =>
    rw [recordsOf, if_pos (h line mem_cons_self)]
    exact ih fun l hl => h l (mem_cons_of_mem _ hl)

theorem recordsOf_cons {rest : List Text} {found : Option Record}
    (hblank : isBlankLine line = false) (hline : recordOf key line = .ok found) :
    recordsOf path key number (line :: rest)
      = (recordsOf path key (number + 1) rest).map (found.toList ++ ·) := by
  rw [recordsOf, hblank, hline]
  cases found with
  | none | some r => cases recordsOf path key (number + 1) rest <;> rfl

/-- A line that is not blank is read before the lines after it. -/
theorem recordsOf_cons_eq_ok {rest : List Text} (hblank : isBlankLine line = false)
    (h : recordsOf path key number (line :: rest) = .ok records) :
    ∃ found tail, recordOf key line = .ok found ∧
      recordsOf path key (number + 1) rest = .ok tail ∧ records = found.toList ++ tail := by
  cases hline : recordOf key line with
  | error fault =>
    rw [recordsOf, hblank, hline] at h
    cases fault <;> cases h
  | ok found =>
    rw [recordsOf_cons hblank hline] at h
    cases htail : recordsOf path key (number + 1) rest with
    | error fault =>
      rw [htail] at h
      cases h
    | ok tail =>
      rw [htail] at h
      cases h
      exact ⟨found, tail, rfl, rfl, rfl⟩

theorem recordsOf_append {more : List Text} {added : List Record}
    (h : recordsOf path key number lines = .ok records)
    (hmore : ∀ number, recordsOf path key number more = .ok added) :
    recordsOf path key number (lines ++ more) = .ok (records ++ added) := by
  induction lines generalizing number records with
  | nil =>
    cases h
    exact hmore number
  | cons line rest ih =>
    by_cases hblank : isBlankLine line = true
    · rw [recordsOf, if_pos hblank] at h
      rw [cons_append, recordsOf, if_pos hblank]
      exact ih h
    · have hblank : isBlankLine line = false := Bool.not_eq_true _ ▸ hblank
      obtain ⟨found, tail, hline, htail, rfl⟩ := recordsOf_cons_eq_ok hblank h
      rw [cons_append, recordsOf_cons hblank hline, ih htail, append_assoc]
      rfl

def keyOf (line : Text) : Json :=
  match Json.read line with
  | .ok doc => (doc.get? "target").getD .null
  | .error _ => .null

/-- Reading a line for a key compares it with the text that stands as its key. -/
theorem recordOf_some_of_none {found : Option Record} (h : recordOf none line = .ok found) :
    ∃ r, found = some r ∧ r.target = (keyOf line).shown ∧
      ∀ k, recordOf (some k) line = .ok (if (keyOf line).text? = some k then some r else none) := by
  unfold recordOf at h
  unfold keyOf recordOf
  cases hread : Json.read line with
  | error e =>
    rw [hread] at h
    dsimp only at h
    split at h <;> cases h
  | ok doc =>
    rw [hread] at h
    cases doc with
    | obj members =>
      dsimp only at h ⊢
      cases hfields : fieldNames.find? fun n => !(members.any fun m => m.1 == Text.ofString n) with
      | some n =>
        rw [hfields] at h
        cases h
      | none =>
        rw [hfields] at h
        cases hreport :
            Report.ofDocument (((Json.obj members).get? (Text.ofString "report")).getD .null) with
        | error fault =>
          rw [hreport] at h
          cases fault <;> cases h
        | ok report =>
          rw [hreport] at h
          cases h
          refine ⟨_, rfl, rfl, fun k => ?_⟩
          by_cases hkey :
              (((Json.obj members).get? (Text.ofString "target")).getD .null).text? = some k
          · simp [hkey]
          · simp [hkey]
    | _ => cases h

def NamesKey (k line : Text) : Prop := (keyOf line).shown = k → (keyOf line).text? = some k

theorem shown_eq_of_text? {j : Json} {k : Text} (h : j.text? = some k) : j.shown = k := by
  cases j with
  | str t =>
    cases h
    rfl
  | _ => cases h

/-- Reading for a key gives some of the records that show it, and all of them exactly when every
line that shows it has it as a text. -/
theorem recordsOf_some_of_none (k : Text) (h : recordsOf path none number lines = .ok records) :
    ∃ kept, recordsOf path (some k) number lines = .ok kept ∧
      kept.Sublist (records.filter (·.target = k)) ∧
      (kept = records.filter (·.target = k) ↔
        ∀ line ∈ lines, isBlankLine line = false → NamesKey k line) := by
  induction lines generalizing number records with
  | nil =>
    cases h
    exact ⟨[], rfl, List.Sublist.refl _, fun _ => nofun, fun _ => rfl⟩
  | cons line rest ih =>
    by_cases hblank : isBlankLine line = true
    · rw [recordsOf, if_pos hblank] at h
      obtain ⟨kept, hkept, hsub, hall⟩ := ih h
      refine ⟨kept, ?_, hsub, ?_⟩
      · rw [recordsOf, if_pos hblank]
        exact hkept
      · rw [hall, forall_mem_cons, hblank]
        simp
    · have hblank : isBlankLine line = false := Bool.not_eq_true _ ▸ hblank
      obtain ⟨found, tail, hline, htail, rfl⟩ := recordsOf_cons_eq_ok hblank h
      obtain ⟨kept, hkept, hsub, hall⟩ := ih htail
      obtain ⟨r, rfl, hshown, hsome⟩ := recordOf_some_of_none hline
      have hread : recordsOf path (some k) number (line :: rest)
          = .ok ((if (keyOf line).text? = some k then some r else none).toList ++ kept) := by
        rw [recordsOf_cons hblank (hsome k), hkept]
        rfl
      simp only [forall_mem_cons, ← hall, hblank, true_implies]
      -- the line shows the key as a text, or shows it otherwise, or shows another key
      by_cases htext : (keyOf line).text? = some k
      · have htarget : r.target = k := hshown.trans (shown_eq_of_text? htext)
        rw [if_pos htext] at hread
        refine ⟨r :: kept, hread, ?_⟩
        simp [htarget, NamesKey, htext, hsub]
      · rw [if_neg htext] at hread
        refine ⟨kept, hread, ?_⟩
        by_cases htarget : r.target = k
        · have hshort : kept ≠ r :: tail.filter (·.target = k) := fun heq => by
            have hlen := hsub.length_le
            rw [heq, length_cons] at hlen
            omega
          simp [htarget, NamesKey, htext, ← hshown, hshort, hsub.trans (sublist_cons_self r _)]
        · simp [htarget, NamesKey, ← hshown, hsub]

end Reading

/-! ## Reading additions -/

/-- Whether a record can be added: the share of its report is in range, and its document survives
being written and read. -/
structure Addable (r : Record) : Prop where
  inRange : r.report.InRange
  survives : Json.read (.ofString (Json.write .compact r.toDocument)) = .ok r.toDocument

structure IsReadBack (r s : Record) : Prop where
  timestamp : s.timestamp = r.timestamp
  target : s.target = r.target
  report : Report.ofDocument r.report.toDocument = .ok s.report

def lineOf (v : Json) : Text := .ofString (Json.write .compact v ++ "\n")

theorem lineOf_eq (v : Json) :
    lineOf v = Text.ofChars (Json.writeAt .compact 0 v) ++ ⟨Json.lineEnd⟩ := by
  rw [lineOf, Text.ofString, String.toList_append, Json.write, String.toList_ofList, Text.ofChars,
    map_append]
  rfl

theorem lines_lineOf (v : Json) : (lineOf v).lines = [lineOf v] := by
  rw [lineOf_eq]
  refine Text.lines_lineEnd fun p hp => ?_
  obtain ⟨c, hc, rfl⟩ := mem_map.mp hp
  have hplain := Json.plain_writeAt 0 v c hc
  cases hends : Text.endsLine (.char c) with
  | false => rfl
  | true =>
    simp only [Text.endsLine, Point.isChar, Bool.or_eq_true, beq_iff_eq, Point.char.injEq] at hends
    rcases hends with rfl | rfl
    · exact absurd hplain (by decide)
    · exact absurd hplain (by decide)

theorem endsLine_lineOf (v : Json) : (lineOf v).EndsLine := by
  refine .inr ?_
  rw [lineOf_eq, Text.points_append, getLast?_append]
  rfl

theorem isBlankLine_lineOf (members : List (Text × Json)) :
    isBlankLine (lineOf (.obj members)) = false := by
  rw [lineOf_eq, Json.writeAt]
  rfl

theorem read_lineOf {v : Json} (h : Json.read (.ofString (Json.write .compact v)) = .ok v) :
    Json.read (lineOf v) = .ok v := by
  rw [Text.ofString, Json.write, String.toList_ofList] at h
  rw [lineOf_eq]
  exact Json.read_lineEnd h

section Additions

variable {r : Record}

theorem keyOf_line (hr : Addable r) : keyOf (lineOf r.toDocument) = .str r.target := by
  unfold keyOf
  rw [read_lineOf hr.survives]
  rfl

theorem exists_recordOf_line (hr : Addable r) :
    ∃ s, recordOf none (lineOf r.toDocument) = .ok (some s) ∧ IsReadBack r s := by
  have hreport := Report.ofDocument_toDocument hr.inRange
  refine ⟨⟨r.timestamp, r.target, r.report.withoutFindings⟩, ?_, rfl, rfl, hreport⟩
  have hdocument : (r.toDocument.get? (Text.ofString "report")).getD .null = r.report.toDocument := rfl
  unfold recordOf
  rw [read_lineOf hr.survives]
  dsimp only [Record.toDocument] at hdocument ⊢
  rw [hdocument, hreport]
  rfl

end Additions

def Addition.text : Addition → Text
  | record r => lineOf r.toDocument
  | blanks b => b.text

theorem Addition.appendTo_eq (file : Option Text) (a : Addition) :
    a.appendTo file = file.getD .empty ++ a.text := by
  cases a <;> rfl

theorem Addition.endsLine_text (a : Addition) : a.text.EndsLine := by
  cases a with
  | record r => exact endsLine_lineOf r.toDocument
  | blanks b => exact b.endsLine

/-- The lines of a longer history are the old lines and those of the additions. -/
theorem lines_extended {file : Option Text} (hfile : Complete file) (additions : List Addition) :
    ((extended file additions).getD .empty).lines
      = (file.getD .empty).lines ++ additions.flatMap fun a => a.text.lines := by
  induction additions generalizing file with
  | nil => exact (append_nil _).symm
  | cons a rest ih =>
    have hnext : Complete (some (a.appendTo file)) := by
      unfold Complete
      rw [Option.getD_some, a.appendTo_eq]
      exact hfile.append a.endsLine_text
    refine (ih hnext).trans ?_
    rw [Option.getD_some, a.appendTo_eq, Text.lines_append hfile, flatMap_cons, append_assoc]

/-- Added lines are read as the added records, in order, and name their keys. -/
theorem exists_recordsOf_additions {path : String} {additions : List Addition}
    (h : ∀ r ∈ recordsIn additions, Addable r) :
    ∃ added, List.Forall₂ IsReadBack (recordsIn additions) added ∧
      (∀ number, recordsOf path none number (additions.flatMap fun a => a.text.lines) = .ok added) ∧
      ∀ k, ∀ line ∈ additions.flatMap fun a => a.text.lines,
        isBlankLine line = false → NamesKey k line := by
  induction additions with
  | nil => exact ⟨[], .nil, fun _ => rfl, fun _ => nofun⟩
  | cons a rest ih =>
    cases a with
    | record r =>
      obtain ⟨hr, hrest⟩ := forall_mem_cons.mp h
      obtain ⟨added, hback, hread, hnames⟩ := ih hrest
      obtain ⟨s, hline, hs⟩ := exists_recordOf_line hr
      have hlines : (Addition.record r).text.lines = [lineOf r.toDocument] := lines_lineOf _
      have hblank : isBlankLine (lineOf r.toDocument) = false := isBlankLine_lineOf _
      simp only [flatMap_cons, hlines, singleton_append]
      refine ⟨s :: added, .cons hs hback, fun number => ?_, fun k => ?_⟩
      · rw [recordsOf_cons hblank hline, hread]
        rfl
      · refine forall_mem_cons.mpr ⟨fun _ => ?_, hnames k⟩
        unfold NamesKey
        rw [keyOf_line hr]
        exact congrArg some
    | blanks b =>
      obtain ⟨added, hback, hread, hnames⟩ := ih h
      have hblank : ∀ line ∈ b.text.lines, isBlankLine line = true := fun line hline =>
        isBlankLine_of_mem_linesFrom rfl b.blank hline
      simp only [flatMap_cons]
      refine ⟨added, hback, fun number => ?_, fun k line hline hfull => ?_⟩
      · exact recordsOf_append (recordsOf_blank hblank) hread
      · rcases mem_append.mp hline with hline | hline
        · rw [hblank line hline] at hfull
          cases hfull
        · exact hnames k line hline hfull

theorem read_eq (path : String) (file key : Option Text) :
    read path file key = recordsOf (FileName.normal path) key 1 (file.getD .empty).lines := by
  cases file with
  | none | some text => rfl

def NamesKeys (file : Option Text) (k : Text) : Prop :=
  ∀ line ∈ (file.getD .empty).lines, isBlankLine line = false → NamesKey k line

/-- A history with additions is read as the old records and then the added ones, in order.  Reading
for a key gives the added records of the key after old ones of the key; these are all of them
exactly when every old line that shows the key has it as a text. -/
theorem read_extended {path : String} {file : Option Text} {records : List Record}
    {additions : List Addition} (hfile : Complete file) (hread : read path file none = .ok records)
    (hadditions : ∀ r ∈ recordsIn additions, Addable r) :
    ∃ added, List.Forall₂ IsReadBack (recordsIn additions) added ∧
      read path (extended file additions) none = .ok (records ++ added) ∧
      ∀ k, ∃ kept, kept.Sublist (records.filter (·.target = k)) ∧
        read path (extended file additions) (some k) = .ok (kept ++ added.filter (·.target = k)) ∧
        (kept = records.filter (·.target = k) ↔ NamesKeys file k) := by
  simp only [read_eq, lines_extended hfile] at hread ⊢
  obtain ⟨added, hback, hadded, hnames⟩ := exists_recordsOf_additions hadditions
  refine ⟨added, hback, recordsOf_append hread hadded, fun k => ?_⟩
  obtain ⟨kept, hkept, hsub, hall⟩ := recordsOf_some_of_none k hread
  refine ⟨kept, hsub, recordsOf_append hkept fun number => ?_, hall⟩
  obtain ⟨found, hfound, -, hfull⟩ := recordsOf_some_of_none k (hadded number)
  rw [hfound, hfull.mpr (hnames k)]

def bareReport : Report :=
  { target := "f()", score := ⟨100, by decide⟩, isReady := true, timestamp := "t" }

def numbered : Json :=
  .obj [("timestamp", .str "t"), ("target", .int 5), ("report", bareReport.toDocument)]

/-- A record of the key that the document shows. -/
def again : Record := ⟨"u", "5", bareReport⟩

def blankLine : BlankLines := ⟨"  \n", by decide, .inr (by decide)⟩

set_option maxRecDepth 50000 in
theorem read_lineOf_numbered : Json.read (lineOf numbered) = .ok numbered := by
  rw [lineOf_eq]
  rfl

theorem isBlankLine_numbered : isBlankLine (lineOf numbered) = false := isBlankLine_lineOf _

theorem read_numbered :
    read "h.jsonl" (some (lineOf numbered)) none = .ok [⟨"t", "5", bareReport⟩] := by
  have hline : recordOf none (lineOf numbered) = .ok (some ⟨"t", "5", bareReport⟩) := by
    unfold recordOf
    rw [read_lineOf_numbered]
    rfl
  rw [read_eq, Option.getD_some, lines_lineOf, recordsOf_cons isBlankLine_numbered hline]
  rfl

theorem not_namesKeys_numbered : ¬ NamesKeys (some (lineOf numbered)) "5" := by
  intro h
  rw [NamesKeys, Option.getD_some, lines_lineOf] at h
  have hkey := h _ mem_cons_self isBlankLine_numbered
  unfold NamesKey keyOf at hkey
  rw [read_lineOf_numbered] at hkey
  cases hkey rfl

set_option maxRecDepth 50000 in
/-- Both records show the key, but reading for it gives only the one that has it as a text. -/
theorem numbered_read_extended :
    ∃ s, IsReadBack again s ∧
      read "h.jsonl" (extended (some (lineOf numbered)) [.blanks blankLine, .record again]) none
        = .ok [⟨"t", "5", bareReport⟩, s] ∧
      read "h.jsonl" (extended (some (lineOf numbered)) [.blanks blankLine, .record again]) (some "5")
        = .ok [s] := by
  have hfile : Complete (some (lineOf numbered)) := by
    unfold Complete
    exact endsLine_lineOf numbered
  have hagain : Addable again := by
    refine ⟨nofun, ?_⟩
    rw [Text.ofString, Json.write, String.toList_ofList]
    rfl
  have hadditions : ∀ r ∈ recordsIn [.blanks blankLine, .record again], Addable r := by
    intro r hr
    obtain rfl := List.mem_singleton.mp hr
    exact hagain
  obtain ⟨added, hback, hall, hkeys⟩ :=
    read_extended hfile read_numbered hadditions
  obtain ⟨s, rfl, hs⟩ : ∃ s, added = [s] ∧ IsReadBack again s := by
    cases hback with
    | cons hs hnil =>
      cases hnil
      exact ⟨_, rfl, hs⟩
  obtain ⟨kept, hsub, hkey, hnames⟩ := hkeys "5"
  refine ⟨s, hs, hall, ?_⟩
  have hkept : kept = [] := by
    rcases List.sublist_singleton.mp hsub with hnil | hone
    · exact hnil
    · exact absurd (hnames.mp hone) not_namesKeys_numbered
  rw [hkey, hkept]
  simp [hs.target, again]

end History
end Readiness
