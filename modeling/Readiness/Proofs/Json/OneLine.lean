import Mathlib.Tactic.SplitIfs
import Readiness.Json.Reader
import Readiness.Json.Writer

/-!
# Values on one line

A compactly written value has plain characters only, so it is one line; a text that is
read as a value is read as the same value with the end of its line.
-/

namespace Readiness.Json

open List

/-! ## Written values are plain -/

def Plain (cs : List Char) : Prop := ∀ c ∈ cs, Text.isPlain c = true

instance (cs : List Char) : Decidable (Plain cs) :=
  decidable_of_iff (cs.all Text.isPlain = true) all_eq_true

theorem Plain.append {cs ds : List Char} (hcs : Plain cs) (hds : Plain ds) : Plain (cs ++ ds) :=
  fun c hc => (mem_append.mp hc).elim (hcs c) (hds c)

theorem Plain.cons {c : Char} {cs : List Char} (hc : Text.isPlain c = true) (hcs : Plain cs) :
    Plain (c :: cs) := by
  rintro d (_ | ⟨_, hd⟩)
  · exact hc
  · exact hcs d hd

theorem Plain.replicate (n : Nat) {c : Char} (hc : Text.isPlain c = true) :
    Plain (List.replicate n c) :=
  fun _ hd => eq_of_mem_replicate hd ▸ hc

theorem plain_toDigits {base : Nat} (hone : 1 < base) (hbase : base ≤ 16) (n : Nat) :
    Plain (Nat.toDigits base n) := by
  have hdigit : ∀ d < 16, Text.isPlain (Nat.digitChar d) = true := by decide
  induction n using Nat.strongRecOn with
  | ind n ih =>
    by_cases hn : n < base
    · rw [Nat.toDigits_of_lt_base hn]
      exact .cons (hdigit n (by omega)) nofun
    · have hpos : 0 < n / base := Nat.div_pos (by omega) (by omega)
      have hmod : n % base < base := Nat.mod_lt n (by omega)
      rw [← Nat.div_add_mod n base, ← Nat.toDigits_append_toDigits hone hpos hmod,
        Nat.toDigits_of_lt_base hmod]
      exact (ih (n / base) (Nat.div_lt_self (by omega) hone)).append
        (.cons (hdigit _ (by omega)) nofun)

theorem plain_unitEscape (n : Nat) : Plain (unitEscape n) := by
  refine .cons (by decide) (.cons (by decide) ?_)
  exact (Plain.replicate _ (by decide)).append (plain_toDigits (by decide) (by decide) n)

theorem plain_writeChar (c : Char) : Plain (writeChar c) := by
  have hescape : ∀ d, Text.isPlain d = true → Plain ['\\', d] := fun d hd =>
    .cons (by decide) (.cons hd nofun)
  unfold writeChar
  repeat' split
  all_goals first
    | exact hescape _ (by decide)
    | exact .cons (by assumption) nofun
    | exact plain_unitEscape _
    | exact (plain_unitEscape _).append (plain_unitEscape _)

theorem plain_writeText (t : Text) : Plain (writeText t) := by
  refine .cons (by decide) (Plain.append ?_ (.cons (by decide) nofun))
  intro c hc
  obtain ⟨p, -, hp⟩ := mem_flatMap.mp hc
  cases p with
  | char d => exact plain_writeChar d c hp
  | surrogate half => exact plain_unitEscape _ c hp

theorem plain_exponentText (e : Int) : Plain (Decimal.exponentText e) := by
  have hdigits := plain_toDigits (by decide : 1 < 10) (by decide) e.natAbs
  refine .cons (by decide) (.cons (by split <;> decide) ?_)
  split
  · exact .cons (by decide) hdigits
  · exact hdigits

theorem plain_layoutWrite (layout : Decimal.Layout) {digits : List Char} (hdigits : Plain digits)
    (point : Int) : Plain (layout.write digits point) := by
  have htake : ∀ n, Plain (digits.take n) := fun n c hc => hdigits c (mem_of_mem_take hc)
  have hdrop : ∀ n, Plain (digits.drop n) := fun n c hc => hdigits c (mem_of_mem_drop hc)
  unfold Decimal.Layout.write
  split
  · split
    · exact .cons (by decide) (.cons (by decide) (.append (.replicate _ (by decide)) hdigits))
    · split
      · refine (hdigits.append (.replicate _ (by decide))).append ?_
        split
        · exact .cons (by decide) (.cons (by decide) nofun)
        · exact nofun
      · exact (htake _).append (.cons (by decide) (hdrop _))
  · split
    · exact nofun
    · exact .cons (hdigits _ mem_cons_self) (plain_exponentText _)
    · refine .cons (hdigits _ mem_cons_self) (.cons (by decide) (.append ?_ ?_))
      · exact fun c hc => hdigits c (mem_cons_of_mem _ hc)
      · exact plain_exponentText _

theorem plain_writeFloat (x : Float) : Plain (writeFloat x).toList := by
  have hsigned : ∀ negative cs, Plain cs → Plain (Decimal.signed negative cs).toList := by
    intro negative cs hcs
    rw [Decimal.signed, String.toList_ofList]
    split
    · exact .cons (by decide) hcs
    · exact hcs
  unfold writeFloat Decimal.text
  split
  · decide
  · decide
  · decide
  · rename_i s hs
    simp only [hs]
    split
    · exact hsigned _ _ (by decide)
    · refine hsigned _ _ (plain_layoutWrite _ ?_ _)
      exact plain_toDigits (by decide) (by decide) _

theorem plain_int (i : Int) : Plain (toString i).toList := by
  have hnat : ∀ n : Nat, Plain n.repr.toList := fun n => by
    rw [Nat.repr, String.toList_ofList]
    exact plain_toDigits (by decide) (by decide) n
  cases i with
  | ofNat n => exact hnat n
  | negSucc n =>
    rw [Int.toString_eq_repr, Int.repr, String.toList_append]
    exact Plain.append (by decide) (hnat _)

theorem plain_intercalate {separator : List Char} (hseparator : Plain separator)
    {written : List (List Char)} (hwritten : ∀ w ∈ written, Plain w) :
    Plain (separator.intercalate written) := by
  induction written with
  | nil => exact nofun
  | cons w rest ih =>
    have hw : Plain w := hwritten w mem_cons_self
    cases rest with
    | nil => simpa [intercalate_singleton] using hw
    | cons v rest =>
      rw [intercalate_cons_cons]
      exact (hw.append hseparator).append (ih fun u hu => hwritten u (mem_cons_of_mem _ hu))

theorem plain_enclose {opening closing : Char} (hopening : Text.isPlain opening = true)
    (hclosing : Text.isPlain closing = true) (level : Nat) {written : List (List Char)}
    (hwritten : ∀ w ∈ written, Plain w) :
    Plain (Style.compact.enclose level opening closing written) := by
  have hbreak : ∀ level, Plain (Style.compact.lineBreak level) := fun _ => nofun
  have hseparator : Plain Style.compact.separator := by decide
  refine .cons hopening (.append ?_ (.cons hclosing nofun))
  split
  · exact nofun
  · exact ((hbreak _).append (plain_intercalate (hseparator.append (hbreak _)) hwritten)).append
      (hbreak _)

mutual

theorem plain_writeAt (level : Nat) : ∀ v : Json, Plain (writeAt .compact level v)
  | .null => by
    rw [writeAt]
    decide
  | .bool b => by
    rw [writeAt]
    cases b <;> decide
  | .int i => by
    rw [writeAt]
    exact plain_int i
  | .float x => by
    rw [writeAt]
    exact plain_writeFloat x
  | .str t => by
    rw [writeAt]
    exact plain_writeText t
  | .arr items => by
    rw [writeAt]
    exact plain_enclose (by decide) (by decide) level (plain_writeItems _ items)
  | .obj members => by
    rw [writeAt]
    exact plain_enclose (by decide) (by decide) level (plain_writeMembers _ members)

theorem plain_writeItems (level : Nat) :
    ∀ items : List Json, ∀ w ∈ writeItems .compact level items, Plain w
  | [] => nofun
  | v :: rest => by
    rw [writeItems]
    exact forall_mem_cons.mpr ⟨plain_writeAt level v, plain_writeItems level rest⟩

theorem plain_writeMembers (level : Nat) :
    ∀ members : List (Text × Json), ∀ w ∈ writeMembers .compact level members, Plain w
  | [] => nofun
  | (k, v) :: rest => by
    rw [writeMembers]
    refine forall_mem_cons.mpr ⟨?_, plain_writeMembers level rest⟩
    exact ((plain_writeText k).append (by decide)).append (plain_writeAt level v)

end

variable {start done : List Point} {room : Nat} {v : Json}

/-! ## The end of a line after a value -/

section LineEnd

variable {ps rest : List Point}

theorem bind_eq_ok {ε α β : Type} {x : Except ε α} {f : α → Except ε β} {b : β} :
    (x >>= f) = .ok b ↔ ∃ a, x = .ok a ∧ f a = .ok b := by
  cases x with
  | error e => exact ⟨nofun, fun ⟨_, h, _⟩ => nomatch h⟩
  | ok a => exact ⟨fun h => ⟨a, rfl, h⟩, fun ⟨_, h, hf⟩ => by cases h; exact hf⟩

def lineEnd : List Point := [.char '\n']

theorem skipBlanks_lineEnd_of_cons {p : Point} (h : skipBlanks ps = p :: rest) :
    skipBlanks (ps ++ lineEnd) = p :: (rest ++ lineEnd) := by
  unfold skipBlanks at h ⊢
  rw [dropWhile_append, h]
  rfl

theorem skipBlanks_lineEnd_of_nil (h : skipBlanks ps = []) : skipBlanks (ps ++ lineEnd) = [] := by
  unfold skipBlanks at h ⊢
  rw [dropWhile_append, h]
  rfl

theorem unicodeUnit?_append {n : Nat} (h : unicodeUnit? ps = some (n, rest)) (qs : List Point) :
    unicodeUnit? (ps ++ qs) = some (n, rest ++ qs) := by
  unfold unicodeUnit? at h
  split at h
  · simp only [cons_append, unicodeUnit?]
    simp only [Option.bind_eq_bind, Option.bind_eq_some_iff, Option.pure_def, Option.some.injEq,
      Prod.mk.injEq] at h ⊢
    obtain ⟨x, hx, y, hy, z, hz, w, hw, rfl, rfl⟩ := h
    exact ⟨x, hx, y, hy, z, hz, w, hw, rfl, rfl⟩
  · cases h

theorem lowSurrogate?_append {n : Nat} (h : lowSurrogate? ps = some (n, rest)) (qs : List Point) :
    lowSurrogate? (ps ++ qs) = some (n, rest ++ qs) := by
  unfold lowSurrogate? at h
  split at h
  · split at h
    · rename_i m after hunit
      simp only [cons_append, lowSurrogate?, unicodeUnit?_append hunit]
      split at h
      · rename_i hlow
        obtain ⟨rfl, rfl⟩ := h
        rw [if_pos hlow]
      · cases h
    · cases h
  · cases h

variable {r : Text × List Point}

/-- No low half appears at the end of a text from which the rest of a string is read: an escape
there has to be complete. -/
theorem lowSurrogate?_lineEnd_of_none (h : lowSurrogate? ps = none)
    (hread : readString start room done ps = .ok r) : lowSurrogate? (ps ++ lineEnd) = none := by
  match room, ps with
  | 0, _ | _ + 1, [] => cases hread
  | room + 1, [p] =>
    unfold lowSurrogate?
    split
    · rename_i heq
      cases heq
    · rfl
  | room + 1, p :: q :: tail =>
    by_cases hescape : p = .char '\\' ∧ q = .char 'u'
    · obtain ⟨rfl, rfl⟩ := hescape
      have hunit : ∃ n after, unicodeUnit? tail = some (n, after) := by
        cases hn : unicodeUnit? tail with
        | some found => exact ⟨_, _, rfl⟩
        | none =>
          simp [readString, Point.isChar, hn] at hread
      obtain ⟨n, after, hunit⟩ := hunit
      simp only [lowSurrogate?, hunit, cons_append, unicodeUnit?_append hunit] at h ⊢
      split at h
      · cases h
      · rename_i hlow
        rw [if_neg hlow]
    · unfold lowSurrogate?
      split
      · rename_i heq
        cases heq
        exact absurd ⟨rfl, rfl⟩ hescape
      · rfl

theorem joinSurrogates_lineEnd {unit : Nat}
    (hread : readString start room done (joinSurrogates unit ps).2 = .ok r) :
    joinSurrogates unit (ps ++ lineEnd)
      = ((joinSurrogates unit ps).1, (joinSurrogates unit ps).2 ++ lineEnd) := by
  unfold joinSurrogates at hread ⊢
  split
  · rename_i hhigh
    rw [if_pos hhigh] at hread
    cases hlow : lowSurrogate? ps with
    | some found =>
      obtain ⟨low, after⟩ := found
      rw [lowSurrogate?_append hlow]
    | none =>
      rw [hlow] at hread
      rw [lowSurrogate?_lineEnd_of_none hlow hread]
  · rfl

theorem readString_lineEnd {start' : List Point} {room' : Nat} {t : Text}
    (h : readString start room done ps = .ok (t, rest)) (hroom : room ≤ room') :
    readString start' room' done (ps ++ lineEnd) = .ok (t, rest ++ lineEnd) := by
  induction room generalizing room' done ps with
  | zero => cases h
  | succ room ih =>
    obtain ⟨room', rfl⟩ : ∃ n, room' = n + 1 := ⟨room' - 1, by omega⟩
    have hroom : room ≤ room' := by omega
    cases ps with
    | nil => cases h
    | cons p tail =>
      rw [cons_append]
      unfold readString at h ⊢
      split_ifs at h ⊢ with hquote hescape hcontrol
      · cases h
        rfl
      · cases tail with
        | nil => cases h
        | cons q after =>
          simp only [cons_append] at h ⊢
          split_ifs at h ⊢ with hletter
          · cases hunit : unicodeUnit? after with
            | none => simp [hunit] at h
            | some found =>
              obtain ⟨unit, after⟩ := found
              simp only [hunit, unicodeUnit?_append hunit] at h ⊢
              rw [joinSurrogates_lineEnd h]
              exact ih h hroom
          · cases hescaped : escaped? q with
            | none => simp [hescaped] at h
            | some e =>
              simp only [hescaped] at h ⊢
              exact ih h hroom
      · exact ih h hroom

theorem numberChars_lineEnd (ps : List Point) : numberChars (ps ++ lineEnd) = numberChars ps := by
  induction ps with
  | nil => rfl
  | cons p tail ih =>
    cases p with
    | char c => simp only [cons_append, numberChars, ih]
    | surrogate half => rfl

theorem length_numberChars_le (ps : List Point) : (numberChars ps).length ≤ ps.length := by
  induction ps with
  | nil => exact Nat.zero_le _
  | cons p tail ih =>
    cases p with
    | char c =>
      rw [numberChars]
      split
      · exact Nat.succ_le_succ ih
      · exact Nat.zero_le _
    | surrogate half => exact Nat.zero_le _

theorem readNumber_lineEnd {start' : List Point} {negative : Bool}
    (h : readNumber start negative ps = .ok (v, rest)) :
    readNumber start' negative (ps ++ lineEnd) = .ok (v, rest ++ lineEnd) := by
  have hdrop : ∀ cs : List Char, (ps ++ lineEnd).drop ((numberChars ps).length - cs.length)
      = ps.drop ((numberChars ps).length - cs.length) ++ lineEnd := fun cs =>
    drop_append_of_le_length (Nat.le_trans (Nat.sub_le _ _) (length_numberChars_le ps))
  unfold readNumber at h ⊢
  rw [numberChars_lineEnd]
  dsimp only at h ⊢
  split at h
  · cases h
  · rename_i hwhole
    rw [if_neg hwhole]
    split at h
    · rename_i hint
      rw [if_pos hint]
      split at h
      · cases h
      · rename_i hshort
        rw [if_neg hshort, hdrop]
        cases h
        rfl
    · rename_i hfloat
      rw [if_neg hfloat, hdrop]
      cases h
      rfl

theorem afterWord?_lineEnd {word : List Char} (hword : '\n' ∉ word) (ps : List Point) :
    afterWord? word (ps ++ lineEnd) = (afterWord? word ps).map (· ++ lineEnd) := by
  induction word generalizing ps with
  | nil => rfl
  | cons c word ih =>
    rw [mem_cons, not_or] at hword
    cases ps with
    | nil => simp [lineEnd, afterWord?, Point.isChar, hword.1]
    | cons p ps =>
      simp only [cons_append, afterWord?]
      split
      · exact ih hword.2 ps
      · rfl

theorem firstWord?_lineEnd (ps : List Point) :
    firstWord? (ps ++ lineEnd) = (firstWord? ps).map fun found => (found.1, found.2 ++ lineEnd) := by
  have hwords : ∀ word ∈ words.map Prod.fst, '\n' ∉ word.toList := by decide
  unfold firstWord?
  generalize words = entries at hwords
  induction entries with
  | nil => rfl
  | cons entry entries ih =>
    have htail := ih fun w hw => hwords w (mem_cons_of_mem _ hw)
    simp only [findSome?_cons, afterWord?_lineEnd (hwords entry.1 mem_cons_self)]
    cases afterWord? entry.1.toList ps with
    | none => exact htail
    | some after => rfl

theorem readScalar_lineEnd {p : Point} (h : readScalar p ps = .ok (v, rest)) :
    readScalar p (ps ++ lineEnd) = .ok (v, rest ++ lineEnd) := by
  unfold readScalar at h ⊢
  rw [← cons_append, firstWord?_lineEnd]
  cases hword : firstWord? (p :: ps) with
  | some found =>
    rw [hword] at h
    cases h
    rfl
  | none =>
    simp only [hword, Option.map_none] at h ⊢
    split_ifs at h ⊢
    · exact readNumber_lineEnd h
    · exact readNumber_lineEnd h

/-- A reader that needs some text, and another one that gives the same result with the end of a line
after the text. -/
structure Stable {α : Type} (read read' : List Point → Except Left (α × List Point)) : Prop where
  needs : ∀ r, read [] ≠ .ok r
  more : ∀ ps v rest, read ps = .ok (v, rest) → read' (ps ++ lineEnd) = .ok (v, rest ++ lineEnd)

section Stable

variable {α : Type} {read read' : List Point → Except Left (α × List Point)} {room' : Nat}

/-- Blanks before the text do not matter. -/
theorem Stable.skipBlanks {r : α} (hstable : Stable read read')
    (h : read (Json.skipBlanks ps) = .ok (r, rest)) :
    read' (Json.skipBlanks (ps ++ lineEnd)) = .ok (r, rest ++ lineEnd) := by
  cases hskip : Json.skipBlanks ps with
  | nil => exact absurd (hskip ▸ h) (hstable.needs _)
  | cons p tail =>
    rw [skipBlanks_lineEnd_of_cons hskip, ← cons_append, ← hskip]
    exact hstable.more _ r rest h

theorem stable_readEntries (hentry : Stable read read') (closing : Char) (hroom : room ≤ room')
    (done : List α) :
    Stable (readEntries read closing room done) (readEntries read' closing room' done) := by
  induction room generalizing room' done with
  | zero => exact ⟨nofun, nofun⟩
  | succ room ih =>
    obtain ⟨room', rfl⟩ : ∃ n, room' = n + 1 := ⟨room' - 1, by omega⟩
    refine ⟨fun r h => ?_, fun ps v rest h => ?_⟩
    · obtain ⟨found, hfound, -⟩ := bind_eq_ok.mp h
      exact hentry.needs found hfound
    · obtain ⟨⟨item, after⟩, hitem, h⟩ := bind_eq_ok.mp h
      refine bind_eq_ok.mpr ⟨(item, after ++ lineEnd), hentry.more _ _ _ hitem, ?_⟩
      dsimp only at h ⊢
      cases hskip : Json.skipBlanks after with
      | nil => simp [hskip] at h
      | cons p tail =>
        simp only [hskip, skipBlanks_lineEnd_of_cons hskip] at h ⊢
        split_ifs at h ⊢
        · cases h
          rfl
        · exact (ih (Nat.le_of_succ_le_succ hroom) _).skipBlanks h

theorem readEnclosed_lineEnd {closing : Char} {found : List α} (hentry : Stable read read')
    (hroom : room ≤ room') (h : readEnclosed read closing room ps = .ok (found, rest)) :
    readEnclosed read' closing room' (ps ++ lineEnd) = .ok (found, rest ++ lineEnd) := by
  have hentries := stable_readEntries hentry closing hroom []
  unfold readEnclosed at h ⊢
  dsimp only at h ⊢
  cases hskip : Json.skipBlanks ps with
  | nil =>
    rw [hskip] at h
    exact absurd h (hentries.needs _)
  | cons p tail =>
    simp only [hskip, skipBlanks_lineEnd_of_cons hskip, head?_cons, tail_cons] at h ⊢
    split_ifs at h ⊢
    · cases h
      rfl
    · exact hentries.more _ _ _ h

end Stable

theorem stable_readMember {value value' : List Point → Except Left (Json × List Point)}
    {room' : Nat} (hvalue : Stable value value') (hroom : room ≤ room') :
    Stable (readMember value room) (readMember value' room') := by
  refine ⟨nofun, fun ps v rest h => ?_⟩
  unfold readMember at h ⊢
  split at h
  · obtain ⟨⟨key, after⟩, hkey, h⟩ := bind_eq_ok.mp h
    refine bind_eq_ok.mpr ⟨(key, after ++ lineEnd), readString_lineEnd hkey hroom, ?_⟩
    dsimp only at h ⊢
    split at h
    · rename_i hcolon
      rw [skipBlanks_lineEnd_of_cons hcolon]
      obtain ⟨⟨value, after⟩, hread, h⟩ := bind_eq_ok.mp h
      cases h
      exact bind_eq_ok.mpr ⟨(value, after ++ lineEnd), hvalue.skipBlanks hread, rfl⟩
    · cases h
  · cases h

theorem stable_readValue {room' : Nat} (hroom : room ≤ room') :
    Stable (readValue room) (readValue room') := by
  induction room generalizing room' with
  | zero => exact ⟨nofun, nofun⟩
  | succ room ih =>
    obtain ⟨room', rfl⟩ : ∃ n, room' = n + 1 := ⟨room' - 1, by omega⟩
    have hroom : room ≤ room' := Nat.le_of_succ_le_succ hroom
    refine ⟨nofun, fun ps v rest h => ?_⟩
    cases ps with
    | nil => cases h
    | cons p ps =>
      rw [cons_append]
      unfold readValue at h ⊢
      split_ifs at h ⊢
      · obtain ⟨⟨t, after⟩, hstring, h⟩ := bind_eq_ok.mp h
        cases h
        exact bind_eq_ok.mpr ⟨(t, rest ++ lineEnd), readString_lineEnd hstring hroom, rfl⟩
      · obtain ⟨⟨items, after⟩, hitems, h⟩ := bind_eq_ok.mp h
        cases h
        exact bind_eq_ok.mpr
          ⟨(items, rest ++ lineEnd), readEnclosed_lineEnd (ih hroom) hroom hitems, rfl⟩
      · obtain ⟨⟨members, after⟩, hmembers, h⟩ := bind_eq_ok.mp h
        cases h
        exact bind_eq_ok.mpr ⟨(members, rest ++ lineEnd),
          readEnclosed_lineEnd (stable_readMember (ih hroom) hroom) hroom hmembers, rfl⟩
      · exact readScalar_lineEnd h

/-- A text that is read as a value is read as the same value with the end of its line. -/
theorem read_lineEnd {t : Text} (h : read t = .ok v) : read (t ++ ⟨lineEnd⟩) = .ok v := by
  obtain ⟨ps⟩ := t
  unfold read at h ⊢
  dsimp only [Text.points_append] at h ⊢
  split at h
  · cases h
  · rename_i hmark
    cases hvalue : readValue (2 * ps.length + 2) (skipBlanks ps) with
    | error left =>
      rw [hvalue] at h
      cases h
    | ok found =>
      obtain ⟨value, rest⟩ := found
      rw [hvalue] at h
      have hroom : 2 * ps.length + 2 ≤ 2 * (ps ++ lineEnd).length + 2 := by
        rw [length_append]
        omega
      have hstable := stable_readValue hroom
      have hhead : (ps ++ lineEnd).head? = ps.head? := by
        cases ps with
        | nil => exact absurd hvalue (hstable.needs _)
        | cons p tail => rfl
      rw [hhead, if_neg hmark, hstable.skipBlanks hvalue]
      dsimp only at h ⊢
      split at h
      · rename_i hend
        rw [skipBlanks_lineEnd_of_nil hend]
        exact h
      · cases h

end LineEnd

end Readiness.Json
