/-!
# Ordered tables

A table lists its entries in the order in which their keys were first set, each key
once.  `set` keeps the place of a known key; `get?` finds the value of a key.
-/

namespace Readiness

open List

/-- Keys with values, in order of first insertion. -/
structure Table (κ : Type) (α : Type) where
  entries : List (κ × α)
  nodup : (entries.map Prod.fst).Nodup
  deriving Repr

namespace Table

variable {κ α : Type}

def empty : Table κ α := ⟨[], nodup_nil⟩

instance : Inhabited (Table κ α) := ⟨empty⟩

def keys (t : Table κ α) : List κ := t.entries.map Prod.fst

def values (t : Table κ α) : List α := t.entries.map Prod.snd

def size (t : Table κ α) : Nat := t.entries.length

def map (f : α → β) (t : Table κ α) : Table κ β where
  entries := t.entries.map fun e => (e.1, f e.2)
  nodup := by
    rw [map_map]
    exact t.nodup

def filter (keep : κ × α → Bool) (t : Table κ α) : Table κ α where
  entries := t.entries.filter keep
  nodup := t.nodup.sublist (filter_sublist.map Prod.fst)

variable [DecidableEq κ]

def lookup (key : κ) : List (κ × α) → Option α
  | [] => none
  | (k, v) :: rest => if k = key then some v else lookup key rest

def get? (t : Table κ α) (key : κ) : Option α := lookup key t.entries

def contains (t : Table κ α) (key : κ) : Bool := (t.get? key).isSome

def assign (key : κ) (value : α) : List (κ × α) → List (κ × α)
  | [] => [(key, value)]
  | (k, v) :: rest =>
    if k = key then (k, value) :: rest else (k, v) :: assign key value rest

variable {key : κ} {value : α} {entries : List (κ × α)} {e : κ × α}

theorem mem_of_mem_assign (h : e ∈ assign key value entries) :
    e = (key, value) ∨ e ∈ entries := by
  induction entries with
  | nil => exact .inl (mem_singleton.1 h)
  | cons first rest ih =>
    by_cases hk : first.1 = key
    · simp only [assign, hk, if_true, mem_cons] at h ⊢
      exact h.imp_right .inr
    · simp only [assign, hk, if_false, mem_cons] at h ⊢
      rcases h with h | h
      · exact .inr (.inl h)
      · exact (ih h).imp_right .inr

theorem nodup_assign (h : (entries.map Prod.fst).Nodup) (key : κ) (value : α) :
    ((assign key value entries).map Prod.fst).Nodup := by
  induction entries with
  | nil => simp [assign]
  | cons e rest ih =>
    simp only [map_cons, nodup_cons] at h
    by_cases hk : e.1 = key
    · simpa only [assign, hk, if_true, map_cons, nodup_cons] using hk ▸ h
    · simp only [assign, hk, if_false, map_cons, nodup_cons]
      refine ⟨fun hmem => ?_, ih h.2⟩
      obtain ⟨e', he', hkey⟩ := mem_map.1 hmem
      rcases mem_of_mem_assign he' with rfl | hrest
      · exact hk hkey.symm
      · exact h.1 (hkey ▸ mem_map_of_mem hrest)

def set (t : Table κ α) (key : κ) (value : α) : Table κ α :=
  ⟨assign key value t.entries, nodup_assign t.nodup key value⟩

def erase (t : Table κ α) (key : κ) : Table κ α := t.filter fun e => decide (e.1 ≠ key)

/-- A table from entries; of equal keys the last value wins, at the place of the first. -/
def ofList (entries : List (κ × α)) : Table κ α :=
  entries.foldl (fun t e => t.set e.1 e.2) empty

def update (t other : Table κ α) : Table κ α := other.entries.foldl (fun t e => t.set e.1 e.2) t

theorem get?_set_self (t : Table κ α) (key : κ) (value : α) :
    (t.set key value).get? key = some value := by
  simp only [get?, set]
  induction t.entries with
  | nil => simp [assign, lookup]
  | cons e rest ih =>
    by_cases h : e.1 = key <;> simp [assign, lookup, h, ih]

theorem get?_set_of_ne (t : Table κ α) {key other : κ} (h : other ≠ key) (value : α) :
    (t.set key value).get? other = t.get? other := by
  simp only [get?, set]
  induction t.entries with
  | nil => simp [assign, lookup, Ne.symm h]
  | cons e rest ih =>
    by_cases hk : e.1 = key
    · have : ¬ key = other := fun e => h e.symm
      simp [assign, lookup, hk, this]
    · by_cases ho : e.1 = other <;> simp_all [assign, lookup]

theorem mem_of_lookup (h : lookup key entries = some value) : (key, value) ∈ entries := by
  induction entries with
  | nil => cases h
  | cons e rest ih =>
    by_cases hk : e.1 = key
    · simp only [lookup, hk, if_true, Option.some.injEq] at h
      simp [← hk, ← h]
    · simp only [lookup, hk, if_false] at h
      exact mem_cons_of_mem _ (ih h)

theorem mem_entries_of_get? {t : Table κ α} (h : t.get? key = some value) :
    (key, value) ∈ t.entries := mem_of_lookup h

theorem mem_entries_set {t : Table κ α} (h : e ∈ (t.set key value).entries) :
    e = (key, value) ∨ e ∈ t.entries :=
  mem_of_mem_assign h

theorem lookup_eq_none (h : key ∉ entries.map Prod.fst) : lookup key entries = none := by
  cases hvalue : lookup key entries with
  | none => rfl
  | some value => exact absurd (mem_map_of_mem (mem_of_lookup hvalue)) h

/-- Leaving out entries leaves out values. -/
theorem get?_filter (t : Table κ α) (keep : α → Bool) (key : κ) :
    (t.filter fun e => keep e.2).get? key = (t.get? key).filter keep := by
  obtain ⟨entries, h⟩ := t
  simp only [get?, filter]
  induction entries with
  | nil => rfl
  | cons e rest ih =>
    simp only [map_cons, nodup_cons] at h
    rw [filter_cons]
    by_cases hk : e.1 = key
    · have hrest := lookup_eq_none (hk ▸ h.1)
      cases hkeep : keep e.2 with
      | true => simp [lookup, hk, Option.filter, hkeep]
      | false => simp [lookup, hk, Option.filter, hkeep, ih h.2, hrest]
    · cases hkeep : keep e.2 with
      | true | false => simp [lookup, hk, ih h.2]

end Table
end Readiness
