/-!
# Results and errors

A computation that may fail gives a result only if each of its parts does, and fails as the first
part that fails.  So what its parts may fail with (`Fails`) is what it may fail with.
-/

namespace Readiness

variable {ε α β : Type} {P : ε → Prop} {x : Except ε α} {f : α → Except ε β}

theorem ok_of_bind {r : β} (h : x >>= f = .ok r) : ∃ a, x = .ok a ∧ f a = .ok r := by
  cases x with
  | error e => cases h
  | ok a => exact ⟨a, rfl, h⟩

theorem error_of_bind {e : ε} (h : x >>= f = .error e) :
    x = .error e ∨ ∃ a, x = .ok a ∧ f a = .error e := by
  cases x with
  | error e' =>
    cases h
    exact .inl rfl
  | ok a => exact .inr ⟨a, rfl, h⟩

theorem ok_of_mapError {ε' : Type} {g : ε → ε'} {a : α} (h : x.mapError g = .ok a) : x = .ok a := by
  cases x with
  | error e => cases h
  | ok a => exact congrArg Except.ok (Except.ok.inj h)

/-- All errors with which a computation may fail have a property. -/
def Fails (P : ε → Prop) (x : Except ε α) : Prop := ∀ e, x = .error e → P e

theorem fails_ok {a : α} : Fails P (.ok a : Except ε α) := nofun

theorem Fails.bind (hx : Fails P x) (hf : ∀ a, Fails P (f a)) : Fails P (x >>= f) := by
  intro e h
  rcases error_of_bind h with h | ⟨a, -, h⟩
  · exact hx e h
  · exact hf a e h

theorem Fails.mapM (hf : ∀ a, Fails P (f a)) (l : List α) : Fails P (l.mapM f) := by
  induction l with
  | nil => exact fails_ok
  | cons a rest ih =>
    rw [List.mapM_cons]
    exact (hf a).bind fun _ => ih.bind fun _ => fails_ok

end Readiness
