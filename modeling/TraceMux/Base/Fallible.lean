/-
# Computations that fail

What is known of the parts of a computation that ended well. A sequence is taken apart one step
at a time, and a check that a computation went past was passed.
-/

import Mathlib.Data.List.Forall2

namespace TraceMux.Base

variable {α β ε ε' : Type} {x : Except ε α}

/-- A sequence that ended well: both of its steps did. -/
theorem exists_of_bind_eq_ok {f : α → Except ε β} {b : β} (h : x >>= f = .ok b) :
    ∃ a, x = .ok a ∧ f a = .ok b := by
  cases x with
  | error e => cases h
  | ok a => exact ⟨a, rfl, h⟩

/-- Another name for the error does not change what a computation gives. -/
theorem mapError_eq_ok {f : ε → ε'} {a : α} (h : x.mapError f = .ok a) : x = .ok a := by
  cases x with
  | error e => cases h
  | ok b => cases h; rfl

theorem exists_of_isOk (h : x.isOk = true) : ∃ a, x = .ok a := by
  cases x with
  | error e => cases h
  | ok a => exact ⟨a, rfl⟩

/-- A check that a computation went past, as a `do` block writes it, was passed. -/
theorem of_check_eq_ok {p : Prop} [Decidable p] {e : ε} {next : β → Except ε α} {a : α}
    (h : (if p then Except.error e >>= next else x) = .ok a) : ¬ p ∧ x = .ok a := by
  split at h
  · cases h
  · next hp => exact ⟨hp, h⟩

/-- A list that was gone through to its end: each item has its result. -/
theorem forall₂_of_mapM_eq_ok {f : α → Except ε β} {as : List α} {bs : List β}
    (h : as.mapM f = .ok bs) : List.Forall₂ (fun a b => f a = .ok b) as bs := by
  induction as generalizing bs with
  | nil =>
    cases h
    exact .nil
  | cons a as ih =>
    rw [List.mapM_cons] at h
    obtain ⟨b, hb, h⟩ := exists_of_bind_eq_ok h
    obtain ⟨bs, hbs, h⟩ := exists_of_bind_eq_ok h
    cases h
    exact .cons hb (ih hbs)

end TraceMux.Base
