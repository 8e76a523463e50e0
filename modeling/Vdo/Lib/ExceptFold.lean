import Mathlib

/-!
# Folds in the exception monad

A loop that stops at its first error is a `List.foldlM` in `Except`. The rules
here take such folds apart: a bind that succeeds, folds of steps that agree on
the list, and the success of a fold whose every step succeeds.
-/

namespace ExceptFold

universe u v w

variable {ε : Type u} {α : Type w} {β γ : Type v}

/-- A bind on a success continues with its value. -/
@[simp] theorem ok_bind (a : γ) (f : γ → Except ε β) : (Except.ok a >>= f) = f a := rfl

/-- A bind on an error stops with it. -/
@[simp] theorem error_bind (e : ε) (f : γ → Except ε β) : (Except.error e >>= f) = .error e := rfl

/-- A bind succeeds exactly when both parts do. -/
theorem bind_eq_ok {x : Except ε γ} {f : γ → Except ε β} {b : β} :
    x >>= f = .ok b ↔ ∃ a, x = .ok a ∧ f a = .ok b := by
  cases x with
  | error e =>
    constructor
    · intro h
      cases h
    · rintro ⟨a, ha, -⟩
      cases ha
  | ok a =>
    constructor
    · intro h
      exact ⟨a, rfl, h⟩
    · rintro ⟨a', ha, hf⟩
      cases ha
      exact hf

/-- Folds of steps that agree on the members of the list agree. -/
theorem foldlM_congr {m : Type v → Type*} [Monad m] {f g : β → α → m β} {l : List α}
    (h : ∀ b, ∀ a ∈ l, f b a = g b a) (b : β) : l.foldlM f b = l.foldlM g b := by
  induction l generalizing b with
  | nil => rfl
  | cons a l ih =>
    simp only [List.foldlM_cons]
    rw [h b a List.mem_cons_self]
    congr 1
    funext b'
    exact ih (fun b'' a' ha' => h b'' a' (List.mem_cons_of_mem a ha')) b'

end ExceptFold
