import Mathlib

/-!
# Reachable states of a transition system

A system is given by a predicate on its initial states and a step relation.
The reachable states are those obtained from an initial state by finitely many
steps, and an invariant is proved on all of them by showing it holds initially
and is preserved by one step. A system whose steps are each some steps of a
second system has its reachable states mapped to the second's.
-/

namespace Reachability

variable {σ : Type*}

/-- The states reachable from a state satisfying `init` by steps of `step`. -/
inductive Reachable (init : σ → Prop) (step : σ → σ → Prop) : σ → Prop
  | init {s : σ} : init s → Reachable init step s
  | step {s t : σ} : Reachable init step s → step s t → Reachable init step t

variable {init : σ → Prop} {step : σ → σ → Prop}

/-- An invariant that holds initially and is preserved by every step holds in
every reachable state. -/
theorem Reachable.invariant {inv : σ → Prop} (hinit : ∀ s, init s → inv s)
    (hstep : ∀ s t, inv s → step s t → inv t) {s : σ} (h : Reachable init step s) : inv s := by
  induction h with
  | init hs => exact hinit _ hs
  | step _ hst ih => exact hstep _ _ ih hst

/-- A step from a reachable state reaches a reachable state. -/
theorem Reachable.tail {s t : σ} (h : Reachable init step s) (hst : step s t) :
    Reachable init step t :=
  Reachable.step h hst

/-- Any number of steps from a reachable state reach a reachable state. -/
theorem Reachable.of_reflTransGen {s t : σ} (h : Reachable init step s)
    (hst : Relation.ReflTransGen step s t) : Reachable init step t := by
  induction hst with
  | refl => exact h
  | tail _ hlast ih => exact ih.tail hlast

/-- A system simulates another through `f` when `f` maps its initial states to
initial states and each of its steps to some number of steps of the other; `f`
then maps its reachable states to reachable states. -/
theorem Reachable.map {τ : Type*} {init' : τ → Prop} {step' : τ → τ → Prop} (f : σ → τ)
    (hinit : ∀ s, init s → init' (f s))
    (hstep : ∀ s t, step s t → Relation.ReflTransGen step' (f s) (f t)) {s : σ}
    (h : Reachable init step s) : Reachable init' step' (f s) := by
  induction h with
  | init hs => exact Reachable.init (hinit _ hs)
  | step _ hst ih => exact ih.of_reflTransGen (hstep _ _ hst)

end Reachability
