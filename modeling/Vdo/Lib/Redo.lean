import Mathlib

/-!
# Redo recovery against per-key checkpoints

A log of operations, each changing the value at one key, is applied in order to
an initial state. After a crash each key holds its value after some prefix of
the log, its checkpoint; recovery replays the log from some position on, and
redoes an operation only when the operation comes after the checkpoint of its
key. The rules here show that such a replay reaches the state after the whole
log: each step keeps the invariant that every key holds its value after the
later of its checkpoint and the replay position, and at the end of the log that
value is the final one.
-/

namespace Redo

variable {ι V Op : Type*} [DecidableEq ι] (key : Op → ι) (apply : Op → V → Option V)

/-- Apply one operation to the value at its key; the operation may fail. -/
def step (state : ι → V) (op : Op) : Option (ι → V) :=
  (apply op (state (key op))).map (Function.update state (key op))

/-- Apply a log of operations in order, failing at the first that fails. -/
def run (state : ι → V) (ops : List Op) : Option (ι → V) :=
  ops.foldlM (step key apply) state

/-- The state after the first `k` operations of the log. -/
def after (init : ι → V) (ops : List Op) (k : ℕ) : ι → V :=
  (run key apply init (ops.take k)).getD init

/-- Replay has reached position `m` of the log: every key of `keys` holds its
value after the later of its checkpoint and `m` operations. -/
def Redone (init : ι → V) (ops : List Op) (checkpoint : ι → ℕ) (keys : Set ι) (m : ℕ)
    (state : ι → V) : Prop :=
  ∀ i ∈ keys, state i = after key apply init ops (max (checkpoint i) m) i

variable {key apply}

/-- A step that succeeds sets the key of the operation to the new value. -/
theorem step_eq_some {state next : ι → V} {op : Op} :
    step key apply state op = some next ↔
      ∃ value, apply op (state (key op)) = some value ∧
        next = Function.update state (key op) value := by
  unfold step
  constructor
  · intro h
    obtain ⟨value, happly, hnext⟩ := Option.map_eq_some_iff.mp h
    exact ⟨value, happly, hnext.symm⟩
  · rintro ⟨value, happly, rfl⟩
    rw [happly]
    rfl

/-- A run of a concatenation is the run of the rest from the end of the first part. -/
theorem run_append (state : ι → V) (first rest : List Op) :
    run key apply state (first ++ rest) =
      (run key apply state first).bind fun middle => run key apply middle rest := by
  unfold run
  rw [List.foldlM_append]
  rfl

section Trace

variable {init final : ι → V} {ops : List Op}

/-- Every prefix of a run that succeeds succeeds, with the state `after` names. -/
theorem run_take_eq (hrun : run key apply init ops = some final) (k : ℕ) :
    run key apply init (ops.take k) = some (after key apply init ops k) := by
  have hsplit : run key apply init (ops.take k ++ ops.drop k) = _ :=
    run_append init (ops.take k) (ops.drop k)
  rw [List.take_append_drop, hrun] at hsplit
  unfold after
  cases hfirst : run key apply init (ops.take k) with
  | none =>
    rw [hfirst] at hsplit
    cases hsplit
  | some middle => rfl

/-- The state after no operation is the initial one. -/
@[simp] theorem after_zero : after key apply init ops 0 = init := by
  simp [after, run]

/-- The state after the whole log is the result of the run. -/
theorem after_length (hrun : run key apply init ops = some final) :
    after key apply init ops ops.length = final := by
  have hlength := run_take_eq hrun ops.length
  rw [List.take_length, hrun] at hlength
  exact (Option.some.inj hlength).symm

/-- Operation `k` takes the state after `k` operations to the state after
`k + 1`. -/
theorem step_after (hrun : run key apply init ops = some final) {k : ℕ} (hk : k < ops.length) :
    step key apply (after key apply init ops k) ops[k] = some (after key apply init ops (k + 1)) := by
  have hsucc := run_take_eq hrun (k + 1)
  rw [List.take_add_one, List.getElem?_eq_getElem hk, Option.toList_some, run_append,
    run_take_eq hrun k] at hsucc
  simpa [run] using hsucc

/-- Operation `k` applied to the value at its key gives that key's value after
`k + 1` operations. -/
theorem apply_after (hrun : run key apply init ops = some final) {k : ℕ} (hk : k < ops.length) :
    apply ops[k] (after key apply init ops k (key ops[k])) =
      some (after key apply init ops (k + 1) (key ops[k])) := by
  obtain ⟨value, happly, hnext⟩ := step_eq_some.mp (step_after hrun hk)
  rw [happly, hnext, Function.update_self]

/-- Operation `k` leaves every other key alone. -/
theorem after_succ_of_ne (hrun : run key apply init ops = some final) {k : ℕ} (hk : k < ops.length)
    {i : ι} (hi : i ≠ key ops[k]) :
    after key apply init ops (k + 1) i = after key apply init ops k i := by
  obtain ⟨value, -, hnext⟩ := step_eq_some.mp (step_after hrun hk)
  rw [hnext, Function.update_of_ne hi]

/-- A property of values that the initial state has and that every successful
operation keeps holds of every value along the run. -/
theorem after_of_apply (P : V → Prop) (hinit : ∀ i, P (init i))
    (happly : ∀ op value value', P value → apply op value = some value' → P value')
    (hrun : run key apply init ops = some final) :
    ∀ k ≤ ops.length, ∀ i, P (after key apply init ops k i)
  | 0, _, i => by
    rw [after_zero]
    exact hinit i
  | k + 1, hk, i => by
    have hprev := after_of_apply P hinit happly hrun k (by omega)
    by_cases hkey : i = key ops[k]
    · subst hkey
      exact happly _ _ _ (hprev _) (apply_after hrun (by omega))
    · rw [after_succ_of_ne hrun (by omega) hkey]
      exact hprev i

end Trace

/-! ## Replay against checkpoints -/

section Checkpoints

variable {init final : ι → V} {ops : List Op} {checkpoint : ι → ℕ} {keys : Set ι}

/-- Before replay, at a position no later than any checkpoint, each key holds its
value after its checkpoint. -/
theorem redone_of_checkpoint {m : ℕ} {state : ι → V}
    (h : ∀ i ∈ keys, m ≤ checkpoint i ∧ state i = after key apply init ops (checkpoint i) i) :
    Redone key apply init ops checkpoint keys m state := by
  intro i hi
  obtain ⟨hm, hstate⟩ := h i hi
  rw [hstate, max_eq_left hm]

/-- An operation at or before the checkpoint of its key is skipped. -/
theorem Redone.skip {m : ℕ} {state : ι → V}
    (h : Redone key apply init ops checkpoint keys m state)
    (hrun : run key apply init ops = some final) (hm : m < ops.length)
    (hskip : m < checkpoint (key ops[m])) :
    Redone key apply init ops checkpoint keys (m + 1)
      state := by
  intro i hi
  rw [h i hi]
  by_cases hlater : m < checkpoint i
  · rw [max_eq_left (by omega : m ≤ checkpoint i), max_eq_left (by omega : m + 1 ≤ checkpoint i)]
  · have hne : i ≠ key ops[m] := by
      rintro rfl
      exact hlater hskip
    rw [max_eq_right (by omega : checkpoint i ≤ m), max_eq_right (by omega : checkpoint i ≤ m + 1),
      after_succ_of_ne hrun hm hne]

/-- An operation after the checkpoint of its key is redone: it succeeds on the
key's current value and its result keeps the invariant. -/
theorem Redone.redo {m : ℕ} {state : ι → V}
    (h : Redone key apply init ops checkpoint keys m state)
    (hrun : run key apply init ops = some final) (hm : m < ops.length)
    (hredo : checkpoint (key ops[m]) ≤ m) (hkey : key ops[m] ∈ keys) :
    apply ops[m] (state (key ops[m])) = some (after key apply init ops (m + 1) (key ops[m])) ∧
      Redone key apply init ops checkpoint keys (m + 1)
        (Function.update state (key ops[m]) (after key apply init ops (m + 1) (key ops[m]))) := by
  have hcurrent : state (key ops[m]) = after key apply init ops m (key ops[m]) := by
    rw [h _ hkey, max_eq_right hredo]
  refine ⟨hcurrent ▸ apply_after hrun hm, ?_⟩
  intro i hi
  by_cases hi' : i = key ops[m]
  · subst hi'
    rw [Function.update_self, max_eq_right (by omega : checkpoint (key ops[m]) ≤ m + 1)]
  · rw [Function.update_of_ne hi', h i hi]
    by_cases hlater : m < checkpoint i
    · rw [max_eq_left (by omega : m ≤ checkpoint i),
        max_eq_left (by omega : m + 1 ≤ checkpoint i)]
    · rw [max_eq_right (by omega : checkpoint i ≤ m),
        max_eq_right (by omega : checkpoint i ≤ m + 1), after_succ_of_ne hrun hm hi']

/-- At the end of the log every key holds its final value. -/
theorem Redone.eq_final {state : ι → V}
    (h : Redone key apply init ops checkpoint keys
      ops.length state)
    (hrun : run key apply init ops = some final) (hcheckpoint : ∀ i ∈ keys, checkpoint i ≤ ops.length) :
    ∀ i ∈ keys, state i = final i := by
  intro i hi
  rw [h i hi, max_eq_right (hcheckpoint i hi), after_length hrun]

end Checkpoints

end Redo
