import Mathlib.Data.List.Basic
import Mathlib.Logic.Function.Basic

/-!
# Tables of FIFO locks

A lock table gives, for each key, the agent holding its lock and the agents
waiting for it, oldest first. An agent asking for a held lock queues behind the
last waiter; a released lock passes to the oldest waiter, or becomes free.

Every step leaves a waiter's place in its queue as it was, except a release of
its own key, which moves it one place forward or gives it the lock. So along
any run in which every holder eventually lets its lock go, every waiter
eventually holds the lock it waits for.
-/

namespace FifoLock

variable {κ α : Type*}

/-- For each key, its lock's holder and waiters, or nothing when it is free. -/
abbrev LockTable (κ α : Type*) := κ → Option (α × List α)

variable [DecidableEq κ]

/-- An agent asks for the lock of a key: it takes a free lock, and queues
behind the last waiter of a held one. -/
def acquire (t : LockTable κ α) (k : κ) (a : α) : LockTable κ α :=
  Function.update t k (some (match t k with
    | none => (a, [])
    | some (holder, waiters) => (holder, waiters ++ [a])))

/-- The holder of a key's lock lets it go: the oldest waiter takes it over with
the others behind it, and a lock without waiters becomes free. -/
def release (t : LockTable κ α) (k : κ) : LockTable κ α :=
  Function.update t k (match t k with
    | some (_, next :: waiters) => some (next, waiters)
    | _ => none)

/-- One step of a table: nothing changes, an agent asks for a lock, or a lock
is released. -/
inductive Step : LockTable κ α → LockTable κ α → Prop
  | stutter (t : LockTable κ α) : Step t t
  | acquire (t : LockTable κ α) (k : κ) (a : α) : Step t (acquire t k a)
  | release (t : LockTable κ α) (k : κ) : Step t (release t k)

/-- The agent holds the lock of the key. -/
def Holds (t : LockTable κ α) (k : κ) (a : α) : Prop :=
  ∃ waiters, t k = some (a, waiters)

@[simp]
theorem acquire_self (t : LockTable κ α) (k : κ) (a : α) :
    acquire t k a k = some (match t k with
      | none => (a, [])
      | some (holder, waiters) => (holder, waiters ++ [a])) :=
  Function.update_self _ _ _

@[simp]
theorem acquire_of_ne (t : LockTable κ α) {k k' : κ} (a : α) (h : k' ≠ k) :
    acquire t k a k' = t k' :=
  Function.update_of_ne h _ _

@[simp]
theorem release_of_ne (t : LockTable κ α) {k k' : κ} (h : k' ≠ k) :
    release t k k' = t k' :=
  Function.update_of_ne h _ _

theorem release_of_cons {t : LockTable κ α} {k : κ} {holder next : α} {waiters : List α}
    (h : t k = some (holder, next :: waiters)) : release t k k = some (next, waiters) := by
  simp [release, h]

theorem release_of_nil {t : LockTable κ α} {k : κ} {holder : α}
    (h : t k = some (holder, [])) : release t k k = none := by
  simp [release, h]

section Waiting

variable [DecidableEq α]

/-- How a waiter of a key stands after one step: still behind the same holder at
the same place, holding the lock, or one place further forward behind a new
holder. -/
def Advanced (t : LockTable κ α) (k : κ) (a : α) (place : ℕ) : Prop :=
  Holds t k a ∨ ∃ holder waiters, t k = some (holder, waiters) ∧ a ∈ waiters ∧
    waiters.idxOf a + 1 = place

/-- The step lemma of a waiter: asking for a lock only appends to a queue, so a
waiter keeps its place unless its own key is released. -/
theorem Step.waiter {t t' : LockTable κ α} (hstep : Step t t') {k : κ} {holder a : α}
    {waiters : List α} (ht : t k = some (holder, waiters)) (ha : a ∈ waiters) :
    (∃ waiters', t' k = some (holder, waiters') ∧ a ∈ waiters' ∧
      waiters'.idxOf a = waiters.idxOf a) ∨ Advanced t' k a (waiters.idxOf a) := by
  cases hstep with
  | stutter => exact Or.inl ⟨waiters, ht, ha, rfl⟩
  | acquire k' b =>
    by_cases hk : k = k'
    · subst hk
      refine Or.inl ⟨waiters ++ [b], by simp [ht], List.mem_append_left _ ha, ?_⟩
      exact List.idxOf_append_of_mem ha
    · exact Or.inl ⟨waiters, by rw [acquire_of_ne _ _ hk, ht], ha, rfl⟩
  | release k' =>
    by_cases hk : k = k'
    · subst hk
      cases waiters with
      | nil => exact absurd ha List.not_mem_nil
      | cons next rest =>
        right
        rw [Advanced]
        by_cases hnext : a = next
        · exact Or.inl ⟨rest, by rw [hnext, release_of_cons ht]⟩
        · have hrest : a ∈ rest := (List.mem_cons.mp ha).resolve_left hnext
          refine Or.inr ⟨next, rest, release_of_cons ht, hrest, ?_⟩
          rw [List.idxOf_cons_ne _ (Ne.symm (by simpa using hnext))]
    · exact Or.inl ⟨waiters, by rw [release_of_ne _ hk, ht], ha, rfl⟩

variable {run : ℕ → LockTable κ α}

/-- The run lemma of a waiter: up to any later time, it either stays at its
place behind the same holder, or advances at some step in between. -/
theorem waiter_stays_or_advances (hrun : ∀ n, Step (run n) (run (n + 1))) {n : ℕ}
    {k : κ} {holder a : α} {waiters : List α} (ht : run n k = some (holder, waiters))
    (ha : a ∈ waiters) (j : ℕ) :
    (∃ waiters', run (n + j) k = some (holder, waiters') ∧ a ∈ waiters' ∧
      waiters'.idxOf a = waiters.idxOf a) ∨
    ∃ l, n < l ∧ l ≤ n + j ∧ Advanced (run l) k a (waiters.idxOf a) := by
  induction j with
  | zero => exact Or.inl ⟨waiters, ht, ha, rfl⟩
  | succ j ih =>
    rcases ih with ⟨waiters', ht', ha', hplace⟩ | ⟨l, hnl, hlj, hadv⟩
    · rcases (hrun (n + j)).waiter ht' ha' with ⟨waiters'', ht'', ha'', hplace'⟩ | hadv
      · exact Or.inl ⟨waiters'', ht'', ha'', hplace'.trans hplace⟩
      · exact Or.inr ⟨n + j + 1, by omega, by omega, hplace ▸ hadv⟩
    · exact Or.inr ⟨l, hnl, by omega, hadv⟩

/-- Every holder eventually lets its lock go (to another agent, or to nobody). -/
def HoldersRelease (run : ℕ → LockTable κ α) : Prop :=
  ∀ n k holder, Holds (run n) k holder → ∃ m, n ≤ m ∧ ¬ Holds (run m) k holder

/-- FIFO hand-off gives starvation freedom: along a run in which every holder
eventually releases, every waiter eventually holds the lock it waits for. The
induction is on the waiter's place in its queue, which each release of its key
lowers by one. -/
theorem waiter_eventually_holds (hrun : ∀ n, Step (run n) (run (n + 1)))
    (hfair : HoldersRelease run) :
    ∀ n k holder waiters a, run n k = some (holder, waiters) → a ∈ waiters →
      ∃ m, n ≤ m ∧ Holds (run m) k a := by
  suffices h : ∀ place n k holder waiters a, run n k = some (holder, waiters) →
      a ∈ waiters → waiters.idxOf a = place → ∃ m, n ≤ m ∧ Holds (run m) k a from
    fun n k holder waiters a ht ha => h _ n k holder waiters a ht ha rfl
  intro place
  induction place using Nat.strongRecOn with
  | _ place ih =>
    intro n k holder waiters a ht ha hplace
    obtain ⟨m, hnm, hreleased⟩ := hfair n k holder ⟨waiters, ht⟩
    have hm : n + (m - n) = m := by omega
    rcases waiter_stays_or_advances hrun ht ha (m - n) with ⟨waiters', ht', -⟩ | ⟨l, hnl, -, hadv⟩
    · exact absurd ⟨waiters', hm ▸ ht'⟩ hreleased
    · rcases hadv with hholds | ⟨holder', waiters', ht', ha', hplace'⟩
      · exact ⟨l, by omega, hholds⟩
      · obtain ⟨m', hlm', hholds⟩ :=
          ih _ (by omega) l k holder' waiters' a ht' ha' rfl
        exact ⟨m', by omega, hholds⟩

end Waiting

end FifoLock
