import Vdo.Base.ReferenceSemantics
import Vdo.Lib.Reachability

/-!
# PBN locks and the increments they hand out

A PBN lock (`pbnLock.c`) on a physical block lets hash locks deduplicate
against the block: each hash lock that shares the lock claims one of the
references still available on the block, `claimPBNLockIncrement`, an atomic
add to a 32-bit claim counter, and succeeds while the claim's number is within
the lock's `incrementLimit`. The limit is set once in the lock's life: by
`lockDuplicatePBN` for a read lock it takes first, from the references
available when it locks (`getAvailableReferences`), and by
`downgradePBNWriteLock` for the write lock of a data block (whose writer has
one increment journaled) or of a compressed block (shared with its fragments,
which claim too).

Claims from the hash zones' threads interleave, but each is one atomic step,
so a run of the lock is any sequence of claims, shares and releases
(`PBNLockStep`). Fewer than `2 ^ 32` claims succeed at most `incrementLimit`
times (`TrackedPBNLock.successes_eq`), and that many increments keep the
block's counter within `MAXIMUM_REFERENCE_COUNT`; the `2 ^ 32`-th claim wraps
the counter to zero and succeeds again.
-/

namespace Vdo

open Reachability

/-- `PBNLockType`. -/
inductive PBNLockType
  | vioReadLock
  | vioWriteLock
  | vioCompressedWriteLock
  | vioBlockMapWriteLock
  deriving DecidableEq, Repr

/-- The fields of a `PBNLock` its increments use. -/
structure PBNLock where
  lockType : PBNLockType
  /-- The number of VIOs holding or sharing the lock. -/
  holderCount : ℕ
  /-- The references known to be available on the block when it was locked. -/
  incrementLimit : ℕ
  /-- `incrementsClaimed`, a 32-bit atomic counter. -/
  incrementsClaimed : ℕ
  deriving DecidableEq, Repr

/-- `initializePBNLock` on a lock of the pool, which `borrowPBNLockFromPool`
has zeroed. -/
def initializePBNLock (type : PBNLockType) : PBNLock := ⟨type, 0, 0, 0⟩

/-- `downgradePBNWriteLock`: a data write lock keeps its writer, who has one
increment journaled; a compressed write lock is handed to its fragments. -/
def downgradePBNWriteLock (lock : PBNLock) : PBNLock :=
  if lock.lockType = .vioWriteLock then
    { lock with incrementLimit := maximumReferenceCount - 1, lockType := .vioReadLock }
  else
    { lock with holderCount := 0, incrementLimit := maximumReferenceCount, lockType := .vioReadLock }

/-- `claimPBNLockIncrement`: take the next claim number, the new value of the
atomic counter, and succeed if it is within the limit. -/
def claimPBNLockIncrement (lock : PBNLock) : PBNLock × Bool :=
  let claimNumber := (lock.incrementsClaimed + 1) % 2 ^ 32
  ({ lock with incrementsClaimed := claimNumber }, decide (claimNumber ≤ lock.incrementLimit))

/-- `setDuplicateLock`: one more hash lock shares the lock. -/
def setDuplicateLock (lock : PBNLock) : PBNLock := { lock with holderCount := lock.holderCount + 1 }

/-- `getAvailableReferences`: the references the block can still take, one
fewer for a provisional reference, none for a block outside the slab. -/
def getAvailableReferences (refCounts : RefCounts) (pbn : ℕ) : ℕ :=
  match slabBlockNumberFromPBN refCounts.start refCounts.blockCount pbn with
  | .error _ => 0
  | .ok index =>
    if refCounts.counters index = provisionalReferenceCount then maximumReferenceCount - 1
    else maximumReferenceCount - refCounts.counters index

/-- The read-lock part of `lockDuplicatePBN`, on the physical zone's thread,
with the limit `getIncrementLimit` read before locking and the lock
`attemptPBNLock` returned: none when the block is not deduplicated against;
otherwise a lock no one held gets the block provisionally referenced and the
limit, and the hash lock takes its share. -/
def lockDuplicatePBN (slabOpen : Bool) (refCounts : RefCounts) (incrementLimit pbn : ℕ)
    (lock : PBNLock) : Except VdoError (Option (PBNLock × RefCounts)) :=
  if incrementLimit = 0 then .ok none
  else if lock.lockType ≠ .vioReadLock then .ok none
  else if lock.holderCount = 0 then
    match provisionallyReferenceBlock slabOpen refCounts pbn true with
    | .error e => .error e
    | .ok (refCounts, _) =>
      .ok (some (setDuplicateLock { lock with incrementLimit := incrementLimit }, refCounts))
  else .ok (some (setDuplicateLock lock, refCounts))

/-! ## A lock's life -/

/-- Where a lock's increment limit came from. -/
inductive PBNLockOrigin
  /-- A read lock first taken by `lockDuplicatePBN` against these counts,
  which the provisional reference turned into the second. -/
  | duplicate (refCounts locked : RefCounts) (pbn : ℕ)
  /-- The write lock of a data block, downgraded in place. -/
  | dataWrite
  /-- The write lock of a compressed block, downgraded to share with its
  fragments. -/
  | compressedWrite

/-- The counts a read lock's origin names are those before and after the
provisional reference `lockDuplicatePBN` took. -/
def PBNLockOrigin.Valid : PBNLockOrigin → Prop
  | .duplicate refCounts locked pbn => ∃ slabOpen assigned,
    provisionallyReferenceBlock slabOpen refCounts pbn true = .ok (locked, assigned)
  | .dataWrite => True
  | .compressedWrite => True

/-- The increment limit each origin gives. -/
def PBNLockOrigin.incrementLimit : PBNLockOrigin → ℕ
  | .duplicate refCounts _ pbn => getAvailableReferences refCounts pbn
  | .dataWrite => maximumReferenceCount - 1
  | .compressedWrite => maximumReferenceCount

/-- A lock in its lifetime, with its origin and the claims made on it so
far. -/
structure TrackedPBNLock where
  origin : PBNLockOrigin
  lock : PBNLock
  claims : ℕ
  successes : ℕ

/-- How a lifetime starts, by origin. -/
def PBNLockStart (t : TrackedPBNLock) : Prop :=
  t.claims = 0 ∧ t.successes = 0 ∧
    match t.origin with
    | .duplicate refCounts locked pbn => ∃ slabOpen,
      lockDuplicatePBN slabOpen refCounts (getAvailableReferences refCounts pbn) pbn
        (initializePBNLock .vioReadLock) = .ok (some (t.lock, locked))
    | .dataWrite => t.lock = downgradePBNWriteLock { initializePBNLock .vioWriteLock with holderCount := 1 }
    | .compressedWrite =>
      t.lock = downgradePBNWriteLock { initializePBNLock .vioCompressedWriteLock with holderCount := 1 }

/-- One claim on the lock, and its outcome. -/
def TrackedPBNLock.claim (t : TrackedPBNLock) : TrackedPBNLock :=
  ⟨t.origin, (claimPBNLockIncrement t.lock).1, t.claims + 1,
    t.successes + if (claimPBNLockIncrement t.lock).2 then 1 else 0⟩

/-- What can happen to a lock while it is held: a claim from a hash lock of any
hash zone, another hash lock sharing it, or a holder other than the last
releasing it. -/
inductive PBNLockStep : TrackedPBNLock → TrackedPBNLock → Prop
  | claim (t : TrackedPBNLock) : PBNLockStep t t.claim
  | share (t : TrackedPBNLock) : PBNLockStep t { t with lock := setDuplicateLock t.lock }
  | release (t : TrackedPBNLock) (h : 1 < t.lock.holderCount) :
      PBNLockStep t { t with lock := { t.lock with holderCount := t.lock.holderCount - 1 } }

/-! ## The claim count over a lifetime -/

namespace TrackedPBNLock

/-- What every state of a lifetime keeps: the limit its origin gave, a claim
counter that is the number of claims modulo `2 ^ 32`, and, before the counter
wraps, one success for each claim within the limit. -/
structure Counted (t : TrackedPBNLock) : Prop where
  origin_valid : t.origin.Valid
  incrementLimit_eq : t.lock.incrementLimit = t.origin.incrementLimit
  incrementsClaimed_eq : t.lock.incrementsClaimed = t.claims % 2 ^ 32
  successes_eq : t.claims < 2 ^ 32 → t.successes = min t.claims t.lock.incrementLimit

/-- Every origin gives the lock its origin's limit and an unused counter. -/
theorem counted_of_start {t : TrackedPBNLock} (h : PBNLockStart t) : t.Counted := by
  obtain ⟨origin, lock, claims, successes⟩ := t
  obtain ⟨rfl, rfl, hlock⟩ := h
  have hlimit : origin.Valid ∧ lock.incrementLimit = origin.incrementLimit ∧ lock.incrementsClaimed = 0 := by
    cases origin with
    | duplicate refCounts locked pbn =>
      obtain ⟨slabOpen, hok⟩ := hlock
      unfold lockDuplicatePBN at hok
      by_cases hzero : getAvailableReferences refCounts pbn = 0
      · simp [hzero] at hok
      · simp only [if_neg hzero, initializePBNLock, ne_eq, not_true_eq_false, if_false, if_true] at hok
        split at hok
        · cases hok
        · rename_i provisioned assigned hprovisional
          cases hok
          exact ⟨⟨slabOpen, assigned, hprovisional⟩, rfl, rfl⟩
    | dataWrite =>
      subst hlock
      exact ⟨trivial, rfl, rfl⟩
    | compressedWrite =>
      subst hlock
      exact ⟨trivial, rfl, rfl⟩
  exact ⟨hlimit.1, hlimit.2.1, by simp [hlimit.2.2], fun _ => by simp⟩

/-- A claim keeps the count: before the counter wraps, the claim's number is
the number of claims made. -/
theorem Counted.claim {t : TrackedPBNLock} (h : t.Counted) : t.claim.Counted where
  origin_valid := h.origin_valid
  incrementLimit_eq := h.incrementLimit_eq
  incrementsClaimed_eq := by
    show (t.lock.incrementsClaimed + 1) % 2 ^ 32 = (t.claims + 1) % 2 ^ 32
    rw [h.incrementsClaimed_eq, Nat.mod_add_mod]
  successes_eq := by
    intro hclaims
    have hbefore := h.successes_eq (by simp only [TrackedPBNLock.claim] at hclaims; omega)
    have hnumber : (t.lock.incrementsClaimed + 1) % 2 ^ 32 = t.claims + 1 := by
      rw [h.incrementsClaimed_eq, Nat.mod_add_mod]
      exact Nat.mod_eq_of_lt hclaims
    simp only [TrackedPBNLock.claim, claimPBNLockIncrement, hnumber, hbefore]
    split_ifs <;> simp_all <;> omega

theorem Counted.step {t t' : TrackedPBNLock} (h : t.Counted) (hstep : PBNLockStep t t') : t'.Counted := by
  cases hstep with
  | claim => exact h.claim
  | share => exact ⟨h.origin_valid, h.incrementLimit_eq, h.incrementsClaimed_eq, h.successes_eq⟩
  | release => exact ⟨h.origin_valid, h.incrementLimit_eq, h.incrementsClaimed_eq, h.successes_eq⟩

theorem counted_of_reachable {t : TrackedPBNLock} (h : Reachable PBNLockStart PBNLockStep t) :
    t.Counted :=
  h.invariant (fun _ hstart => counted_of_start hstart) fun _ _ hcounted hstep => hcounted.step hstep

/-- Claims made one after another. -/
theorem reachable_claim_iterate {t : TrackedPBNLock} (h : Reachable PBNLockStart PBNLockStep t)
    (n : ℕ) : Reachable PBNLockStart PBNLockStep (TrackedPBNLock.claim^[n] t) := by
  induction n with
  | zero => exact h
  | succ n ih =>
    rw [Function.iterate_succ_apply']
    exact ih.step (PBNLockStep.claim _)

theorem origin_claim_iterate (t : TrackedPBNLock) (n : ℕ) :
    (TrackedPBNLock.claim^[n] t).origin = t.origin := by
  induction n with
  | zero => rfl
  | succ n ih =>
    rw [Function.iterate_succ_apply', TrackedPBNLock.claim, ih]

theorem claims_claim_iterate (t : TrackedPBNLock) (n : ℕ) :
    (TrackedPBNLock.claim^[n] t).claims = t.claims + n := by
  induction n with
  | zero => rfl
  | succ n ih =>
    rw [Function.iterate_succ_apply', TrackedPBNLock.claim, ih]
    rfl

end TrackedPBNLock

/-! ## The increments the claims pay for -/

/-- The data increments of `count` claims, journaled one after another to the
block's counter, while the PBN lock is held. -/
def incrementTimes (refCounts : RefCounts) (index : ℕ) : ℕ → Except VdoError RefCounts
  | 0 => .ok refCounts
  | count + 1 =>
    match incrementTimes refCounts index count with
    | .error e => .error e
    | .ok refCounts =>
      match refCounts.incrementForData index (referenceCountToStatus (refCounts.counters index)) true with
      | .error e => .error e
      | .ok (refCounts, _) => .ok refCounts

/-- The increments a counter can take: up to `MAXIMUM_REFERENCE_COUNT`, a
provisional reference becoming the first. -/
def incrementsAvailable (count : ℕ) : ℕ :=
  if count = provisionalReferenceCount then maximumReferenceCount else maximumReferenceCount - count

/-- The counter after `increments` data increments from `count`. -/
def countAfterIncrements (count increments : ℕ) : ℕ :=
  if increments = 0 then count
  else if count = provisionalReferenceCount then increments
  else count + increments

/-- Within what is available, the counter before another increment is below
the maximum, or still provisional. -/
theorem countAfterIncrements_room {count increments : ℕ} (hcount : count ≤ provisionalReferenceCount)
    (havailable : increments + 1 ≤ incrementsAvailable count) :
    countAfterIncrements count increments < maximumReferenceCount ∨
      countAfterIncrements count increments = provisionalReferenceCount := by
  unfold countAfterIncrements incrementsAvailable at *
  unfold provisionalReferenceCount maximumReferenceCount at *
  split_ifs at havailable ⊢ <;> omega

/-- and the increment moves it one on, a provisional reference becoming the
first. -/
theorem countAfterIncrements_succ {count increments : ℕ}
    (havailable : increments + 1 ≤ incrementsAvailable count) :
    countAfterIncrements count (increments + 1) =
      if countAfterIncrements count increments = provisionalReferenceCount then 1
      else countAfterIncrements count increments + 1 := by
  unfold countAfterIncrements incrementsAvailable at *
  rw [if_neg (Nat.succ_ne_zero increments)]
  unfold provisionalReferenceCount maximumReferenceCount at *
  split_ifs at havailable ⊢ <;> omega

theorem countAfterIncrements_le {count increments : ℕ} (hpos : 0 < increments) (havailable : increments ≤ incrementsAvailable count) :
    countAfterIncrements count increments ≤ maximumReferenceCount := by
  unfold countAfterIncrements incrementsAvailable at *
  unfold provisionalReferenceCount maximumReferenceCount at *
  split_ifs at havailable ⊢ <;> omega

/-- One data increment of a counter below the maximum, or provisional. -/
theorem incrementForData_counter {refCounts : RefCounts} {index : ℕ}
    (hroom : refCounts.counters index < maximumReferenceCount ∨
      refCounts.counters index = provisionalReferenceCount) :
    ∃ updated report, refCounts.incrementForData index
        (referenceCountToStatus (refCounts.counters index)) true = .ok (updated, report) ∧
      updated.counters index =
        if refCounts.counters index = provisionalReferenceCount then 1 else refCounts.counters index + 1 := by
  rcases hroom with hlt | hprovisional
  · have hne : refCounts.counters index ≠ provisionalReferenceCount := by
      unfold maximumReferenceCount at hlt
      unfold provisionalReferenceCount
      omega
    rw [if_neg hne]
    by_cases hfree : refCounts.counters index = emptyReferenceCount
    · have hstatus : referenceCountToStatus (refCounts.counters index) = .free := by
        simp [referenceCountToStatus, hfree]
      rw [hstatus]
      exact ⟨_, _, rfl, by simp [hfree, emptyReferenceCount]⟩
    · have hstatus : referenceCountToStatus (refCounts.counters index) = .single ∨
          referenceCountToStatus (refCounts.counters index) = .shared := by
        unfold referenceCountToStatus
        split_ifs <;> simp_all
      have hok : ¬ maximumReferenceCount ≤ refCounts.counters index := not_le.mpr hlt
      rcases hstatus with hstatus | hstatus <;> rw [hstatus] <;>
        exact ⟨refCounts.setCounter index (refCounts.counters index + 1), _,
          by simp only [RefCounts.incrementForData, if_neg hok]; rfl, by simp⟩
  · have hstatus : referenceCountToStatus (refCounts.counters index) = .provisional := by
      simp [referenceCountToStatus, hprovisional, provisionalReferenceCount, emptyReferenceCount]
    rw [if_pos hprovisional, hstatus]
    exact ⟨_, _, rfl, by simp⟩

/-- A counter takes `count` increments within what it has available. -/
theorem incrementTimes_ok {refCounts : RefCounts} {index : ℕ}
    (hcounter : refCounts.counters index ≤ provisionalReferenceCount) {count : ℕ}
    (hcount : count ≤ incrementsAvailable (refCounts.counters index)) :
    ∃ updated, incrementTimes refCounts index count = .ok updated ∧
      updated.counters index = countAfterIncrements (refCounts.counters index) count := by
  induction count with
  | zero => exact ⟨refCounts, rfl, by simp [countAfterIncrements]⟩
  | succ count ih =>
    obtain ⟨before, hbefore, hvalue⟩ := ih (by omega)
    obtain ⟨updated, report, hok, hupdated⟩ := incrementForData_counter
      (hvalue ▸ countAfterIncrements_room hcounter hcount)
    refine ⟨updated, by rw [incrementTimes, hbefore]; simp only [hok], ?_⟩
    rw [hupdated, hvalue, countAfterIncrements_succ hcount]

/-- The references `lockDuplicatePBN` read as available are within what the
block has after its provisional reference. -/
theorem getAvailableReferences_le {refCounts locked : RefCounts} {slabOpen assigned : Bool} {pbn index : ℕ}
    (hconsistent : refCounts.Consistent)
    (hprovisional : provisionallyReferenceBlock slabOpen refCounts pbn true = .ok (locked, assigned))
    (hindex : slabBlockNumberFromPBN refCounts.start refCounts.blockCount pbn = .ok index) :
    getAvailableReferences refCounts pbn ≤ incrementsAvailable (locked.counters index) ∧
      locked.counters index ≤ provisionalReferenceCount := by
  obtain ⟨slabBlockNumber, hsbn, ⟨hfree, rfl, -⟩ | ⟨-, rfl, -⟩⟩ := provisionallyReferenceBlock_ok hprovisional
  all_goals rw [hindex] at hsbn; cases hsbn
  · simp [getAvailableReferences, hindex, hfree, incrementsAvailable, RefCounts.makeProvisionalReference,
      emptyReferenceCount, provisionalReferenceCount]
  · have hle := hconsistent.counter_le index
    unfold getAvailableReferences incrementsAvailable
    rw [hindex]
    simp only
    split_ifs <;> simp_all [maximumReferenceCount]

/-- What a lock's claims come to, for a lock in a lifetime of fewer than
`2 ^ 32` claims: its limit is its origin's; at most that many claims succeed;
and one data increment for each success (and for a data write lock, the
writer's own) is taken by the block's counter without passing
`MAXIMUM_REFERENCE_COUNT`: against the counts the read lock was taken on, or
from the provisional reference a written block was allocated with. -/
def TrackedPBNLock.IncrementsBounded (t : TrackedPBNLock) : Prop :=
  t.lock.incrementLimit = t.origin.incrementLimit ∧ t.successes ≤ t.origin.incrementLimit ∧
    (∀ refCounts locked pbn index, t.origin = .duplicate refCounts locked pbn → refCounts.Consistent →
      slabBlockNumberFromPBN refCounts.start refCounts.blockCount pbn = .ok index →
      ∃ updated, incrementTimes locked index t.successes = .ok updated ∧
        (0 < t.successes → updated.counters index ≤ maximumReferenceCount)) ∧
    (t.origin = .dataWrite → ∀ (refCounts : RefCounts) index,
      refCounts.counters index = provisionalReferenceCount →
      ∃ updated, incrementTimes refCounts index (t.successes + 1) = .ok updated ∧
        updated.counters index ≤ maximumReferenceCount) ∧
    (t.origin = .compressedWrite → ∀ (refCounts : RefCounts) index,
      refCounts.counters index = provisionalReferenceCount →
      ∃ updated, incrementTimes refCounts index t.successes = .ok updated ∧
        (0 < t.successes → updated.counters index ≤ maximumReferenceCount))

theorem pbnLock_increments_bounded {t : TrackedPBNLock} (h : Reachable PBNLockStart PBNLockStep t)
    (hclaims : t.claims < 2 ^ 32) : t.IncrementsBounded := by
  have hcounted := TrackedPBNLock.counted_of_reachable h
  have hsuccesses : t.successes ≤ t.origin.incrementLimit := by
    rw [hcounted.successes_eq hclaims, hcounted.incrementLimit_eq]
    exact min_le_right _ _
  refine ⟨hcounted.incrementLimit_eq, hsuccesses, ?_, ?_, ?_⟩
  · intro refCounts locked pbn index horigin hconsistent hindex
    have hvalid := hcounted.origin_valid
    rw [horigin] at hvalid hsuccesses
    obtain ⟨slabOpen, assigned, hprovisional⟩ := hvalid
    obtain ⟨havailable, hcounter⟩ := getAvailableReferences_le hconsistent hprovisional hindex
    obtain ⟨updated, hok, hvalue⟩ := incrementTimes_ok hcounter (hsuccesses.trans havailable)
    exact ⟨updated, hok, fun hpos => hvalue ▸ countAfterIncrements_le hpos (hsuccesses.trans havailable)⟩
  · intro horigin refCounts index hcounter
    rw [horigin] at hsuccesses
    have havailable : t.successes + 1 ≤ incrementsAvailable (refCounts.counters index) := by
      simp only [PBNLockOrigin.incrementLimit] at hsuccesses
      simp only [incrementsAvailable, hcounter, if_true]
      unfold maximumReferenceCount at *
      omega
    obtain ⟨updated, hok, hvalue⟩ := incrementTimes_ok (le_of_eq hcounter) havailable
    exact ⟨updated, hok, hvalue ▸ countAfterIncrements_le (Nat.succ_pos _) havailable⟩
  · intro horigin refCounts index hcounter
    rw [horigin] at hsuccesses
    have havailable : t.successes ≤ incrementsAvailable (refCounts.counters index) := by
      simpa only [incrementsAvailable, hcounter, if_true, PBNLockOrigin.incrementLimit] using hsuccesses
    obtain ⟨updated, hok, hvalue⟩ := incrementTimes_ok (le_of_eq hcounter) havailable
    exact ⟨updated, hok, fun hpos => hvalue ▸ countAfterIncrements_le hpos havailable⟩

/-- A data write lock just downgraded, its writer holding it. -/
def freshDataWriteLock : TrackedPBNLock :=
  ⟨.dataWrite, downgradePBNWriteLock { initializePBNLock .vioWriteLock with holderCount := 1 }, 0, 0⟩

theorem freshDataWriteLock_start : PBNLockStart freshDataWriteLock := ⟨rfl, rfl, rfl⟩

theorem pbnLock_increments_bounded_three_claims :
    Reachable PBNLockStart PBNLockStep (TrackedPBNLock.claim^[3] freshDataWriteLock) ∧
      (TrackedPBNLock.claim^[3] freshDataWriteLock).claims < 2 ^ 32 ∧
      (TrackedPBNLock.claim^[3] freshDataWriteLock).IncrementsBounded :=
  have hreach := TrackedPBNLock.reachable_claim_iterate (Reachable.init freshDataWriteLock_start) 3
  have hclaims : (TrackedPBNLock.claim^[3] freshDataWriteLock).claims < 2 ^ 32 := by
    rw [TrackedPBNLock.claims_claim_iterate]
    decide
  ⟨hreach, hclaims, pbnLock_increments_bounded hreach hclaims⟩

/-- The claim counter is 32 bits wide: after `2 ^ 32 - 1` claims on a data
write lock, the next claim's number wraps to zero and succeeds, one success
past the limit, and the writer's increment with one for each success passes
`MAXIMUM_REFERENCE_COUNT`. -/
theorem pbnLock_claim_counter_wraps :
    Reachable PBNLockStart PBNLockStep (TrackedPBNLock.claim^[2 ^ 32] freshDataWriteLock) ∧
      (TrackedPBNLock.claim^[2 ^ 32] freshDataWriteLock).origin.incrementLimit = maximumReferenceCount - 1 ∧
      (TrackedPBNLock.claim^[2 ^ 32] freshDataWriteLock).successes = maximumReferenceCount ∧
      ∀ (refCounts : RefCounts) index, refCounts.counters index = provisionalReferenceCount →
        incrementTimes refCounts index ((TrackedPBNLock.claim^[2 ^ 32] freshDataWriteLock).successes + 1) =
          .error .refCountInvalid := by
  have hreach := TrackedPBNLock.reachable_claim_iterate (Reachable.init freshDataWriteLock_start) (2 ^ 32 - 1)
  have hcounted := TrackedPBNLock.counted_of_reachable hreach
  have hclaims := TrackedPBNLock.claims_claim_iterate freshDataWriteLock (2 ^ 32 - 1)
  have horigin := TrackedPBNLock.origin_claim_iterate freshDataWriteLock (2 ^ 32 - 1)
  have hlimit : (TrackedPBNLock.claim^[2 ^ 32 - 1] freshDataWriteLock).lock.incrementLimit = 253 := by
    rw [hcounted.incrementLimit_eq, horigin]
    rfl
  have hbefore : (TrackedPBNLock.claim^[2 ^ 32 - 1] freshDataWriteLock).successes = 253 := by
    rw [hcounted.successes_eq (by rw [hclaims]; decide), hclaims, hlimit]
    decide
  have hclaimed : (TrackedPBNLock.claim^[2 ^ 32 - 1] freshDataWriteLock).lock.incrementsClaimed = 2 ^ 32 - 1 := by
    rw [hcounted.incrementsClaimed_eq, hclaims]
    decide
  have hiterate : TrackedPBNLock.claim^[2 ^ 32] freshDataWriteLock =
      (TrackedPBNLock.claim^[2 ^ 32 - 1] freshDataWriteLock).claim := by
    have hsucc := Function.iterate_succ_apply' TrackedPBNLock.claim (2 ^ 32 - 1) freshDataWriteLock
    rwa [show Nat.succ (2 ^ 32 - 1) = 2 ^ 32 from rfl] at hsucc
  have hsuccesses : (TrackedPBNLock.claim^[2 ^ 32] freshDataWriteLock).successes = 254 := by
    rw [hiterate]
    simp only [TrackedPBNLock.claim, claimPBNLockIncrement, hclaimed, hlimit, hbefore]
    decide
  refine ⟨TrackedPBNLock.reachable_claim_iterate (Reachable.init freshDataWriteLock_start) _,
    by rw [TrackedPBNLock.origin_claim_iterate]; rfl, hsuccesses, fun refCounts index hcounter => ?_⟩
  obtain ⟨full, hfull, hvalue⟩ := incrementTimes_ok (le_of_eq hcounter)
    (show maximumReferenceCount ≤ incrementsAvailable (refCounts.counters index) by
      simp [incrementsAvailable, hcounter])
  have hat : full.counters index = maximumReferenceCount := by
    rw [hvalue, hcounter]
    rfl
  rw [hsuccesses, show (254 : ℕ) + 1 = maximumReferenceCount + 1 from rfl, incrementTimes, hfull]
  simp [RefCounts.incrementForData, referenceCountToStatus, hat, maximumReferenceCount,
    emptyReferenceCount, provisionalReferenceCount]

end Vdo
