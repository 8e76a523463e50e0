import Vdo.Base.RefCounts
import Vdo.Lib.FifoLock
import Vdo.Lib.Reachability

/-!
# Logical block locks

A DataVIO must hold the lock of its logical block number before it reads or
writes it ( dataVIO.c). A lock has no object of its own: the logical zone's LBN
lock map sends the lbn to the DataVIO holding it, that DataVIO's
`logical.locked` is set, and the DataVIOs waiting for the lock are queued on
the holder's `logical.waiters`. Releasing a lock with waiters hands it to the
oldest waiter in a single map update and moves the other waiters onto the new
holder's queue.

The int map (intMap.c) is modelled by its contents, a function from keys to
values; whether `intMapPut` finds room for a new key, resizing its buckets as
needed, is an argument. A wait queue (waitQueue.c) is the list of its waiters
from oldest to newest, and a waiter's `nextWaiter` link matters only through
whether it is set, which is `inWaitQueue`.

Beside the source's fields, each DataVIO records how far its request has got
through the lock code (`LockRequest`); the code keeps this in the callback it
will run next.
-/

namespace Vdo

/-- The read and write bits of a `VIOOperation` (types.h). -/
inductive VIOOperation
  | read
  | write
  | readModifyWrite
  deriving DecidableEq, Repr

/-- `LBNLock`: the logical block number of a DataVIO, whether it holds the
block's lock, and the DataVIOs waiting for the lock it holds. -/
structure LBNLock (ι : Type*) where
  lbn : ℕ
  locked : Bool
  /-- The wait queue, oldest waiter first. -/
  waiters : List ι
  deriving DecidableEq, Repr

/-- How the lock code finished a DataVIO without giving it the lock. -/
inductive LockResult (ι : Type*)
  | error (result : VdoError)
  /-- The read was served with a copy of the lock holder's data. -/
  | copied (lockHolder : ι)
  deriving DecidableEq, Repr

/-- Where a DataVIO's request stands in the lock code. -/
inductive LockRequest (ι : Type*)
  /-- Free in the pool, or done with its lock. -/
  | idle
  /-- `prepareDataVIO` has set `attemptLogicalBlockLock` as its next callback. -/
  | prepared
  /-- Holding its lock or waiting for it. -/
  | pending
  /-- Finished by `attemptLogicalBlockLock`, but not yet released. -/
  | finished (result : LockResult ι)
  deriving DecidableEq, Repr

/-- The fields of a `DataVIO` that the lock code reads and writes. -/
structure DataVIO (ι : Type*) where
  logical : LBNLock ι
  operation : VIOOperation
  hasAllocation : Bool
  /-- Whether the waiter's `nextWaiter` link is set. -/
  inWaitQueue : Bool
  request : LockRequest ι
  deriving DecidableEq, Repr

variable {ι : Type*}

/-- `isReadDataVIO`: a read which is not a read-modify-write. -/
def isReadDataVIO ( dataVIO : DataVIO ι) : Bool :=
  dataVIO.operation == .read

/-- `isWriteDataVIO`: a write which is not a read-modify-write. -/
def isWriteDataVIO ( dataVIO : DataVIO ι) : Bool :=
  dataVIO.operation == .write

/-- A logical zone's LBN lock map and the DataVIOs that use it. -/
@[ext]
structure LogicalZone (ι : Type*) where
  lbnLockMap : ℕ → Option ι
  dataVIOs : ι → DataVIO ι

/-! ## The int map and the wait queue -/

section IntMap

/-- `intMapPut`: an existing mapping is returned, and replaced when `update` is
set; a new key is stored when a vacancy is found (`vacancy`), and otherwise the
bucket resize fails. -/
def intMapPut (map : ℕ → Option ι) (key : ℕ) (newValue : ι) (update vacancy : Bool) :
    Except VdoError ((ℕ → Option ι) × Option ι) :=
  match map key with
  | some oldValue =>
    .ok (if update then Function.update map key (some newValue) else map, some oldValue)
  | none =>
    if vacancy then .ok (Function.update map key (some newValue), none)
    else .error .outOfMemory

/-- `intMapRemove`: the map without the key, and the value it had. -/
def intMapRemove (map : ℕ → Option ι) (key : ℕ) : (ℕ → Option ι) × Option ι :=
  (Function.update map key none, map key)

/-- `enqueueWaiter`: a waiter already linked into a queue is refused. -/
def enqueueWaiter (queue : List ι) (waiter : ι) (inWaitQueue : Bool) :
    Except VdoError (List ι) :=
  if inWaitQueue then .error .assertionFailed else .ok (queue ++ [waiter])

theorem intMapPut_of_some {map : ℕ → Option ι} {key : ℕ} {oldValue : ι}
    (h : map key = some oldValue) (newValue : ι) (update vacancy : Bool) :
    intMapPut map key newValue update vacancy =
      .ok (if update then Function.update map key (some newValue) else map, some oldValue) := by
  simp [intMapPut, h]

end IntMap

/-! ## The lock code -/

namespace LogicalZone

variable [DecidableEq ι]

/-- Change the fields of one DataVIO. -/
def modify (zone : LogicalZone ι) (d : ι) (f : DataVIO ι → DataVIO ι) : LogicalZone ι :=
  { zone with dataVIOs := Function.update zone.dataVIOs d (f (zone.dataVIOs d)) }

@[simp]
theorem modify_lbnLockMap (zone : LogicalZone ι) (d : ι) (f : DataVIO ι → DataVIO ι) :
    (zone.modify d f).lbnLockMap = zone.lbnLockMap :=
  rfl

theorem modify_dataVIOs (zone : LogicalZone ι) (d d' : ι) (f : DataVIO ι → DataVIO ι) :
    (zone.modify d f).dataVIOs d' =
      if d' = d then f (zone.dataVIOs d) else zone.dataVIOs d' := by
  simp only [modify, Function.update_apply]

@[simp]
theorem modify_dataVIOs_self (zone : LogicalZone ι) (d : ι) (f : DataVIO ι → DataVIO ι) :
    (zone.modify d f).dataVIOs d = f (zone.dataVIOs d) := by
  simp [modify_dataVIOs]

@[simp]
theorem modify_modify (zone : LogicalZone ι) (d : ι) (f g : DataVIO ι → DataVIO ι) :
    (zone.modify d f).modify d g = zone.modify d (g ∘ f) := by
  simp only [modify, Function.update_self, Function.update_idem, Function.comp_apply]

@[simp]
theorem modify_dataVIOs_of_ne (zone : LogicalZone ι) {d d' : ι} (f : DataVIO ι → DataVIO ι)
    (h : d' ≠ d) : (zone.modify d f).dataVIOs d' = zone.dataVIOs d' := by
  simp [modify_dataVIOs, h]

end LogicalZone

section LockCode

variable [DecidableEq ι]

open LogicalZone

/-- `finishDataVIO`, as far as the lock code sees it: the request ends. -/
def finishDataVIO (zone : LogicalZone ι) (d : ι) (result : LockResult ι) : LogicalZone ι :=
  zone.modify d fun dataVIO => { dataVIO with request := .finished result }

/-- `launchLockedRequest`: the DataVIO records that it holds its lock, and goes
on with its read or write. -/
def launchLockedRequest (zone : LogicalZone ι) (d : ι) : LogicalZone ι :=
  zone.modify d fun dataVIO =>
    { dataVIO with logical := { dataVIO.logical with locked := true }, request := .pending }

/-- `attemptLogicalBlockLock`: take the lock of the DataVIO's lbn, or be served
by a holder with an allocation, or queue on the holder. The packer cancellation
of a writing holder changes no lock state and is left out. -/
def attemptLogicalBlockLock (logicalBlocks : ℕ) (vacancy : Bool) (zone : LogicalZone ι)
    (d : ι) : LogicalZone ι :=
  let dataVIO := zone.dataVIOs d
  if logicalBlocks ≤ dataVIO.logical.lbn then finishDataVIO zone d (.error .outOfRange)
  else
    match intMapPut zone.lbnLockMap dataVIO.logical.lbn d false vacancy with
    | .error result => finishDataVIO zone d (.error result)
    | .ok (lbnLockMap, none) => launchLockedRequest { zone with lbnLockMap := lbnLockMap } d
    | .ok (lbnLockMap, some lockHolder) =>
      let zone : LogicalZone ι := { zone with lbnLockMap := lbnLockMap }
      let holder := zone.dataVIOs lockHolder
      if !holder.logical.locked then finishDataVIO zone d (.error .assertionFailed)
      else if isReadDataVIO dataVIO && holder.hasAllocation then
        finishDataVIO zone d (.copied lockHolder)
      else
        match enqueueWaiter holder.logical.waiters d dataVIO.inWaitQueue with
        | .error result => finishDataVIO zone d (.error result)
        | .ok waiters =>
          (zone.modify lockHolder fun v => { v with logical := { v.logical with waiters } }).modify
            d fun v => { v with inWaitQueue := true, request := .pending }

/-- `releaseLock`: release an uncontended lock; a DataVIO not holding its lock
only logs when the map sends its lbn to it. -/
def releaseLock (zone : LogicalZone ι) (d : ι) : LogicalZone ι :=
  let lock := (zone.dataVIOs d).logical
  if !lock.locked then zone
  else
    let (lbnLockMap, _) := intMapRemove zone.lbnLockMap lock.lbn
    { zone with lbnLockMap := lbnLockMap }.modify d fun v =>
      { v with logical := { v.logical with locked := false } }

/-- `transferAllWaiters`: move every waiter of one queue, in order, behind the
waiters of another. -/
def transferAllWaiters (zone : LogicalZone ι) (fromD toD : ι) : LogicalZone ι :=
  let fromQueue := (zone.dataVIOs fromD).logical.waiters
  if fromQueue.isEmpty then zone
  else
    (zone.modify toD fun v =>
      { v with logical := { v.logical with waiters := v.logical.waiters ++ fromQueue } }).modify
      fromD fun v => { v with logical := { v.logical with waiters := [] } }

@[simp]
theorem transferAllWaiters_lbnLockMap (zone : LogicalZone ι) (fromD toD : ι) :
    (transferAllWaiters zone fromD toD).lbnLockMap = zone.lbnLockMap := by
  unfold transferAllWaiters
  dsimp only
  split_ifs <;> rfl

/-- The source queue ends empty and its waiters follow the target's, in order. -/
theorem transferAllWaiters_dataVIOs (zone : LogicalZone ι) {fromD toD : ι} (hne : fromD ≠ toD)
    (x : ι) :
    (transferAllWaiters zone fromD toD).dataVIOs x =
      if x = fromD then
        { zone.dataVIOs fromD with logical := { (zone.dataVIOs fromD).logical with waiters := [] } }
      else if x = toD then
        { zone.dataVIOs toD with
          logical := { (zone.dataVIOs toD).logical with
            waiters := (zone.dataVIOs toD).logical.waiters ++ (zone.dataVIOs fromD).logical.waiters } }
      else zone.dataVIOs x := by
  unfold transferAllWaiters
  dsimp only
  by_cases hempty : (zone.dataVIOs fromD).logical.waiters = []
  · have hself : ∀ v : DataVIO ι, v.logical.waiters = [] →
        { v with logical := { v.logical with waiters := [] } } = v := by
      rintro ⟨⟨lbn, locked, waiters⟩, operation, hasAllocation, inWaitQueue, request⟩ hv
      simp only at hv
      subst hv
      rfl
    rw [if_pos (List.isEmpty_iff.mpr hempty)]
    split_ifs with hx hx'
    · subst hx
      exact (hself _ hempty).symm
    · simp only [hempty, List.append_nil, hx']
    · rfl
  · rw [if_neg (by simpa [List.isEmpty_iff] using hempty)]
    split_ifs with hx hx'
    · subst hx
      simp [hne]
    · subst hx'
      simp [Ne.symm hne]
    · simp [hx, hx']

/-- `releaseLogicalBlockLock`: a lock without waiters is released; otherwise the
oldest waiter is dequeued, the other waiters are moved onto it, the map entry is
overwritten with it, and it is launched as the new holder. The releasing
DataVIO's request ends. -/
def releaseLogicalBlockLock (vacancy : Bool) (zone : LogicalZone ι) (d : ι) :
    LogicalZone ι :=
  let zone := zone.modify d fun v => { v with request := .idle }
  let lock := (zone.dataVIOs d).logical
  match lock.waiters with
  | [] => releaseLock zone d
  | nextLockHolder :: rest =>
    let zone := (zone.modify d fun v => { v with logical := { v.logical with waiters := rest } }).modify
      nextLockHolder fun v => { v with inWaitQueue := false }
    let zone := transferAllWaiters zone d nextLockHolder
    match intMapPut zone.lbnLockMap lock.lbn nextLockHolder true vacancy with
    | .error result => finishDataVIO zone nextLockHolder (.error result)
    | .ok (lbnLockMap, _) =>
      let zone := { zone with lbnLockMap := lbnLockMap }.modify d fun v =>
        { v with logical := { v.logical with locked := false } }
      launchLockedRequest zone nextLockHolder

/-- `prepareDataVIO`, as far as the lock code sees it: `initializeLBNLock`
records the lbn with no lock held and no waiters, and the next callback is
`attemptLogicalBlockLock`. -/
def prepareDataVIO (zone : LogicalZone ι) (d : ι) (lbn : ℕ) (operation : VIOOperation) :
    LogicalZone ι :=
  zone.modify d fun v =>
    { v with logical := ⟨lbn, false, []⟩, operation := operation, request := .prepared }

/-! ## The logical zone's thread -/

/-- A zone before any request: no lbn is locked and every DataVIO is free. -/
def LogicalZone.Initial (zone : LogicalZone ι) : Prop :=
  (∀ lbn, zone.lbnLockMap lbn = none) ∧
    ∀ d, (zone.dataVIOs d).logical.locked = false ∧ (zone.dataVIOs d).logical.waiters = [] ∧
      (zone.dataVIOs d).inWaitQueue = false ∧ (zone.dataVIOs d).request = .idle

/-- The calls the zone's thread makes, in any order: a free DataVIO is
prepared for an lbn, a prepared one attempts the lock, one that holds the
lock or was refused it releases, and the allocation flag a holder's read
short-cut looks at is set or cleared elsewhere (vioWrite.c). -/
inductive LogicalZoneStep (logicalBlocks : ℕ) : LogicalZone ι → LogicalZone ι → Prop
  | prepare {zone : LogicalZone ι} {d : ι} (lbn : ℕ) (operation : VIOOperation)
      (hidle : (zone.dataVIOs d).request = .idle) :
      LogicalZoneStep logicalBlocks zone ( prepareDataVIO zone d lbn operation)
  | attempt {zone : LogicalZone ι} {d : ι} (vacancy : Bool)
      (hprepared : (zone.dataVIOs d).request = .prepared) :
      LogicalZoneStep logicalBlocks zone (attemptLogicalBlockLock logicalBlocks vacancy zone d)
  | release {zone : LogicalZone ι} {d : ι} (vacancy : Bool)
      (hallowed : (zone.dataVIOs d).logical.locked = true ∨
        ∃ result, (zone.dataVIOs d).request = .finished result) :
      LogicalZoneStep logicalBlocks zone (releaseLogicalBlockLock vacancy zone d)
  | allocate {zone : LogicalZone ι} {d : ι} (hasAllocation : Bool) :
      LogicalZoneStep logicalBlocks zone (zone.modify d fun v => { v with hasAllocation })

/-! ## What each function does -/

/-- Everything `attemptLogicalBlockLock` can do: finish the DataVIO (serving a
pure read only from a locked holder of its lbn with an allocation), give it
the free lock of its lbn, or queue it behind the waiters of the holder. -/
theorem attemptLogicalBlockLock_cases (logicalBlocks : ℕ) (vacancy : Bool)
    (zone : LogicalZone ι) (d : ι) :
    (∃ result, attemptLogicalBlockLock logicalBlocks vacancy zone d = finishDataVIO zone d result ∧
      ∀ lockHolder, result = .copied lockHolder →
        zone.lbnLockMap (zone.dataVIOs d).logical.lbn = some lockHolder ∧
          (zone.dataVIOs lockHolder).logical.locked = true ∧
          (zone.dataVIOs lockHolder).hasAllocation = true ∧
          isReadDataVIO (zone.dataVIOs d) = true) ∨
    (zone.lbnLockMap (zone.dataVIOs d).logical.lbn = none ∧
      attemptLogicalBlockLock logicalBlocks vacancy zone d =
        launchLockedRequest
          { zone with
            lbnLockMap := Function.update zone.lbnLockMap (zone.dataVIOs d).logical.lbn (some d) } d) ∨
    (∃ lockHolder, zone.lbnLockMap (zone.dataVIOs d).logical.lbn = some lockHolder ∧
      (zone.dataVIOs lockHolder).logical.locked = true ∧ (zone.dataVIOs d).inWaitQueue = false ∧
      attemptLogicalBlockLock logicalBlocks vacancy zone d =
        (zone.modify lockHolder fun v =>
          { v with logical :=
            { v.logical with waiters := (zone.dataVIOs lockHolder).logical.waiters ++ [d] } }).modify
          d fun v => { v with inWaitQueue := true, request := .pending }) := by
  unfold attemptLogicalBlockLock
  dsimp only
  split_ifs with hrange
  · exact Or.inl ⟨.error .outOfRange, rfl, by simp⟩
  cases hmap : zone.lbnLockMap (zone.dataVIOs d).logical.lbn with
  | none =>
    cases vacancy
    · exact Or.inl ⟨.error .outOfMemory, by simp [intMapPut, hmap], by simp⟩
    · exact Or.inr (Or.inl ⟨rfl, by simp [intMapPut, hmap]⟩)
  | some lockHolder =>
    simp only [intMapPut, hmap, Bool.false_eq_true, if_false]
    by_cases hlocked : (zone.dataVIOs lockHolder).logical.locked = true
    · by_cases hcopy : ( isReadDataVIO (zone.dataVIOs d) && (zone.dataVIOs lockHolder).hasAllocation) = true
      · simp only [hlocked, hcopy, Bool.not_true, Bool.false_eq_true, if_false, if_true]
        simp only [Bool.and_eq_true] at hcopy
        exact Or.inl ⟨_, rfl, fun _ hholder => by
          cases hholder
          exact ⟨rfl, hlocked, hcopy.2, hcopy.1⟩⟩
      · simp only [hlocked, hcopy, Bool.not_true, Bool.false_eq_true, if_false]
        cases hlink : (zone.dataVIOs d).inWaitQueue
        · exact Or.inr (Or.inr ⟨lockHolder, rfl, hlocked, rfl, by simp [enqueueWaiter]⟩)
        · exact Or.inl ⟨.error .assertionFailed, by simp [enqueueWaiter], by simp⟩
    · simp only [Bool.not_eq_true] at hlocked
      exact Or.inl ⟨.error .assertionFailed, by simp [hlocked], by simp⟩

/-- A DataVIO that holds no lock and has no waiters only ends its request. -/
theorem releaseLogicalBlockLock_of_unlocked (vacancy : Bool) {zone : LogicalZone ι} {d : ι}
    (hlocked : (zone.dataVIOs d).logical.locked = false)
    (hwaiters : (zone.dataVIOs d).logical.waiters = []) :
    releaseLogicalBlockLock vacancy zone d = zone.modify d fun v => { v with request := .idle } := by
  simp [releaseLogicalBlockLock, releaseLock, hwaiters, hlocked]

/-- A holder without waiters removes its lbn from the map. -/
theorem releaseLogicalBlockLock_of_nil (vacancy : Bool) {zone : LogicalZone ι} {d : ι}
    (hlocked : (zone.dataVIOs d).logical.locked = true)
    (hwaiters : (zone.dataVIOs d).logical.waiters = []) :
    releaseLogicalBlockLock vacancy zone d =
      LogicalZone.modify
        { zone with
          lbnLockMap := Function.update zone.lbnLockMap (zone.dataVIOs d).logical.lbn none }
        d fun v => { v with request := .idle, logical := { v.logical with locked := false } } := by
  simp only [releaseLogicalBlockLock, modify_dataVIOs_self, hwaiters, releaseLock, hlocked,
    Bool.not_true, Bool.false_eq_true, if_false, intMapRemove, modify_lbnLockMap]
  ext x
  · rfl
  · by_cases hx : x = d <;> simp [hx]

/-- A holder with waiters hands the lock to the oldest one in one map update,
and the others follow it, in order, onto the new holder's queue. -/
theorem releaseLogicalBlockLock_of_cons (vacancy : Bool) {zone : LogicalZone ι} {d next : ι}
    {rest : List ι} (hwaiters : (zone.dataVIOs d).logical.waiters = next :: rest) (hne : next ≠ d)
    (hnext : (zone.dataVIOs next).logical.waiters = [])
    (hmap : zone.lbnLockMap (zone.dataVIOs d).logical.lbn = some d) :
    releaseLogicalBlockLock vacancy zone d =
      (LogicalZone.modify
        { zone with
          lbnLockMap := Function.update zone.lbnLockMap (zone.dataVIOs d).logical.lbn (some next) }
        d fun v =>
          { v with request := .idle, logical := { v.logical with waiters := [], locked := false } }).modify
        next fun v =>
          { v with
            inWaitQueue := false
            request := .pending
            logical := { v.logical with waiters := rest, locked := true } } := by
  simp only [releaseLogicalBlockLock, modify_dataVIOs_self, hwaiters, transferAllWaiters_lbnLockMap,
    modify_lbnLockMap]
  rw [intMapPut_of_some hmap]
  ext x
  · simp [launchLockedRequest]
  · have hd : d ≠ next := Ne.symm hne
    by_cases hx : x = next
    · subst hx
      simp [launchLockedRequest, transferAllWaiters_dataVIOs _ hd, hnext, hne, hd]
    · by_cases hxd : x = d
      · subst hxd
        simp [launchLockedRequest, transferAllWaiters_dataVIOs _ hd, hd]
      · simp [launchLockedRequest, transferAllWaiters_dataVIOs _ hd, hx, hxd]

end LockCode

end Vdo
