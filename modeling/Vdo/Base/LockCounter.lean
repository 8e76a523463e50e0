import Mathlib

/-!
# The recovery journal's lock counter

`lockCounter.c` keeps the locks on the blocks of the recovery journal. The
journal zone has one 16-bit count per lock, which the journal thread
decrements itself and any other thread decrements through a separate 32-bit
atomic count of decrements. Each logical and each physical zone has a 16-bit
count per lock, in one array per zone type laid out by zone (zone `z`'s count
for lock `b` at index `locks * z + b`), and a 32-bit atomic count per lock says
how many zones of the type hold it. The assertions of the code only log, so
the functions here go on past them.
-/

namespace Vdo

/-- `ZoneType`. -/
inductive ZoneType where
  | admin
  | journal
  | logical
  | physical
  deriving DecidableEq, Repr

/-- `struct lockCounter`, without its completion. -/
structure LockCounter where
  /-- The number of logical zones which may hold locks. -/
  logicalZones : ℕ
  /-- The number of physical zones which may hold locks. -/
  physicalZones : ℕ
  /-- The number of locks. -/
  locks : ℕ
  /-- Whether the lock release notification is in flight. -/
  notifying : Bool
  /-- The number of logical zones which hold each lock (atomic, 32 bits). -/
  logicalZoneCounts : ℕ → ℕ
  /-- The number of physical zones which hold each lock (atomic, 32 bits). -/
  physicalZoneCounts : ℕ → ℕ
  /-- The per-lock counts for the journal zone (16 bits). -/
  journalCounters : ℕ → ℕ
  /-- The per-lock decrement counts for the journal zone (atomic, 32 bits). -/
  journalDecrementCounts : ℕ → ℕ
  /-- The per-zone, per-lock counts for the logical zones (16 bits). -/
  logicalCounters : ℕ → ℕ
  /-- The per-zone, per-lock counts for the physical zones (16 bits). -/
  physicalCounters : ℕ → ℕ

namespace LockCounter

/-- `makeLockCounter`: the arrays are allocated zeroed. -/
def makeLockCounter (logicalZones physicalZones locks : ℕ) : LockCounter where
  logicalZones := logicalZones
  physicalZones := physicalZones
  locks := locks
  notifying := false
  logicalZoneCounts := fun _ => 0
  physicalZoneCounts := fun _ => 0
  journalCounters := fun _ => 0
  journalDecrementCounts := fun _ => 0
  logicalCounters := fun _ => 0
  physicalCounters := fun _ => 0

/-- `getZoneCountPtr`: the count of zones of a type holding a lock. -/
def getZoneCount (counter : LockCounter) (lockNumber : ℕ) (zoneType : ZoneType) : ℕ :=
  if zoneType = .logical then counter.logicalZoneCounts lockNumber
  else counter.physicalZoneCounts lockNumber

/-- `atomicAdd32` on the count of zones of a type holding a lock: the counter
and the new value, which wraps at 32 bits. -/
def addZoneCount (counter : LockCounter) (lockNumber : ℕ) (zoneType : ZoneType) (delta : ℤ) :
    LockCounter × ℕ :=
  let value := (((counter.getZoneCount lockNumber zoneType : ℤ) + delta) % 2 ^ 32).toNat
  (if zoneType = .logical then
      { counter with logicalZoneCounts := Function.update counter.logicalZoneCounts lockNumber value }
    else { counter with physicalZoneCounts := Function.update counter.physicalZoneCounts lockNumber value },
    value)

/-- `getCounter`: a zone's count for a lock. -/
def getCounter (counter : LockCounter) (lockNumber : ℕ) (zoneType : ZoneType) (zoneID : ℕ) : ℕ :=
  let zoneCounter := counter.locks * zoneID + lockNumber
  match zoneType with
  | .journal => counter.journalCounters zoneCounter
  | .logical => counter.logicalCounters zoneCounter
  | _ => counter.physicalCounters zoneCounter

/-- A store through the pointer `getCounter` returns. -/
def setCounter (counter : LockCounter) (lockNumber : ℕ) (zoneType : ZoneType) (zoneID value : ℕ) :
    LockCounter :=
  let zoneCounter := counter.locks * zoneID + lockNumber
  match zoneType with
  | .journal => { counter with journalCounters := Function.update counter.journalCounters zoneCounter value }
  | .logical => { counter with logicalCounters := Function.update counter.logicalCounters zoneCounter value }
  | _ => { counter with physicalCounters := Function.update counter.physicalCounters zoneCounter value }

/-- `isJournalZoneLocked`: the journal's count differs from its decrements. -/
def isJournalZoneLocked (counter : LockCounter) (lockNumber : ℕ) : Bool :=
  counter.getCounter lockNumber .journal 0 != counter.journalDecrementCounts lockNumber

/-- `isLocked`. -/
def isLocked (counter : LockCounter) (lockNumber : ℕ) (zoneType : ZoneType) : Bool :=
  counter.isJournalZoneLocked lockNumber || counter.getZoneCount lockNumber zoneType != 0

/-- `initializeLockCount`, on the journal thread. -/
def initializeLockCount (counter : LockCounter) (lockNumber value : ℕ) : LockCounter :=
  { counter.setCounter lockNumber .journal 0 value with
    journalDecrementCounts := Function.update counter.journalDecrementCounts lockNumber 0 }

/-- `acquireLockCountReference`: a zone taking a lock for the first time
counts itself among the lock's holders; its 16-bit count wraps. -/
def acquireLockCountReference (counter : LockCounter) (lockNumber : ℕ) (zoneType : ZoneType)
    (zoneID : ℕ) : LockCounter :=
  let currentValue := counter.getCounter lockNumber zoneType zoneID
  let counted := if currentValue = 0 then (counter.addZoneCount lockNumber zoneType 1).1 else counter
  counted.setCounter lockNumber zoneType zoneID ((currentValue + 1) % 2 ^ 16)

/-- `releaseReference`: decrement a 16-bit count, returning the new value. -/
def releaseReference (counter : LockCounter) (lockNumber : ℕ) (zoneType : ZoneType) (zoneID : ℕ) :
    LockCounter × ℕ :=
  let value := (counter.getCounter lockNumber zoneType zoneID + (2 ^ 16 - 1)) % 2 ^ 16
  (counter.setCounter lockNumber zoneType zoneID value, value)

/-- `attemptNotification`: notify the owner unless a notification is in
flight (`compareAndSwapBool(&notifying, false, true)`). -/
def attemptNotification (counter : LockCounter) : LockCounter :=
  if counter.notifying then counter else { counter with notifying := true }

/-- `releaseLockCountReference`: the last zone of a type to release a lock
tries to notify the owner. -/
def releaseLockCountReference (counter : LockCounter) (lockNumber : ℕ) (zoneType : ZoneType)
    (zoneID : ℕ) : LockCounter :=
  let released := counter.releaseReference lockNumber zoneType zoneID
  if released.2 ≠ 0 then released.1
  else
    let decremented := released.1.addZoneCount lockNumber zoneType (-1)
    if decremented.2 = 0 then decremented.1.attemptNotification else decremented.1

/-- `releaseJournalZoneReference`, on the journal thread. -/
def releaseJournalZoneReference (counter : LockCounter) (lockNumber : ℕ) : LockCounter :=
  let released := (counter.releaseReference lockNumber .journal 0).1
  if !released.isJournalZoneLocked lockNumber then released.attemptNotification else released

/-- `releaseJournalZoneReferenceFromOtherZone`: an atomic increment of the
decrement count. -/
def releaseJournalZoneReferenceFromOtherZone (counter : LockCounter) (lockNumber : ℕ) : LockCounter :=
  { counter with
    journalDecrementCounts := Function.update counter.journalDecrementCounts lockNumber
      ((counter.journalDecrementCounts lockNumber + 1) % 2 ^ 32) }

/-- `acknowledgeUnlock`. -/
def acknowledgeUnlock (counter : LockCounter) : LockCounter :=
  { counter with notifying := false }

/-! ## The counts field by field -/

section Fields

variable (counter : LockCounter) (lockNumber lockNumber' zoneID zoneID' value : ℕ)

/-- Two zones' counts for locks below `locks` are at distinct indices. -/
theorem counterIndex_inj {locks : ℕ} {lockNumber lockNumber' zoneID zoneID' : ℕ}
    (hlock : lockNumber < locks) (hlock' : lockNumber' < locks)
    (h : locks * zoneID + lockNumber = locks * zoneID' + lockNumber') :
    zoneID = zoneID' ∧ lockNumber = lockNumber' := by
  have hdiv : (locks * zoneID + lockNumber) / locks = (locks * zoneID' + lockNumber') / locks := by rw [h]
  have hpos : 0 < locks := Nat.lt_of_le_of_lt (Nat.zero_le _) hlock
  rw [Nat.mul_add_div hpos, Nat.mul_add_div hpos, Nat.div_eq_of_lt hlock, Nat.div_eq_of_lt hlock',
    Nat.add_zero, Nat.add_zero] at hdiv
  subst hdiv
  exact ⟨rfl, by omega⟩

@[simp] theorem setCounter_locks (zoneType : ZoneType) :
    (counter.setCounter lockNumber zoneType zoneID value).locks = counter.locks := by
  unfold setCounter
  cases zoneType <;> rfl

@[simp] theorem setCounter_logicalZones (zoneType : ZoneType) :
    (counter.setCounter lockNumber zoneType zoneID value).logicalZones = counter.logicalZones := by
  unfold setCounter
  cases zoneType <;> rfl

@[simp] theorem setCounter_physicalZones (zoneType : ZoneType) :
    (counter.setCounter lockNumber zoneType zoneID value).physicalZones = counter.physicalZones := by
  unfold setCounter
  cases zoneType <;> rfl

@[simp] theorem setCounter_notifying (zoneType : ZoneType) :
    (counter.setCounter lockNumber zoneType zoneID value).notifying = counter.notifying := by
  unfold setCounter
  cases zoneType <;> rfl

@[simp] theorem setCounter_journalDecrementCounts (zoneType : ZoneType) :
    (counter.setCounter lockNumber zoneType zoneID value).journalDecrementCounts =
      counter.journalDecrementCounts := by
  unfold setCounter
  cases zoneType <;> rfl

@[simp] theorem setCounter_getZoneCount (zoneType zoneType' : ZoneType) :
    (counter.setCounter lockNumber zoneType zoneID value).getZoneCount lockNumber' zoneType' =
      counter.getZoneCount lockNumber' zoneType' := by
  unfold setCounter getZoneCount
  cases zoneType <;> rfl

/-- A store changes the count it writes and no other count of a lock below
`locks`. -/
theorem getCounter_setCounter (zoneType zoneType' : ZoneType) (hlock : lockNumber < counter.locks)
    (hlock' : lockNumber' < counter.locks) :
    (counter.setCounter lockNumber zoneType zoneID value).getCounter lockNumber' zoneType' zoneID' =
      if zoneType' = zoneType ∨ (zoneType' ≠ .journal ∧ zoneType' ≠ .logical ∧
          zoneType ≠ .journal ∧ zoneType ≠ .logical) then
        (if zoneID' = zoneID ∧ lockNumber' = lockNumber then value
          else counter.getCounter lockNumber' zoneType' zoneID')
      else counter.getCounter lockNumber' zoneType' zoneID' := by
  have hindex : counter.locks * zoneID' + lockNumber' = counter.locks * zoneID + lockNumber ↔
      zoneID' = zoneID ∧ lockNumber' = lockNumber := by
    constructor
    · exact counterIndex_inj hlock' hlock
    · rintro ⟨rfl, rfl⟩
      rfl
  unfold setCounter getCounter
  cases zoneType <;> cases zoneType' <;> simp [Function.update_apply, hindex]

@[simp] theorem addZoneCount_locks (zoneType : ZoneType) (delta : ℤ) :
    (counter.addZoneCount lockNumber zoneType delta).1.locks = counter.locks := by
  unfold addZoneCount
  split_ifs <;> rfl

@[simp] theorem addZoneCount_logicalZones (zoneType : ZoneType) (delta : ℤ) :
    (counter.addZoneCount lockNumber zoneType delta).1.logicalZones = counter.logicalZones := by
  unfold addZoneCount
  split_ifs <;> rfl

@[simp] theorem addZoneCount_physicalZones (zoneType : ZoneType) (delta : ℤ) :
    (counter.addZoneCount lockNumber zoneType delta).1.physicalZones = counter.physicalZones := by
  unfold addZoneCount
  split_ifs <;> rfl

@[simp] theorem addZoneCount_journalDecrementCounts (zoneType : ZoneType) (delta : ℤ) :
    (counter.addZoneCount lockNumber zoneType delta).1.journalDecrementCounts =
      counter.journalDecrementCounts := by
  unfold addZoneCount
  split_ifs <;> rfl

@[simp] theorem addZoneCount_notifying (zoneType : ZoneType) (delta : ℤ) :
    (counter.addZoneCount lockNumber zoneType delta).1.notifying = counter.notifying := by
  unfold addZoneCount
  split_ifs <;> rfl

@[simp] theorem addZoneCount_getCounter (zoneType zoneType' : ZoneType) (delta : ℤ) :
    (counter.addZoneCount lockNumber zoneType delta).1.getCounter lockNumber' zoneType' zoneID =
      counter.getCounter lockNumber' zoneType' zoneID := by
  unfold addZoneCount getCounter
  split_ifs <;> rfl

/-- An atomic add changes the count of the zone type it is for, by the lock
its zone counts are for. -/
theorem getZoneCount_addZoneCount (zoneType zoneType' : ZoneType) (delta : ℤ) :
    (counter.addZoneCount lockNumber zoneType delta).1.getZoneCount lockNumber' zoneType' =
      if (zoneType' = .logical ↔ zoneType = .logical) ∧ lockNumber' = lockNumber then
        (counter.addZoneCount lockNumber zoneType delta).2
      else counter.getZoneCount lockNumber' zoneType' := by
  unfold addZoneCount getZoneCount
  by_cases h : zoneType = .logical <;> by_cases h' : zoneType' = .logical <;>
    simp [h, h', Function.update_apply]

@[simp] theorem attemptNotification_getCounter (zoneType : ZoneType) :
    counter.attemptNotification.getCounter lockNumber zoneType zoneID =
      counter.getCounter lockNumber zoneType zoneID := by
  unfold attemptNotification
  split_ifs <;> rfl

@[simp] theorem attemptNotification_getZoneCount (zoneType : ZoneType) :
    counter.attemptNotification.getZoneCount lockNumber zoneType = counter.getZoneCount lockNumber zoneType := by
  unfold attemptNotification
  split_ifs <;> rfl

@[simp] theorem attemptNotification_locks : counter.attemptNotification.locks = counter.locks := by
  unfold attemptNotification
  split_ifs <;> rfl

@[simp] theorem attemptNotification_logicalZones :
    counter.attemptNotification.logicalZones = counter.logicalZones := by
  unfold attemptNotification
  split_ifs <;> rfl

@[simp] theorem attemptNotification_physicalZones :
    counter.attemptNotification.physicalZones = counter.physicalZones := by
  unfold attemptNotification
  split_ifs <;> rfl

@[simp] theorem attemptNotification_journalDecrementCounts :
    counter.attemptNotification.journalDecrementCounts = counter.journalDecrementCounts := by
  unfold attemptNotification
  split_ifs <;> rfl

/-- Whether or not a notification is attempted, the counts are the same. -/
@[simp] theorem ite_attemptNotification_getCounter (notify : Prop) [Decidable notify] (zoneType : ZoneType) :
    (if notify then counter.attemptNotification else counter).getCounter lockNumber zoneType zoneID =
      counter.getCounter lockNumber zoneType zoneID := by
  split_ifs <;> simp

@[simp] theorem ite_attemptNotification_getZoneCount (notify : Prop) [Decidable notify] (zoneType : ZoneType) :
    (if notify then counter.attemptNotification else counter).getZoneCount lockNumber zoneType =
      counter.getZoneCount lockNumber zoneType := by
  split_ifs <;> simp

end Fields

end LockCounter

end Vdo
