import Vdo.Base.LockCounter
import Vdo.Lib.IndexCount
import Vdo.Lib.Reachability

/-!
# Lock counter accounting under any interleaving

Each logical and physical zone is a thread that touches only its own counts,
and the journal thread is the only one to initialize a lock or to release a
journal-zone reference itself; any thread may release one through the atomic
decrement count. A zone's counts are read by no other thread, so each call is
one step, and the steps of the threads interleave arbitrarily. A ghost record
says how many references each zone holds on each lock (acquisitions less
releases) and how many journal-zone references of each lock are still
unreleased since its count was initialized.

In every reachable state each zone's count is the references it holds, each
zone count is the number of zones of its type holding the lock, and the
journal's count is its decrements plus its unreleased references. This needs
every acquisition to be made below `UINT16_MAX`, as the code asserts: its
16-bit count wraps otherwise (`CounterStep` takes the assertion as a
precondition when `checked` holds).
-/

namespace Vdo

open IndexCount

/-- A zone type whose zones take lock references. -/
def ZoneType.Holder (zoneType : ZoneType) : Prop :=
  zoneType = .logical ∨ zoneType = .physical

namespace LockCounter

/-- The number of zones of a type. -/
def zones (counter : LockCounter) (zoneType : ZoneType) : ℕ :=
  if zoneType = .logical then counter.logicalZones else counter.physicalZones

end LockCounter

/-! ## What each call does to the counts -/

namespace LockCounter

section Calls

variable (counter : LockCounter) {zoneType zoneType' : ZoneType} {lockNumber lockNumber' : ℕ}
  (zoneID zoneID' value : ℕ)

theorem getCounter_setCounter_holder (hholder : zoneType.Holder) (hholder' : zoneType'.Holder)
    (hlock : lockNumber < counter.locks) (hlock' : lockNumber' < counter.locks) :
    (counter.setCounter lockNumber zoneType zoneID value).getCounter lockNumber' zoneType' zoneID' =
      if zoneType' = zoneType ∧ zoneID' = zoneID ∧ lockNumber' = lockNumber then value
      else counter.getCounter lockNumber' zoneType' zoneID' := by
  rw [getCounter_setCounter _ _ _ _ _ _ _ _ hlock hlock']
  rcases hholder with rfl | rfl <;> rcases hholder' with rfl | rfl <;> simp

theorem getCounter_setCounter_journal (hholder : zoneType.Holder) (hlock : lockNumber < counter.locks)
    (hlock' : lockNumber' < counter.locks) :
    (counter.setCounter lockNumber zoneType zoneID value).getCounter lockNumber' .journal 0 =
      counter.getCounter lockNumber' .journal 0 := by
  rw [getCounter_setCounter _ _ _ _ _ _ _ _ hlock hlock']
  rcases hholder with rfl | rfl <;> simp

theorem getZoneCount_addZoneCount_holder (hholder : zoneType.Holder) (hholder' : zoneType'.Holder)
    (delta : ℤ) :
    (counter.addZoneCount lockNumber zoneType delta).1.getZoneCount lockNumber' zoneType' =
      if zoneType' = zoneType ∧ lockNumber' = lockNumber then
        (((counter.getZoneCount lockNumber zoneType : ℤ) + delta) % 2 ^ 32).toNat
      else counter.getZoneCount lockNumber' zoneType' := by
  rw [getZoneCount_addZoneCount]
  rcases hholder with rfl | rfl <;> rcases hholder' with rfl | rfl <;> simp [addZoneCount]

@[simp] theorem acquireLockCountReference_locks (zoneType : ZoneType) (lockNumber : ℕ) :
    (counter.acquireLockCountReference lockNumber zoneType zoneID).locks = counter.locks := by
  unfold acquireLockCountReference
  dsimp only
  split_ifs <;> simp

@[simp] theorem acquireLockCountReference_zones (zoneType zoneType' : ZoneType) (lockNumber : ℕ) :
    (counter.acquireLockCountReference lockNumber zoneType zoneID).zones zoneType' =
      counter.zones zoneType' := by
  unfold acquireLockCountReference zones
  dsimp only
  split_ifs <;> simp

@[simp] theorem acquireLockCountReference_journalDecrementCounts (zoneType : ZoneType) (lockNumber : ℕ) :
    (counter.acquireLockCountReference lockNumber zoneType zoneID).journalDecrementCounts =
      counter.journalDecrementCounts := by
  unfold acquireLockCountReference
  dsimp only
  split_ifs <;> simp

/-- An acquisition increments the zone's 16-bit count and, when the zone held
no reference, the count of zones of its type holding the lock. -/
theorem acquireLockCountReference_spec (hholder : zoneType.Holder) (hlock : lockNumber < counter.locks) :
    (∀ zoneType', zoneType'.Holder → ∀ lockNumber' < counter.locks, ∀ zoneID',
      (counter.acquireLockCountReference lockNumber zoneType zoneID).getCounter lockNumber' zoneType' zoneID' =
        if zoneType' = zoneType ∧ zoneID' = zoneID ∧ lockNumber' = lockNumber then
          (counter.getCounter lockNumber zoneType zoneID + 1) % 2 ^ 16
        else counter.getCounter lockNumber' zoneType' zoneID') ∧
    (∀ lockNumber' < counter.locks,
      (counter.acquireLockCountReference lockNumber zoneType zoneID).getCounter lockNumber' .journal 0 =
        counter.getCounter lockNumber' .journal 0) ∧
    (∀ zoneType', zoneType'.Holder → ∀ lockNumber',
      (counter.acquireLockCountReference lockNumber zoneType zoneID).getZoneCount lockNumber' zoneType' =
        if zoneType' = zoneType ∧ lockNumber' = lockNumber ∧ counter.getCounter lockNumber zoneType zoneID = 0 then
          (((counter.getZoneCount lockNumber zoneType : ℤ) + 1) % 2 ^ 32).toNat
        else counter.getZoneCount lockNumber' zoneType') := by
  unfold acquireLockCountReference
  dsimp only
  have hcounted : ∀ zoneType', zoneType'.Holder → ∀ lockNumber',
      (if counter.getCounter lockNumber zoneType zoneID = 0 then
          (counter.addZoneCount lockNumber zoneType 1).1 else counter).getZoneCount lockNumber' zoneType' =
        if zoneType' = zoneType ∧ lockNumber' = lockNumber ∧ counter.getCounter lockNumber zoneType zoneID = 0 then
          (((counter.getZoneCount lockNumber zoneType : ℤ) + 1) % 2 ^ 32).toNat
        else counter.getZoneCount lockNumber' zoneType' := by
    intro zoneType' hholder' lockNumber'
    split_ifs with hfirst hsame hsame
    · rw [getZoneCount_addZoneCount_holder _ hholder hholder', if_pos ⟨hsame.1, hsame.2.1⟩]
    · rw [getZoneCount_addZoneCount_holder _ hholder hholder', if_neg fun h => hsame ⟨h.1, h.2, hfirst⟩]
    · exact absurd hsame.2.2 hfirst
    · rfl
  have hlocks : (if counter.getCounter lockNumber zoneType zoneID = 0 then
      (counter.addZoneCount lockNumber zoneType 1).1 else counter).locks = counter.locks := by
    split_ifs <;> simp
  have hcounters : ∀ zoneType' lockNumber' zoneID',
      (if counter.getCounter lockNumber zoneType zoneID = 0 then
          (counter.addZoneCount lockNumber zoneType 1).1 else counter).getCounter lockNumber' zoneType' zoneID' =
        counter.getCounter lockNumber' zoneType' zoneID' := by
    intro zoneType' lockNumber' zoneID'
    split_ifs <;> simp
  refine ⟨fun zoneType' hholder' lockNumber' hlock' zoneID' => ?_, fun lockNumber' hlock' => ?_,
    fun zoneType' hholder' lockNumber' => ?_⟩
  · rw [getCounter_setCounter_holder _ _ _ _ hholder hholder' (hlocks ▸ hlock) (hlocks ▸ hlock'), hcounters]
  · rw [getCounter_setCounter_journal _ _ _ hholder (hlocks ▸ hlock) (hlocks ▸ hlock'), hcounters]
  · rw [setCounter_getZoneCount, hcounted zoneType' hholder' lockNumber']

@[simp] theorem releaseLockCountReference_locks (zoneType : ZoneType) (lockNumber : ℕ) :
    (counter.releaseLockCountReference lockNumber zoneType zoneID).locks = counter.locks := by
  rw [releaseLockCountReference, releaseReference]
  dsimp only
  split_ifs <;> simp

@[simp] theorem releaseLockCountReference_zones (zoneType zoneType' : ZoneType) (lockNumber : ℕ) :
    (counter.releaseLockCountReference lockNumber zoneType zoneID).zones zoneType' =
      counter.zones zoneType' := by
  rw [releaseLockCountReference, releaseReference]
  unfold zones
  dsimp only
  split_ifs <;> simp

@[simp] theorem releaseLockCountReference_journalDecrementCounts (zoneType : ZoneType) (lockNumber : ℕ) :
    (counter.releaseLockCountReference lockNumber zoneType zoneID).journalDecrementCounts =
      counter.journalDecrementCounts := by
  rw [releaseLockCountReference, releaseReference]
  dsimp only
  split_ifs <;> simp

/-- A release decrements the zone's 16-bit count and, when that leaves it at
zero, the count of zones of its type holding the lock. -/
theorem releaseLockCountReference_spec (hholder : zoneType.Holder) (hlock : lockNumber < counter.locks) :
    (∀ zoneType', zoneType'.Holder → ∀ lockNumber' < counter.locks, ∀ zoneID',
      (counter.releaseLockCountReference lockNumber zoneType zoneID).getCounter lockNumber' zoneType' zoneID' =
        if zoneType' = zoneType ∧ zoneID' = zoneID ∧ lockNumber' = lockNumber then
          (counter.getCounter lockNumber zoneType zoneID + (2 ^ 16 - 1)) % 2 ^ 16
        else counter.getCounter lockNumber' zoneType' zoneID') ∧
    (∀ lockNumber' < counter.locks,
      (counter.releaseLockCountReference lockNumber zoneType zoneID).getCounter lockNumber' .journal 0 =
        counter.getCounter lockNumber' .journal 0) ∧
    (∀ zoneType', zoneType'.Holder → ∀ lockNumber',
      (counter.releaseLockCountReference lockNumber zoneType zoneID).getZoneCount lockNumber' zoneType' =
        if zoneType' = zoneType ∧ lockNumber' = lockNumber ∧
            (counter.getCounter lockNumber zoneType zoneID + (2 ^ 16 - 1)) % 2 ^ 16 = 0 then
          (((counter.getZoneCount lockNumber zoneType : ℤ) + -1) % 2 ^ 32).toNat
        else counter.getZoneCount lockNumber' zoneType') := by
  have hcounters : ∀ zoneType', zoneType'.Holder → ∀ lockNumber' < counter.locks, ∀ zoneID' value,
      (counter.setCounter lockNumber zoneType zoneID value).getCounter lockNumber' zoneType' zoneID' =
        if zoneType' = zoneType ∧ zoneID' = zoneID ∧ lockNumber' = lockNumber then value
        else counter.getCounter lockNumber' zoneType' zoneID' :=
    fun zoneType' hholder' lockNumber' hlock' zoneID' value =>
      getCounter_setCounter_holder counter zoneID zoneID' value hholder hholder' hlock hlock'
  have hjournal : ∀ lockNumber' < counter.locks, ∀ value,
      (counter.setCounter lockNumber zoneType zoneID value).getCounter lockNumber' .journal 0 =
        counter.getCounter lockNumber' .journal 0 :=
    fun lockNumber' hlock' value => getCounter_setCounter_journal counter zoneID value hholder hlock hlock'
  unfold releaseLockCountReference releaseReference
  dsimp only
  split_ifs with hnonzero hlast
  · refine ⟨fun zoneType' hholder' lockNumber' hlock' zoneID' => hcounters zoneType' hholder' lockNumber' hlock'
      zoneID' _, fun lockNumber' hlock' => hjournal lockNumber' hlock' _, fun zoneType' hholder' lockNumber' => ?_⟩
    rw [setCounter_getZoneCount, if_neg fun h => hnonzero h.2.2]
  · refine ⟨fun zoneType' hholder' lockNumber' hlock' zoneID' => ?_, fun lockNumber' hlock' => ?_,
      fun zoneType' hholder' lockNumber' => ?_⟩
    · rw [attemptNotification_getCounter, addZoneCount_getCounter, hcounters zoneType' hholder' lockNumber' hlock']
    · rw [attemptNotification_getCounter, addZoneCount_getCounter, hjournal lockNumber' hlock']
    · rw [attemptNotification_getZoneCount, getZoneCount_addZoneCount_holder _ hholder hholder',
        setCounter_getZoneCount, setCounter_getZoneCount]
      by_cases hsame : zoneType' = zoneType ∧ lockNumber' = lockNumber
      · rw [if_pos hsame, if_pos ⟨hsame.1, hsame.2, not_not.mp hnonzero⟩]
      · rw [if_neg hsame, if_neg fun h => hsame ⟨h.1, h.2.1⟩]
  · refine ⟨fun zoneType' hholder' lockNumber' hlock' zoneID' => ?_, fun lockNumber' hlock' => ?_,
      fun zoneType' hholder' lockNumber' => ?_⟩
    · rw [addZoneCount_getCounter, hcounters zoneType' hholder' lockNumber' hlock']
    · rw [addZoneCount_getCounter, hjournal lockNumber' hlock']
    · rw [getZoneCount_addZoneCount_holder _ hholder hholder', setCounter_getZoneCount, setCounter_getZoneCount]
      by_cases hsame : zoneType' = zoneType ∧ lockNumber' = lockNumber
      · rw [if_pos hsame, if_pos ⟨hsame.1, hsame.2, not_not.mp hnonzero⟩]
      · rw [if_neg hsame, if_neg fun h => hsame ⟨h.1, h.2.1⟩]

/-- The journal thread's calls change only the journal zone's counts: an
initialization sets a lock's count and clears its decrements, a release
decrements its count. -/
theorem journal_spec (lockNumber : ℕ) (hlock : lockNumber < counter.locks) :
    (∀ lockNumber' < counter.locks,
      (counter.initializeLockCount lockNumber value).getCounter lockNumber' .journal 0 =
        if lockNumber' = lockNumber then value else counter.getCounter lockNumber' .journal 0) ∧
    (∀ lockNumber' < counter.locks,
      (counter.releaseJournalZoneReference lockNumber).getCounter lockNumber' .journal 0 =
        if lockNumber' = lockNumber then (counter.getCounter lockNumber .journal 0 + (2 ^ 16 - 1)) % 2 ^ 16
        else counter.getCounter lockNumber' .journal 0) ∧
    (∀ zoneType', zoneType'.Holder → ∀ lockNumber' < counter.locks, ∀ zoneID',
      (counter.initializeLockCount lockNumber value).getCounter lockNumber' zoneType' zoneID' =
        counter.getCounter lockNumber' zoneType' zoneID' ∧
      (counter.releaseJournalZoneReference lockNumber).getCounter lockNumber' zoneType' zoneID' =
        counter.getCounter lockNumber' zoneType' zoneID') ∧
    (∀ zoneType' lockNumber',
      (counter.initializeLockCount lockNumber value).getZoneCount lockNumber' zoneType' =
        counter.getZoneCount lockNumber' zoneType' ∧
      (counter.releaseJournalZoneReference lockNumber).getZoneCount lockNumber' zoneType' =
        counter.getZoneCount lockNumber' zoneType') := by
  have hset : ∀ value, ∀ zoneType', ∀ lockNumber' < counter.locks, ∀ zoneID',
      (counter.setCounter lockNumber .journal 0 value).getCounter lockNumber' zoneType' zoneID' =
        if zoneType' = .journal ∧ zoneID' = 0 ∧ lockNumber' = lockNumber then value
        else counter.getCounter lockNumber' zoneType' zoneID' := by
    intro value zoneType' lockNumber' hlock' zoneID'
    rw [getCounter_setCounter _ _ _ _ _ _ _ _ hlock hlock']
    cases zoneType' <;> simp
  have hsetJournal : ∀ value, ∀ lockNumber' < counter.locks,
      (counter.setCounter lockNumber .journal 0 value).getCounter lockNumber' .journal 0 =
        if lockNumber' = lockNumber then value else counter.getCounter lockNumber' .journal 0 := by
    intro value lockNumber' hlock'
    rw [hset value .journal lockNumber' hlock' 0]
    simp
  have hheld : ∀ zoneType' : ZoneType, zoneType'.Holder → zoneType' ≠ .journal := by
    rintro zoneType' (rfl | rfl) <;> simp
  refine ⟨fun lockNumber' hlock' => ?_, fun lockNumber' hlock' => ?_,
    fun zoneType' hholder' lockNumber' hlock' zoneID' => ⟨?_, ?_⟩, fun zoneType' lockNumber' => ⟨?_, ?_⟩⟩
  · exact hsetJournal value lockNumber' hlock'
  · unfold releaseJournalZoneReference releaseReference
    dsimp only
    rw [ite_attemptNotification_getCounter, hsetJournal _ lockNumber' hlock']
  · change (counter.setCounter lockNumber .journal 0 value).getCounter lockNumber' zoneType' zoneID' = _
    rw [hset value zoneType' lockNumber' hlock' zoneID', if_neg fun h => hheld zoneType' hholder' h.1]
  · unfold releaseJournalZoneReference releaseReference
    dsimp only
    rw [ite_attemptNotification_getCounter, hset _ zoneType' lockNumber' hlock' zoneID',
      if_neg fun h => hheld zoneType' hholder' h.1]
  · change (counter.setCounter lockNumber .journal 0 value).getZoneCount lockNumber' zoneType' = _
    rw [setCounter_getZoneCount]
  · unfold releaseJournalZoneReference releaseReference
    dsimp only
    rw [ite_attemptNotification_getZoneCount, setCounter_getZoneCount]

@[simp] theorem initializeLockCount_locks (lockNumber : ℕ) :
    (counter.initializeLockCount lockNumber value).locks = counter.locks :=
  setCounter_locks _ _ _ _ _

@[simp] theorem initializeLockCount_zones (zoneType : ZoneType) (lockNumber : ℕ) :
    (counter.initializeLockCount lockNumber value).zones zoneType = counter.zones zoneType := by
  unfold initializeLockCount zones
  simp

@[simp] theorem releaseJournalZoneReference_locks (lockNumber : ℕ) :
    (counter.releaseJournalZoneReference lockNumber).locks = counter.locks := by
  unfold releaseJournalZoneReference releaseReference
  dsimp only
  split_ifs <;> simp

@[simp] theorem releaseJournalZoneReference_zones (zoneType : ZoneType) (lockNumber : ℕ) :
    (counter.releaseJournalZoneReference lockNumber).zones zoneType = counter.zones zoneType := by
  unfold releaseJournalZoneReference releaseReference zones
  dsimp only
  split_ifs <;> simp

@[simp] theorem releaseJournalZoneReference_journalDecrementCounts (lockNumber : ℕ) :
    (counter.releaseJournalZoneReference lockNumber).journalDecrementCounts =
      counter.journalDecrementCounts := by
  unfold releaseJournalZoneReference releaseReference
  dsimp only
  split_ifs <;> simp

end Calls

end LockCounter

/-- A lock counter with the references each party holds. -/
structure TrackedCounter where
  /-- The lock counter. -/
  counter : LockCounter
  /-- `held zoneType lockNumber zoneID`: the references zone `zoneID` of the
  type holds on the lock, acquisitions less releases. -/
  held : ZoneType → ℕ → ℕ → ℕ
  /-- The journal-zone references of each lock not released since its count
  was initialized. -/
  journalHeld : ℕ → ℕ

namespace TrackedCounter

/-- The references one zone holds on one lock become `count`. -/
def holdLock (held : ZoneType → ℕ → ℕ → ℕ) (zoneType : ZoneType) (lockNumber zoneID count : ℕ) :
    ZoneType → ℕ → ℕ → ℕ :=
  Function.update held zoneType
    (Function.update (held zoneType) lockNumber (Function.update (held zoneType lockNumber) zoneID count))

theorem holdLock_apply (held : ZoneType → ℕ → ℕ → ℕ) (zoneType zoneType' : ZoneType)
    (lockNumber lockNumber' zoneID count : ℕ) :
    holdLock held zoneType lockNumber zoneID count zoneType' lockNumber' =
      if zoneType' = zoneType ∧ lockNumber' = lockNumber then
        Function.update (held zoneType lockNumber) zoneID count
      else held zoneType' lockNumber' := by
  unfold holdLock
  by_cases htype : zoneType' = zoneType
  · subst htype
    by_cases hlock : lockNumber' = lockNumber
    · subst hlock
      simp
    · simp [hlock]
  · simp [htype]

end TrackedCounter

open TrackedCounter

/-- The calls of the threads, in any order: the zones' acquisitions and
releases (a release only of a reference the zone holds, an acquisition below
`UINT16_MAX` when `checked`), and the journal-zone initializations and
releases (a release only of a reference not yet released). -/
inductive CounterStep (checked : Bool) : TrackedCounter → TrackedCounter → Prop
  | acquireLockCountReference {t : TrackedCounter} {zoneType : ZoneType} {lockNumber zoneID : ℕ}
      (hholder : zoneType.Holder) (hlock : lockNumber < t.counter.locks)
      (hzone : zoneID < t.counter.zones zoneType)
      (hoverflow : checked = true → t.counter.getCounter lockNumber zoneType zoneID < 2 ^ 16 - 1) :
      CounterStep checked t ⟨t.counter.acquireLockCountReference lockNumber zoneType zoneID,
        holdLock t.held zoneType lockNumber zoneID (t.held zoneType lockNumber zoneID + 1), t.journalHeld⟩
  | releaseLockCountReference {t : TrackedCounter} {zoneType : ZoneType} {lockNumber zoneID : ℕ}
      (hholder : zoneType.Holder) (hlock : lockNumber < t.counter.locks)
      (hzone : zoneID < t.counter.zones zoneType) (hheld : 0 < t.held zoneType lockNumber zoneID) :
      CounterStep checked t ⟨t.counter.releaseLockCountReference lockNumber zoneType zoneID,
        holdLock t.held zoneType lockNumber zoneID (t.held zoneType lockNumber zoneID - 1), t.journalHeld⟩
  | initializeLockCount {t : TrackedCounter} {lockNumber value : ℕ} (hlock : lockNumber < t.counter.locks)
      (hvalue : value < 2 ^ 16) :
      CounterStep checked t ⟨t.counter.initializeLockCount lockNumber value, t.held,
        Function.update t.journalHeld lockNumber value⟩
  | releaseJournalZoneReference {t : TrackedCounter} {lockNumber : ℕ} (hlock : lockNumber < t.counter.locks)
      (hheld : 0 < t.journalHeld lockNumber) :
      CounterStep checked t ⟨t.counter.releaseJournalZoneReference lockNumber, t.held,
        Function.update t.journalHeld lockNumber (t.journalHeld lockNumber - 1)⟩
  | releaseJournalZoneReferenceFromOtherZone {t : TrackedCounter} {lockNumber : ℕ}
      (hlock : lockNumber < t.counter.locks) (hheld : 0 < t.journalHeld lockNumber) :
      CounterStep checked t ⟨t.counter.releaseJournalZoneReferenceFromOtherZone lockNumber, t.held,
        Function.update t.journalHeld lockNumber (t.journalHeld lockNumber - 1)⟩
  | acknowledgeUnlock {t : TrackedCounter} :
      CounterStep checked t ⟨t.counter.acknowledgeUnlock, t.held, t.journalHeld⟩

/-- A lock counter as `makeLockCounter` leaves it, with 8-bit zone counts
(`ZoneCount`) and nothing held. -/
structure CounterStart (t : TrackedCounter) : Prop where
  counter_eq : t.counter =
    LockCounter.makeLockCounter t.counter.logicalZones t.counter.physicalZones t.counter.locks
  logicalZones_lt : t.counter.logicalZones < 2 ^ 8
  physicalZones_lt : t.counter.physicalZones < 2 ^ 8
  held_eq : ∀ zoneType lockNumber zoneID, t.held zoneType lockNumber zoneID = 0
  journalHeld_eq : ∀ lockNumber, t.journalHeld lockNumber = 0

/-- The invariant of every reachable lock counter whose acquisitions respect
the overflow assertion: each zone's count is the references it holds, below
`2 ^ 16`; each zone count is the number of zones of its type holding the lock;
and the journal's count is its decrements plus its unreleased references. -/
structure TrackedCounter.Invariant (t : TrackedCounter) : Prop where
  zones_lt : ∀ zoneType, t.counter.zones zoneType < 2 ^ 8
  counter_eq : ∀ zoneType : ZoneType, zoneType.Holder → ∀ lockNumber < t.counter.locks,
    ∀ zoneID < t.counter.zones zoneType,
      t.counter.getCounter lockNumber zoneType zoneID = t.held zoneType lockNumber zoneID
  held_lt : ∀ zoneType : ZoneType, zoneType.Holder → ∀ lockNumber < t.counter.locks,
    ∀ zoneID < t.counter.zones zoneType, t.held zoneType lockNumber zoneID < 2 ^ 16
  zoneCount_eq : ∀ zoneType : ZoneType, zoneType.Holder → ∀ lockNumber < t.counter.locks,
    t.counter.getZoneCount lockNumber zoneType =
      countWhere (Finset.range (t.counter.zones zoneType)) (· ≠ 0) (t.held zoneType lockNumber)
  journal_eq : ∀ lockNumber < t.counter.locks,
    t.counter.getCounter lockNumber .journal 0 = t.counter.journalDecrementCounts lockNumber + t.journalHeld lockNumber
  journal_lt : ∀ lockNumber < t.counter.locks, t.counter.getCounter lockNumber .journal 0 < 2 ^ 16

namespace TrackedCounter.Invariant

variable {t t' : TrackedCounter}

/-- A zone count is at most the number of zones, so it never wraps. -/
theorem zoneCount_lt (h : t.Invariant) {zoneType : ZoneType} (hholder : zoneType.Holder)
    {lockNumber : ℕ} (hlock : lockNumber < t.counter.locks) :
    t.counter.getZoneCount lockNumber zoneType < 2 ^ 8 := by
  rw [h.zoneCount_eq zoneType hholder lockNumber hlock]
  exact countWhere_le_card.trans_lt (by simpa using h.zones_lt zoneType)

/-- The references of one zone on one lock change from `held` to `count`: the
number of zones holding the lock moves by the change of that zone's share. -/
theorem countWhere_holdLock (held : ZoneType → ℕ → ℕ → ℕ) {zones zoneID : ℕ} (hzone : zoneID < zones)
    (zoneType : ZoneType) (lockNumber count : ℕ) :
    countWhere (Finset.range zones) (· ≠ 0)
        (holdLock held zoneType lockNumber zoneID count zoneType lockNumber) +
      (if held zoneType lockNumber zoneID ≠ 0 then 1 else 0) =
    countWhere (Finset.range zones) (· ≠ 0) (held zoneType lockNumber) + (if count ≠ 0 then 1 else 0) := by
  rw [holdLock_apply, if_pos ⟨rfl, rfl⟩]
  exact countWhere_update_of_mem (Finset.mem_range.mpr hzone) count

theorem of_start (h : CounterStart t) : t.Invariant := by
  have hcounter := h.counter_eq
  constructor
  case zones_lt =>
    intro zoneType
    unfold LockCounter.zones
    split_ifs
    · exact h.logicalZones_lt
    · exact h.physicalZones_lt
  case counter_eq =>
    intro zoneType _ lockNumber _ zoneID _
    rw [h.held_eq, hcounter]
    unfold LockCounter.getCounter
    cases zoneType <;> rfl
  case held_lt =>
    intro zoneType _ lockNumber _ zoneID _
    rw [h.held_eq]
    norm_num
  case zoneCount_eq =>
    intro zoneType _ lockNumber _
    rw [countWhere_eq_zero fun zoneID _ => by simp [h.held_eq], hcounter]
    unfold LockCounter.getZoneCount
    split_ifs <;> rfl
  case journal_eq =>
    intro lockNumber _
    rw [h.journalHeld_eq, hcounter]
    rfl
  case journal_lt =>
    intro lockNumber _
    rw [hcounter]
    norm_num [LockCounter.getCounter, LockCounter.makeLockCounter]

/-- One zone's count on one lock becomes `count`, the references it now holds,
while every other count and the journal's stay, and the lock's number of
holding zones moves with that zone's share: what an acquisition and a release
both do. -/
theorem holdLock_counter (h : t.Invariant) {counter : LockCounter} {zoneType : ZoneType}
    {lockNumber zoneID count : ℕ} (hzone : zoneID < t.counter.zones zoneType) (hcount : count < 2 ^ 16)
    (hlocks : counter.locks = t.counter.locks) (hzones : ∀ zoneType', counter.zones zoneType' = t.counter.zones zoneType')
    (hdecrements : counter.journalDecrementCounts = t.counter.journalDecrementCounts)
    (hcounters : ∀ zoneType', zoneType'.Holder → ∀ lockNumber' < t.counter.locks, ∀ zoneID',
      counter.getCounter lockNumber' zoneType' zoneID' =
        if zoneType' = zoneType ∧ zoneID' = zoneID ∧ lockNumber' = lockNumber then count
        else t.counter.getCounter lockNumber' zoneType' zoneID')
    (hjournal : ∀ lockNumber' < t.counter.locks,
      counter.getCounter lockNumber' .journal 0 = t.counter.getCounter lockNumber' .journal 0)
    (hother : ∀ zoneType', zoneType'.Holder → ∀ lockNumber', ¬ (zoneType' = zoneType ∧ lockNumber' = lockNumber) →
      counter.getZoneCount lockNumber' zoneType' = t.counter.getZoneCount lockNumber' zoneType')
    (hshare : counter.getZoneCount lockNumber zoneType + (if t.held zoneType lockNumber zoneID ≠ 0 then 1 else 0) =
      t.counter.getZoneCount lockNumber zoneType + (if count ≠ 0 then 1 else 0)) :
    TrackedCounter.Invariant ⟨counter, holdLock t.held zoneType lockNumber zoneID count, t.journalHeld⟩ := by
  constructor
  case zones_lt =>
    intro zoneType'
    dsimp only
    rw [hzones]
    exact h.zones_lt zoneType'
  case counter_eq =>
    intro zoneType' hholder' lockNumber' hlock' zoneID' hzone'
    dsimp only at hlock' hzone' ⊢
    rw [hlocks] at hlock'
    rw [hzones] at hzone'
    rw [hcounters zoneType' hholder' lockNumber' hlock' zoneID', holdLock_apply]
    by_cases hsame : zoneType' = zoneType ∧ lockNumber' = lockNumber
    · obtain ⟨rfl, rfl⟩ := hsame
      by_cases hzoneID : zoneID' = zoneID
      · subst hzoneID
        rw [if_pos ⟨rfl, rfl, rfl⟩, if_pos ⟨rfl, rfl⟩, Function.update_self]
      · rw [if_neg fun h => hzoneID h.2.1, if_pos ⟨rfl, rfl⟩, Function.update_of_ne hzoneID]
        exact h.counter_eq _ hholder' _ hlock' _ hzone'
    · rw [if_neg fun h => hsame ⟨h.1, h.2.2⟩, if_neg hsame]
      exact h.counter_eq _ hholder' _ hlock' _ hzone'
  case held_lt =>
    intro zoneType' hholder' lockNumber' hlock' zoneID' hzone'
    dsimp only at hlock' hzone' ⊢
    rw [hlocks] at hlock'
    rw [hzones] at hzone'
    rw [holdLock_apply]
    split_ifs with hsame
    · obtain ⟨rfl, rfl⟩ := hsame
      rw [Function.update_apply]
      split_ifs with hzoneID
      · exact hcount
      · exact h.held_lt _ hholder' _ hlock' _ hzone'
    · exact h.held_lt _ hholder' _ hlock' _ hzone'
  case zoneCount_eq =>
    intro zoneType' hholder' lockNumber' hlock'
    dsimp only at hlock' ⊢
    rw [hlocks] at hlock'
    rw [hzones]
    by_cases hsame : zoneType' = zoneType ∧ lockNumber' = lockNumber
    · obtain ⟨rfl, rfl⟩ := hsame
      have hmoved := countWhere_holdLock t.held hzone zoneType' lockNumber' count
      rw [h.zoneCount_eq zoneType' hholder' lockNumber' hlock'] at hshare
      split_ifs at hmoved hshare <;> omega
    · rw [hother zoneType' hholder' lockNumber' hsame, holdLock_apply, if_neg hsame]
      exact h.zoneCount_eq zoneType' hholder' lockNumber' hlock'
  case journal_eq =>
    intro lockNumber' hlock'
    dsimp only at hlock' ⊢
    rw [hlocks] at hlock'
    rw [hjournal lockNumber' hlock', hdecrements]
    exact h.journal_eq lockNumber' hlock'
  case journal_lt =>
    intro lockNumber' hlock'
    dsimp only at hlock' ⊢
    rw [hlocks] at hlock'
    rw [hjournal lockNumber' hlock']
    exact h.journal_lt lockNumber' hlock'

/-- An acquisition below `UINT16_MAX` keeps the invariant: the zone's count and
its references go up together, and the zone joins the lock's holders when it
held nothing. -/
theorem acquireLockCountReference (h : t.Invariant) {zoneType : ZoneType} {lockNumber zoneID : ℕ}
    (hholder : zoneType.Holder) (hlock : lockNumber < t.counter.locks) (hzone : zoneID < t.counter.zones zoneType)
    (hroom : t.counter.getCounter lockNumber zoneType zoneID < 2 ^ 16 - 1) :
    TrackedCounter.Invariant ⟨t.counter.acquireLockCountReference lockNumber zoneType zoneID,
      holdLock t.held zoneType lockNumber zoneID (t.held zoneType lockNumber zoneID + 1), t.journalHeld⟩ := by
  obtain ⟨hcounters, hjournal, hzoneCounts⟩ := t.counter.acquireLockCountReference_spec zoneID hholder hlock
  have hcur := h.counter_eq zoneType hholder lockNumber hlock zoneID hzone
  have hbound := h.zoneCount_lt hholder hlock
  rw [hcur] at hroom hcounters hzoneCounts
  rw [Nat.mod_eq_of_lt (show t.held zoneType lockNumber zoneID + 1 < 2 ^ 16 by omega)] at hcounters
  refine h.holdLock_counter hzone (by omega) (by simp) (by simp) (by simp) hcounters hjournal
    (fun zoneType' hholder' lockNumber' hsame => ?_) ?_
  · rw [hzoneCounts zoneType' hholder' lockNumber', if_neg fun h => hsame ⟨h.1, h.2.1⟩]
  · rw [hzoneCounts zoneType hholder lockNumber, if_pos (Nat.succ_ne_zero _)]
    by_cases hfirst : t.held zoneType lockNumber zoneID = 0
    · rw [if_pos ⟨rfl, rfl, hfirst⟩, if_neg (not_not.mpr hfirst)]
      omega
    · rw [if_neg fun h => hfirst h.2.2, if_pos hfirst]

/-- A release of a held reference keeps the invariant: the zone's count and
its references go down together, and the zone leaves the lock's holders when
it released its last one. -/
theorem releaseLockCountReference (h : t.Invariant) {zoneType : ZoneType} {lockNumber zoneID : ℕ}
    (hholder : zoneType.Holder) (hlock : lockNumber < t.counter.locks) (hzone : zoneID < t.counter.zones zoneType)
    (hheld : 0 < t.held zoneType lockNumber zoneID) :
    TrackedCounter.Invariant ⟨t.counter.releaseLockCountReference lockNumber zoneType zoneID,
      holdLock t.held zoneType lockNumber zoneID (t.held zoneType lockNumber zoneID - 1), t.journalHeld⟩ := by
  obtain ⟨hcounters, hjournal, hzoneCounts⟩ := t.counter.releaseLockCountReference_spec zoneID hholder hlock
  have hcur := h.counter_eq zoneType hholder lockNumber hlock zoneID hzone
  have hlt := h.held_lt zoneType hholder lockNumber hlock zoneID hzone
  have hbound := h.zoneCount_lt hholder hlock
  have hnew : (t.counter.getCounter lockNumber zoneType zoneID + (2 ^ 16 - 1)) % 2 ^ 16 =
      t.held zoneType lockNumber zoneID - 1 := by
    rw [hcur]
    omega
  rw [hnew] at hcounters hzoneCounts
  refine h.holdLock_counter hzone (by omega) (by simp) (by simp) (by simp) hcounters hjournal
    (fun zoneType' hholder' lockNumber' hsame => ?_) ?_
  · rw [hzoneCounts zoneType' hholder' lockNumber', if_neg fun h => hsame ⟨h.1, h.2.1⟩]
  · rw [hzoneCounts zoneType hholder lockNumber, if_pos (Nat.pos_iff_ne_zero.mp hheld)]
    by_cases hlast : t.held zoneType lockNumber zoneID - 1 = 0
    · have hmoved := countWhere_holdLock t.held hzone zoneType lockNumber 0
      rw [← h.zoneCount_eq zoneType hholder lockNumber hlock, if_pos (Nat.pos_iff_ne_zero.mp hheld),
        if_neg (not_not.mpr rfl)] at hmoved
      rw [if_pos ⟨rfl, rfl, hlast⟩, if_neg (not_not.mpr hlast)]
      omega
    · rw [if_neg fun h => hlast h.2.2, if_pos hlast]

/-- A journal call leaves every zone's count and the zone counts as they were,
so the zones' part of the invariant carries over and only the journal's part
is the call's own. -/
theorem journal_call (h : t.Invariant) {counter : LockCounter} {journalHeld : ℕ → ℕ}
    (hlocks : counter.locks = t.counter.locks)
    (hzones : ∀ zoneType, counter.zones zoneType = t.counter.zones zoneType)
    (hcounters : ∀ zoneType : ZoneType, zoneType.Holder → ∀ lockNumber < t.counter.locks, ∀ zoneID,
      counter.getCounter lockNumber zoneType zoneID = t.counter.getCounter lockNumber zoneType zoneID)
    (hzoneCounts : ∀ zoneType lockNumber,
      counter.getZoneCount lockNumber zoneType = t.counter.getZoneCount lockNumber zoneType)
    (hjournal : ∀ lockNumber < t.counter.locks,
      counter.getCounter lockNumber .journal 0 = counter.journalDecrementCounts lockNumber + journalHeld lockNumber ∧
        counter.getCounter lockNumber .journal 0 < 2 ^ 16) :
    TrackedCounter.Invariant ⟨counter, t.held, journalHeld⟩ := by
  constructor
  case zones_lt =>
    intro zoneType
    dsimp only
    rw [hzones]
    exact h.zones_lt zoneType
  case counter_eq =>
    intro zoneType hholder lockNumber hlock zoneID hzone
    dsimp only at hlock hzone ⊢
    rw [hlocks] at hlock
    rw [hzones] at hzone
    rw [hcounters zoneType hholder lockNumber hlock zoneID]
    exact h.counter_eq _ hholder _ hlock _ hzone
  case held_lt =>
    intro zoneType hholder lockNumber hlock zoneID hzone
    dsimp only at hlock hzone ⊢
    rw [hlocks] at hlock
    rw [hzones] at hzone
    exact h.held_lt _ hholder _ hlock _ hzone
  case zoneCount_eq =>
    intro zoneType hholder lockNumber hlock
    dsimp only at hlock ⊢
    rw [hlocks] at hlock
    rw [hzones, hzoneCounts]
    exact h.zoneCount_eq _ hholder _ hlock
  case journal_eq =>
    intro lockNumber hlock
    dsimp only at hlock ⊢
    rw [hlocks] at hlock
    exact (hjournal lockNumber hlock).1
  case journal_lt =>
    intro lockNumber hlock
    dsimp only at hlock ⊢
    rw [hlocks] at hlock
    exact (hjournal lockNumber hlock).2

/-- An initialization sets a lock's journal count to the references it gives
out and clears its decrements. -/
theorem initializeLockCount (h : t.Invariant) {lockNumber value : ℕ} (hlock : lockNumber < t.counter.locks)
    (hvalue : value < 2 ^ 16) :
    TrackedCounter.Invariant ⟨t.counter.initializeLockCount lockNumber value, t.held,
      Function.update t.journalHeld lockNumber value⟩ := by
  obtain ⟨hinit, -, hholders, hzoneCounts⟩ := t.counter.journal_spec value lockNumber hlock
  have hdecrements : (t.counter.initializeLockCount lockNumber value).journalDecrementCounts =
      Function.update t.counter.journalDecrementCounts lockNumber 0 := rfl
  refine h.journal_call (by simp) (by simp)
    (fun zoneType hholder lockNumber' hlock' zoneID => (hholders zoneType hholder lockNumber' hlock' zoneID).1)
    (fun zoneType lockNumber' => (hzoneCounts zoneType lockNumber').1) fun lockNumber' hlock' => ?_
  rw [hinit lockNumber' hlock', hdecrements]
  by_cases hsame : lockNumber' = lockNumber
  · subst hsame
    rw [if_pos rfl, Function.update_self, Function.update_self, Nat.zero_add]
    exact ⟨rfl, hvalue⟩
  · rw [if_neg hsame, Function.update_of_ne hsame, Function.update_of_ne hsame]
    exact ⟨h.journal_eq lockNumber' hlock', h.journal_lt lockNumber' hlock'⟩

/-- The journal thread's release of an unreleased reference decrements the
lock's journal count, which is at least its unreleased references. -/
theorem releaseJournalZoneReference (h : t.Invariant) {lockNumber : ℕ} (hlock : lockNumber < t.counter.locks)
    (hheld : 0 < t.journalHeld lockNumber) :
    TrackedCounter.Invariant ⟨t.counter.releaseJournalZoneReference lockNumber, t.held,
      Function.update t.journalHeld lockNumber (t.journalHeld lockNumber - 1)⟩ := by
  obtain ⟨-, hrelease, hholders, hzoneCounts⟩ := t.counter.journal_spec 0 lockNumber hlock
  have hcount := h.journal_eq lockNumber hlock
  have hbound := h.journal_lt lockNumber hlock
  refine h.journal_call (by simp) (by simp)
    (fun zoneType hholder lockNumber' hlock' zoneID => (hholders zoneType hholder lockNumber' hlock' zoneID).2)
    (fun zoneType lockNumber' => (hzoneCounts zoneType lockNumber').2) fun lockNumber' hlock' => ?_
  rw [hrelease lockNumber' hlock', LockCounter.releaseJournalZoneReference_journalDecrementCounts]
  by_cases hsame : lockNumber' = lockNumber
  · subst hsame
    rw [if_pos rfl, Function.update_self]
    omega
  · rw [if_neg hsame, Function.update_of_ne hsame]
    exact ⟨h.journal_eq lockNumber' hlock', h.journal_lt lockNumber' hlock'⟩

/-- A release from another zone adds to the lock's decrements, which stay
below its journal count while references are unreleased. -/
theorem releaseJournalZoneReferenceFromOtherZone (h : t.Invariant) {lockNumber : ℕ}
    (hlock : lockNumber < t.counter.locks) (hheld : 0 < t.journalHeld lockNumber) :
    TrackedCounter.Invariant ⟨t.counter.releaseJournalZoneReferenceFromOtherZone lockNumber, t.held,
      Function.update t.journalHeld lockNumber (t.journalHeld lockNumber - 1)⟩ := by
  have hcount := h.journal_eq lockNumber hlock
  have hbound := h.journal_lt lockNumber hlock
  refine ⟨h.zones_lt, h.counter_eq, h.held_lt, h.zoneCount_eq, fun lockNumber' hlock' => ?_, h.journal_lt⟩
  change t.counter.getCounter lockNumber' .journal 0 =
    Function.update t.counter.journalDecrementCounts lockNumber
      ((t.counter.journalDecrementCounts lockNumber + 1) % 2 ^ 32) lockNumber' +
    Function.update t.journalHeld lockNumber (t.journalHeld lockNumber - 1) lockNumber'
  by_cases hsame : lockNumber' = lockNumber
  · subst hsame
    rw [Function.update_self, Function.update_self]
    omega
  · rw [Function.update_of_ne hsame, Function.update_of_ne hsame]
    exact h.journal_eq lockNumber' hlock'

theorem acknowledgeUnlock (h : t.Invariant) :
    TrackedCounter.Invariant ⟨t.counter.acknowledgeUnlock, t.held, t.journalHeld⟩ :=
  ⟨h.zones_lt, h.counter_eq, h.held_lt, h.zoneCount_eq, h.journal_eq, h.journal_lt⟩

/-- Every call of a run whose acquisitions respect the overflow assertion
keeps the invariant. -/
theorem step (h : t.Invariant) (hstep : CounterStep true t t') : t'.Invariant := by
  cases hstep with
  | acquireLockCountReference hholder hlock hzone hoverflow =>
    exact h.acquireLockCountReference hholder hlock hzone (hoverflow rfl)
  | releaseLockCountReference hholder hlock hzone hheld => exact h.releaseLockCountReference hholder hlock hzone hheld
  | initializeLockCount hlock hvalue => exact h.initializeLockCount hlock hvalue
  | releaseJournalZoneReference hlock hheld => exact h.releaseJournalZoneReference hlock hheld
  | releaseJournalZoneReferenceFromOtherZone hlock hheld => exact h.releaseJournalZoneReferenceFromOtherZone hlock hheld
  | acknowledgeUnlock => exact h.acknowledgeUnlock

theorem of_reachable (h : Reachability.Reachable CounterStart (CounterStep true) t) : t.Invariant :=
  @Reachability.Reachable.invariant TrackedCounter CounterStart (CounterStep true) TrackedCounter.Invariant
    (fun _ hstart => of_start hstart) (fun _ _ hinv hstep => hinv.step hstep) t h

end TrackedCounter.Invariant

end Vdo
