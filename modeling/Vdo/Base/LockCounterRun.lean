import Vdo.Base.LockCounterInvariant

/-!
# Zone accounting in every run of the lock counter

In every run whose acquisitions respect the overflow assertion, whatever the
interleaving of the zones' and the journal's calls, each zone count is the
number of zones of its type whose count for the lock is not zero, the journal's
decrements never pass its count, and a lock is unlocked for a zone type exactly
when every journal-zone reference is released and no zone of the type holds
it. Without the assertion a zone's 16-bit count wraps to zero after `2 ^ 16`
acquisitions, while the zone is still counted among the lock's holders.
-/

namespace Vdo

open IndexCount

namespace TrackedCounter

variable {t : TrackedCounter}

/-- A lock counter as `makeLockCounter` makes it, with nothing held. -/
def fresh (logicalZones physicalZones locks : ℕ) : TrackedCounter :=
  ⟨LockCounter.makeLockCounter logicalZones physicalZones locks, fun _ _ _ => 0, fun _ => 0⟩

theorem fresh_start {logicalZones physicalZones : ℕ} (hlogical : logicalZones < 2 ^ 8)
    (hphysical : physicalZones < 2 ^ 8) (locks : ℕ) :
    CounterStart (fresh logicalZones physicalZones locks) :=
  ⟨rfl, hlogical, hphysical, fun _ _ _ => rfl, fun _ => rfl⟩

/-! ## What the invariant says about `isLocked` -/

namespace Invariant

/-- The journal zone is locked exactly while one of its references is
unreleased. -/
theorem isJournalZoneLocked_eq_false_iff (h : t.Invariant) {lockNumber : ℕ}
    (hlock : lockNumber < t.counter.locks) :
    t.counter.isJournalZoneLocked lockNumber = false ↔ t.journalHeld lockNumber = 0 := by
  have hcount := h.journal_eq lockNumber hlock
  rw [LockCounter.isJournalZoneLocked, bne_eq_false_iff_eq]
  omega

/-- A zone count is zero exactly when no zone of its type holds the lock. -/
theorem getZoneCount_eq_zero_iff (h : t.Invariant) {zoneType : ZoneType} (hholder : zoneType.Holder)
    {lockNumber : ℕ} (hlock : lockNumber < t.counter.locks) :
    t.counter.getZoneCount lockNumber zoneType = 0 ↔
      ∀ zoneID < t.counter.zones zoneType, t.held zoneType lockNumber zoneID = 0 := by
  rw [h.zoneCount_eq zoneType hholder lockNumber hlock]
  constructor
  · intro hzero zoneID hzone
    by_contra hheld
    exact (countWhere_pos (Finset.mem_range.mpr hzone) hheld).ne' hzero
  · intro hfree
    exact countWhere_eq_zero fun zoneID hzone hheld => hheld (hfree zoneID (Finset.mem_range.mp hzone))

theorem isLocked_eq_false_iff (h : t.Invariant) {zoneType : ZoneType} (hholder : zoneType.Holder)
    {lockNumber : ℕ} (hlock : lockNumber < t.counter.locks) :
    t.counter.isLocked lockNumber zoneType = false ↔
      t.journalHeld lockNumber = 0 ∧ ∀ zoneID < t.counter.zones zoneType, t.held zoneType lockNumber zoneID = 0 := by
  rw [LockCounter.isLocked, Bool.or_eq_false_iff, bne_eq_false_iff_eq,
    h.isJournalZoneLocked_eq_false_iff hlock, h.getZoneCount_eq_zero_iff hholder hlock]

/-- Each zone count is the number of zones of its type whose own count for the
lock is not zero. -/
theorem zoneCount_eq_countWhere_getCounter (h : t.Invariant) {zoneType : ZoneType}
    (hholder : zoneType.Holder) {lockNumber : ℕ} (hlock : lockNumber < t.counter.locks) :
    t.counter.getZoneCount lockNumber zoneType =
      countWhere (Finset.range (t.counter.zones zoneType)) (· ≠ 0) (t.counter.getCounter lockNumber zoneType) :=
  (h.zoneCount_eq zoneType hholder lockNumber hlock).trans
    (countWhere_congr fun zoneID hzone => (h.counter_eq zoneType hholder lockNumber hlock zoneID
      (Finset.mem_range.mp hzone)).symm)

end Invariant

/-- Zone accounting in every run that respects the overflow assertion, under
any interleaving of the zones' and the journal's calls. -/
theorem lockCounter_zone_accounting (h : Reachability.Reachable CounterStart (CounterStep true) t) :
    ∀ lockNumber < t.counter.locks,
      (∀ zoneType : ZoneType, zoneType.Holder →
        t.counter.getZoneCount lockNumber zoneType =
          countWhere (Finset.range (t.counter.zones zoneType)) (· ≠ 0)
            (t.counter.getCounter lockNumber zoneType)) ∧
      t.counter.journalDecrementCounts lockNumber ≤ t.counter.getCounter lockNumber .journal 0 ∧
      ∀ zoneType : ZoneType, zoneType.Holder →
        (t.counter.isLocked lockNumber zoneType = false ↔
          t.journalHeld lockNumber = 0 ∧
            ∀ zoneID < t.counter.zones zoneType, t.held zoneType lockNumber zoneID = 0) := by
  have hinv := Invariant.of_reachable h
  intro lockNumber hlock
  have hjournal := hinv.journal_eq lockNumber hlock
  exact ⟨fun _ hholder => hinv.zoneCount_eq_countWhere_getCounter hholder hlock, by omega,
    fun _ hholder => hinv.isLocked_eq_false_iff hholder hlock⟩

/-- Two logical zones and the journal share one lock: the journal takes two
references, each logical zone acquires, the journal gives one back and zone 0
releases, leaving zone 1 the one logical holder. -/
theorem lockCounter_zone_accounting_shared :
    ∃ t, Reachability.Reachable CounterStart (CounterStep true) t ∧ 0 < t.counter.locks ∧
      t.counter.getZoneCount 0 .logical = 1 ∧ t.journalHeld 0 = 1 ∧
      (∀ zoneType : ZoneType, zoneType.Holder →
        t.counter.getZoneCount 0 zoneType =
          countWhere (Finset.range (t.counter.zones zoneType)) (· ≠ 0) (t.counter.getCounter 0 zoneType)) ∧
      t.counter.journalDecrementCounts 0 ≤ t.counter.getCounter 0 .journal 0 ∧
      ∀ zoneType : ZoneType, zoneType.Holder →
        (t.counter.isLocked 0 zoneType = false ↔
          t.journalHeld 0 = 0 ∧ ∀ zoneID < t.counter.zones zoneType, t.held zoneType 0 zoneID = 0) := by
  have r0 : Reachability.Reachable CounterStart (CounterStep true) (fresh 2 1 1) :=
    Reachability.Reachable.init (fresh_start (by decide) (by decide) 1)
  have r1 := r0.step (@CounterStep.initializeLockCount true (fresh 2 1 1) 0 2 (by decide) (by decide))
  have r2 := r1.step (@CounterStep.acquireLockCountReference true _ .logical 0 0 (Or.inl rfl) (by decide)
    (by decide) fun _ => by decide)
  have r3 := r2.step (@CounterStep.acquireLockCountReference true _ .logical 0 1 (Or.inl rfl) (by decide)
    (by decide) fun _ => by decide)
  have r4 := r3.step (@CounterStep.releaseJournalZoneReference true _ 0 (by decide) (by decide))
  have r5 := r4.step (@CounterStep.releaseLockCountReference true _ .logical 0 0 (Or.inl rfl) (by decide)
    (by decide) (by decide))
  exact ⟨_, r5, by decide, by decide +kernel, by decide, lockCounter_zone_accounting r5 0 (by decide)⟩

/-! ## A count that wraps -/

/-- The one logical zone of a counter of one lock, having taken `k`
references on it. -/
def acquiredTimes : ℕ → TrackedCounter
  | 0 => fresh 1 0 1
  | k + 1 =>
    let t := acquiredTimes k
    ⟨t.counter.acquireLockCountReference 0 .logical 0, holdLock t.held .logical 0 0 (t.held .logical 0 0 + 1),
      t.journalHeld⟩

@[simp] theorem acquiredTimes_locks (k : ℕ) : (acquiredTimes k).counter.locks = 1 := by
  induction k with
  | zero => rfl
  | succ k ih => simp [acquiredTimes, ih]

@[simp] theorem acquiredTimes_zones (k : ℕ) : (acquiredTimes k).counter.zones .logical = 1 := by
  induction k with
  | zero => rfl
  | succ k ih => simp [acquiredTimes, ih]

theorem acquiredTimes_logicalZones (k : ℕ) : (acquiredTimes k).counter.logicalZones = 1 := by
  simpa [LockCounter.zones] using acquiredTimes_zones k

/-- Every number of acquisitions is reachable once the overflow assertion is
not a precondition. -/
theorem acquiredTimes_reachable (k : ℕ) :
    Reachability.Reachable CounterStart (CounterStep false) (acquiredTimes k) := by
  induction k with
  | zero => exact Reachability.Reachable.init (fresh_start (by decide) (by decide) 1)
  | succ k ih =>
    exact ih.step (CounterStep.acquireLockCountReference (Or.inl rfl) (by simp) (by simp)
      fun hchecked => absurd hchecked Bool.false_ne_true)

/-- One more acquisition increments the zone's count, modulo `2 ^ 16`, and
counts the zone when its count was zero. -/
theorem acquiredTimes_succ (k : ℕ) :
    (acquiredTimes (k + 1)).counter.getCounter 0 .logical 0 =
        ((acquiredTimes k).counter.getCounter 0 .logical 0 + 1) % 2 ^ 16 ∧
      (acquiredTimes (k + 1)).counter.getZoneCount 0 .logical =
        if (acquiredTimes k).counter.getCounter 0 .logical 0 = 0 then
          Int.toNat ((((acquiredTimes k).counter.getZoneCount 0 .logical : ℤ) + 1) % 2 ^ 32)
        else (acquiredTimes k).counter.getZoneCount 0 .logical := by
  obtain ⟨hcounters, -, hzoneCounts⟩ := (acquiredTimes k).counter.acquireLockCountReference_spec 0
    (Or.inl rfl) (show 0 < (acquiredTimes k).counter.locks by simp)
  constructor
  · rw [acquiredTimes, hcounters .logical (Or.inl rfl) 0 (by simp) 0, if_pos ⟨rfl, rfl, rfl⟩]
  · rw [acquiredTimes, hzoneCounts .logical (Or.inl rfl) 0]
    simp only [true_and]

/-- Below `2 ^ 16` acquisitions the zone's count is their number, and the zone
is counted once it has one. -/
theorem acquiredTimes_counts {k : ℕ} (hk : k < 2 ^ 16) :
    (acquiredTimes k).counter.getCounter 0 .logical 0 = k ∧
      (acquiredTimes k).counter.getZoneCount 0 .logical = if k = 0 then 0 else 1 := by
  induction k with
  | zero => exact ⟨rfl, rfl⟩
  | succ k ih =>
    obtain ⟨hcounter, hzoneCount⟩ := ih (by omega)
    rw [(acquiredTimes_succ k).1, (acquiredTimes_succ k).2, hcounter, hzoneCount]
    by_cases hzero : k = 0
    · subst hzero
      decide
    · simp only [if_neg hzero, Nat.add_one_ne_zero, if_false, and_true]
      omega

/-- Without the overflow assertion the zone accounting fails: after `2 ^ 16`
acquisitions the zone's count has wrapped to zero while the zone is still
counted as holding the lock. -/
theorem lockCounter_zone_count_wraps :
    ∃ t : TrackedCounter, Reachability.Reachable CounterStart (CounterStep false) t ∧
      0 < t.counter.locks ∧ t.counter.logicalZones = 1 ∧
      t.counter.getCounter 0 .logical 0 = 0 ∧ t.counter.getZoneCount 0 .logical = 1 ∧
      t.counter.getZoneCount 0 .logical ≠
        countWhere (Finset.range (t.counter.zones .logical)) (· ≠ 0) (t.counter.getCounter 0 .logical) := by
  obtain ⟨hcounter, hzoneCount⟩ := @acquiredTimes_counts (2 ^ 16 - 1) (by decide)
  obtain ⟨hwrapped, hcounted⟩ := acquiredTimes_succ (2 ^ 16 - 1)
  rw [hcounter] at hwrapped hcounted
  rw [hzoneCount, if_neg (by decide), if_neg (by decide)] at hcounted
  rw [show (2 ^ 16 - 1 + 1) % 2 ^ 16 = 0 from rfl] at hwrapped
  refine ⟨acquiredTimes (2 ^ 16 - 1 + 1), acquiredTimes_reachable _, by rw [acquiredTimes_locks]; exact Nat.one_pos,
    acquiredTimes_logicalZones _, hwrapped, hcounted, ?_⟩
  have hnone : countWhere (Finset.range ((acquiredTimes (2 ^ 16 - 1 + 1)).counter.zones .logical)) (· ≠ 0)
      ((acquiredTimes (2 ^ 16 - 1 + 1)).counter.getCounter 0 .logical) = 0 := by
    rw [acquiredTimes_zones]
    refine countWhere_eq_zero fun zoneID hzone hnonzero => hnonzero ?_
    rw [Finset.mem_range, Nat.lt_one_iff] at hzone
    rw [hzone, hwrapped]
  rw [hcounted, hnone]
  exact Nat.one_ne_zero

end TrackedCounter

end Vdo
