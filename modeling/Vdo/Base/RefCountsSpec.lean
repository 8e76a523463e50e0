import Vdo.Base.RefCounts

/-!
# What each reference-count operation does

One lemma per operation of `refCounts.c` says what a call returns, in terms of
the counter primitives (`setCounter`, `countAllocation`, `countRelease`,
`dirtyBlock`) and the guards of the branch it took. The invariants of the later
files are proved from these lemmas and never unfold the operations again.
-/

namespace Vdo

/-! ## Counter statuses -/

/-- `referenceCountToStatus` names the free, single and provisional counts and
calls every other count shared. -/
theorem referenceCountToStatus_eq (count : ℕ) :
    referenceCountToStatus count =
      if count = 0 then .free else if count = 1 then .single
      else if count = 255 then .provisional else .shared := rfl

/-- `referenceCountToStatus` is `free` exactly for a zero count. -/
theorem referenceCountToStatus_free {count : ℕ} :
    referenceCountToStatus count = .free ↔ count = emptyReferenceCount := by
  rw [referenceCountToStatus_eq, emptyReferenceCount]
  split_ifs <;> simp_all

/-- `referenceCountToStatus` is `single` exactly for a count of one. -/
theorem referenceCountToStatus_single {count : ℕ} :
    referenceCountToStatus count = .single ↔ count = 1 := by
  rw [referenceCountToStatus_eq]
  split_ifs <;> simp_all

/-- `referenceCountToStatus` is `provisional` exactly for a count of `255`. -/
theorem referenceCountToStatus_provisional {count : ℕ} :
    referenceCountToStatus count = .provisional ↔ count = provisionalReferenceCount := by
  rw [referenceCountToStatus_eq, provisionalReferenceCount]
  split_ifs <;> simp_all

/-- `referenceCountToStatus` is `shared` for every other count. -/
theorem referenceCountToStatus_shared {count : ℕ} :
    referenceCountToStatus count = .shared ↔
      count ≠ emptyReferenceCount ∧ count ≠ 1 ∧ count ≠ provisionalReferenceCount := by
  rw [referenceCountToStatus_eq, emptyReferenceCount, provisionalReferenceCount]
  split_ifs <;> simp_all

/-- A counter whose status is not `free` is not zero. -/
theorem ne_emptyReferenceCount_of_status {count : ℕ}
    (hstatus : referenceCountToStatus count ≠ .free) : count ≠ emptyReferenceCount :=
  fun hzero => hstatus (referenceCountToStatus_free.mpr hzero)

/-- A slab block number converted from a physical block number is one of the
slab's counters. -/
theorem slabBlockNumberFromPBN_lt {start dataBlocks pbn sbn : ℕ}
    (h : slabBlockNumberFromPBN start dataBlocks pbn = .ok sbn) : sbn < dataBlocks := by
  unfold slabBlockNumberFromPBN at h
  split_ifs at h with hlow hhigh
  cases h
  omega

/-! ## The counter transitions of `updateReferenceCount` -/

section Transitions

variable {refCounts updated : RefCounts} {index : ℕ} {report : UpdateReport}

/-- `incrementForData`: a free counter becomes a single allocated reference,
a provisional one a single reference, and a single or shared one below the
maximum goes up by one. -/
theorem RefCounts.incrementForData_ok {hasLock : Bool}
    (hok : refCounts.incrementForData index (referenceCountToStatus (refCounts.counters index))
      hasLock = .ok (updated, report)) :
    (refCounts.counters index = emptyReferenceCount ∧
        updated = (refCounts.setCounter index 1).countAllocation (getReferenceBlock index)) ∨
      (refCounts.counters index = provisionalReferenceCount ∧
        updated = refCounts.setCounter index 1) ∨
      (refCounts.counters index ≠ emptyReferenceCount ∧
        refCounts.counters index < maximumReferenceCount ∧
        updated = refCounts.setCounter index (refCounts.counters index + 1)) := by
  unfold RefCounts.incrementForData at hok
  cases hstatus : referenceCountToStatus (refCounts.counters index) with
  | free =>
    simp only [hstatus, Except.ok.injEq, Prod.mk.injEq] at hok
    exact Or.inl ⟨referenceCountToStatus_free.mp hstatus, hok.1.symm⟩
  | provisional =>
    simp only [hstatus, Except.ok.injEq, Prod.mk.injEq] at hok
    exact Or.inr (Or.inl ⟨referenceCountToStatus_provisional.mp hstatus, hok.1.symm⟩)
  | single | shared =>
    have hold : refCounts.counters index ≠ emptyReferenceCount :=
      ne_emptyReferenceCount_of_status (by simp [hstatus])
    by_cases hmax : maximumReferenceCount ≤ refCounts.counters index
    · simp [hstatus, hmax] at hok
    · simp only [hstatus, hmax, if_false, Except.ok.injEq, Prod.mk.injEq] at hok
      exact Or.inr (Or.inr ⟨hold, Nat.lt_of_not_le hmax, hok.1.symm⟩)

/-- `decrementForData`: the last reference of a single or provisional counter
stays as a provisional one under a read lock and is released otherwise; a
shared counter goes down by one. -/
theorem RefCounts.decrementForData_ok {hasLock : Bool}
    (hok : refCounts.decrementForData index (referenceCountToStatus (refCounts.counters index))
      hasLock = .ok (updated, report)) :
    ((refCounts.counters index = 1 ∨ refCounts.counters index = provisionalReferenceCount) ∧
        hasLock = true ∧ updated = refCounts.setCounter index provisionalReferenceCount) ∨
      ((refCounts.counters index = 1 ∨ refCounts.counters index = provisionalReferenceCount) ∧
        hasLock = false ∧
        updated = (refCounts.setCounter index emptyReferenceCount).countRelease
          (getReferenceBlock index)) ∨
      (refCounts.counters index ≠ emptyReferenceCount ∧ refCounts.counters index ≠ 1 ∧
        refCounts.counters index ≠ provisionalReferenceCount ∧
        updated = refCounts.setCounter index (refCounts.counters index - 1)) := by
  unfold RefCounts.decrementForData at hok
  have hlast : referenceCountToStatus (refCounts.counters index) = .provisional ∨
      referenceCountToStatus (refCounts.counters index) = .single →
      refCounts.counters index = 1 ∨ refCounts.counters index = provisionalReferenceCount := by
    rintro (hstatus | hstatus)
    · exact Or.inr (referenceCountToStatus_provisional.mp hstatus)
    · exact Or.inl (referenceCountToStatus_single.mp hstatus)
  cases hstatus : referenceCountToStatus (refCounts.counters index) with
  | free => simp [hstatus] at hok
  | provisional | single =>
    have hcount := hlast (by simp [hstatus])
    cases hasLock with
    | true =>
      simp only [hstatus, if_true, Except.ok.injEq, Prod.mk.injEq] at hok
      exact Or.inl ⟨hcount, rfl, hok.1.symm⟩
    | false =>
      simp only [hstatus, Bool.false_eq_true, if_false, Except.ok.injEq, Prod.mk.injEq] at hok
      exact Or.inr (Or.inl ⟨hcount, rfl, hok.1.symm⟩)
  | shared =>
    obtain ⟨hzero, hone, hprovisional⟩ := referenceCountToStatus_shared.mp hstatus
    simp only [hstatus, Except.ok.injEq, Prod.mk.injEq] at hok
    exact Or.inr (Or.inr ⟨hzero, hone, hprovisional, hok.1.symm⟩)

/-- `incrementForBlockMap`: in recovery or rebuild a free counter becomes a
block map reference, and in normal operation a provisional one does. -/
theorem RefCounts.incrementForBlockMap_ok {hasLock normalOperation : Bool}
    (hok : refCounts.incrementForBlockMap index (referenceCountToStatus (refCounts.counters index))
      hasLock normalOperation = .ok (updated, report)) :
    (refCounts.counters index = emptyReferenceCount ∧ normalOperation = false ∧
        updated = (refCounts.setCounter index maximumReferenceCount).countAllocation
          (getReferenceBlock index)) ∨
      (refCounts.counters index = provisionalReferenceCount ∧ normalOperation = true ∧
        updated = refCounts.setCounter index maximumReferenceCount) := by
  unfold RefCounts.incrementForBlockMap at hok
  cases hstatus : referenceCountToStatus (refCounts.counters index) with
  | free =>
    cases normalOperation with
    | true => simp [hstatus] at hok
    | false =>
      simp only [hstatus, Bool.false_eq_true, if_false, Except.ok.injEq, Prod.mk.injEq] at hok
      exact Or.inl ⟨referenceCountToStatus_free.mp hstatus, rfl, hok.1.symm⟩
  | provisional =>
    cases normalOperation with
    | false => simp [hstatus] at hok
    | true =>
      simp only [hstatus, Bool.not_true, Bool.false_eq_true, if_false, Except.ok.injEq,
        Prod.mk.injEq] at hok
      exact Or.inr ⟨referenceCountToStatus_provisional.mp hstatus, rfl, hok.1.symm⟩
  | single | shared => simp [hstatus] at hok

/-- `updateReferenceCount`: one of the three transitions on the counter's
status, with the journal point recorded unless the call decremented a
provisional reference. -/
theorem RefCounts.updateReferenceCount_ok {point : Option JournalPoint}
    {operation : ReferenceOperation} {normalOperation : Bool}
    (hok : refCounts.updateReferenceCount index point operation normalOperation =
      .ok (updated, report)) :
    ∃ counted countedReport,
      (operation.type = .dataIncrement ∧
          refCounts.incrementForData index (referenceCountToStatus (refCounts.counters index))
            operation.hasLock = .ok (counted, countedReport) ∨
        operation.type = .dataDecrement ∧
          refCounts.decrementForData index (referenceCountToStatus (refCounts.counters index))
            operation.hasLock = .ok (counted, countedReport) ∨
        operation.type = .blockMapIncrement ∧
          refCounts.incrementForBlockMap index (referenceCountToStatus (refCounts.counters index))
            operation.hasLock normalOperation = .ok (counted, countedReport)) ∧
      (updated = counted.recordJournalPoint point ∨ updated = counted) := by
  unfold RefCounts.updateReferenceCount at hok
  cases htype : operation.type with
  | dataIncrement =>
    simp only [htype] at hok
    cases hinc : refCounts.incrementForData index
        (referenceCountToStatus (refCounts.counters index)) operation.hasLock with
    | error e => simp [hinc, Except.map] at hok
    | ok outcome =>
      simp only [hinc, Except.map, Except.ok.injEq, Prod.mk.injEq] at hok
      exact ⟨outcome.1, outcome.2, Or.inl ⟨rfl, rfl⟩, Or.inl hok.1.symm⟩
  | dataDecrement =>
    simp only [htype] at hok
    cases hdec : refCounts.decrementForData index
        (referenceCountToStatus (refCounts.counters index)) operation.hasLock with
    | error e => simp [hdec, Except.map] at hok
    | ok outcome =>
      simp only [hdec, Except.map, Except.ok.injEq] at hok
      split_ifs at hok
      · exact ⟨outcome.1, outcome.2, Or.inr (Or.inl ⟨rfl, rfl⟩), Or.inr (Prod.mk.inj hok).1.symm⟩
      · exact ⟨outcome.1, outcome.2, Or.inr (Or.inl ⟨rfl, rfl⟩), Or.inl (Prod.mk.inj hok).1.symm⟩
  | blockMapIncrement =>
    simp only [htype] at hok
    cases hinc : refCounts.incrementForBlockMap index
        (referenceCountToStatus (refCounts.counters index)) operation.hasLock normalOperation with
    | error e => simp [hinc, Except.map] at hok
    | ok outcome =>
      simp only [hinc, Except.map, Except.ok.injEq, Prod.mk.injEq] at hok
      exact ⟨outcome.1, outcome.2, Or.inr (Or.inr ⟨rfl, rfl⟩), Or.inl hok.1.symm⟩
  | blockMapDecrement => simp [htype] at hok

/-- A counter update keeps the slab's size and the search cursor. -/
theorem RefCounts.updateReferenceCount_frame {point : Option JournalPoint}
    {operation : ReferenceOperation} {normalOperation : Bool}
    (hok : refCounts.updateReferenceCount index point operation normalOperation =
      .ok (updated, report)) :
    updated.blockCount = refCounts.blockCount ∧ updated.searchCursor = refCounts.searchCursor := by
  obtain ⟨counted, countedReport, htransition, hrecorded⟩ := RefCounts.updateReferenceCount_ok hok
  have hcounted : counted.blockCount = refCounts.blockCount ∧
      counted.searchCursor = refCounts.searchCursor := by
    rcases htransition with ⟨-, hinc⟩ | ⟨-, hdec⟩ | ⟨-, hmap⟩
    · rcases RefCounts.incrementForData_ok hinc with ⟨-, rfl⟩ | ⟨-, rfl⟩ | ⟨-, -, rfl⟩ <;>
        exact ⟨rfl, rfl⟩
    · rcases RefCounts.decrementForData_ok hdec with ⟨-, -, rfl⟩ | ⟨-, -, rfl⟩ | ⟨-, -, -, rfl⟩ <;>
        exact ⟨rfl, rfl⟩
    · rcases RefCounts.incrementForBlockMap_ok hmap with ⟨-, -, rfl⟩ | ⟨-, -, rfl⟩ <;>
        exact ⟨rfl, rfl⟩
  rcases hrecorded with rfl | rfl
  · unfold RefCounts.recordJournalPoint
    split
    · split_ifs <;> exact hcounted
    · exact hcounted
  · exact hcounted

/-- A counter update keeps the slab's size. -/
theorem RefCounts.updateReferenceCount_blockCount {point : Option JournalPoint}
    {operation : ReferenceOperation} {normalOperation : Bool}
    (hok : refCounts.updateReferenceCount index point operation normalOperation =
      .ok (updated, report)) : updated.blockCount = refCounts.blockCount :=
  (RefCounts.updateReferenceCount_frame hok).1

end Transitions

/-! ## The operations -/

/-- The lock bookkeeping after a counter update either leaves the state or
sets the block's slab journal lock and marks it dirty. -/
theorem RefCounts.adjustBlockLock_refCounts (refCounts : RefCounts) (slabBlockNumber : ℕ)
    (point : Option JournalPoint) (report : UpdateReport) :
    (refCounts.adjustBlockLock slabBlockNumber point report).refCounts = refCounts ∨
      ∃ lock, (refCounts.adjustBlockLock slabBlockNumber point report).refCounts =
        (refCounts.modifyBlock (getReferenceBlock slabBlockNumber)
          fun block => { block with slabJournalLock := lock }).dirtyBlock
            (getReferenceBlock slabBlockNumber) := by
  by_cases hlocked : ((refCounts.blocks (getReferenceBlock slabBlockNumber)).isDirty &&
      decide (0 < (refCounts.blocks (getReferenceBlock slabBlockNumber)).slabJournalLock)) = true
  · left
    simp only [RefCounts.adjustBlockLock, hlocked, if_true]
    split
    · split_ifs <;> rfl
    · rfl
  · right
    simp only [RefCounts.adjustBlockLock, hlocked, Bool.false_eq_true, if_false]
    exact ⟨_, rfl⟩

/-- The only error of the lock bookkeeping is the failed assertion on the
journal point of a block that is dirty with a lock, and it changes nothing. -/
theorem RefCounts.adjustBlockLock_error {refCounts : RefCounts} {slabBlockNumber : ℕ}
    {point : Option JournalPoint} {report : UpdateReport} {e : VdoError}
    (herror : (refCounts.adjustBlockLock slabBlockNumber point report).result = .error e) :
    e = .assertionFailed ∧
      (refCounts.adjustBlockLock slabBlockNumber point report).refCounts = refCounts := by
  by_cases hlocked : ((refCounts.blocks (getReferenceBlock slabBlockNumber)).isDirty &&
      decide (0 < (refCounts.blocks (getReferenceBlock slabBlockNumber)).slabJournalLock)) = true
  · simp only [RefCounts.adjustBlockLock, hlocked, if_true] at herror ⊢
    cases point with
    | none =>
      simp only [Except.error.injEq, and_true] at herror ⊢
      exact herror.symm
    | some point =>
      by_cases hvalid : 0 < point.sequenceNumber
      · simp [hvalid] at herror
      · simp only [hvalid, if_false, Except.error.injEq, and_true] at herror ⊢
        exact herror.symm
  · simp [RefCounts.adjustBlockLock, hlocked] at herror

/-- `adjustReferenceCount`: an error before the update leaves the state; after
a successful update, a provisional decrement returns at once and every other
change goes through the lock bookkeeping. -/
theorem adjustReferenceCount_cases (slabOpen : Bool) (refCounts : RefCounts)
    (operation : ReferenceOperation) (point : Option JournalPoint) :
    (∃ e, adjustReferenceCount slabOpen refCounts operation point = ⟨refCounts, .error e, none, none⟩) ∨
      ∃ slabBlockNumber counted report,
        slabBlockNumberFromPBN refCounts.start refCounts.blockCount operation.pbn =
            .ok slabBlockNumber ∧
          refCounts.updateReferenceCount slabBlockNumber point operation true =
            .ok (counted, report) ∧
          ((report.provisionalDecrement = true ∧
              adjustReferenceCount slabOpen refCounts operation point =
                ⟨counted, .ok report.freeStatusChanged, none, report.lockProvisional⟩) ∨
            (report.provisionalDecrement = false ∧
              adjustReferenceCount slabOpen refCounts operation point =
                counted.adjustBlockLock slabBlockNumber point report)) := by
  unfold adjustReferenceCount
  cases slabOpen with
  | false => exact Or.inl ⟨_, rfl⟩
  | true =>
    simp only [Bool.not_true, Bool.false_eq_true, if_false]
    cases hsbn : slabBlockNumberFromPBN refCounts.start refCounts.blockCount operation.pbn with
    | error e => exact Or.inl ⟨_, rfl⟩
    | ok slabBlockNumber =>
      dsimp only
      cases hupdate : refCounts.updateReferenceCount slabBlockNumber point operation true with
      | error e => exact Or.inl ⟨_, rfl⟩
      | ok outcome =>
        obtain ⟨counted, report⟩ := outcome
        refine Or.inr ⟨slabBlockNumber, counted, report, rfl, hupdate, ?_⟩
        dsimp only
        cases hprovisional : report.provisionalDecrement with
        | true => exact Or.inl ⟨rfl, rfl⟩
        | false => exact Or.inr ⟨rfl, rfl⟩

/-- An adjustment that fails other than by the assertion on the journal point
fails before the counter update and leaves the state as it was. -/
theorem adjustReferenceCount_error_eq (slabOpen : Bool) (refCounts : RefCounts)
    (operation : ReferenceOperation) (point : Option JournalPoint) {e : VdoError}
    (herror : (adjustReferenceCount slabOpen refCounts operation point).result = .error e)
    (hassertion : e ≠ .assertionFailed) :
    (adjustReferenceCount slabOpen refCounts operation point).refCounts = refCounts := by
  rcases adjustReferenceCount_cases slabOpen refCounts operation point with
    ⟨e', hadjust⟩ | ⟨slabBlockNumber, counted, report, -, -, ⟨-, hadjust⟩ | ⟨-, hadjust⟩⟩
  · rw [hadjust]
  · rw [hadjust] at herror
    cases herror
  · rw [hadjust] at herror
    exact absurd (RefCounts.adjustBlockLock_error herror).1 hassertion

/-- `adjustReferenceCountForRebuild`: a counter update of a block of the slab
without a journal point, after which the reference block is dirty. -/
theorem adjustReferenceCountForRebuild_ok {refCounts updated : RefCounts} {pbn : ℕ}
    {operation : JournalOperation}
    (hok : adjustReferenceCountForRebuild refCounts pbn operation = .ok updated) :
    ∃ slabBlockNumber counted report,
      slabBlockNumberFromPBN refCounts.start refCounts.blockCount pbn = .ok slabBlockNumber ∧
        refCounts.updateReferenceCount slabBlockNumber none ⟨operation, pbn, false⟩ false =
          .ok (counted, report) ∧
        updated = counted.dirtyBlock (getReferenceBlock slabBlockNumber) := by
  unfold adjustReferenceCountForRebuild at hok
  cases hsbn : slabBlockNumberFromPBN refCounts.start refCounts.blockCount pbn with
  | error e => simp [hsbn] at hok
  | ok slabBlockNumber =>
    cases hupdate : refCounts.updateReferenceCount slabBlockNumber none ⟨operation, pbn, false⟩
        false with
    | error e => simp [hsbn, hupdate] at hok
    | ok outcome =>
      obtain ⟨counted, report⟩ := outcome
      simp only [hsbn, hupdate, Except.ok.injEq] at hok
      exact ⟨slabBlockNumber, counted, report, rfl, hupdate, hok.symm⟩

/-- `replayReferenceCountChange`: an entry the sector's commit point already
covers is skipped; any other is applied as a counter update in replay mode,
after which the reference block is dirty. -/
theorem replayReferenceCountChange_ok {refCounts updated : RefCounts} {entryPoint : JournalPoint}
    {entry : SlabJournalEntry}
    (hok : replayReferenceCountChange refCounts entryPoint entry = .ok updated) :
    (beforeJournalPoint ((refCounts.blocks (getReferenceBlock entry.sbn)).commitPoints
        (sectorOfCounter entry.sbn)) entryPoint = false ∧ updated = refCounts) ∨
      (beforeJournalPoint ((refCounts.blocks (getReferenceBlock entry.sbn)).commitPoints
          (sectorOfCounter entry.sbn)) entryPoint = true ∧
        ∃ counted report,
          refCounts.updateReferenceCount entry.sbn (some entryPoint) ⟨entry.operation, 0, false⟩
              false = .ok (counted, report) ∧
            updated = counted.dirtyBlock (getReferenceBlock entry.sbn)) := by
  unfold replayReferenceCountChange at hok
  dsimp only at hok
  cases hbefore : beforeJournalPoint ((refCounts.blocks (getReferenceBlock entry.sbn)).commitPoints
      (sectorOfCounter entry.sbn)) entryPoint with
  | false =>
    simp only [hbefore, Bool.not_false, if_true, Except.ok.injEq] at hok
    exact Or.inl ⟨rfl, hok.symm⟩
  | true =>
    simp only [hbefore, Bool.not_true, Bool.false_eq_true, if_false] at hok
    cases hupdate : refCounts.updateReferenceCount entry.sbn (some entryPoint)
        ⟨entry.operation, 0, false⟩ false with
    | error e => simp [hupdate] at hok
    | ok outcome =>
      obtain ⟨counted, report⟩ := outcome
      simp only [hupdate, Except.ok.injEq] at hok
      exact Or.inr ⟨rfl, counted, report, rfl, hok.symm⟩

/-- `provisionallyReferenceBlock`: on an open slab, a free counter of the slab
becomes provisional and the lock gets the reference; any other counter is left
alone. -/
theorem provisionallyReferenceBlock_ok {slabOpen hasLock assigned : Bool} {refCounts updated : RefCounts}
    {pbn : ℕ}
    (hok : provisionallyReferenceBlock slabOpen refCounts pbn hasLock = .ok (updated, assigned)) :
    ∃ slabBlockNumber,
      slabBlockNumberFromPBN refCounts.start refCounts.blockCount pbn = .ok slabBlockNumber ∧
        ((refCounts.counters slabBlockNumber = emptyReferenceCount ∧
            updated = refCounts.makeProvisionalReference slabBlockNumber ∧ assigned = hasLock) ∨
          (refCounts.counters slabBlockNumber ≠ emptyReferenceCount ∧ updated = refCounts ∧
            assigned = false)) := by
  unfold provisionallyReferenceBlock at hok
  cases slabOpen with
  | false => simp at hok
  | true =>
    cases hsbn : slabBlockNumberFromPBN refCounts.start refCounts.blockCount pbn with
    | error e => simp [hsbn] at hok
    | ok slabBlockNumber =>
      simp only [hsbn, Bool.not_true, Bool.false_eq_true, if_false] at hok
      refine ⟨slabBlockNumber, rfl, ?_⟩
      split_ifs at hok with hfree
      · simp only [Except.ok.injEq, Prod.mk.injEq] at hok
        exact Or.inl ⟨hfree, hok.1.symm, hok.2.symm⟩
      · simp only [Except.ok.injEq, Prod.mk.injEq] at hok
        exact Or.inr ⟨hfree, hok.1.symm, hok.2.symm⟩

end Vdo
