import Vdo.Base.RefCountsSpec
import Vdo.Base.ReferenceBlockIO

/-!
# The reference-count bookkeeping invariant

Every counter fits its byte, the free total is the number of zero counters among
the slab's `blockCount`, each reference block's allocated count is the number of
non-zero counters in its range, and the padding past `blockCount` stays zero.
This file proves that each counter transition of `updateReferenceCount` keeps
the cached totals in step with the counters, and builds the step lemmas of the
operations of `refCounts.c` on top of that.
-/

namespace Vdo

open IndexCount

/-- The bookkeeping invariant of a `RefCounts`. -/
structure RefCounts.Consistent (refCounts : RefCounts) : Prop where
  /-- Every counter is a byte: `0..254`, or `255` for a provisional reference. -/
  counter_le : ∀ index, refCounts.counters index ≤ provisionalReferenceCount
  /-- The padding past the slab's counters stays zero. -/
  padding_eq : ∀ index, refCounts.blockCount ≤ index →
    refCounts.counters index = emptyReferenceCount
  /-- The free total counts the zero counters of the slab. -/
  freeBlocks_eq : refCounts.freeBlocks =
    countWhere (Finset.range refCounts.blockCount) (· = emptyReferenceCount) refCounts.counters
  /-- Each reference block counts its non-zero counters. -/
  allocatedCount_eq : ∀ blockIndex < refCounts.referenceBlockCount,
    (refCounts.blocks blockIndex).allocatedCount =
      countWhere (blockRange blockIndex) (· ≠ emptyReferenceCount) refCounts.counters
  /-- The number of reference blocks is the one `makeRefCounts` computed. -/
  referenceBlockCount_eq : refCounts.referenceBlockCount = getSavedReferenceCountSize refCounts.blockCount
  /-- The search cursor ends at its block's last counter, the slab's end for
  the last block. -/
  endIndex_eq : refCounts.searchCursor.endIndex =
    if refCounts.searchCursor.block = refCounts.lastBlock then refCounts.blockCount
    else (refCounts.searchCursor.block + 1) * countsPerBlock

/-! ## Arithmetic of reference blocks -/

/-- `countsPerBlock` is `4032`. -/
theorem countsPerBlock_eq : countsPerBlock = 4032 := rfl

/-- The number of reference blocks rounds the number of counters up to whole
blocks. -/
theorem getSavedReferenceCountSize_eq (blockCount : ℕ) :
    getSavedReferenceCountSize blockCount = (blockCount + 4031) / 4032 := by
  unfold getSavedReferenceCountSize computeBucketCount
  rw [countsPerBlock_eq]
  by_cases hmod : 0 < blockCount % 4032
  · rw [if_pos hmod]
    omega
  · rw [if_neg hmod]
    omega

/-- A counter lies in the range of exactly the block `getReferenceBlock` names. -/
theorem mem_blockRange {index blockIndex : ℕ} :
    index ∈ blockRange blockIndex ↔ getReferenceBlock index = blockIndex := by
  simp only [blockRange, blockBase, getReferenceBlock, Finset.mem_Ico, countsPerBlock_eq]
  omega

/-- A counter of the slab lies in one of its reference blocks. -/
theorem getReferenceBlock_lt {index blockCount : ℕ} (hindex : index < blockCount) :
    getReferenceBlock index < getSavedReferenceCountSize blockCount := by
  rw [getSavedReferenceCountSize_eq, getReferenceBlock, countsPerBlock_eq]
  omega

/-- The reference blocks cover all the slab's counters. -/
theorem blockCount_le_referenceBlocks (blockCount : ℕ) :
    blockCount ≤ getSavedReferenceCountSize blockCount * countsPerBlock := by
  rw [getSavedReferenceCountSize_eq, countsPerBlock_eq]
  omega

/-- Every block before the last is full of the slab's counters. -/
theorem lastBlock_counters_lt {blockCount : ℕ} (hpos : 0 < blockCount) :
    (getSavedReferenceCountSize blockCount - 1) * countsPerBlock < blockCount := by
  rw [getSavedReferenceCountSize_eq, countsPerBlock_eq]
  omega

/-! ## States with the same counters and totals -/

/-- Two states agree on the counters and on every cached total. -/
structure RefCounts.SameCounts (refCounts refCounts' : RefCounts) : Prop where
  /-- The counters agree. -/
  counters_eq : refCounts'.counters = refCounts.counters
  /-- The free totals agree. -/
  freeBlocks_eq : refCounts'.freeBlocks = refCounts.freeBlocks
  /-- The allocated counts agree. -/
  allocatedCount_eq : ∀ blockIndex,
    (refCounts'.blocks blockIndex).allocatedCount = (refCounts.blocks blockIndex).allocatedCount
  /-- The slab's size agrees. -/
  blockCount_eq : refCounts'.blockCount = refCounts.blockCount
  /-- The number of reference blocks agrees. -/
  referenceBlockCount_eq : refCounts'.referenceBlockCount = refCounts.referenceBlockCount

/-- Two states agree on everything the invariant reads: the counters, the
totals, and the block and end of the search cursor. -/
structure RefCounts.SameBookkeeping (refCounts refCounts' : RefCounts) : Prop
    extends refCounts.SameCounts refCounts' where
  /-- The search cursor is in the same block. -/
  cursorBlock_eq : refCounts'.searchCursor.block = refCounts.searchCursor.block
  /-- The search cursor has the same end. -/
  cursorEnd_eq : refCounts'.searchCursor.endIndex = refCounts.searchCursor.endIndex

namespace RefCounts.SameCounts

/-- Every state agrees with itself. -/
theorem refl (refCounts : RefCounts) : refCounts.SameCounts refCounts :=
  ⟨rfl, rfl, fun _ => rfl, rfl, rfl⟩

/-- Agreement composes. -/
theorem trans {r₁ r₂ r₃ : RefCounts} (h₁₂ : r₁.SameCounts r₂) (h₂₃ : r₂.SameCounts r₃) :
    r₁.SameCounts r₃ :=
  ⟨h₂₃.counters_eq.trans h₁₂.counters_eq, h₂₃.freeBlocks_eq.trans h₁₂.freeBlocks_eq,
    fun b => (h₂₃.allocatedCount_eq b).trans (h₁₂.allocatedCount_eq b),
    h₂₃.blockCount_eq.trans h₁₂.blockCount_eq,
    h₂₃.referenceBlockCount_eq.trans h₁₂.referenceBlockCount_eq⟩

end RefCounts.SameCounts

namespace RefCounts.SameBookkeeping

/-- Every state agrees with itself. -/
theorem refl (refCounts : RefCounts) : refCounts.SameBookkeeping refCounts :=
  ⟨SameCounts.refl refCounts, rfl, rfl⟩

/-- Agreement composes. -/
theorem trans {r₁ r₂ r₃ : RefCounts} (h₁₂ : r₁.SameBookkeeping r₂)
    (h₂₃ : r₂.SameBookkeeping r₃) : r₁.SameBookkeeping r₃ :=
  ⟨h₁₂.toSameCounts.trans h₂₃.toSameCounts, h₂₃.cursorBlock_eq.trans h₁₂.cursorBlock_eq,
    h₂₃.cursorEnd_eq.trans h₁₂.cursorEnd_eq⟩

end RefCounts.SameBookkeeping

/-- Changing a block without touching its allocated count keeps the totals. -/
theorem RefCounts.sameBookkeeping_modifyBlock (refCounts : RefCounts) (blockIndex : ℕ)
    (change : ReferenceBlock → ReferenceBlock)
    (hchange : ∀ block, (change block).allocatedCount = block.allocatedCount) :
    refCounts.SameBookkeeping (refCounts.modifyBlock blockIndex change) := by
  refine ⟨⟨rfl, rfl, ?_, rfl, rfl⟩, rfl, rfl⟩
  intro b
  simp only [RefCounts.modifyBlock, Function.update_apply]
  split_ifs with hb
  · subst hb
    exact hchange _
  · rfl

/-- Marking a block dirty keeps the totals. -/
theorem RefCounts.sameBookkeeping_dirtyBlock (refCounts : RefCounts) (blockIndex : ℕ) :
    refCounts.SameBookkeeping (refCounts.dirtyBlock blockIndex) := by
  have hmark := refCounts.sameBookkeeping_modifyBlock blockIndex
    (fun block => { block with isDirty := true }) fun _ => rfl
  by_cases hdirty : (refCounts.blocks blockIndex).isDirty = true
  · have hsame : refCounts.dirtyBlock blockIndex = refCounts := by
      simp [RefCounts.dirtyBlock, hdirty]
    rw [hsame]
    exact SameBookkeeping.refl _
  · by_cases hwriting : (refCounts.blocks blockIndex).isWriting = true
    · have hmarked : refCounts.dirtyBlock blockIndex =
          refCounts.modifyBlock blockIndex fun block => { block with isDirty := true } := by
        simp [RefCounts.dirtyBlock, hdirty, hwriting]
      rw [hmarked]
      exact hmark
    · have hqueued : refCounts.dirtyBlock blockIndex =
          { refCounts.modifyBlock blockIndex (fun block => { block with isDirty := true }) with
            dirtyBlocks := refCounts.dirtyBlocks ++ [blockIndex] } := by
        simp [RefCounts.dirtyBlock, hdirty, hwriting, RefCounts.modifyBlock]
      rw [hqueued]
      exact ⟨⟨hmark.counters_eq, hmark.freeBlocks_eq, hmark.allocatedCount_eq, rfl, rfl⟩, rfl, rfl⟩

/-- Recording a journal point keeps the totals. -/
theorem RefCounts.sameBookkeeping_recordJournalPoint (refCounts : RefCounts)
    (point : Option JournalPoint) :
    refCounts.SameBookkeeping (refCounts.recordJournalPoint point) := by
  unfold RefCounts.recordJournalPoint
  split
  · split_ifs
    · exact ⟨⟨rfl, rfl, fun _ => rfl, rfl, rfl⟩, rfl, rfl⟩
    · exact SameBookkeeping.refl _
  · exact SameBookkeeping.refl _

/-- The invariant only reads the counters, the totals and the cursor's block
and end. -/
theorem RefCounts.Consistent.of_sameBookkeeping {refCounts refCounts' : RefCounts}
    (h : refCounts.Consistent) (hsame : refCounts.SameBookkeeping refCounts') : refCounts'.Consistent where
  counter_le := by
    rw [hsame.counters_eq]
    exact h.counter_le
  padding_eq := by
    rw [hsame.counters_eq, hsame.blockCount_eq]
    exact h.padding_eq
  freeBlocks_eq := by
    rw [hsame.counters_eq, hsame.blockCount_eq, hsame.freeBlocks_eq]
    exact h.freeBlocks_eq
  allocatedCount_eq := by
    intro blockIndex hblock
    rw [hsame.allocatedCount_eq, hsame.counters_eq]
    exact h.allocatedCount_eq blockIndex (hsame.referenceBlockCount_eq ▸ hblock)
  referenceBlockCount_eq := by
    rw [hsame.referenceBlockCount_eq, hsame.blockCount_eq]
    exact h.referenceBlockCount_eq
  endIndex_eq := by
    rw [hsame.cursorEnd_eq, hsame.cursorBlock_eq, RefCounts.lastBlock, hsame.referenceBlockCount_eq,
      hsame.blockCount_eq]
    exact h.endIndex_eq

/-! ## One counter changes -/

section CounterChange

variable {refCounts refCounts' : RefCounts} {index count : ℕ}

/-- The invariant survives a change of one counter of the slab when the free
total moves by the change of the counter's zero status and its block's
allocated count by the change of its non-zero status. -/
theorem RefCounts.Consistent.of_counterChange (h : refCounts.Consistent)
    (hindex : index < refCounts.blockCount) (hcount : count ≤ provisionalReferenceCount)
    (hcounters : refCounts'.counters = Function.update refCounts.counters index count)
    (hblockCount : refCounts'.blockCount = refCounts.blockCount)
    (hreference : refCounts'.referenceBlockCount = refCounts.referenceBlockCount)
    (hcursor : refCounts'.searchCursor = refCounts.searchCursor)
    (hfree : refCounts'.freeBlocks +
        (if refCounts.counters index = emptyReferenceCount then 1 else 0) =
      refCounts.freeBlocks + (if count = emptyReferenceCount then 1 else 0))
    (hallocated : (refCounts'.blocks (getReferenceBlock index)).allocatedCount +
        (if refCounts.counters index ≠ emptyReferenceCount then 1 else 0) =
      (refCounts.blocks (getReferenceBlock index)).allocatedCount +
        (if count ≠ emptyReferenceCount then 1 else 0))
    (hother : ∀ blockIndex, blockIndex ≠ getReferenceBlock index →
      (refCounts'.blocks blockIndex).allocatedCount = (refCounts.blocks blockIndex).allocatedCount) :
    refCounts'.Consistent where
  counter_le := by
    intro i
    rw [hcounters, Function.update_apply]
    split_ifs
    · exact hcount
    · exact h.counter_le i
  padding_eq := by
    intro i hi
    rw [hblockCount] at hi
    have hne : i ≠ index := by omega
    rw [hcounters, Function.update_of_ne hne]
    exact h.padding_eq i hi
  freeBlocks_eq := by
    have hupdate : countWhere (Finset.range refCounts.blockCount) (· = emptyReferenceCount)
          (Function.update refCounts.counters index count) +
          (if refCounts.counters index = emptyReferenceCount then 1 else 0) =
        countWhere (Finset.range refCounts.blockCount) (· = emptyReferenceCount)
          refCounts.counters + (if count = emptyReferenceCount then 1 else 0) :=
      countWhere_update_of_mem (Finset.mem_range.mpr hindex) count
    rw [hblockCount, hcounters]
    rw [h.freeBlocks_eq] at hfree
    omega
  allocatedCount_eq := by
    intro blockIndex hblock
    rw [hreference] at hblock
    rw [hcounters]
    by_cases hsame : blockIndex = getReferenceBlock index
    · subst hsame
      have hupdate : countWhere (blockRange (getReferenceBlock index)) (· ≠ emptyReferenceCount)
            (Function.update refCounts.counters index count) +
            (if refCounts.counters index ≠ emptyReferenceCount then 1 else 0) =
          countWhere (blockRange (getReferenceBlock index)) (· ≠ emptyReferenceCount)
            refCounts.counters + (if count ≠ emptyReferenceCount then 1 else 0) :=
        countWhere_update_of_mem (mem_blockRange.mpr rfl) count
      rw [h.allocatedCount_eq _ hblock] at hallocated
      omega
    · have hnot : index ∉ blockRange blockIndex := fun hmem => hsame (mem_blockRange.mp hmem).symm
      rw [hother blockIndex hsame, countWhere_update_of_notMem hnot]
      exact h.allocatedCount_eq blockIndex hblock
  referenceBlockCount_eq := by
    rw [hreference, hblockCount]
    exact h.referenceBlockCount_eq
  endIndex_eq := by
    rw [hcursor, RefCounts.lastBlock, hreference, hblockCount]
    exact h.endIndex_eq

/-- A change that keeps a counter zero, or keeps it non-zero, needs no change of
the totals. -/
theorem RefCounts.Consistent.setCounter (h : refCounts.Consistent)
    (hindex : index < refCounts.blockCount) (hcount : count ≤ provisionalReferenceCount)
    (hzero : count = emptyReferenceCount ↔ refCounts.counters index = emptyReferenceCount) :
    (refCounts.setCounter index count).Consistent := by
  refine h.of_counterChange hindex hcount rfl rfl rfl rfl ?_ ?_ ?_
  · by_cases hold : refCounts.counters index = emptyReferenceCount
    · simp [RefCounts.setCounter, hold, hzero.mpr hold]
    · have hnew : count ≠ emptyReferenceCount := fun hc => hold (hzero.mp hc)
      simp [RefCounts.setCounter, hold, hnew]
  · by_cases hold : refCounts.counters index = emptyReferenceCount
    · simp [RefCounts.setCounter, hold, hzero.mpr hold]
    · have hnew : count ≠ emptyReferenceCount := fun hc => hold (hzero.mp hc)
      simp [RefCounts.setCounter, hold, hnew]
  · intro blockIndex _
    rfl

/-- A free counter that becomes non-zero is counted as an allocation. -/
theorem RefCounts.Consistent.setCounter_countAllocation (h : refCounts.Consistent)
    (hindex : index < refCounts.blockCount) (hcount : count ≤ provisionalReferenceCount)
    (hold : refCounts.counters index = emptyReferenceCount) (hnew : count ≠ emptyReferenceCount) :
    ((refCounts.setCounter index count).countAllocation (getReferenceBlock index)).Consistent := by
  have hfree : 0 < refCounts.freeBlocks := by
    rw [h.freeBlocks_eq]
    exact countWhere_pos (Finset.mem_range.mpr hindex) hold
  refine h.of_counterChange hindex hcount rfl rfl rfl rfl ?_ ?_ ?_
  · simp only [RefCounts.countAllocation, RefCounts.setCounter, hold, hnew, if_true, if_false]
    omega
  · simp [RefCounts.countAllocation, RefCounts.modifyBlock, RefCounts.setCounter, hold, hnew]
  · intro blockIndex hne
    simp [RefCounts.countAllocation, RefCounts.modifyBlock, RefCounts.setCounter,
      Function.update_of_ne hne]

/-- A non-zero counter that becomes zero is counted as a release. -/
theorem RefCounts.Consistent.setCounter_countRelease (h : refCounts.Consistent)
    (hindex : index < refCounts.blockCount) (hold : refCounts.counters index ≠ emptyReferenceCount) :
    ((refCounts.setCounter index emptyReferenceCount).countRelease
      (getReferenceBlock index)).Consistent := by
  have hblock : getReferenceBlock index < refCounts.referenceBlockCount := by
    rw [h.referenceBlockCount_eq]
    exact getReferenceBlock_lt hindex
  have hallocated : 0 < (refCounts.blocks (getReferenceBlock index)).allocatedCount := by
    rw [h.allocatedCount_eq _ hblock]
    exact countWhere_pos (mem_blockRange.mpr rfl) hold
  have hempty : emptyReferenceCount ≤ provisionalReferenceCount := by decide
  refine h.of_counterChange hindex hempty rfl rfl rfl rfl ?_ ?_ ?_
  · simp [RefCounts.countRelease, RefCounts.setCounter, hold]
  · simp only [RefCounts.countRelease, RefCounts.modifyBlock, RefCounts.setCounter,
      Function.update_self, hold, ne_eq, not_false_eq_true, if_true, not_true_eq_false, if_false]
    omega
  · intro blockIndex hne
    simp [RefCounts.countRelease, RefCounts.modifyBlock, RefCounts.setCounter,
      Function.update_of_ne hne]

end CounterChange

/-! ## The counter transitions of `updateReferenceCount` -/

section Transitions

variable {refCounts updated : RefCounts} {index : ℕ} {report : UpdateReport}

/-- Recording a journal point keeps the invariant. -/
theorem RefCounts.Consistent.recordJournalPoint (h : refCounts.Consistent)
    (point : Option JournalPoint) : (refCounts.recordJournalPoint point).Consistent :=
  h.of_sameBookkeeping (refCounts.sameBookkeeping_recordJournalPoint point)

/-- Marking a block dirty keeps the invariant. -/
theorem RefCounts.Consistent.dirtyBlock (h : refCounts.Consistent) (blockIndex : ℕ) :
    (refCounts.dirtyBlock blockIndex).Consistent :=
  h.of_sameBookkeeping (refCounts.sameBookkeeping_dirtyBlock blockIndex)

/-- Every transition of `incrementForData` keeps the invariant. -/
theorem RefCounts.Consistent.incrementForData (h : refCounts.Consistent)
    (hindex : index < refCounts.blockCount) {hasLock : Bool}
    (hok : refCounts.incrementForData index (referenceCountToStatus (refCounts.counters index))
      hasLock = .ok (updated, report)) : updated.Consistent := by
  rcases RefCounts.incrementForData_ok hok with ⟨hfree, rfl⟩ | ⟨hprovisional, rfl⟩ |
    ⟨hold, hmax, rfl⟩
  · exact h.setCounter_countAllocation hindex (by decide) hfree (by decide)
  · have hold : refCounts.counters index ≠ emptyReferenceCount := by
      rw [hprovisional]
      decide
    exact h.setCounter hindex (by decide) (iff_of_false (by decide) hold)
  · have hbound : refCounts.counters index + 1 ≤ provisionalReferenceCount := by
      simp only [maximumReferenceCount, provisionalReferenceCount] at hmax ⊢
      omega
    exact h.setCounter hindex hbound (iff_of_false (Nat.succ_ne_zero _) hold)

/-- Every transition of `decrementForData` keeps the invariant: with a read
lock the last reference stays as a provisional one, without it the block is
released. -/
theorem RefCounts.Consistent.decrementForData (h : refCounts.Consistent)
    (hindex : index < refCounts.blockCount) {hasLock : Bool}
    (hok : refCounts.decrementForData index (referenceCountToStatus (refCounts.counters index))
      hasLock = .ok (updated, report)) : updated.Consistent := by
  have hlast : refCounts.counters index = 1 ∨
      refCounts.counters index = provisionalReferenceCount →
      refCounts.counters index ≠ emptyReferenceCount := by
    rintro (hcount | hcount) <;> rw [hcount] <;> decide
  rcases RefCounts.decrementForData_ok hok with ⟨hcount, -, rfl⟩ | ⟨hcount, -, rfl⟩ |
    ⟨hold, hone, -, rfl⟩
  · exact h.setCounter hindex le_rfl (iff_of_false (by decide) (hlast hcount))
  · exact h.setCounter_countRelease hindex (hlast hcount)
  · have hle := h.counter_le index
    have hnew : refCounts.counters index - 1 ≠ emptyReferenceCount := by
      rw [emptyReferenceCount] at hold ⊢
      omega
    exact h.setCounter hindex (by omega) (iff_of_false hnew hold)

/-- Every transition of `incrementForBlockMap` keeps the invariant. -/
theorem RefCounts.Consistent.incrementForBlockMap (h : refCounts.Consistent)
    (hindex : index < refCounts.blockCount) {hasLock normalOperation : Bool}
    (hok : refCounts.incrementForBlockMap index (referenceCountToStatus (refCounts.counters index))
      hasLock normalOperation = .ok (updated, report)) : updated.Consistent := by
  rcases RefCounts.incrementForBlockMap_ok hok with ⟨hfree, -, rfl⟩ | ⟨hprovisional, -, rfl⟩
  · exact h.setCounter_countAllocation hindex (by decide) hfree (by decide)
  · have hold : refCounts.counters index ≠ emptyReferenceCount := by
      rw [hprovisional]
      decide
    exact h.setCounter hindex (by decide) (iff_of_false (by decide) hold)

/-- `updateReferenceCount` keeps the invariant for a counter of the slab. -/
theorem RefCounts.Consistent.updateReferenceCount (h : refCounts.Consistent)
    (hindex : index < refCounts.blockCount) {point : Option JournalPoint}
    {operation : ReferenceOperation} {normalOperation : Bool}
    (hok : refCounts.updateReferenceCount index point operation normalOperation =
      .ok (updated, report)) : updated.Consistent := by
  obtain ⟨counted, countedReport, htransition, hrecorded⟩ := RefCounts.updateReferenceCount_ok hok
  have hcounted : counted.Consistent := by
    rcases htransition with ⟨-, hinc⟩ | ⟨-, hdec⟩ | ⟨-, hmap⟩
    · exact h.incrementForData hindex hinc
    · exact h.decrementForData hindex hdec
    · exact h.incrementForBlockMap hindex hmap
  rcases hrecorded with rfl | rfl
  · exact hcounted.recordJournalPoint point
  · exact hcounted

end Transitions

/-! ## The operations of `refCounts.c` -/

/-- The lock bookkeeping after a counter update keeps the totals. -/
theorem RefCounts.sameBookkeeping_adjustBlockLock (refCounts : RefCounts) (slabBlockNumber : ℕ)
    (point : Option JournalPoint) (report : UpdateReport) :
    refCounts.SameBookkeeping (refCounts.adjustBlockLock slabBlockNumber point report).refCounts := by
  rcases refCounts.adjustBlockLock_refCounts slabBlockNumber point report with hsame | ⟨lock, hlocked⟩
  · rw [hsame]
    exact RefCounts.SameBookkeeping.refl _
  · rw [hlocked]
    refine (refCounts.sameBookkeeping_modifyBlock _ _ ?_).trans (RefCounts.sameBookkeeping_dirtyBlock _ _)
    intro block
    rfl

section Operations

variable {refCounts updated : RefCounts}

/-- `adjustReferenceCount` keeps the invariant, whatever it returns. -/
theorem RefCounts.Consistent.adjustReferenceCount (h : refCounts.Consistent) (slabOpen : Bool)
    (operation : ReferenceOperation) (point : Option JournalPoint) :
    (adjustReferenceCount slabOpen refCounts operation point).refCounts.Consistent := by
  rcases adjustReferenceCount_cases slabOpen refCounts operation point with
    ⟨e, hadjust⟩ | ⟨slabBlockNumber, counted, report, hsbn, hupdate, hadjust⟩
  · rw [hadjust]
    exact h
  · have hcounted := h.updateReferenceCount (slabBlockNumberFromPBN_lt hsbn) hupdate
    rcases hadjust with ⟨-, hadjust⟩ | ⟨-, hadjust⟩
    · rw [hadjust]
      exact hcounted
    · rw [hadjust]
      exact hcounted.of_sameBookkeeping (counted.sameBookkeeping_adjustBlockLock _ _ _)

/-- `adjustReferenceCountForRebuild` keeps the invariant. -/
theorem RefCounts.Consistent.adjustReferenceCountForRebuild (h : refCounts.Consistent)
    {pbn : ℕ} {operation : JournalOperation}
    (hok : adjustReferenceCountForRebuild refCounts pbn operation = .ok updated) :
    updated.Consistent := by
  obtain ⟨slabBlockNumber, counted, report, hsbn, hupdate, rfl⟩ :=
    adjustReferenceCountForRebuild_ok hok
  exact (h.updateReferenceCount (slabBlockNumberFromPBN_lt hsbn) hupdate).dirtyBlock _

/-- `replayReferenceCountChange` keeps the invariant for an entry naming a
counter of the slab. -/
theorem RefCounts.Consistent.replayReferenceCountChange (h : refCounts.Consistent)
    {entryPoint : JournalPoint} {entry : SlabJournalEntry}
    (hsbn : entry.sbn < refCounts.blockCount)
    (hok : replayReferenceCountChange refCounts entryPoint entry = .ok updated) :
    updated.Consistent := by
  rcases replayReferenceCountChange_ok hok with ⟨-, rfl⟩ | ⟨-, counted, report, hupdate, rfl⟩
  · exact h
  · exact (h.updateReferenceCount hsbn hupdate).dirtyBlock _

/-- A free counter of the slab made provisional is counted as an allocation. -/
theorem RefCounts.Consistent.makeProvisionalReference (h : refCounts.Consistent) {index : ℕ}
    (hindex : index < refCounts.blockCount) (hfree : refCounts.counters index = emptyReferenceCount) :
    (refCounts.makeProvisionalReference index).Consistent :=
  h.setCounter_countAllocation hindex le_rfl hfree (by decide)

/-- `provisionallyReferenceBlock` keeps the invariant. -/
theorem RefCounts.Consistent.provisionallyReferenceBlock (h : refCounts.Consistent)
    {slabOpen hasLock assigned : Bool} {pbn : ℕ}
    (hok : provisionallyReferenceBlock slabOpen refCounts pbn hasLock = .ok (updated, assigned)) :
    updated.Consistent := by
  obtain ⟨slabBlockNumber, hsbn, ⟨hfree, rfl, -⟩ | ⟨-, rfl, -⟩⟩ := provisionallyReferenceBlock_ok hok
  · exact h.makeProvisionalReference (slabBlockNumberFromPBN_lt hsbn) hfree
  · exact h

/-- `adjustReferenceCount` keeps the slab's size. -/
theorem adjustReferenceCount_blockCount (slabOpen : Bool) (refCounts : RefCounts)
    (operation : ReferenceOperation) (point : Option JournalPoint) :
    (adjustReferenceCount slabOpen refCounts operation point).refCounts.blockCount =
      refCounts.blockCount := by
  rcases adjustReferenceCount_cases slabOpen refCounts operation point with
    ⟨e, hadjust⟩ | ⟨slabBlockNumber, counted, report, -, hupdate, hadjust⟩
  · rw [hadjust]
  · have hcounted := RefCounts.updateReferenceCount_blockCount hupdate
    rcases hadjust with ⟨-, hadjust⟩ | ⟨-, hadjust⟩
    · rw [hadjust]
      exact hcounted
    · rw [hadjust, (counted.sameBookkeeping_adjustBlockLock _ _ _).blockCount_eq]
      exact hcounted

/-- `adjustReferenceCountForRebuild` keeps the slab's size. -/
theorem adjustReferenceCountForRebuild_blockCount {pbn : ℕ} {operation : JournalOperation}
    (hok : adjustReferenceCountForRebuild refCounts pbn operation = .ok updated) :
    updated.blockCount = refCounts.blockCount := by
  obtain ⟨slabBlockNumber, counted, report, -, hupdate, rfl⟩ :=
    adjustReferenceCountForRebuild_ok hok
  rw [(counted.sameBookkeeping_dirtyBlock _).blockCount_eq]
  exact RefCounts.updateReferenceCount_blockCount hupdate

/-- `replayReferenceCountChange` keeps the slab's size. -/
theorem replayReferenceCountChange_blockCount {entryPoint : JournalPoint}
    {entry : SlabJournalEntry}
    (hok : replayReferenceCountChange refCounts entryPoint entry = .ok updated) :
    updated.blockCount = refCounts.blockCount := by
  rcases replayReferenceCountChange_ok hok with ⟨-, rfl⟩ | ⟨-, counted, report, hupdate, rfl⟩
  · rfl
  · rw [(counted.sameBookkeeping_dirtyBlock _).blockCount_eq]
    exact RefCounts.updateReferenceCount_blockCount hupdate

/-- `provisionallyReferenceBlock` keeps the slab's size. -/
theorem provisionallyReferenceBlock_blockCount {slabOpen hasLock assigned : Bool} {pbn : ℕ}
    (hok : provisionallyReferenceBlock slabOpen refCounts pbn hasLock = .ok (updated, assigned)) :
    updated.blockCount = refCounts.blockCount := by
  obtain ⟨slabBlockNumber, -, ⟨-, rfl, -⟩ | ⟨-, rfl, -⟩⟩ := provisionallyReferenceBlock_ok hok
  · rfl
  · rfl

end Operations

/-! ## Fresh and reset counters -/

/-- The cursor `resetSearchCursor` sets ends where the invariant asks for the
first block. -/
theorem resetSearchCursor_endIndex {blockCount referenceBlockCount : ℕ}
    (hreference : referenceBlockCount = getSavedReferenceCountSize blockCount) :
    min countsPerBlock blockCount =
      if 0 = referenceBlockCount - 1 then blockCount else (0 + 1) * countsPerBlock := by
  rw [hreference, getSavedReferenceCountSize_eq, countsPerBlock_eq]
  split_ifs <;> omega

/-- Moving the cursor back to the first block keeps the invariant. -/
theorem RefCounts.Consistent.resetSearchCursor {refCounts : RefCounts} (h : refCounts.Consistent) :
    refCounts.resetSearchCursor.Consistent where
  counter_le := h.counter_le
  padding_eq := h.padding_eq
  freeBlocks_eq := h.freeBlocks_eq
  allocatedCount_eq := h.allocatedCount_eq
  referenceBlockCount_eq := h.referenceBlockCount_eq
  endIndex_eq := resetSearchCursor_endIndex h.referenceBlockCount_eq

/-- Counters that are all zero with zero allocated counts and a free total of
`blockCount` satisfy the invariant. -/
theorem RefCounts.consistent_of_empty {refCounts : RefCounts}
    (hzero : ∀ index, refCounts.counters index = emptyReferenceCount)
    (hfree : refCounts.freeBlocks = refCounts.blockCount)
    (hallocated : ∀ blockIndex < refCounts.referenceBlockCount,
      (refCounts.blocks blockIndex).allocatedCount = 0)
    (hreference : refCounts.referenceBlockCount = getSavedReferenceCountSize refCounts.blockCount)
    (hcursor : refCounts.searchCursor.endIndex =
      if refCounts.searchCursor.block = refCounts.lastBlock then refCounts.blockCount
      else (refCounts.searchCursor.block + 1) * countsPerBlock) :
    refCounts.Consistent where
  counter_le := fun index => by
    rw [hzero index]
    decide
  padding_eq := fun index _ => hzero index
  freeBlocks_eq := by
    rw [hfree, countWhere_eq_card fun index _ => hzero index, Finset.card_range]
  allocatedCount_eq := by
    intro blockIndex hblock
    rw [hallocated blockIndex hblock, countWhere_eq_zero fun index _ hne => hne (hzero index)]
  referenceBlockCount_eq := hreference
  endIndex_eq := hcursor

/-- `makeRefCounts` builds counters that satisfy the invariant. -/
theorem makeRefCounts_consistent (blockCount start : ℕ) :
    (makeRefCounts blockCount start).Consistent :=
  RefCounts.consistent_of_empty (fun _ => rfl) rfl (fun _ _ => rfl) rfl
    (resetSearchCursor_endIndex rfl)

/-- `resetReferenceCounts` zeroes the counters of the slab; with the padding
already zero every counter is zero. -/
theorem RefCounts.Consistent.resetReferenceCounts_counters {refCounts : RefCounts}
    (h : refCounts.Consistent) (index : ℕ) :
    (resetReferenceCounts refCounts).counters index = emptyReferenceCount := by
  simp only [resetReferenceCounts]
  split_ifs with hindex
  · rfl
  · exact h.padding_eq index (by omega)

/-- `resetReferenceCounts` keeps the invariant. -/
theorem RefCounts.Consistent.resetReferenceCounts {refCounts : RefCounts}
    (h : refCounts.Consistent) : (resetReferenceCounts refCounts).Consistent := by
  apply RefCounts.consistent_of_empty h.resetReferenceCounts_counters rfl
  · intro blockIndex hblock
    exact if_pos hblock
  · exact h.referenceBlockCount_eq
  · exact h.endIndex_eq

end Vdo
