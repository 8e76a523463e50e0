import Vdo.Base.RefCountsSystem

/-!
# The free-block search is a linear scan

From a cursor whose index lies in its reference block, `searchReferenceBlocks`
finds exactly the first zero counter from the cursor's index to the end of the
slab. A block it skips because its `allocatedCount` is `COUNTS_PER_BLOCK` has
no zero counter, since the count is the number of non-zero counters of the
block; each later block starts where the one before ended, so the blocks
searched tile the rest of the slab, and the search stops at the first zero it
meets. When there is none the cursor wraps to the first block.
-/

namespace Vdo

open IndexCount

/-- The cursor's next counter lies in its block: not before the block's first
counter and not past the cursor's end. -/
def RefCounts.CursorInBlock (refCounts : RefCounts) : Prop :=
  blockBase refCounts.searchCursor.block ≤ refCounts.searchCursor.index ∧
    refCounts.searchCursor.index ≤ refCounts.searchCursor.endIndex

section Scan

variable {refCounts : RefCounts}

/-- The cursor's end is within its block's counters. -/
theorem RefCounts.Consistent.endIndex_le_blockEnd (h : refCounts.Consistent) :
    refCounts.searchCursor.endIndex ≤ blockBase refCounts.searchCursor.block + countsPerBlock := by
  have hend := h.endIndex_eq
  have hblock := refCounts.searchCursor_block_le
  have hcover := blockCount_le_referenceBlocks refCounts.blockCount
  rw [← h.referenceBlockCount_eq] at hcover
  by_cases hlast : refCounts.searchCursor.block = refCounts.lastBlock
  · rw [if_pos hlast] at hend
    simp only [RefCounts.lastBlock] at hlast
    rw [hend, blockBase]
    rcases Nat.eq_zero_or_pos refCounts.referenceBlockCount with hzero | hpos
    · rw [hzero] at hcover
      omega
    · have hsucc : refCounts.searchCursor.block + 1 = refCounts.referenceBlockCount := by omega
      calc refCounts.blockCount ≤ refCounts.referenceBlockCount * countsPerBlock := hcover
        _ = (refCounts.searchCursor.block + 1) * countsPerBlock := by rw [hsucc]
        _ = refCounts.searchCursor.block * countsPerBlock + countsPerBlock := Nat.succ_mul _ _
  · rw [if_neg hlast] at hend
    rw [hend, blockBase, Nat.succ_mul]

/-- A block whose allocated count is a whole block's has no zero counter. -/
theorem RefCounts.Consistent.counter_ne_zero_of_full (h : refCounts.Consistent) {blockIndex : ℕ}
    (hblock : blockIndex < refCounts.referenceBlockCount)
    (hfull : ¬ (refCounts.blocks blockIndex).allocatedCount < countsPerBlock) :
    ∀ index ∈ blockRange blockIndex, refCounts.counters index ≠ emptyReferenceCount := by
  have hcount := h.allocatedCount_eq blockIndex hblock
  have hle : countWhere (blockRange blockIndex) (· ≠ emptyReferenceCount) refCounts.counters ≤
      (blockRange blockIndex).card := countWhere_le_card
  have hcard : (blockRange blockIndex).card = countsPerBlock := by simp [blockRange]
  have hall : countWhere (blockRange blockIndex) (· ≠ emptyReferenceCount) refCounts.counters =
      (blockRange blockIndex).card := by omega
  intro index hindex
  exact Finset.filter_card_eq hall index hindex

/-- The search of the cursor's block is the scan of its counters from the
cursor's index: a full block has no zero to find. -/
theorem RefCounts.Consistent.searchCurrentReferenceBlock_eq (h : refCounts.Consistent)
    (hin : refCounts.CursorInBlock) :
    refCounts.searchCurrentReferenceBlock =
      firstZero refCounts.counters refCounts.searchCursor.index
        (refCounts.searchCursor.endIndex - refCounts.searchCursor.index) := by
  unfold RefCounts.searchCurrentReferenceBlock
  dsimp only
  split_ifs with hroom
  · exact findFreeBlock_eq h.counter_le _ _
  · symm
    rw [firstZero_eq_none]
    intro index hle hlt
    by_cases hempty : refCounts.referenceBlockCount = 0
    · have hend := h.endIndex_eq
      have hcount := h.referenceBlockCount_eq
      rw [hempty, getSavedReferenceCountSize_eq] at hcount
      have hblock := refCounts.searchCursor_block_le
      simp only [RefCounts.lastBlock, hempty] at hend hblock
      rw [if_pos (by omega)] at hend
      omega
    · have hmem : index ∈ blockRange refCounts.searchCursor.block := by
        have hbound := h.endIndex_le_blockEnd
        simp only [blockRange, Finset.mem_Ico]
        exact ⟨hin.1.trans hle, by omega⟩
      have hblock := refCounts.searchCursor_block_le
      exact h.counter_ne_zero_of_full (by omega) hroom index hmem

/-- A counter in the cursor's range lies in the cursor's block. -/
theorem RefCounts.Consistent.getReferenceBlock_eq (h : refCounts.Consistent) (hin : refCounts.CursorInBlock)
    {index : ℕ} (hle : refCounts.searchCursor.index ≤ index) (hlt : index < refCounts.searchCursor.endIndex) :
    getReferenceBlock index = refCounts.searchCursor.block := by
  have hbound := h.endIndex_le_blockEnd
  apply mem_blockRange.mp
  simp only [blockRange, Finset.mem_Ico]
  exact ⟨hin.1.trans hle, by omega⟩

/-- A cursor that advances starts its next block at that block's first
counter, which is where the previous block ended. -/
theorem RefCounts.Consistent.advanceSearchCursor_cursor (h : refCounts.Consistent)
    (hmore : refCounts.advanceSearchCursor.2 = true) :
    refCounts.advanceSearchCursor.1.searchCursor.index = refCounts.searchCursor.endIndex ∧
      refCounts.advanceSearchCursor.1.CursorInBlock ∧
      refCounts.searchCursor.endIndex ≤ refCounts.advanceSearchCursor.1.searchCursor.endIndex := by
  obtain ⟨hblock, hlt⟩ := RefCounts.advanceSearchCursor_block hmore
  have hlast : refCounts.searchCursor.block ≠ refCounts.lastBlock := by omega
  have hindex : refCounts.advanceSearchCursor.1.searchCursor.index = refCounts.searchCursor.endIndex := by
    simp [RefCounts.advanceSearchCursor, hlast]
  have hend := h.endIndex_eq
  rw [if_neg hlast] at hend
  have hbelow : (refCounts.searchCursor.block + 1) * countsPerBlock ≤ refCounts.blockCount := by
    have hpos : 0 < refCounts.blockCount := by
      by_contra hzero
      have hcount := h.referenceBlockCount_eq
      rw [Nat.eq_zero_of_not_pos hzero, getSavedReferenceCountSize_eq] at hcount
      simp only [RefCounts.lastBlock] at hlt
      omega
    have hfull := lastBlock_counters_lt hpos
    rw [← h.referenceBlockCount_eq] at hfull
    simp only [RefCounts.lastBlock] at hlt
    have hmul := Nat.mul_le_mul_right countsPerBlock (show refCounts.searchCursor.block + 1 ≤
      refCounts.referenceBlockCount - 1 by omega)
    omega
  have hnextEnd : refCounts.searchCursor.endIndex ≤ refCounts.advanceSearchCursor.1.searchCursor.endIndex := by
    have hnext := h.advanceSearchCursor.endIndex_eq
    have hsame := RefCounts.sameCounts_advanceSearchCursor refCounts
    have hlastEq : refCounts.advanceSearchCursor.1.lastBlock = refCounts.lastBlock := by
      simp [RefCounts.lastBlock]
    rw [hblock, hlastEq, hsame.blockCount_eq] at hnext
    rw [hnext, hend]
    split_ifs
    · exact hbelow
    · rw [Nat.succ_mul (refCounts.searchCursor.block + 1)]
      omega
  refine ⟨hindex, ⟨?_, by rw [hindex]; exact hnextEnd⟩, hnextEnd⟩
  rw [hindex, hblock, blockBase, hend]

/-- The later blocks' search scans the rest of the slab from the cursor's end:
it finds the first zero there, in the block the cursor stops on, and wraps the
cursor when there is none. -/
theorem RefCounts.Consistent.searchLaterReferenceBlocks_scan (h : refCounts.Consistent) :
    refCounts.searchLaterReferenceBlocks.2 =
        firstZero refCounts.counters refCounts.searchCursor.endIndex
          (refCounts.blockCount - refCounts.searchCursor.endIndex) ∧
      (∀ found, refCounts.searchLaterReferenceBlocks.2 = some found →
        refCounts.searchLaterReferenceBlocks.1.searchCursor.block = getReferenceBlock found) ∧
      (refCounts.searchLaterReferenceBlocks.2 = none →
        refCounts.searchLaterReferenceBlocks.1.searchCursor = ⟨0, 0, min countsPerBlock refCounts.blockCount⟩) := by
  induction refCounts using RefCounts.searchLaterReferenceBlocks.induct with
  | case1 refCounts advanced hmore freeIndex hfound =>
    simp only [advanced] at hmore hfound
    obtain ⟨hindex, hin, hmono⟩ := h.advanceSearchCursor_cursor hmore
    have hnext := h.advanceSearchCursor
    have hsame := RefCounts.sameCounts_advanceSearchCursor refCounts
    rw [RefCounts.searchLaterReferenceBlocks, dif_pos hmore]
    simp only [hfound]
    rw [hnext.searchCurrentReferenceBlock_eq hin, hindex, hsame.counters_eq] at hfound
    obtain ⟨hle, hlt, -⟩ := firstZero_spec hfound
    have hendle := hnext.endIndex_le
    rw [hsame.blockCount_eq] at hendle
    refine ⟨(firstZero_of_lt hfound (by omega)).symm, ?_, fun hnone => by cases hnone⟩
    rintro found ⟨⟩
    exact (hnext.getReferenceBlock_eq hin (by omega) (by omega)).symm
  | case2 refCounts advanced hmore hnone ih =>
    simp only [advanced] at hmore hnone
    obtain ⟨hindex, hin, hmono⟩ := h.advanceSearchCursor_cursor hmore
    have hnext := h.advanceSearchCursor
    have hsame := RefCounts.sameCounts_advanceSearchCursor refCounts
    obtain ⟨hscan, hblock, hwrap⟩ := ih hnext
    rw [RefCounts.searchLaterReferenceBlocks, dif_pos hmore]
    simp only [hnone]
    rw [hnext.searchCurrentReferenceBlock_eq hin, hindex, hsame.counters_eq] at hnone
    rw [hsame.counters_eq, hsame.blockCount_eq] at hscan
    rw [hsame.blockCount_eq] at hwrap
    have hendle := hnext.endIndex_le
    rw [hsame.blockCount_eq] at hendle
    refine ⟨?_, hblock, hwrap⟩
    rw [hscan, show refCounts.blockCount - refCounts.searchCursor.endIndex =
        (refCounts.advanceSearchCursor.1.searchCursor.endIndex - refCounts.searchCursor.endIndex) +
          (refCounts.blockCount - refCounts.advanceSearchCursor.1.searchCursor.endIndex) by omega,
      firstZero_add, hnone, Nat.add_sub_cancel' hmono, Option.none_or]
  | case3 refCounts advanced hmore =>
    have hlast : refCounts.searchCursor.block = refCounts.lastBlock := by
      by_contra hne
      exact hmore (by simp [advanced, RefCounts.advanceSearchCursor, hne])
    have hend := h.endIndex_eq
    rw [if_pos hlast] at hend
    rw [RefCounts.searchLaterReferenceBlocks, dif_neg hmore]
    refine ⟨by rw [hend, Nat.sub_self, firstZero_zero], fun found hfound => by simp at hfound, fun _ => ?_⟩
    simp [RefCounts.advanceSearchCursor, hlast, RefCounts.resetSearchCursor]

/-- The whole search scans from the cursor's index to the end of the slab. -/
theorem RefCounts.Consistent.searchReferenceBlocks_scan (h : refCounts.Consistent) (hin : refCounts.CursorInBlock) :
    refCounts.searchReferenceBlocks.2 =
        firstZero refCounts.counters refCounts.searchCursor.index
          (refCounts.blockCount - refCounts.searchCursor.index) ∧
      (∀ found, refCounts.searchReferenceBlocks.2 = some found →
        refCounts.searchReferenceBlocks.1.searchCursor.block = getReferenceBlock found) ∧
      (refCounts.searchReferenceBlocks.2 = none →
        refCounts.searchReferenceBlocks.1.searchCursor = ⟨0, 0, min countsPerBlock refCounts.blockCount⟩) := by
  have hendle := h.endIndex_le
  have hindexle := hin.2
  have hcurrent := h.searchCurrentReferenceBlock_eq hin
  rw [RefCounts.searchReferenceBlocks_eq]
  split
  · rename_i freeIndex hfound
    rw [hcurrent] at hfound
    obtain ⟨hle, hlt, -⟩ := firstZero_spec hfound
    refine ⟨(firstZero_of_lt hfound (by omega)).symm, ?_, fun hnone => by cases hnone⟩
    rintro found ⟨⟩
    exact (h.getReferenceBlock_eq hin hle (by omega)).symm
  · rename_i hnone
    rw [hcurrent] at hnone
    obtain ⟨hscan, hblock, hwrap⟩ := h.searchLaterReferenceBlocks_scan
    refine ⟨?_, hblock, hwrap⟩
    rw [hscan, show refCounts.blockCount - refCounts.searchCursor.index =
        (refCounts.searchCursor.endIndex - refCounts.searchCursor.index) +
          (refCounts.blockCount - refCounts.searchCursor.endIndex) by omega,
      firstZero_add, hnone, Nat.add_sub_cancel' hindexle, Option.none_or]

end Scan

/-- `allocateUnreferencedBlock` on an open slab with consistent bookkeeping and
the cursor's index in its block is the linear scan from the cursor's index to
the slab's end: it makes the first zero counter there provisional, answers its
physical block number and leaves the cursor just past it, in its block; with
no zero there it answers `VDO_NO_SPACE`, changes no counter and wraps the
cursor to the first block. The `findFreeBlock` it runs on each block is the
byte-by-byte scan of the block's range. -/
theorem allocateUnreferencedBlock_first_free {refCounts : RefCounts} (h : refCounts.Consistent)
    (hin : refCounts.CursorInBlock) :
    (∀ found, firstZero refCounts.counters refCounts.searchCursor.index
        (refCounts.blockCount - refCounts.searchCursor.index) = some found →
      (allocateUnreferencedBlock true refCounts).2 = .ok (refCounts.start + found) ∧
      (allocateUnreferencedBlock true refCounts).1.counters =
        Function.update refCounts.counters found provisionalReferenceCount ∧
      (allocateUnreferencedBlock true refCounts).1.freeBlocks = refCounts.freeBlocks - 1 ∧
      (allocateUnreferencedBlock true refCounts).1.searchCursor.block = getReferenceBlock found ∧
      (allocateUnreferencedBlock true refCounts).1.searchCursor.index = found + 1) ∧
    (firstZero refCounts.counters refCounts.searchCursor.index
        (refCounts.blockCount - refCounts.searchCursor.index) = none →
      (allocateUnreferencedBlock true refCounts).2 = .error .noSpace ∧
      (allocateUnreferencedBlock true refCounts).1.counters = refCounts.counters ∧
      (allocateUnreferencedBlock true refCounts).1.searchCursor = ⟨0, 0, min countsPerBlock refCounts.blockCount⟩) ∧
    ∀ startIndex endIndex, findFreeBlock refCounts.counters startIndex endIndex =
      firstZero refCounts.counters startIndex (endIndex - startIndex) := by
  obtain ⟨hscan, hblock, hwrap⟩ := h.searchReferenceBlocks_scan hin
  have hsame := refCounts.sameCounts_searchReferenceBlocks
  rw [allocateUnreferencedBlock_true]
  rcases hpair : refCounts.searchReferenceBlocks with ⟨searched, result⟩
  rw [hpair] at hscan hblock hwrap hsame
  simp only at hscan hblock hwrap hsame
  refine ⟨fun found hfound => ?_, fun hnone => ?_, findFreeBlock_eq h.counter_le⟩
  · rw [hscan.trans hfound] at hblock ⊢
    refine ⟨rfl, ?_, ?_, hblock found rfl, rfl⟩
    · simp [RefCounts.makeProvisionalReference, RefCounts.setCounter, RefCounts.countAllocation,
        RefCounts.modifyBlock, hsame.counters_eq]
    · simp [RefCounts.makeProvisionalReference, RefCounts.setCounter, RefCounts.countAllocation,
        RefCounts.modifyBlock, hsame.freeBlocks_eq]
  · rw [hscan.trans hnone] at hwrap ⊢
    exact ⟨rfl, hsame.counters_eq, hwrap rfl⟩

/-- A fresh slab's cursor is at the first counter of the first block. -/
theorem makeRefCounts_cursorInBlock (blockCount start : ℕ) : (makeRefCounts blockCount start).CursorInBlock := by
  simp [RefCounts.CursorInBlock, makeRefCounts, RefCounts.resetSearchCursor, blockBase]

/-! ## The cursor stays in its block over every run -/

section Cursor

variable {refCounts : RefCounts}

/-- A consistent state whose cursor is in the block of a counter of the slab,
just past it, has its cursor in its block. -/
theorem RefCounts.Consistent.cursorInBlock_of_found (h : refCounts.Consistent) {found : ℕ}
    (hblock : refCounts.searchCursor.block = getReferenceBlock found)
    (hindex : refCounts.searchCursor.index = found + 1) (hfound : found < refCounts.blockCount) :
    refCounts.CursorInBlock := by
  have hend := h.endIndex_eq
  have hrange : found ∈ blockRange refCounts.searchCursor.block := mem_blockRange.mpr hblock.symm
  simp only [blockRange, blockBase, Finset.mem_Ico] at hrange
  unfold RefCounts.CursorInBlock blockBase
  rw [hindex]
  split_ifs at hend
  · rw [hend]
    omega
  · rw [hend, Nat.succ_mul]
    omega

/-- An allocation leaves the cursor in its block: just past the counter it
made provisional, or wrapped to the first block. -/
theorem allocateUnreferencedBlock_cursorInBlock (h : refCounts.Consistent)
    (hin : refCounts.CursorInBlock) (slabOpen : Bool) :
    (allocateUnreferencedBlock slabOpen refCounts).1.CursorInBlock := by
  have hnext := h.allocateUnreferencedBlock slabOpen
  cases slabOpen with
  | false => exact hin
  | true =>
    obtain ⟨hscan, hblock, hwrap⟩ := h.searchReferenceBlocks_scan hin
    have hsame := refCounts.sameCounts_searchReferenceBlocks
    rw [allocateUnreferencedBlock_true] at hnext ⊢
    rcases hpair : refCounts.searchReferenceBlocks with ⟨searched, result⟩
    rw [hpair] at hscan hblock hwrap hsame hnext
    simp only at hscan hblock hwrap hsame
    cases result with
    | none =>
      show searched.CursorInBlock
      simp [RefCounts.CursorInBlock, hwrap rfl, blockBase]
    | some found =>
      obtain ⟨-, hlt, -⟩ := firstZero_spec hscan.symm
      have hindexle := hin.2.trans h.endIndex_le
      refine hnext.cursorInBlock_of_found (hblock found rfl) rfl ?_
      show found < searched.blockCount
      rw [hsame.blockCount_eq]
      omega

/-- Marking a block dirty keeps the cursor. -/
theorem RefCounts.dirtyBlock_searchCursor (refCounts : RefCounts) (blockIndex : ℕ) :
    (refCounts.dirtyBlock blockIndex).searchCursor = refCounts.searchCursor := by
  unfold RefCounts.dirtyBlock
  dsimp only
  split_ifs <;> rfl

/-- An adjustment keeps the cursor, whatever it returns. -/
theorem adjustReferenceCount_searchCursor (slabOpen : Bool) (refCounts : RefCounts)
    (operation : ReferenceOperation) (point : Option JournalPoint) :
    (adjustReferenceCount slabOpen refCounts operation point).refCounts.searchCursor =
      refCounts.searchCursor := by
  rcases adjustReferenceCount_cases slabOpen refCounts operation point with
    ⟨e, hadjust⟩ | ⟨slabBlockNumber, counted, report, -, hupdate, hadjust⟩
  · rw [hadjust]
  have hcounted := (RefCounts.updateReferenceCount_frame hupdate).2
  rcases hadjust with ⟨-, hadjust⟩ | ⟨-, hadjust⟩
  · rw [hadjust]
    exact hcounted
  · rw [hadjust]
    rcases counted.adjustBlockLock_refCounts slabBlockNumber point report with hsame | ⟨lock, hlocked⟩
    · rw [hsame, hcounted]
    · rw [hlocked, RefCounts.dirtyBlock_searchCursor]
      exact hcounted

end Cursor

section Runs

open Reachability

variable {slab next : SlabReferences}

/-- Every step keeps a consistent slab's cursor in its block: only an
allocation moves it, and every other operation keeps it. -/
theorem SlabReferences.Consistent.cursorInBlock_step (h : slab.Consistent)
    (hin : slab.refCounts.CursorInBlock) (hstep : RefCountsStep slab next) :
    next.refCounts.CursorInBlock := by
  have hkeep : ∀ {updated : RefCounts}, updated.searchCursor = slab.refCounts.searchCursor →
      updated.CursorInBlock := fun hcursor => by
    unfold RefCounts.CursorInBlock
    rw [hcursor]
    exact hin
  cases hstep with
  | adjust slabOpen operation point => exact hkeep (adjustReferenceCount_searchCursor _ _ _ _)
  | rebuild hok =>
    obtain ⟨_, counted, _, _, hupdate, rfl⟩ := adjustReferenceCountForRebuild_ok hok
    exact hkeep ((counted.dirtyBlock_searchCursor _).trans (RefCounts.updateReferenceCount_frame hupdate).2)
  | replay hsbn hok =>
    rcases replayReferenceCountChange_ok hok with ⟨-, rfl⟩ | ⟨_, counted, _, hupdate, rfl⟩
    · exact hin
    · exact hkeep ((counted.dirtyBlock_searchCursor _).trans (RefCounts.updateReferenceCount_frame hupdate).2)
  | allocate slabOpen => exact allocateUnreferencedBlock_cursorInBlock h.refCounts hin slabOpen
  | provision hok =>
    obtain ⟨-, -, ⟨-, rfl, -⟩ | ⟨-, rfl, -⟩⟩ := provisionallyReferenceBlock_ok hok
    · exact hkeep rfl
    · exact hin
  | reset => exact hkeep rfl
  | write blockIndex written => exact hin
  | load => exact hkeep (RefCounts.foldl_finishReferenceBlockLoad_frame _ _ _).2.2

/-- The run lemma: in every reachable slab the cursor is in its block. -/
theorem SlabReferences.cursorInBlock_of_reachable (hreach : Reachable FreshSlab RefCountsStep slab) :
    slab.refCounts.CursorInBlock := by
  have hboth : slab.Consistent ∧ slab.refCounts.CursorInBlock :=
    @Reachable.invariant _ _ _ (fun slab : SlabReferences => slab.Consistent ∧ slab.refCounts.CursorInBlock)
      (fun _ hfresh => ⟨SlabReferences.consistent_of_fresh hfresh, by
        obtain ⟨blockCount, start, hmake, -⟩ := hfresh
        rw [hmake]
        exact makeRefCounts_cursorInBlock blockCount start⟩)
      (fun _ _ ⟨h, hin⟩ hstep => ⟨h.step hstep, h.cursorInBlock_step hin hstep⟩) _ hreach
  exact hboth.2

end Runs

/-- The slab after a data increment, a torn write and an allocation: its
counters 0 and 1 are in use and its cursor is at counter 2, so the next
allocation takes counter 2. -/
theorem allocateUnreferencedBlock_first_free_written :
    (allocateUnreferencedBlock true writtenSlab.refCounts).2 = .ok 2 ∧
    writtenSlab.refCounts.Consistent ∧ writtenSlab.refCounts.CursorInBlock ∧
    (∀ found, firstZero writtenSlab.refCounts.counters writtenSlab.refCounts.searchCursor.index
        (writtenSlab.refCounts.blockCount - writtenSlab.refCounts.searchCursor.index) = some found →
      (allocateUnreferencedBlock true writtenSlab.refCounts).2 = .ok (writtenSlab.refCounts.start + found) ∧
      (allocateUnreferencedBlock true writtenSlab.refCounts).1.counters =
        Function.update writtenSlab.refCounts.counters found provisionalReferenceCount ∧
      (allocateUnreferencedBlock true writtenSlab.refCounts).1.freeBlocks =
        writtenSlab.refCounts.freeBlocks - 1 ∧
      (allocateUnreferencedBlock true writtenSlab.refCounts).1.searchCursor.block = getReferenceBlock found ∧
      (allocateUnreferencedBlock true writtenSlab.refCounts).1.searchCursor.index = found + 1) ∧
    (firstZero writtenSlab.refCounts.counters writtenSlab.refCounts.searchCursor.index
        (writtenSlab.refCounts.blockCount - writtenSlab.refCounts.searchCursor.index) = none →
      (allocateUnreferencedBlock true writtenSlab.refCounts).2 = .error .noSpace ∧
      (allocateUnreferencedBlock true writtenSlab.refCounts).1.counters = writtenSlab.refCounts.counters ∧
      (allocateUnreferencedBlock true writtenSlab.refCounts).1.searchCursor =
        ⟨0, 0, min countsPerBlock writtenSlab.refCounts.blockCount⟩) ∧
    ∀ startIndex endIndex, findFreeBlock writtenSlab.refCounts.counters startIndex endIndex =
      firstZero writtenSlab.refCounts.counters startIndex (endIndex - startIndex) :=
  have hreach := writtenSlab_reachable
  have h := (SlabReferences.Consistent.of_reachable hreach).refCounts
  have hin := SlabReferences.cursorInBlock_of_reachable hreach
  ⟨by decide +kernel, h, hin, allocateUnreferencedBlock_first_free h hin⟩

end Vdo
