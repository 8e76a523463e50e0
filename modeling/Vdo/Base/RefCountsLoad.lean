import Vdo.Base.RefCountsInvariant

/-!
# Writing and reloading keep the bookkeeping

A stored reference block is well formed when each of its counters fits a byte
and its counters past the slab's `blockCount` are zero. Writing a block of a
consistent `RefCounts` keeps the stored blocks well formed even when the write
tears between sectors. Loading reads the blocks in order: after the first `k`
blocks, their allocated counts are right and the free total is `blockCount`
less their non-zero counters, so after the last block the bookkeeping
invariant holds again.
-/

namespace Vdo

open IndexCount

/-- The stored reference blocks of a slab of `blockCount` counters: every
stored counter fits a byte and the padding past the slab's counters is zero. -/
structure DiskConsistent (blockCount : ℕ) (disk : ℕ → PackedReferenceBlock) : Prop where
  /-- Every stored counter is a byte. -/
  count_le : ∀ blockIndex offset, offset < countsPerBlock →
    (disk blockIndex).count offset ≤ provisionalReferenceCount
  /-- Stored counters past the slab's counters are zero. -/
  padding_eq : ∀ blockIndex offset, offset < countsPerBlock →
    blockCount ≤ blockBase blockIndex + offset → (disk blockIndex).count offset = emptyReferenceCount

/-! ## Writing -/

/-- A packed block holds the block's counters in order. -/
theorem packReferenceBlock_count (refCounts : RefCounts) (blockIndex offset : ℕ) :
    (packReferenceBlock refCounts blockIndex).count offset =
      refCounts.counters (blockBase blockIndex + offset) := by
  simp only [PackedReferenceBlock.count, packReferenceBlock]
  rw [Nat.add_assoc, Nat.div_add_mod']

/-- A torn write leaves each sector old or new. -/
theorem tornWrite_count (old new : PackedReferenceBlock) (written : ℕ → Bool) (offset : ℕ) :
    (tornWrite old new written).count offset =
      if written (offset / countsPerSector) then new.count offset else old.count offset := by
  simp only [PackedReferenceBlock.count, tornWrite]
  split_ifs <;> rfl

/-- The reference blocks of a freshly formatted slab: every sector zero. -/
def zeroedReferenceBlocks : ℕ → PackedReferenceBlock :=
  fun _ => ⟨fun _ => ⟨0, fun _ => emptyReferenceCount⟩⟩

/-- Zeroed stored blocks are well formed. -/
theorem diskConsistent_zeroed (blockCount : ℕ) : DiskConsistent blockCount zeroedReferenceBlocks :=
  ⟨fun _ _ _ => Nat.zero_le _, fun _ _ _ _ => rfl⟩

/-- Writing a block of a consistent `RefCounts`, torn or not, keeps the stored
blocks well formed. -/
theorem DiskConsistent.write {refCounts : RefCounts} {disk : ℕ → PackedReferenceBlock}
    (hdisk : DiskConsistent refCounts.blockCount disk) (h : refCounts.Consistent)
    (blockIndex : ℕ) (written : ℕ → Bool) :
    DiskConsistent refCounts.blockCount (Function.update disk blockIndex
      (tornWrite (disk blockIndex) (packReferenceBlock refCounts blockIndex) written)) where
  count_le := by
    intro b offset hoffset
    rw [Function.update_apply]
    split_ifs with hb
    · subst hb
      rw [tornWrite_count, packReferenceBlock_count]
      split_ifs
      · exact h.counter_le _
      · exact hdisk.count_le _ offset hoffset
    · exact hdisk.count_le b offset hoffset
  padding_eq := by
    intro b offset hoffset hpast
    rw [Function.update_apply]
    split_ifs with hb
    · subst hb
      rw [tornWrite_count, packReferenceBlock_count]
      split_ifs
      · exact h.padding_eq _ hpast
      · exact hdisk.padding_eq _ offset hoffset hpast
    · exact hdisk.padding_eq b offset hoffset hpast

/-! ## Loading one block -/

section LoadBlock

variable {refCounts : RefCounts} {packed : PackedReferenceBlock} {blockIndex : ℕ}

/-- Unpacking copies the block's counters and leaves the others. -/
theorem RefCounts.unpackReferenceBlock_counters (index : ℕ) :
    (refCounts.unpackReferenceBlock packed blockIndex).counters index =
      if index ∈ blockRange blockIndex then packed.count (index - blockBase blockIndex)
      else refCounts.counters index := rfl

/-- Unpacking recounts the block's allocated counters and leaves the others'. -/
theorem RefCounts.unpackReferenceBlock_allocatedCount (b : ℕ) :
    ((refCounts.unpackReferenceBlock packed blockIndex).blocks b).allocatedCount =
      if b = blockIndex then
        countWhere (blockRange blockIndex) (· ≠ emptyReferenceCount)
          (refCounts.unpackReferenceBlock packed blockIndex).counters
      else (refCounts.blocks b).allocatedCount := by
  simp only [RefCounts.unpackReferenceBlock, RefCounts.modifyBlock, Function.update_apply]
  split_ifs <;> rfl

/-- Clearing provisional references frees them within the block only. -/
theorem RefCounts.clearProvisionalReferences_counters (index : ℕ) :
    (refCounts.clearProvisionalReferences blockIndex).counters index =
      if index ∈ blockRange blockIndex ∧ refCounts.counters index = provisionalReferenceCount
      then emptyReferenceCount else refCounts.counters index := rfl

/-- Clearing provisional references takes them from the block's allocated
count. -/
theorem RefCounts.clearProvisionalReferences_allocatedCount_self :
    ((refCounts.clearProvisionalReferences blockIndex).blocks blockIndex).allocatedCount =
      (refCounts.blocks blockIndex).allocatedCount -
        countWhere (blockRange blockIndex) (· = provisionalReferenceCount) refCounts.counters := by
  simp [RefCounts.clearProvisionalReferences, RefCounts.modifyBlock]

/-- Clearing provisional references keeps a right allocated count right: the
provisional counters it frees were counted as allocated. -/
theorem RefCounts.clearProvisionalReferences_allocatedCount
    (hallocated : (refCounts.blocks blockIndex).allocatedCount =
      countWhere (blockRange blockIndex) (· ≠ emptyReferenceCount) refCounts.counters) :
    ((refCounts.clearProvisionalReferences blockIndex).blocks blockIndex).allocatedCount =
      countWhere (blockRange blockIndex) (· ≠ emptyReferenceCount)
        (refCounts.clearProvisionalReferences blockIndex).counters := by
  have hsplit : countWhere (blockRange blockIndex)
        (fun count => count ≠ emptyReferenceCount ∧ count = provisionalReferenceCount)
        refCounts.counters +
      countWhere (blockRange blockIndex)
        (fun count => count ≠ emptyReferenceCount ∧ ¬ count = provisionalReferenceCount)
        refCounts.counters =
      countWhere (blockRange blockIndex) (· ≠ emptyReferenceCount) refCounts.counters :=
    countWhere_and_add_and_not _
  have hprovisional : countWhere (blockRange blockIndex) (· = provisionalReferenceCount)
        refCounts.counters =
      countWhere (blockRange blockIndex)
        (fun count => count ≠ emptyReferenceCount ∧ count = provisionalReferenceCount)
        refCounts.counters :=
    countWhere_congr_iff fun i _ => ⟨fun hp => ⟨by rw [hp]; decide, hp⟩, And.right⟩
  have hcleared : countWhere (blockRange blockIndex) (· ≠ emptyReferenceCount)
        (refCounts.clearProvisionalReferences blockIndex).counters =
      countWhere (blockRange blockIndex)
        (fun count => count ≠ emptyReferenceCount ∧ ¬ count = provisionalReferenceCount)
        refCounts.counters := by
    apply countWhere_congr_iff
    intro i hi
    rw [RefCounts.clearProvisionalReferences_counters]
    by_cases hp : refCounts.counters i = provisionalReferenceCount
    · simp [hi, hp]
    · simp [hp]
  rw [RefCounts.clearProvisionalReferences_allocatedCount_self, hcleared, hallocated, hprovisional]
  omega

/-- Loading a block leaves the counters of every other block. -/
theorem RefCounts.finishReferenceBlockLoad_counters_of_notMem {index : ℕ}
    (hindex : index ∉ blockRange blockIndex) :
    (refCounts.finishReferenceBlockLoad packed blockIndex).counters index =
      refCounts.counters index := by
  simp only [RefCounts.finishReferenceBlockLoad, RefCounts.clearProvisionalReferences_counters,
    RefCounts.unpackReferenceBlock_counters, hindex, false_and, if_false]

/-- Loading a block leaves the allocated counts of every other block. -/
theorem RefCounts.finishReferenceBlockLoad_allocatedCount_of_ne {b : ℕ} (hb : b ≠ blockIndex) :
    ((refCounts.finishReferenceBlockLoad packed blockIndex).blocks b).allocatedCount =
      (refCounts.blocks b).allocatedCount := by
  simp [RefCounts.finishReferenceBlockLoad, RefCounts.clearProvisionalReferences,
    RefCounts.unpackReferenceBlock, RefCounts.modifyBlock, Function.update_of_ne hb]

/-- A loaded counter is a stored one, freed if it was provisional. -/
theorem RefCounts.finishReferenceBlockLoad_counters_of_mem {index : ℕ}
    (hindex : index ∈ blockRange blockIndex) :
    (refCounts.finishReferenceBlockLoad packed blockIndex).counters index =
      if packed.count (index - blockBase blockIndex) = provisionalReferenceCount
      then emptyReferenceCount else packed.count (index - blockBase blockIndex) := by
  simp only [RefCounts.finishReferenceBlockLoad, RefCounts.clearProvisionalReferences_counters,
    RefCounts.unpackReferenceBlock_counters, hindex, true_and, if_true]

end LoadBlock

/-! ## Loading the blocks in order -/

/-- The bookkeeping while the reference blocks are read in order, after the
first `loaded` of them. -/
structure RefCounts.LoadInvariant (refCounts : RefCounts) (loaded : ℕ) : Prop where
  /-- Every counter is a byte. -/
  counter_le : ∀ index, refCounts.counters index ≤ provisionalReferenceCount
  /-- The padding past the slab's counters is zero. -/
  padding_eq : ∀ index, refCounts.blockCount ≤ index →
    refCounts.counters index = emptyReferenceCount
  /-- The blocks read count their non-zero counters. -/
  allocatedCount_eq : ∀ blockIndex < loaded,
    (refCounts.blocks blockIndex).allocatedCount =
      countWhere (blockRange blockIndex) (· ≠ emptyReferenceCount) refCounts.counters
  /-- The free total is `blockCount` less the non-zero counters read. -/
  freeBlocks_add : refCounts.freeBlocks +
      countWhere (Finset.range (loaded * countsPerBlock)) (· ≠ emptyReferenceCount)
        refCounts.counters = refCounts.blockCount

section Load

variable {refCounts : RefCounts} {disk : ℕ → PackedReferenceBlock}

/-- A counter of a block lies at an offset of the block. -/
theorem offset_lt_of_mem_blockRange {index blockIndex : ℕ} (hindex : index ∈ blockRange blockIndex) :
    index - blockBase blockIndex < countsPerBlock := by
  simp only [blockRange, Finset.mem_Ico] at hindex
  omega

/-- Reading the next block from well-formed stored blocks keeps the load's
bookkeeping. -/
theorem RefCounts.LoadInvariant.finishReferenceBlockLoad {loaded : ℕ}
    (h : refCounts.LoadInvariant loaded) (hdisk : DiskConsistent refCounts.blockCount disk) :
    (refCounts.finishReferenceBlockLoad (disk loaded) loaded).LoadInvariant (loaded + 1) := by
  set next := refCounts.finishReferenceBlockLoad (disk loaded) loaded with hnext
  have hprefix : ∀ index < loaded * countsPerBlock, next.counters index = refCounts.counters index :=
    fun index hindex => RefCounts.finishReferenceBlockLoad_counters_of_notMem fun hmem => by
      simp only [blockRange, blockBase, Finset.mem_Ico] at hmem
      omega
  have hpadding : ∀ index, refCounts.blockCount ≤ index → next.counters index = emptyReferenceCount := by
    intro index hindex
    by_cases hmem : index ∈ blockRange loaded
    · have hoffset := offset_lt_of_mem_blockRange hmem
      have hstored := hdisk.padding_eq loaded _ hoffset (by
        simp only [blockRange, Finset.mem_Ico] at hmem
        omega)
      rw [RefCounts.finishReferenceBlockLoad_counters_of_mem hmem, hstored]
      split_ifs <;> rfl
    · rw [RefCounts.finishReferenceBlockLoad_counters_of_notMem hmem]
      exact h.padding_eq index hindex
  have hallocated : (next.blocks loaded).allocatedCount =
      countWhere (blockRange loaded) (· ≠ emptyReferenceCount) next.counters := by
    apply RefCounts.clearProvisionalReferences_allocatedCount
    rw [RefCounts.unpackReferenceBlock_allocatedCount, if_pos rfl]
  refine ⟨?_, hpadding, ?_, ?_⟩
  · intro index
    by_cases hmem : index ∈ blockRange loaded
    · rw [RefCounts.finishReferenceBlockLoad_counters_of_mem hmem]
      split_ifs
      · exact Nat.zero_le _
      · exact hdisk.count_le loaded _ (offset_lt_of_mem_blockRange hmem)
    · rw [RefCounts.finishReferenceBlockLoad_counters_of_notMem hmem]
      exact h.counter_le index
  · intro b hb
    rcases Nat.lt_succ_iff_lt_or_eq.mp hb with hlt | rfl
    · have hne : b ≠ loaded := by omega
      rw [RefCounts.finishReferenceBlockLoad_allocatedCount_of_ne hne, h.allocatedCount_eq b hlt]
      apply countWhere_congr
      intro index hindex
      exact (RefCounts.finishReferenceBlockLoad_counters_of_notMem fun hmem =>
        hne ((mem_blockRange.mp hindex).symm.trans (mem_blockRange.mp hmem))).symm
    · exact hallocated
  · have hfree : next.freeBlocks = refCounts.freeBlocks - (next.blocks loaded).allocatedCount := rfl
    have hsplit : countWhere (Finset.range ((loaded + 1) * countsPerBlock)) (· ≠ emptyReferenceCount)
          next.counters =
        countWhere (Finset.range (loaded * countsPerBlock)) (· ≠ emptyReferenceCount)
            next.counters +
          countWhere (blockRange loaded) (· ≠ emptyReferenceCount) next.counters := by
      rw [Nat.succ_mul]
      exact countWhere_range_add _ _
    have hkept : countWhere (Finset.range (loaded * countsPerBlock)) (· ≠ emptyReferenceCount)
          next.counters =
        countWhere (Finset.range (loaded * countsPerBlock)) (· ≠ emptyReferenceCount)
          refCounts.counters :=
      countWhere_congr fun index hindex => hprefix index (Finset.mem_range.mp hindex)
    have hbound : countWhere (Finset.range ((loaded + 1) * countsPerBlock))
        (· ≠ emptyReferenceCount) next.counters ≤ refCounts.blockCount :=
      countWhere_range_le (fun index hindex hne => hne (hpadding index hindex)) _
    have hbefore := h.freeBlocks_add
    rw [hsplit, hkept, ← hallocated] at hbound ⊢
    rw [hfree]
    show _ = refCounts.blockCount
    omega

/-- Loading blocks in order keeps the slab's size, its number of reference
blocks and the search cursor. -/
theorem RefCounts.foldl_finishReferenceBlockLoad_frame (refCounts : RefCounts)
    (disk : ℕ → PackedReferenceBlock) (count : ℕ) :
    ((List.range count).foldl (fun loaded blockIndex =>
        loaded.finishReferenceBlockLoad (disk blockIndex) blockIndex) refCounts).blockCount =
        refCounts.blockCount ∧
      ((List.range count).foldl (fun loaded blockIndex =>
        loaded.finishReferenceBlockLoad (disk blockIndex) blockIndex) refCounts).referenceBlockCount =
        refCounts.referenceBlockCount ∧
      ((List.range count).foldl (fun loaded blockIndex =>
        loaded.finishReferenceBlockLoad (disk blockIndex) blockIndex) refCounts).searchCursor =
        refCounts.searchCursor := by
  induction count with
  | zero => exact ⟨rfl, rfl, rfl⟩
  | succ count ih =>
    rw [List.range_succ, List.foldl_append, List.foldl_cons, List.foldl_nil]
    exact ih

/-- Reading the first `count` blocks, in order, from well-formed stored blocks
keeps the load's bookkeeping for those blocks. -/
theorem RefCounts.LoadInvariant.foldl_finishReferenceBlockLoad (h : refCounts.LoadInvariant 0)
    (hdisk : DiskConsistent refCounts.blockCount disk) (count : ℕ) :
    ((List.range count).foldl (fun loaded blockIndex =>
      loaded.finishReferenceBlockLoad (disk blockIndex) blockIndex) refCounts).LoadInvariant count := by
  induction count with
  | zero => exact h
  | succ count ih =>
    rw [List.range_succ, List.foldl_append, List.foldl_cons, List.foldl_nil]
    apply ih.finishReferenceBlockLoad
    rw [(RefCounts.foldl_finishReferenceBlockLoad_frame refCounts disk count).1]
    exact hdisk

/-- Once every reference block has been read the bookkeeping invariant holds:
the blocks cover all the slab's counters, and the free total is the number of
counters that are not allocated. -/
theorem RefCounts.LoadInvariant.consistent {loaded : ℕ} (h : refCounts.LoadInvariant loaded)
    (hloaded : loaded = refCounts.referenceBlockCount)
    (hreference : refCounts.referenceBlockCount = getSavedReferenceCountSize refCounts.blockCount)
    (hend : refCounts.searchCursor.endIndex =
      if refCounts.searchCursor.block = refCounts.lastBlock then refCounts.blockCount
      else (refCounts.searchCursor.block + 1) * countsPerBlock) :
    refCounts.Consistent where
  counter_le := h.counter_le
  padding_eq := h.padding_eq
  freeBlocks_eq := by
    have hcover : refCounts.blockCount ≤ loaded * countsPerBlock := by
      rw [hloaded, hreference]
      exact blockCount_le_referenceBlocks _
    have hall : countWhere (Finset.range (loaded * countsPerBlock)) (· ≠ emptyReferenceCount)
          refCounts.counters =
        countWhere (Finset.range refCounts.blockCount) (· ≠ emptyReferenceCount)
          refCounts.counters :=
      countWhere_of_subset (Finset.range_subset_range.mpr hcover) fun index _ hindex hne =>
        hne (h.padding_eq index (by simpa using hindex))
    have hsplit : countWhere (Finset.range refCounts.blockCount) (· = emptyReferenceCount)
          refCounts.counters +
        countWhere (Finset.range refCounts.blockCount) (· ≠ emptyReferenceCount)
          refCounts.counters = (Finset.range refCounts.blockCount).card :=
      countWhere_add_countWhere_not
    have hfree := h.freeBlocks_add
    rw [Finset.card_range] at hsplit
    rw [hall] at hfree
    omega
  allocatedCount_eq := fun blockIndex hblock => h.allocatedCount_eq blockIndex (hloaded ▸ hblock)
  referenceBlockCount_eq := hreference
  endIndex_eq := hend

/-- Loading the reference blocks of a consistent `RefCounts` from well-formed
stored blocks yields a consistent `RefCounts`. -/
theorem RefCounts.Consistent.loadReferenceBlocks (h : refCounts.Consistent)
    (hdisk : DiskConsistent refCounts.blockCount disk) :
    (loadReferenceBlocks refCounts disk).Consistent := by
  have hstart : RefCounts.LoadInvariant { refCounts with freeBlocks := refCounts.blockCount } 0 :=
    ⟨h.counter_le, h.padding_eq, fun _ hzero => absurd hzero (Nat.not_lt_zero _),
      by simp [countWhere]⟩
  have hloaded := hstart.foldl_finishReferenceBlockLoad hdisk refCounts.referenceBlockCount
  obtain ⟨hblockCount, hreference, hcursor⟩ := RefCounts.foldl_finishReferenceBlockLoad_frame
    { refCounts with freeBlocks := refCounts.blockCount } disk refCounts.referenceBlockCount
  unfold Vdo.loadReferenceBlocks
  apply hloaded.consistent hreference.symm
  · rw [hreference, hblockCount]
    exact h.referenceBlockCount_eq
  · rw [hcursor, RefCounts.lastBlock, hreference, hblockCount]
    exact h.endIndex_eq

end Load

end Vdo
