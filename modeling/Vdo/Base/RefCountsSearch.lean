import Vdo.Base.RefCounts

/-!
# Searching for a free reference counter

`allocateUnreferencedBlock` looks for a zero counter starting at the search
cursor, one reference block at a time, and makes the first one it finds a
provisional reference (`refCounts.c`). Within a block, `findFreeBlock` reads
the counters eight at a time as a little-endian 64-bit word and tests its bytes
from the lowest; the counter array is padded so that the last word may run past
the end of the block.
-/

namespace Vdo

/-- The little-endian word made of `width` bytes of `bytes` starting at
`offset`; `getUInt64LE` reads eight of them. -/
def wordLE (bytes : ℕ → ℕ) (offset : ℕ) : ℕ → ℕ
  | 0 => 0
  | width + 1 => bytes offset + 256 * wordLE bytes (offset + 1) width

/-- `getUInt64LE`. -/
def getUInt64LE (bytes : ℕ → ℕ) (offset : ℕ) : ℕ :=
  wordLE bytes offset 8

/-- The loop of `findZeroByteInWord`: test the low byte of `word`, then shift
it out, for `remaining` bytes. -/
def findZeroByte (word index failIndex : ℕ) : ℕ → ℕ
  | 0 => failIndex
  | remaining + 1 =>
    if word % 256 = 0 then index else findZeroByte (word / 256) (index + 1) failIndex remaining

/-- `findZeroByteInWord`: the index of the first zero counter among the eight
starting at `startIndex`, or `failIndex`. -/
def findZeroByteInWord (counters : ℕ → ℕ) (startIndex failIndex : ℕ) : ℕ :=
  findZeroByte (getUInt64LE counters startIndex) startIndex failIndex 8

/-- The word-aligned loop of `findFreeBlock`, from `nextIndex` while it is
below `endIndex`. -/
def findFreeBlockFrom (counters : ℕ → ℕ) (endIndex nextIndex : ℕ) : Option ℕ :=
  if nextIndex < endIndex then
    let zeroIndex := findZeroByteInWord counters nextIndex endIndex
    if zeroIndex < endIndex then some zeroIndex
    else findFreeBlockFrom counters endIndex (nextIndex + 8)
  else none
termination_by endIndex - nextIndex

/-- `findFreeBlock`: a zero counter in `[startIndex, endIndex)`, if any; the
first word is tested before the loop's bound is checked. -/
def findFreeBlock (counters : ℕ → ℕ) (startIndex endIndex : ℕ) : Option ℕ :=
  let zeroIndex := findZeroByteInWord counters startIndex endIndex
  if zeroIndex < endIndex then some zeroIndex
  else findFreeBlockFrom counters endIndex (startIndex + 8)

namespace RefCounts

/-- `searchCurrentReferenceBlock`: skip a block known to be full. -/
def searchCurrentReferenceBlock (refCounts : RefCounts) : Option ℕ :=
  let cursor := refCounts.searchCursor
  if (refCounts.blocks cursor.block).allocatedCount < countsPerBlock then
    findFreeBlock refCounts.counters cursor.index cursor.endIndex
  else none

/-- `advanceSearchCursor`: move to the next reference block, or wrap to the
first one (answering `false`) after the last. -/
def advanceSearchCursor (refCounts : RefCounts) : RefCounts × Bool :=
  if hlast : refCounts.searchCursor.block = refCounts.lastBlock then
    (refCounts.resetSearchCursor, false)
  else
    ({ refCounts with
      searchCursor :=
        ⟨refCounts.searchCursor.block + 1, refCounts.searchCursor.endIndex,
          if refCounts.searchCursor.block + 1 = refCounts.lastBlock then refCounts.blockCount
          else refCounts.searchCursor.endIndex + countsPerBlock⟩
      searchCursor_block_le := by
        have hle := refCounts.searchCursor_block_le
        simp only [lastBlock] at hlast
        show refCounts.searchCursor.block + 1 ≤ refCounts.referenceBlockCount - 1
        omega }, true)

/-- Moving the cursor changes no reference block count. -/
@[simp] theorem advanceSearchCursor_referenceBlockCount (refCounts : RefCounts) :
    refCounts.advanceSearchCursor.1.referenceBlockCount = refCounts.referenceBlockCount := by
  unfold advanceSearchCursor
  split <;> rfl

/-- A cursor that advances moves to the next block, which exists. -/
theorem advanceSearchCursor_block {refCounts : RefCounts}
    (hmore : refCounts.advanceSearchCursor.2 = true) :
    refCounts.advanceSearchCursor.1.searchCursor.block = refCounts.searchCursor.block + 1 ∧
      refCounts.searchCursor.block < refCounts.lastBlock := by
  by_cases hlast : refCounts.searchCursor.block = refCounts.lastBlock
  · simp [advanceSearchCursor, hlast] at hmore
  · have hle := refCounts.searchCursor_block_le
    constructor
    · simp [advanceSearchCursor, hlast]
    · simp only [lastBlock] at hlast ⊢
      omega

/-- The `while (advanceSearchCursor(refCounts))` loop of
`searchReferenceBlocks`: search each later block until one has a free counter
or the cursor wraps. -/
def searchLaterReferenceBlocks (refCounts : RefCounts) : RefCounts × Option ℕ :=
  let advanced := refCounts.advanceSearchCursor
  if _hmore : advanced.2 = true then
    match advanced.1.searchCurrentReferenceBlock with
    | some freeIndex => (advanced.1, some freeIndex)
    | none => advanced.1.searchLaterReferenceBlocks
  else (advanced.1, none)
termination_by refCounts.lastBlock - refCounts.searchCursor.block
decreasing_by
  obtain ⟨hblock, hlt⟩ := advanceSearchCursor_block _hmore
  have hlast : advanced.1.lastBlock = refCounts.lastBlock := by
    simp [advanced, lastBlock]
  rw [hlast, hblock]
  omega

/-- `searchReferenceBlocks`: the current block from the cursor's index, then
each later block; the search does not wrap. -/
def searchReferenceBlocks (refCounts : RefCounts) : RefCounts × Option ℕ :=
  match refCounts.searchCurrentReferenceBlock with
  | some freeIndex => (refCounts, some freeIndex)
  | none => refCounts.searchLaterReferenceBlocks

theorem searchReferenceBlocks_eq (refCounts : RefCounts) :
    refCounts.searchReferenceBlocks =
      match refCounts.searchCurrentReferenceBlock with
      | some freeIndex => (refCounts, some freeIndex)
      | none => refCounts.searchLaterReferenceBlocks := rfl

end RefCounts

/-- `allocateUnreferencedBlock`: find a free counter, make it a provisional
reference and return its physical block number; the cursor moves past it. -/
def allocateUnreferencedBlock (slabOpen : Bool) (refCounts : RefCounts) :
    RefCounts × Except VdoError ℕ :=
  if !slabOpen then (refCounts, .error .invalidAdminState)
  else
    match refCounts.searchReferenceBlocks with
    | (searched, none) => (searched, .error .noSpace)
    | (searched, some freeIndex) =>
      let allocated := searched.makeProvisionalReference freeIndex
      ({ allocated with
        searchCursor := { allocated.searchCursor with index := freeIndex + 1 } },
        .ok (refCounts.start + freeIndex))

theorem allocateUnreferencedBlock_true (refCounts : RefCounts) :
    allocateUnreferencedBlock true refCounts =
      match refCounts.searchReferenceBlocks with
      | (searched, none) => (searched, .error .noSpace)
      | (searched, some freeIndex) =>
        let allocated := searched.makeProvisionalReference freeIndex
        ({ allocated with
          searchCursor := { allocated.searchCursor with index := freeIndex + 1 } },
          .ok (refCounts.start + freeIndex)) := rfl

end Vdo
