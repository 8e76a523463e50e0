import Vdo.Base.RefCounts
import Vdo.Lib.IndexCount

/-!
# Writing and loading reference blocks

A reference block is stored as eight sectors, each holding a packed commit
point and `countsPerSector` counters (`referenceBlock.h`). `packReferenceBlock`
stamps every sector with the slab's current journal point; loading unpacks the
sectors, recounts the block's allocated counters over its whole range, clears
provisional references, which do not survive a reload, and subtracts the block's
allocated counters from the free total that `loadReferenceBlocks` set to
`blockCount` (`refCounts.c`).
-/

namespace Vdo

open IndexCount

/-- `PackedReferenceSector`: a packed commit point and one sector of counters. -/
structure PackedReferenceSector where
  /-- The packed journal point up to which the sector is accurate. -/
  commitPoint : ℕ
  /-- The sector's counters, `countsPerSector` of them. -/
  counts : ℕ → ℕ

/-- `PackedReferenceBlock`: the `sectorsPerBlock` sectors of a block. -/
structure PackedReferenceBlock where
  /-- The sectors. -/
  sectors : ℕ → PackedReferenceSector

/-- The counter at offset `offset` of a packed block, read through its sector. -/
def PackedReferenceBlock.count (packed : PackedReferenceBlock) (offset : ℕ) : ℕ :=
  (packed.sectors (offset / countsPerSector)).counts (offset % countsPerSector)

/-- The index of the first counter of a reference block
(`getReferenceCountersForBlock`). -/
def blockBase (blockIndex : ℕ) : ℕ :=
  blockIndex * countsPerBlock

/-- The counter indices of a reference block. -/
def blockRange (blockIndex : ℕ) : Finset ℕ :=
  Finset.Ico (blockBase blockIndex) (blockBase blockIndex + countsPerBlock)

/-- `packReferenceBlock`: every sector gets the slab's journal point and its
counters. -/
def packReferenceBlock (refCounts : RefCounts) (blockIndex : ℕ) : PackedReferenceBlock :=
  ⟨fun sector =>
    ⟨packJournalPoint refCounts.slabJournalPoint,
      fun offset => refCounts.counters (blockBase blockIndex + sector * countsPerSector + offset)⟩⟩

/-- The journal point after taking in the commit points of the sectors of a
packed block: `slabJournalPoint` becomes the latest point found. -/
def latestCommitPoint (packed : PackedReferenceBlock) (point : JournalPoint) : JournalPoint :=
  (List.range sectorsPerBlock).foldl
    (fun point sector =>
      let commit := unpackJournalPoint (packed.sectors sector).commitPoint
      if beforeJournalPoint point commit then commit else point) point

namespace RefCounts

/-- `unpackReferenceBlock`: copy the counters and commit points of a packed
block and recount its allocated counters over the whole block. -/
def unpackReferenceBlock (refCounts : RefCounts) (packed : PackedReferenceBlock)
    (blockIndex : ℕ) : RefCounts :=
  let copied : RefCounts :=
    { refCounts with
      counters := fun index =>
        if index ∈ blockRange blockIndex then packed.count (index - blockBase blockIndex)
        else refCounts.counters index
      slabJournalPoint := latestCommitPoint packed refCounts.slabJournalPoint }
  copied.modifyBlock blockIndex fun block =>
    { block with
      commitPoints := fun sector =>
        if sector < sectorsPerBlock then unpackJournalPoint (packed.sectors sector).commitPoint
        else block.commitPoints sector
      allocatedCount := countWhere (blockRange blockIndex) (· ≠ emptyReferenceCount) copied.counters }

/-- `clearProvisionalReferences`: provisional counters of a block become free
and leave its allocated count. -/
def clearProvisionalReferences (refCounts : RefCounts) (blockIndex : ℕ) : RefCounts :=
  let provisional :=
    countWhere (blockRange blockIndex) (· = provisionalReferenceCount) refCounts.counters
  let cleared : RefCounts :=
    { refCounts with
      counters := fun index =>
        if index ∈ blockRange blockIndex ∧ refCounts.counters index = provisionalReferenceCount
        then emptyReferenceCount else refCounts.counters index }
  cleared.modifyBlock blockIndex fun block =>
    { block with allocatedCount := block.allocatedCount - provisional }

/-- `finishReferenceBlockLoad`: unpack, clear provisional references and take
the block's allocated counters from the free total. -/
def finishReferenceBlockLoad (refCounts : RefCounts) (packed : PackedReferenceBlock)
    (blockIndex : ℕ) : RefCounts :=
  let loaded := (refCounts.unpackReferenceBlock packed blockIndex).clearProvisionalReferences
    blockIndex
  { loaded with freeBlocks := loaded.freeBlocks - (loaded.blocks blockIndex).allocatedCount }

end RefCounts

/-- `loadReferenceBlocks` followed by the completion of every block's read:
the free total starts at `blockCount` and each block is loaded from `disk`.
The reads complete in any order; they touch disjoint blocks, and here they are
taken in block order. -/
def loadReferenceBlocks (refCounts : RefCounts) (disk : ℕ → PackedReferenceBlock) : RefCounts :=
  (List.range refCounts.referenceBlockCount).foldl
    (fun loaded blockIndex => loaded.finishReferenceBlockLoad (disk blockIndex) blockIndex)
    { refCounts with freeBlocks := refCounts.blockCount }

/-- A write of a packed block that may tear: the sectors chosen by `written`
take the new contents, the others keep the old ones. -/
def tornWrite (old new : PackedReferenceBlock) (written : ℕ → Bool) : PackedReferenceBlock :=
  ⟨fun sector => if written sector then new.sectors sector else old.sectors sector⟩

end Vdo
