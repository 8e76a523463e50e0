import Vdo.Base.JournalPoint

/-!
# Reference counts of a slab

The reference counts of one slab (`refCounts.c`): a one-byte counter per data
block, grouped into reference blocks of `countsPerBlock` counters, with two
cached totals, the number of free counters of the slab and the number of
allocated counters of each reference block. A counter is `0` for a free block,
`1` to `254` for a referenced block and `255` for a provisional reference.

The array of counters and the array of reference blocks are total functions on
the natural numbers; only indices below `blockCount` (resp.
`referenceBlockCount`) are ever addressed by the code. The slab's admin state
(`isSlabOpen`) is passed to the functions that check it.
-/

namespace Vdo

/-- `SECTORS_PER_BLOCK`. -/
def sectorsPerBlock : ℕ := 8

/-- `COUNTS_PER_SECTOR`: a 512-byte sector less its packed commit point. -/
def countsPerSector : ℕ := 504

/-- `COUNTS_PER_BLOCK`. -/
def countsPerBlock : ℕ := countsPerSector * sectorsPerBlock

/-- `EMPTY_REFERENCE_COUNT`. -/
def emptyReferenceCount : ℕ := 0

/-- `MAXIMUM_REFERENCE_COUNT`. -/
def maximumReferenceCount : ℕ := 254

/-- `PROVISIONAL_REFERENCE_COUNT`. -/
def provisionalReferenceCount : ℕ := 255

/-- `ReferenceStatus`. -/
inductive ReferenceStatus
  | free
  | single
  | shared
  | provisional
  deriving DecidableEq, Repr

/-- `referenceCountToStatus`. -/
def referenceCountToStatus (count : ℕ) : ReferenceStatus :=
  if count = emptyReferenceCount then .free
  else if count = 1 then .single
  else if count = provisionalReferenceCount then .provisional
  else .shared

/-- The error codes the modelled functions return. -/
inductive VdoError
  | outOfRange
  | refCountInvalid
  | notImplemented
  | invalidAdminState
  | noSpace
  | assertionFailed
  | corruptJournal
  | outOfMemory
  deriving DecidableEq, Repr

/-- `ReferenceOperation`: the type of a change, its block, and whether
`getReferenceOperationPBNLock` finds a PBN lock for it. -/
structure ReferenceOperation where
  /-- The journal operation. -/
  type : JournalOperation
  /-- The physical block number to change. -/
  pbn : ℕ
  /-- Whether a PBN lock is associated with the operation. -/
  hasLock : Bool
  deriving DecidableEq, Repr

/-- `SlabJournalEntry`: a change of the counter of one slab block number. -/
structure SlabJournalEntry where
  /-- The slab block number. -/
  sbn : ℕ
  /-- The change. -/
  operation : JournalOperation
  deriving DecidableEq, Repr

/-- `ReferenceBlock`: the in-memory state of one reference block. -/
structure ReferenceBlock where
  /-- The number of non-zero counters of the block. -/
  allocatedCount : ℕ
  /-- The slab journal block on which this block holds a lock (`0` for none). -/
  slabJournalLock : ℕ
  /-- The slab journal lock to release when the current write completes. -/
  slabJournalLockToRelease : ℕ
  /-- The point up to which each sector is accurate on disk. -/
  commitPoints : ℕ → JournalPoint
  /-- Whether the block changed since it was last written. -/
  isDirty : Bool
  /-- Whether the block is being written. -/
  isWriting : Bool

/-- A reference block as `ALLOCATE` leaves it: every field zero. -/
def ReferenceBlock.initial : ReferenceBlock :=
  ⟨0, 0, 0, fun _ => JournalPoint.zero, false, false⟩

/-- `SearchCursor`: the reference block being searched for a free counter, the
next counter to look at and the end of that block's counters. The first block
is `0` and the last is `referenceBlockCount - 1`. -/
structure SearchCursor where
  /-- The reference block being searched. -/
  block : ℕ
  /-- The next counter index to examine. -/
  index : ℕ
  /-- The index just past the counters of the block. -/
  endIndex : ℕ
  deriving DecidableEq, Repr

/-- `RefCounts`: the fields of the C structure that the modelled functions use. -/
structure RefCounts where
  /-- The first physical block number of the slab (`slab->start`). -/
  start : ℕ
  /-- The number of counters, the slab's data blocks. -/
  blockCount : ℕ
  /-- The cached number of free counters. -/
  freeBlocks : ℕ
  /-- The number of reference blocks. -/
  referenceBlockCount : ℕ
  /-- The counters; indices past `blockCount` are the padding of the array. -/
  counters : ℕ → ℕ
  /-- The reference blocks. -/
  blocks : ℕ → ReferenceBlock
  /-- The slab journal point of the latest applied change. -/
  slabJournalPoint : JournalPoint
  /-- The free-block search cursor. -/
  searchCursor : SearchCursor
  /-- The queue of dirty reference blocks waiting to be written, oldest first. -/
  dirtyBlocks : List ℕ
  /-- The cursor never passes the last reference block (`searchCursor.lastBlock`). -/
  searchCursor_block_le : searchCursor.block ≤ referenceBlockCount - 1

/-- `computeBucketCount`: the number of buckets of `bucketSize` objects needed
for `objectCount` objects. -/
def computeBucketCount (objectCount bucketSize : ℕ) : ℕ :=
  objectCount / bucketSize + if 0 < objectCount % bucketSize then 1 else 0

/-- `getSavedReferenceCountSize`: the number of reference blocks of a slab. -/
def getSavedReferenceCountSize (blockCount : ℕ) : ℕ :=
  computeBucketCount blockCount countsPerBlock

/-- `getReferenceBlock`: the index of the reference block holding a counter. -/
def getReferenceBlock (slabBlockNumber : ℕ) : ℕ :=
  slabBlockNumber / countsPerBlock

/-- `slabBlockNumberFromPBN`: the slab block number of a physical block, or
`VDO_OUT_OF_RANGE` outside the slab's data blocks. -/
def slabBlockNumberFromPBN (start dataBlocks pbn : ℕ) : Except VdoError ℕ :=
  if pbn < start then .error .outOfRange
  else if dataBlocks ≤ pbn - start then .error .outOfRange
  else .ok (pbn - start)

namespace RefCounts

/-- The index of the last reference block (`searchCursor.lastBlock`). -/
def lastBlock (refCounts : RefCounts) : ℕ :=
  refCounts.referenceBlockCount - 1

/-- Store one counter. -/
def setCounter (refCounts : RefCounts) (index count : ℕ) : RefCounts :=
  { refCounts with counters := Function.update refCounts.counters index count }

/-- Change one reference block. -/
def modifyBlock (refCounts : RefCounts) (blockIndex : ℕ)
    (change : ReferenceBlock → ReferenceBlock) : RefCounts :=
  { refCounts with
    blocks := Function.update refCounts.blocks blockIndex (change (refCounts.blocks blockIndex)) }

/-- Account for a counter becoming non-zero: `block->allocatedCount++` and
`refCounts->freeBlocks--`. -/
def countAllocation (refCounts : RefCounts) (blockIndex : ℕ) : RefCounts :=
  { refCounts.modifyBlock blockIndex
      (fun block => { block with allocatedCount := block.allocatedCount + 1 }) with
    freeBlocks := refCounts.freeBlocks - 1 }

/-- Account for a counter becoming zero: `block->allocatedCount--` and
`refCounts->freeBlocks++`. -/
def countRelease (refCounts : RefCounts) (blockIndex : ℕ) : RefCounts :=
  { refCounts.modifyBlock blockIndex
      (fun block => { block with allocatedCount := block.allocatedCount - 1 }) with
    freeBlocks := refCounts.freeBlocks + 1 }

/-- `resetSearchCursor`. -/
def resetSearchCursor (refCounts : RefCounts) : RefCounts :=
  { refCounts with
    searchCursor := ⟨0, 0, min countsPerBlock refCounts.blockCount⟩
    searchCursor_block_le := Nat.zero_le _ }

/-- `dirtyBlock`: mark a block dirty and queue it unless it is already dirty or
is being written (the end of the write queues it again). -/
def dirtyBlock (refCounts : RefCounts) (blockIndex : ℕ) : RefCounts :=
  let block := refCounts.blocks blockIndex
  if block.isDirty then refCounts
  else
    let marked := refCounts.modifyBlock blockIndex fun block => { block with isDirty := true }
    if block.isWriting then marked
    else { marked with dirtyBlocks := marked.dirtyBlocks ++ [blockIndex] }

end RefCounts

/-- `makeRefCounts`: zeroed counters and blocks, every counter free, the search
cursor at the first block. -/
def makeRefCounts (blockCount start : ℕ) : RefCounts :=
  RefCounts.resetSearchCursor
    { start := start
      blockCount := blockCount
      freeBlocks := blockCount
      referenceBlockCount := getSavedReferenceCountSize blockCount
      counters := fun _ => emptyReferenceCount
      blocks := fun _ => ReferenceBlock.initial
      slabJournalPoint := JournalPoint.zero
      searchCursor := ⟨0, 0, 0⟩
      dirtyBlocks := []
      searchCursor_block_le := Nat.zero_le _ }

/-- What one counter update reports besides the new state: whether the block's
free status changed, whether it was a decrement of a provisional reference,
and the provisional-reference flag it set (`some true`) or cleared
(`some false`) on the operation's PBN lock. -/
structure UpdateReport where
  /-- `*freeStatusChanged`. -/
  freeStatusChanged : Bool
  /-- `*provisionalDecrementPtr`. -/
  provisionalDecrement : Bool
  /-- `assignProvisionalReference` or `unassignProvisionalReference` on the lock. -/
  lockProvisional : Option Bool
  deriving DecidableEq, Repr

namespace RefCounts

/-- `incrementForData`. -/
def incrementForData (refCounts : RefCounts) (slabBlockNumber : ℕ)
    (oldStatus : ReferenceStatus) (hasLock : Bool) : Except VdoError (RefCounts × UpdateReport) :=
  let unassign := if hasLock then some false else none
  match oldStatus with
  | .free =>
    .ok ((refCounts.setCounter slabBlockNumber 1).countAllocation
        (getReferenceBlock slabBlockNumber), ⟨true, false, unassign⟩)
  | .provisional => .ok (refCounts.setCounter slabBlockNumber 1, ⟨false, false, unassign⟩)
  | _ =>
    if maximumReferenceCount ≤ refCounts.counters slabBlockNumber then .error .refCountInvalid
    else .ok (refCounts.setCounter slabBlockNumber (refCounts.counters slabBlockNumber + 1),
      ⟨false, false, unassign⟩)

/-- `decrementForData`: a read lock on the block keeps its last reference as a
provisional one. -/
def decrementForData (refCounts : RefCounts) (slabBlockNumber : ℕ)
    (oldStatus : ReferenceStatus) (hasLock : Bool) : Except VdoError (RefCounts × UpdateReport) :=
  match oldStatus with
  | .free => .error .refCountInvalid
  | .provisional | .single =>
    if hasLock then
      .ok (refCounts.setCounter slabBlockNumber provisionalReferenceCount, ⟨false, false, some true⟩)
    else
      .ok ((refCounts.setCounter slabBlockNumber emptyReferenceCount).countRelease
        (getReferenceBlock slabBlockNumber), ⟨true, false, none⟩)
  | .shared =>
    .ok (refCounts.setCounter slabBlockNumber (refCounts.counters slabBlockNumber - 1),
      ⟨false, false, none⟩)

/-- `incrementForBlockMap`: in normal operation a block map block goes from
provisional to `MAXIMUM_REFERENCE_COUNT`; in recovery or rebuild from free. -/
def incrementForBlockMap (refCounts : RefCounts) (slabBlockNumber : ℕ)
    (oldStatus : ReferenceStatus) (hasLock normalOperation : Bool) :
    Except VdoError (RefCounts × UpdateReport) :=
  match oldStatus with
  | .free =>
    if normalOperation then .error .refCountInvalid
    else .ok ((refCounts.setCounter slabBlockNumber maximumReferenceCount).countAllocation
      (getReferenceBlock slabBlockNumber), ⟨true, false, none⟩)
  | .provisional =>
    if !normalOperation then .error .refCountInvalid
    else .ok (refCounts.setCounter slabBlockNumber maximumReferenceCount,
      ⟨false, false, if hasLock then some false else none⟩)
  | _ => .error .refCountInvalid

/-- Record the journal point of an applied change when it is valid. -/
def recordJournalPoint (refCounts : RefCounts) (slabJournalPoint : Option JournalPoint) :
    RefCounts :=
  match slabJournalPoint with
  | some point => if 0 < point.sequenceNumber then { refCounts with slabJournalPoint := point }
    else refCounts
  | none => refCounts

/-- `updateReferenceCount`. A decrement of a provisional reference returns
before the journal point is recorded. -/
def updateReferenceCount (refCounts : RefCounts) (slabBlockNumber : ℕ)
    (slabJournalPoint : Option JournalPoint) (operation : ReferenceOperation)
    (normalOperation : Bool) : Except VdoError (RefCounts × UpdateReport) :=
  let oldStatus := referenceCountToStatus (refCounts.counters slabBlockNumber)
  let recorded := fun (outcome : RefCounts × UpdateReport) =>
    (outcome.1.recordJournalPoint slabJournalPoint, outcome.2)
  match operation.type with
  | .dataIncrement =>
    (refCounts.incrementForData slabBlockNumber oldStatus operation.hasLock).map recorded
  | .dataDecrement =>
    (refCounts.decrementForData slabBlockNumber oldStatus operation.hasLock).map fun outcome =>
      if oldStatus = .provisional then (outcome.1, { outcome.2 with provisionalDecrement := true })
      else recorded outcome
  | .blockMapIncrement =>
    (refCounts.incrementForBlockMap slabBlockNumber oldStatus operation.hasLock
      normalOperation).map recorded
  | .blockMapDecrement => .error .notImplemented

end RefCounts

/-- The result of `adjustReferenceCount`: the new state, the return code with
the `freeStatusChanged` flag on success, the slab journal block whose per-entry
lock it releases (`adjustSlabJournalBlockReference(journal, s, -1)`), and the
provisional-reference flag it sets or clears on the operation's PBN lock. -/
structure AdjustOutcome where
  /-- The reference counts afterwards. -/
  refCounts : RefCounts
  /-- The return code; on success, `*freeStatusChanged`. -/
  result : Except VdoError Bool
  /-- The slab journal lock released. -/
  journalRelease : Option ℕ
  /-- The flag set on the PBN lock. -/
  lockProvisional : Option Bool

namespace RefCounts

/-- The part of `adjustReferenceCount` after a successful counter update: the
per-entry slab journal lock is released when the block is already dirty with
a lock of its own, and otherwise becomes the block's lock. -/
def adjustBlockLock (refCounts : RefCounts) (slabBlockNumber : ℕ)
    (slabJournalPoint : Option JournalPoint) (report : UpdateReport) : AdjustOutcome :=
  let blockIndex := getReferenceBlock slabBlockNumber
  let block := refCounts.blocks blockIndex
  if block.isDirty && decide (0 < block.slabJournalLock) then
    match slabJournalPoint with
    | some point =>
      if 0 < point.sequenceNumber then
        ⟨refCounts, .ok report.freeStatusChanged, some point.sequenceNumber, report.lockProvisional⟩
      else ⟨refCounts, .error .assertionFailed, none, report.lockProvisional⟩
    | none => ⟨refCounts, .error .assertionFailed, none, report.lockProvisional⟩
  else
    let lock := match slabJournalPoint with
      | some point => if 0 < point.sequenceNumber then point.sequenceNumber else 0
      | none => 0
    let locked := refCounts.modifyBlock blockIndex fun block => { block with slabJournalLock := lock }
    ⟨locked.dirtyBlock blockIndex, .ok report.freeStatusChanged, none, report.lockProvisional⟩

end RefCounts

/-- `adjustReferenceCount`: a change in normal operation, made for a slab
journal entry at `slabJournalPoint` (`none` when there is no entry). -/
def adjustReferenceCount (slabOpen : Bool) (refCounts : RefCounts)
    (operation : ReferenceOperation) (slabJournalPoint : Option JournalPoint) : AdjustOutcome :=
  if !slabOpen then ⟨refCounts, .error .invalidAdminState, none, none⟩
  else
    match slabBlockNumberFromPBN refCounts.start refCounts.blockCount operation.pbn with
    | .error e => ⟨refCounts, .error e, none, none⟩
    | .ok slabBlockNumber =>
      match refCounts.updateReferenceCount slabBlockNumber slabJournalPoint operation true with
      | .error e => ⟨refCounts, .error e, none, none⟩
      | .ok (updated, report) =>
        if report.provisionalDecrement then
          ⟨updated, .ok report.freeStatusChanged, none, report.lockProvisional⟩
        else updated.adjustBlockLock slabBlockNumber slabJournalPoint report

/-- `adjustReferenceCountForRebuild`: a change during read-only rebuild. -/
def adjustReferenceCountForRebuild (refCounts : RefCounts) (pbn : ℕ)
    (operation : JournalOperation) : Except VdoError RefCounts :=
  match slabBlockNumberFromPBN refCounts.start refCounts.blockCount pbn with
  | .error e => .error e
  | .ok slabBlockNumber =>
    match refCounts.updateReferenceCount slabBlockNumber none ⟨operation, pbn, false⟩ false with
    | .error e => .error e
    | .ok (updated, _) => .ok (updated.dirtyBlock (getReferenceBlock slabBlockNumber))

/-- The sector of its reference block that holds a counter. -/
def sectorOfCounter (slabBlockNumber : ℕ) : ℕ :=
  slabBlockNumber % countsPerBlock / countsPerSector

/-- `replayReferenceCountChange`: apply a slab journal entry unless the
sector's commit point shows the counter already reflects it. -/
def replayReferenceCountChange (refCounts : RefCounts) (entryPoint : JournalPoint)
    (entry : SlabJournalEntry) : Except VdoError RefCounts :=
  let blockIndex := getReferenceBlock entry.sbn
  let commitPoint := (refCounts.blocks blockIndex).commitPoints (sectorOfCounter entry.sbn)
  if !beforeJournalPoint commitPoint entryPoint then .ok refCounts
  else
    match refCounts.updateReferenceCount entry.sbn (some entryPoint)
        ⟨entry.operation, 0, false⟩ false with
    | .error e => .error e
    | .ok (updated, _) => .ok (updated.dirtyBlock blockIndex)

namespace RefCounts

/-- `makeProvisionalReference`: a free counter becomes provisional. -/
def makeProvisionalReference (refCounts : RefCounts) (slabBlockNumber : ℕ) : RefCounts :=
  (refCounts.setCounter slabBlockNumber provisionalReferenceCount).countAllocation
    (getReferenceBlock slabBlockNumber)

end RefCounts

/-- `provisionallyReferenceBlock`: make a free block provisionally referenced;
the flag tells whether the PBN lock was given the provisional reference. -/
def provisionallyReferenceBlock (slabOpen : Bool) (refCounts : RefCounts) (pbn : ℕ)
    (hasLock : Bool) : Except VdoError (RefCounts × Bool) :=
  if !slabOpen then .error .invalidAdminState
  else
    match slabBlockNumberFromPBN refCounts.start refCounts.blockCount pbn with
    | .error e => .error e
    | .ok slabBlockNumber =>
      if refCounts.counters slabBlockNumber = emptyReferenceCount then
        .ok (refCounts.makeProvisionalReference slabBlockNumber, hasLock)
      else .ok (refCounts, false)

/-- `resetReferenceCounts`: zero the slab's counters and totals and mark the
queued dirty blocks clean, emptying the queue. The padding past `blockCount`
is not touched. -/
def resetReferenceCounts (refCounts : RefCounts) : RefCounts :=
  { refCounts with
    counters := fun i => if i < refCounts.blockCount then emptyReferenceCount
      else refCounts.counters i
    freeBlocks := refCounts.blockCount
    slabJournalPoint := JournalPoint.zero
    blocks := fun b =>
      let block := refCounts.blocks b
      { block with
        allocatedCount := if b < refCounts.referenceBlockCount then 0 else block.allocatedCount
        isDirty := if b ∈ refCounts.dirtyBlocks then false else block.isDirty }
    dirtyBlocks := [] }

end Vdo
