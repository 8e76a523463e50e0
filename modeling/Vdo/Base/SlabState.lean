import Vdo.Base.SlabJournal

/-!
# A slab's journal and reference counts together

The slab journal and the reference counts of a slab trade locks: an entry's
lock is taken by the journal block and may be handed to the reference block the
entry changes; writing the reference block gives it back. This module puts the
two together with the queue of reference blocks that wait for a VIO, and models
the functions of `refCounts.c` and `slab.c` that move locks between them
(`acquireDirtyBlockLocks`, the three stages of a reference block write,
`modifySlabReferenceCount`) and the part of `addEntries` and
`addEntryFromWaiter` that makes an entry.
-/

namespace Vdo

/-- A slab's journal, its reference counts, and the reference blocks that
`launchReferenceBlockWrite` put in the VIO pool's wait queue. -/
structure SlabState where
  /-- The slab journal. -/
  journal : SlabJournal
  /-- The reference counts. -/
  refCounts : RefCounts
  /-- The reference blocks waiting for a VIO, oldest first. -/
  vioWaiters : List ℕ

namespace RefCounts

/-- `dirtyAllReferenceBlocks`. -/
def dirtyAllReferenceBlocks (refCounts : RefCounts) : RefCounts :=
  (List.range refCounts.referenceBlockCount).foldl dirtyBlock refCounts

/-- The loop of `acquireDirtyBlockLocks` that gives every reference block a lock
on journal block 1. -/
def lockAllReferenceBlocks (refCounts : RefCounts) : RefCounts :=
  (List.range refCounts.referenceBlockCount).foldl
    (fun refCounts blockIndex =>
      refCounts.modifyBlock blockIndex fun block => { block with slabJournalLock := 1 })
    refCounts

end RefCounts

namespace SlabState

/-- `acquireDirtyBlockLocks`: every reference block is dirtied and takes a lock
on journal block 1, the first block of the journal. -/
def acquireDirtyBlockLocks (state : SlabState) : SlabState :=
  { state with
    refCounts := state.refCounts.dirtyAllReferenceBlocks.lockAllReferenceBlocks
    journal := state.journal.adjustSlabJournalBlockReference 1
      state.refCounts.referenceBlockCount }

/-- `saveOldestReferenceBlock`: `launchReferenceBlockWrite` for the oldest dirty
block, which is marked writing and waits for a VIO. -/
def saveOldestReferenceBlock (state : SlabState) : SlabState :=
  match state.refCounts.dirtyBlocks with
  | [] => state
  | blockIndex :: rest =>
    { state with
      refCounts := { state.refCounts.modifyBlock blockIndex fun block => { block with isWriting := true } with
        dirtyBlocks := rest }
      vioWaiters := state.vioWaiters ++ [blockIndex] }

/-- `writeReferenceBlock`, once block `blockIndex` has its VIO: the block is
packed with the changes made so far, the lock it holds becomes the one its
write will release, and it is clean. -/
def writeReferenceBlock (state : SlabState) (blockIndex : ℕ) : SlabState :=
  { state with
    refCounts := state.refCounts.modifyBlock blockIndex fun block =>
      { block with slabJournalLockToRelease := block.slabJournalLock, isDirty := false }
    vioWaiters := state.vioWaiters.erase blockIndex }

/-- `finishReferenceBlockWrite`: the write's lock goes back to the journal, and
a block dirtied again while it was writing joins the dirty queue. -/
def finishReferenceBlockWrite (state : SlabState) (blockIndex : ℕ) : SlabState :=
  let block := state.refCounts.blocks blockIndex
  let finished := state.refCounts.modifyBlock blockIndex fun block => { block with isWriting := false }
  { state with
    journal := state.journal.adjustSlabJournalBlockReference block.slabJournalLockToRelease (-1)
    refCounts := if block.isDirty then { finished with dirtyBlocks := finished.dirtyBlocks ++ [blockIndex] }
      else finished }

/-- `modifySlabReferenceCount` for an entry at `point`: an unrecovered slab
gives the entry's lock back and leaves its counts to scrubbing; otherwise
`adjustReferenceCount` makes the change and may give the lock back. -/
def modifySlabReferenceCount (state : SlabState) (unrecovered slabOpen : Bool)
    (point : JournalPoint) (operation : ReferenceOperation) : SlabState :=
  if unrecovered then
    { state with journal := state.journal.adjustSlabJournalBlockReference point.sequenceNumber (-1) }
  else
    let outcome := adjustReferenceCount slabOpen state.refCounts operation (some point)
    { state with
      refCounts := outcome.refCounts
      journal := match outcome.journalRelease with
        | some sequenceNumber => state.journal.adjustSlabJournalBlockReference sequenceNumber (-1)
        | none => state.journal }

/-- The loop of `addEntries` up to notifying the first waiter, whose operation
is `operation`; `none` when the loop stops first. A block map increment that
does not fit asks for a commit, which is the step `commitSlabJournalTail`. The
first entry of a block takes the block's locks, one per entry and one for its
summary update, and the first block of the journal also takes the locks of
every reference block. -/
def prepareEntry (state : SlabState) (operation : JournalOperation) : Option SlabState :=
  let journal := state.journal
  if journal.waitingToCommit then none
  else if operation = .blockMapIncrement ∧ journal.fullEntriesPerBlock ≤ journal.entryCount then none
  else if journal.requiresReaping then none
  else if journal.entryCount ≠ 0 then some state
  else if 0 < journal.lockCount journal.tail then none
  else
    let locked := { state with
      journal := journal.setLockCount journal.tail ((journal.entriesPerBlock + 1) % 2 ^ 16)
        (Nat.mod_lt _ (by norm_num)) }
    some (if journal.tail = 1 then locked.acquireDirtyBlockLocks else locked)

/-- `addEntryFromWaiter`: the entry takes the next position of the tail block,
and then the reference counts change. -/
def addEntryFromWaiter (state : SlabState) (operation : ReferenceOperation)
    (unrecovered slabOpen : Bool) : SlabState :=
  let point : JournalPoint := ⟨state.journal.tail, state.journal.entryCount⟩
  modifySlabReferenceCount { state with journal := state.journal.addEntry operation.type }
    unrecovered slabOpen point operation

end SlabState

end Vdo
