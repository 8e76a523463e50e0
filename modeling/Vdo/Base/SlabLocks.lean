import Vdo.Base.SlabState
import Vdo.Lib.Reachability

/-!
# The lock protocol of a slab, with its history

The steps of a slab that move slab journal locks, each the model of a function
of `slabJournal.c` or `refCounts.c` or of the completion that calls it, and the
history those steps leave behind that the state itself forgets: how many
per-entry locks of each journal block have been given back or will never be,
and which journal blocks have changes that a reference block has not yet
written. The history is only recorded, never read by a step, so the tracked
system has exactly the runs of the slab.

Completions the source runs nested inside a step (the reap that a count
reaching zero starts, the entries `finishReaping` and `writeSlabJournalBlock`
go on to make, the reference block writes `addEntryFromWaiter` asks for) are
steps of their own here, which may come right after the step or later.
-/

namespace Vdo

/-- What the slab state does not keep about its locks: per journal block, the
per-entry locks given back (to the journal, or handed over to a reference block)
and those that never will be; per reference block, the journal blocks with a
change it holds but has not packed for writing, and those with a change in the
write it has in flight. -/
structure LockHistory where
  /-- Per-entry locks of each journal block given back. -/
  released : ℕ → ℕ
  /-- Per-entry locks of each journal block that stay taken. -/
  kept : ℕ → ℕ
  /-- Journal blocks with a change a reference block has not packed. -/
  unsaved : ℕ → Finset ℕ
  /-- Journal blocks with a change in a reference block's write in flight. -/
  inFlight : ℕ → Finset ℕ

/-- A slab together with the history of its locks. -/
structure TrackedSlab where
  /-- The slab. -/
  state : SlabState
  /-- The history of its locks. -/
  history : LockHistory

/-- The reference block whose counter an operation changes, when its PBN is in
the slab. -/
def changedBlock (refCounts : RefCounts) (operation : ReferenceOperation) : Option ℕ :=
  match slabBlockNumberFromPBN refCounts.start refCounts.blockCount operation.pbn with
  | .ok slabBlockNumber => some (getReferenceBlock slabBlockNumber)
  | .error _ => none

/-- Whether a change handed the lock on journal block `sequence` to reference
block `blockIndex`: the block held no lock and now holds that one. -/
def lockHanded (before after : RefCounts) (blockIndex sequence : ℕ) : Bool :=
  !((before.blocks blockIndex).isDirty && decide (0 < (before.blocks blockIndex).slabJournalLock)) &&
    ((after.blocks blockIndex).isDirty && (after.blocks blockIndex).slabJournalLock == sequence)

namespace LockHistory

/-- Journal block `sequence` gets `count` per-entry locks back. -/
def giveBack (history : LockHistory) (sequence count : ℕ) : LockHistory :=
  { history with released := Function.update history.released sequence (history.released sequence + count) }

/-- A per-entry lock of journal block `sequence` stays taken. -/
def keep (history : LockHistory) (sequence : ℕ) : LockHistory :=
  { history with kept := Function.update history.kept sequence (history.kept sequence + 1) }

/-- Reference block `blockIndex` holds a change journaled in block `sequence`. -/
def recordChange (history : LockHistory) (blockIndex sequence : ℕ) : LockHistory :=
  { history with
    unsaved := Function.update history.unsaved blockIndex (insert sequence (history.unsaved blockIndex)) }

/-- The history of an entry made on the prepared state: the entry's lock is
given back by an unrecovered slab, given back or handed over by a change, and
kept otherwise; a change that succeeds is held by its reference block. -/
def recordEntry (history : LockHistory) (prepared : SlabState) (operation : ReferenceOperation)
    (unrecovered slabOpen : Bool) : LockHistory :=
  let sequence := prepared.journal.tail
  if unrecovered then history.giveBack sequence 1
  else
    let outcome := adjustReferenceCount slabOpen prepared.refCounts operation
      (some ⟨sequence, prepared.journal.entryCount⟩)
    match changedBlock prepared.refCounts operation, outcome.result with
    | some blockIndex, .ok _ =>
      let changed := history.recordChange blockIndex sequence
      if outcome.journalRelease.isSome ||
          lockHanded prepared.refCounts outcome.refCounts blockIndex sequence then
        changed.giveBack sequence 1
      else changed.keep sequence
    | _, _ => history.keep sequence

/-- Reference block `blockIndex` packs its changes into the write it launches. -/
def pack (history : LockHistory) (blockIndex : ℕ) : LockHistory :=
  { history with
    unsaved := Function.update history.unsaved blockIndex ∅
    inFlight := Function.update history.inFlight blockIndex (history.unsaved blockIndex) }

/-- The write of reference block `blockIndex` is on disk. -/
def written (history : LockHistory) (blockIndex : ℕ) : LockHistory :=
  { history with inFlight := Function.update history.inFlight blockIndex ∅ }

section Fields

variable (history : LockHistory) (sequence count blockIndex s b : ℕ)

@[simp] theorem giveBack_released : (history.giveBack sequence count).released s =
    if s = sequence then history.released sequence + count else history.released s := by
  simp [giveBack, Function.update_apply]

@[simp] theorem giveBack_kept : (history.giveBack sequence count).kept = history.kept := rfl
@[simp] theorem giveBack_unsaved : (history.giveBack sequence count).unsaved = history.unsaved := rfl
@[simp] theorem giveBack_inFlight : (history.giveBack sequence count).inFlight = history.inFlight := rfl

@[simp] theorem keep_kept : (history.keep sequence).kept s =
    if s = sequence then history.kept sequence + 1 else history.kept s := by
  simp [keep, Function.update_apply]

@[simp] theorem keep_released : (history.keep sequence).released = history.released := rfl
@[simp] theorem keep_unsaved : (history.keep sequence).unsaved = history.unsaved := rfl
@[simp] theorem keep_inFlight : (history.keep sequence).inFlight = history.inFlight := rfl

@[simp] theorem recordChange_unsaved : (history.recordChange blockIndex sequence).unsaved b =
    if b = blockIndex then insert sequence (history.unsaved blockIndex) else history.unsaved b := by
  simp [recordChange, Function.update_apply]

@[simp] theorem recordChange_released : (history.recordChange blockIndex sequence).released = history.released :=
  rfl
@[simp] theorem recordChange_kept : (history.recordChange blockIndex sequence).kept = history.kept := rfl
@[simp] theorem recordChange_inFlight : (history.recordChange blockIndex sequence).inFlight = history.inFlight :=
  rfl

@[simp] theorem pack_unsaved : (history.pack blockIndex).unsaved b =
    if b = blockIndex then ∅ else history.unsaved b := by
  simp [pack, Function.update_apply]

@[simp] theorem pack_inFlight : (history.pack blockIndex).inFlight b =
    if b = blockIndex then history.unsaved blockIndex else history.inFlight b := by
  simp [pack, Function.update_apply]

@[simp] theorem pack_released : (history.pack blockIndex).released = history.released := rfl
@[simp] theorem pack_kept : (history.pack blockIndex).kept = history.kept := rfl

@[simp] theorem written_inFlight : (history.written blockIndex).inFlight b =
    if b = blockIndex then ∅ else history.inFlight b := by
  simp [written, Function.update_apply]

@[simp] theorem written_released : (history.written blockIndex).released = history.released := rfl
@[simp] theorem written_kept : (history.written blockIndex).kept = history.kept := rfl
@[simp] theorem written_unsaved : (history.written blockIndex).unsaved = history.unsaved := rfl

end Fields

end LockHistory

/-- The steps of a slab outside offline replay and read-only mode. -/
inductive SlabStep : TrackedSlab → TrackedSlab → Prop
  /-- `addEntries` lets the first waiter make its entry (`addEntryFromWaiter`);
  the slab may be unrecovered, and closed when the change is made. -/
  | addEntry {t : TrackedSlab} {prepared : SlabState} (operation : ReferenceOperation)
      (unrecovered slabOpen : Bool) (hprepare : t.state.prepareEntry operation.type = some prepared) :
      SlabStep t ⟨prepared.addEntryFromWaiter operation unrecovered slabOpen,
        t.history.recordEntry prepared operation unrecovered slabOpen⟩
  /-- `commitSlabJournalTail`. -/
  | commitSlabJournalTail {t : TrackedSlab} :
      SlabStep t ⟨{ t.state with journal := t.state.journal.commitSlabJournalTail }, t.history⟩
  /-- The tail block gets its VIO (`writeSlabJournalBlock`). -/
  | writeSlabJournalBlock {t : TrackedSlab} (hwaiting : t.state.journal.waitingToCommit = true) :
      SlabStep t ⟨{ t.state with journal := t.state.journal.writeSlabJournalBlock },
        t.history.giveBack t.state.journal.tail
          (t.state.journal.entriesPerBlock - t.state.journal.entryCount)⟩
  /-- A journal block write completes (`completeWrite`). -/
  | completeWrite {t : TrackedSlab} {committed : ℕ}
      (hcommitted : committed ∈ t.state.journal.uncommittedBlocks) :
      SlabStep t ⟨{ t.state with journal := t.state.journal.completeWrite committed }, t.history⟩
  /-- The slab summary update completes (`releaseJournalLocks`). -/
  | releaseJournalLocks {t : TrackedSlab} (hupdating : t.state.journal.updatingSlabSummary = true) :
      SlabStep t ⟨{ t.state with journal := t.state.journal.releaseJournalLocks }, t.history⟩
  /-- `reapSlabJournal`. -/
  | reapSlabJournal {t : TrackedSlab} :
      SlabStep t ⟨{ t.state with journal := t.state.journal.reapSlabJournal }, t.history⟩
  /-- The flush before reaping completes (`completeReaping`). -/
  | finishReaping {t : TrackedSlab} (hreaping : t.state.journal.isReaping = true) :
      SlabStep t ⟨{ t.state with journal := t.state.journal.finishReaping }, t.history⟩
  /-- `saveOldestReferenceBlock`, which `saveSeveralReferenceBlocks` and
  `saveDirtyReferenceBlocks` repeat. -/
  | saveOldestReferenceBlock {t : TrackedSlab} :
      SlabStep t ⟨t.state.saveOldestReferenceBlock, t.history⟩
  /-- A waiting reference block gets its VIO (`writeReferenceBlock`). -/
  | writeReferenceBlock {t : TrackedSlab} {blockIndex : ℕ}
      (hwaiting : blockIndex ∈ t.state.vioWaiters) :
      SlabStep t ⟨t.state.writeReferenceBlock blockIndex, t.history.pack blockIndex⟩
  /-- A reference block write completes (`finishReferenceBlockWrite`). -/
  | finishReferenceBlockWrite {t : TrackedSlab} {blockIndex : ℕ}
      (hwriting : (t.state.refCounts.blocks blockIndex).isWriting = true)
      (hlaunched : blockIndex ∉ t.state.vioWaiters) :
      SlabStep t ⟨t.state.finishReferenceBlockWrite blockIndex, t.history.written blockIndex⟩

/-- A slab whose journal `initializeJournalState` has just set up with
`head = tail` and no locks, whose reference blocks are all clean and idle, and
whose history is empty. The reference counts have a reference block per
`COUNTS_PER_BLOCK` counters, and the 16-bit lock counts have room for a block's
entries, its summary lock and two locks per reference block. -/
structure SlabStart (t : TrackedSlab) : Prop where
  head_pos : 0 < t.state.journal.head
  unreapable_eq : t.state.journal.unreapable = t.state.journal.head
  tail_eq : t.state.journal.tail = t.state.journal.head
  nextCommit_eq : t.state.journal.nextCommit = t.state.journal.head
  summarized_eq : t.state.journal.summarized = t.state.journal.head
  lastSummarized_eq : t.state.journal.lastSummarized = t.state.journal.head
  waitingToCommit_eq : t.state.journal.waitingToCommit = false
  updatingSlabSummary_eq : t.state.journal.updatingSlabSummary = false
  entryCount_eq : t.state.journal.entryCount = 0
  hasBlockMapIncrements_eq : t.state.journal.hasBlockMapIncrements = false
  locks_eq : ∀ offset, t.state.journal.locks offset = 0
  uncommittedBlocks_eq : t.state.journal.uncommittedBlocks = []
  underflowLogged_eq : t.state.journal.underflowLogged = false
  blocks_idle : ∀ blockIndex, (t.state.refCounts.blocks blockIndex).isDirty = false ∧
    (t.state.refCounts.blocks blockIndex).isWriting = false
  dirtyBlocks_eq : t.state.refCounts.dirtyBlocks = []
  vioWaiters_eq : t.state.vioWaiters = []
  referenceBlockCount_eq :
    t.state.refCounts.referenceBlockCount = getSavedReferenceCountSize t.state.refCounts.blockCount
  capacity : t.state.journal.entriesPerBlock + 1 + 2 * t.state.refCounts.referenceBlockCount < 2 ^ 16
  history_eq : t.history = ⟨fun _ => 0, fun _ => 0, fun _ => ∅, fun _ => ∅⟩

/-! ## What the lock counts are made of -/

/-- How many locks on journal block `s` a reference block holds: one as its
lock while it is dirty, and one as the lock its write will release while that
write, past waiting for its VIO, is in flight. -/
def ReferenceBlock.holds (block : ReferenceBlock) (waiting : Bool) (s : ℕ) : ℕ :=
  (if block.isDirty = true ∧ block.slabJournalLock = s then 1 else 0) +
    (if block.isWriting = true ∧ waiting = false ∧ block.slabJournalLockToRelease = s then 1 else 0)

namespace SlabState

/-- The locks on journal block `s` that reference block `blockIndex` holds. -/
def holdsAt (state : SlabState) (blockIndex s : ℕ) : ℕ :=
  (state.refCounts.blocks blockIndex).holds (decide (blockIndex ∈ state.vioWaiters)) s

/-- The locks on journal block `s` that the reference blocks hold. -/
def heldBy (state : SlabState) (s : ℕ) : ℕ :=
  ∑ blockIndex ∈ Finset.range state.refCounts.referenceBlockCount, state.holdsAt blockIndex s

/-- The lock on journal block `s` that the slab summary update covering it
will release: `1` until that update completes. -/
def summaryPending (state : SlabState) (s : ℕ) : ℕ :=
  if state.journal.lastSummarized ≤ s then 1 else 0

/-- Journal block `s` has taken its locks and has not been reaped; the tail
block counts as started when `tailOpen` holds. -/
def Opened (state : SlabState) (tailOpen : Prop) (s : ℕ) : Prop :=
  state.journal.unreapable ≤ s ∧
    (s < state.journal.tail ∨ s = state.journal.tail ∧ tailOpen)

/-- Journal block `s` has been started (it has an entry) and not reaped. -/
def Started (state : SlabState) (s : ℕ) : Prop :=
  state.Opened (0 < state.journal.entryCount) s

end SlabState

end Vdo
