import Vdo.Base.RefCounts

/-!
# The slab journal and its block locks

A slab journal is a ring of `size` on-disk blocks, and each position of the
ring has a lock count (`locks[sequence % size].count`) that keeps the block
there from being reaped. A block starts with one lock per entry it can hold and
one more for the slab summary update that will cover it; the locks go back as
entries are made, as the block is written with unused entries, as the summary
update completes, and as the reference blocks that took locks over are written.
Reaping advances past blocks whose count is zero.

This module models the fields of `struct slabJournal` and of its tail block
header that the locking reads and writes, and the functions of `slabJournal.c`
that change them. The recovery journal locks, the VIO pool, the statistics, the
drain and read-only paths and the contents of the blocks are not modelled.
-/

namespace Vdo

/-- The fields of `struct slabJournal` and of its tail block header that the
block locks depend on. The configuration facts are those `configureSlab` and
`makeSlabJournal` establish: the blocking threshold is at most the journal's
size, and a block with block map increments holds some entries, fewer than a
block without. -/
structure SlabJournal where
  /-- The number of blocks of the on-disk ring. -/
  size : ℕ
  /-- `SLAB_JOURNAL_ENTRIES_PER_BLOCK`. -/
  entriesPerBlock : ℕ
  /-- `SLAB_JOURNAL_FULL_ENTRIES_PER_BLOCK`: the entries of a block with block
  map increments. -/
  fullEntriesPerBlock : ℕ
  /-- The journal length at which new entries wait for reaping. -/
  blockingThreshold : ℕ
  /-- The oldest block still on disk. -/
  head : ℕ
  /-- The oldest block that has not been reaped. -/
  unreapable : ℕ
  /-- The block being filled. -/
  tail : ℕ
  /-- The oldest block not yet known to be on disk. -/
  nextCommit : ℕ
  /-- The block after the last one of the slab summary update in progress. -/
  summarized : ℕ
  /-- The block after the last one of the last completed summary update. -/
  lastSummarized : ℕ
  /-- Whether the tail block waits for a VIO to be written. -/
  waitingToCommit : Bool
  /-- Whether a slab summary update is in progress. -/
  updatingSlabSummary : Bool
  /-- `tailHeader.entryCount`. -/
  entryCount : ℕ
  /-- `tailHeader.hasBlockMapIncrements`. -/
  hasBlockMapIncrements : Bool
  /-- `locks[offset].count`, a 16-bit count per position of the ring. -/
  locks : ℕ → ℕ
  /-- The blocks of `uncommittedBlocks`, written but not yet complete, oldest
  first. -/
  uncommittedBlocks : List ℕ
  /-- Whether `adjustSlabJournalBlockReference` has logged that a decrement
  would underflow a lock count (its `ASSERT_LOG_ONLY`). -/
  underflowLogged : Bool
  size_pos : 0 < size
  locks_lt : ∀ offset, locks offset < 2 ^ 16
  blockingThreshold_le : blockingThreshold ≤ size
  fullEntriesPerBlock_pos : 0 < fullEntriesPerBlock
  fullEntriesPerBlock_le : fullEntriesPerBlock ≤ entriesPerBlock

namespace SlabJournal

/-- `getSlabJournalBlockOffset`: the position of a block in the ring. -/
def getSlabJournalBlockOffset (journal : SlabJournal) (sequence : ℕ) : ℕ :=
  sequence % journal.size

/-- `getLock(journal, sequenceNumber)->count`. -/
def lockCount (journal : SlabJournal) (sequenceNumber : ℕ) : ℕ :=
  journal.locks (journal.getSlabJournalBlockOffset sequenceNumber)

/-- Storing a 16-bit count keeps every count within 16 bits. -/
theorem update_locks_lt (journal : SlabJournal) (offset count : ℕ) (hcount : count < 2 ^ 16) :
    ∀ offset', Function.update journal.locks offset count offset' < 2 ^ 16 := by
  intro offset'
  rw [Function.update_apply]
  split_ifs
  · exact hcount
  · exact journal.locks_lt offset'

/-- Store a 16-bit lock count at a block's position. -/
def setLockCount (journal : SlabJournal) (sequenceNumber count : ℕ) (hcount : count < 2 ^ 16) :
    SlabJournal :=
  { journal with
    locks := Function.update journal.locks (journal.getSlabJournalBlockOffset sequenceNumber) count
    locks_lt := journal.update_locks_lt _ count hcount }

/-- A 16-bit sum is below `2 ^ 16`. -/
theorem toNat_emod_lt (sum : ℤ) : (sum % 2 ^ 16).toNat < 2 ^ 16 := by
  omega

/-- `adjustSlabJournalBlockReference` outside replay: sequence number 0 holds no
lock, a decrement larger than the count is logged, and `lock->count += adjustment`
wraps at 16 bits. The reap it starts when the count reaches zero is a step of
its own. -/
def adjustSlabJournalBlockReference (journal : SlabJournal) (sequenceNumber : ℕ)
    (adjustment : ℤ) : SlabJournal :=
  if sequenceNumber = 0 then journal
  else
    let adjusted := journal.setLockCount sequenceNumber
      (((journal.lockCount sequenceNumber : ℤ) + adjustment) % 2 ^ 16).toNat (toNat_emod_lt _)
    { adjusted with
      underflowLogged := journal.underflowLogged ||
        decide (adjustment < 0 ∧ (journal.lockCount sequenceNumber : ℤ) < -adjustment) }

/-- `blockIsFull`. -/
def blockIsFull (journal : SlabJournal) : Bool :=
  if journal.hasBlockMapIncrements then journal.fullEntriesPerBlock == journal.entryCount
  else journal.entriesPerBlock == journal.entryCount

/-- `requiresReaping`: the journal has reached its blocking threshold. -/
def requiresReaping (journal : SlabJournal) : Bool :=
  decide (journal.blockingThreshold ≤ journal.tail - journal.head)

/-- `isReaping`: a reap waits for its flush. -/
def isReaping (journal : SlabJournal) : Bool :=
  journal.head != journal.unreapable

/-- `commitSlabJournalTail`: a tail block with entries asks for a VIO to be
written, unless it already waits for one. -/
def commitSlabJournalTail (journal : SlabJournal) : SlabJournal :=
  if journal.waitingToCommit || journal.entryCount == 0 then journal
  else { journal with waitingToCommit := true }

/-- `addEntry` past its assertions: `encodeSlabJournalEntry` counts the entry
and notes a block map increment, and a full block is committed. -/
def addEntry (journal : SlabJournal) (operation : JournalOperation) : SlabJournal :=
  let encoded := { journal with
    entryCount := journal.entryCount + 1
    hasBlockMapIncrements :=
      journal.hasBlockMapIncrements || decide (operation = JournalOperation.blockMapIncrement) }
  if encoded.blockIsFull then encoded.commitSlabJournalTail else encoded

/-- `writeSlabJournalBlock`, once the VIO has come: the locks of the unused
entries of the tail block are released, the block joins the uncommitted ones
and the next block becomes the tail. -/
def writeSlabJournalBlock (journal : SlabJournal) : SlabJournal :=
  let unusedEntries : ℤ := (journal.entriesPerBlock : ℤ) - journal.entryCount
  let released := if 0 < unusedEntries then
      journal.adjustSlabJournalBlockReference journal.tail (-unusedEntries)
    else journal
  { released with
    uncommittedBlocks := journal.uncommittedBlocks ++ [journal.tail]
    tail := journal.tail + 1
    entryCount := 0
    hasBlockMapIncrements := false
    waitingToCommit := false }

/-- `updateTailBlockLocation`: start a slab summary update up to the commit
point unless one is in progress or the summary is up to date. -/
def updateTailBlockLocation (journal : SlabJournal) : SlabJournal :=
  if journal.updatingSlabSummary || decide (journal.nextCommit ≤ journal.lastSummarized) then
    journal
  else { journal with summarized := journal.nextCommit, updatingSlabSummary := true }

/-- `completeWrite` after a successful write of block `committed`: the commit
point becomes the oldest block still being written, or the tail. -/
def completeWrite (journal : SlabJournal) (committed : ℕ) : SlabJournal :=
  let remaining := journal.uncommittedBlocks.erase committed
  updateTailBlockLocation
    { journal with uncommittedBlocks := remaining, nextCommit := remaining.headD journal.tail }

/-- The loop of `releaseJournalLocks`: one lock of each block from `summarized - 1`
down to `first` is released. -/
def releaseSummarizedLocks (journal : SlabJournal) (first summarized : ℕ) : SlabJournal :=
  (List.range' first (summarized - first)).reverse.foldl
    (fun journal i => journal.adjustSlabJournalBlockReference i (-1)) journal

/-- `releaseJournalLocks` after a successful slab summary update. The reap it
starts is a step of its own. -/
def releaseJournalLocks (journal : SlabJournal) : SlabJournal :=
  let released := journal.releaseSummarizedLocks journal.lastSummarized journal.summarized
  updateTailBlockLocation
    { released with lastSummarized := journal.summarized, updatingSlabSummary := false }

/-- The loop of `reapSlabJournal`: advance past blocks whose lock count is
zero, at most `fuel` times. -/
def advanceUnreapable (journal : SlabJournal) : ℕ → SlabJournal
  | 0 => journal
  | fuel + 1 =>
    if journal.unreapable < journal.tail ∧ journal.lockCount journal.unreapable = 0 then
      advanceUnreapable { journal with unreapable := journal.unreapable + 1 } fuel
    else journal

/-- `reapSlabJournal` in normal operation: unless a reap is already waiting for
its flush, advance past unlocked blocks; the loop stops at the tail, so it runs
at most `tail - unreapable` times. -/
def reapSlabJournal (journal : SlabJournal) : SlabJournal :=
  if journal.isReaping then journal
  else journal.advanceUnreapable (journal.tail - journal.unreapable)

/-- `finishReaping`: the reaped blocks leave the journal. -/
def finishReaping (journal : SlabJournal) : SlabJournal :=
  { journal with head := journal.unreapable }

/-- `attemptReplayIntoSlabJournal` for an entry after the tail block's recovery
point (an earlier one is skipped and changes nothing), with whether the entry
was made. A block map increment that does not fit commits the tail block first;
a tail block waiting to be written makes the entry wait. A journal as long as
the ring moves its head and unreapable block on, the block at the head having
been reaped before the crash. -/
def attemptReplayIntoSlabJournal (journal : SlabJournal) (operation : JournalOperation) :
    SlabJournal × Bool :=
  let committed := if journal.fullEntriesPerBlock ≤ journal.entryCount ∧
      (journal.hasBlockMapIncrements = true ∨ operation = .blockMapIncrement) then
      journal.commitSlabJournalTail
    else journal
  if committed.waitingToCommit then (committed, false)
  else
    let advanced := if committed.size ≤ committed.tail - committed.head then
        { committed with head := committed.head + 1, unreapable := committed.unreapable + 1 }
      else committed
    (advanced.addEntry operation, true)

/-! ## What the lock functions leave alone -/

/-- A lock adjustment changes the lock counts and the log, nothing else. -/
theorem adjustSlabJournalBlockReference_eq (journal : SlabJournal) (s : ℕ) (adjustment : ℤ) :
    ∃ locks hlocks logged, journal.adjustSlabJournalBlockReference s adjustment =
      { journal with locks := locks, locks_lt := hlocks, underflowLogged := logged } := by
  unfold adjustSlabJournalBlockReference
  split_ifs
  · exact ⟨journal.locks, journal.locks_lt, journal.underflowLogged, rfl⟩
  · exact ⟨_, journal.update_locks_lt _ _ (toNat_emod_lt _), _, rfl⟩

section Frame

variable (journal : SlabJournal) (s : ℕ) (adjustment : ℤ)

@[simp] theorem adjustSlabJournalBlockReference_size :
    (journal.adjustSlabJournalBlockReference s adjustment).size = journal.size := by
  obtain ⟨_, _, _, h⟩ := journal.adjustSlabJournalBlockReference_eq s adjustment
  rw [h]

@[simp] theorem adjustSlabJournalBlockReference_entriesPerBlock :
    (journal.adjustSlabJournalBlockReference s adjustment).entriesPerBlock = journal.entriesPerBlock := by
  obtain ⟨_, _, _, h⟩ := journal.adjustSlabJournalBlockReference_eq s adjustment
  rw [h]

@[simp] theorem adjustSlabJournalBlockReference_fullEntriesPerBlock :
    (journal.adjustSlabJournalBlockReference s adjustment).fullEntriesPerBlock =
      journal.fullEntriesPerBlock := by
  obtain ⟨_, _, _, h⟩ := journal.adjustSlabJournalBlockReference_eq s adjustment
  rw [h]

@[simp] theorem adjustSlabJournalBlockReference_blockingThreshold :
    (journal.adjustSlabJournalBlockReference s adjustment).blockingThreshold =
      journal.blockingThreshold := by
  obtain ⟨_, _, _, h⟩ := journal.adjustSlabJournalBlockReference_eq s adjustment
  rw [h]

@[simp] theorem adjustSlabJournalBlockReference_head :
    (journal.adjustSlabJournalBlockReference s adjustment).head = journal.head := by
  obtain ⟨_, _, _, h⟩ := journal.adjustSlabJournalBlockReference_eq s adjustment
  rw [h]

@[simp] theorem adjustSlabJournalBlockReference_unreapable :
    (journal.adjustSlabJournalBlockReference s adjustment).unreapable = journal.unreapable := by
  obtain ⟨_, _, _, h⟩ := journal.adjustSlabJournalBlockReference_eq s adjustment
  rw [h]

@[simp] theorem adjustSlabJournalBlockReference_tail :
    (journal.adjustSlabJournalBlockReference s adjustment).tail = journal.tail := by
  obtain ⟨_, _, _, h⟩ := journal.adjustSlabJournalBlockReference_eq s adjustment
  rw [h]

@[simp] theorem adjustSlabJournalBlockReference_nextCommit :
    (journal.adjustSlabJournalBlockReference s adjustment).nextCommit = journal.nextCommit := by
  obtain ⟨_, _, _, h⟩ := journal.adjustSlabJournalBlockReference_eq s adjustment
  rw [h]

@[simp] theorem adjustSlabJournalBlockReference_summarized :
    (journal.adjustSlabJournalBlockReference s adjustment).summarized = journal.summarized := by
  obtain ⟨_, _, _, h⟩ := journal.adjustSlabJournalBlockReference_eq s adjustment
  rw [h]

@[simp] theorem adjustSlabJournalBlockReference_lastSummarized :
    (journal.adjustSlabJournalBlockReference s adjustment).lastSummarized = journal.lastSummarized := by
  obtain ⟨_, _, _, h⟩ := journal.adjustSlabJournalBlockReference_eq s adjustment
  rw [h]

@[simp] theorem adjustSlabJournalBlockReference_waitingToCommit :
    (journal.adjustSlabJournalBlockReference s adjustment).waitingToCommit = journal.waitingToCommit := by
  obtain ⟨_, _, _, h⟩ := journal.adjustSlabJournalBlockReference_eq s adjustment
  rw [h]

@[simp] theorem adjustSlabJournalBlockReference_updatingSlabSummary :
    (journal.adjustSlabJournalBlockReference s adjustment).updatingSlabSummary =
      journal.updatingSlabSummary := by
  obtain ⟨_, _, _, h⟩ := journal.adjustSlabJournalBlockReference_eq s adjustment
  rw [h]

@[simp] theorem adjustSlabJournalBlockReference_entryCount :
    (journal.adjustSlabJournalBlockReference s adjustment).entryCount = journal.entryCount := by
  obtain ⟨_, _, _, h⟩ := journal.adjustSlabJournalBlockReference_eq s adjustment
  rw [h]

@[simp] theorem adjustSlabJournalBlockReference_hasBlockMapIncrements :
    (journal.adjustSlabJournalBlockReference s adjustment).hasBlockMapIncrements =
      journal.hasBlockMapIncrements := by
  obtain ⟨_, _, _, h⟩ := journal.adjustSlabJournalBlockReference_eq s adjustment
  rw [h]

@[simp] theorem adjustSlabJournalBlockReference_uncommittedBlocks :
    (journal.adjustSlabJournalBlockReference s adjustment).uncommittedBlocks =
      journal.uncommittedBlocks := by
  obtain ⟨_, _, _, h⟩ := journal.adjustSlabJournalBlockReference_eq s adjustment
  rw [h]

@[simp] theorem adjustSlabJournalBlockReference_getSlabJournalBlockOffset :
    (journal.adjustSlabJournalBlockReference s adjustment).getSlabJournalBlockOffset =
      journal.getSlabJournalBlockOffset := by
  funext sequence
  simp [getSlabJournalBlockOffset]

end Frame

/-! ## Lock counts -/

/-- Two blocks less than `size` apart use different positions of the ring. -/
theorem offset_ne {journal : SlabJournal} {s s' low : ℕ} (hs : low ≤ s)
    (hs' : low ≤ s') (hlt : s < low + journal.size) (hlt' : s' < low + journal.size)
    (hne : s ≠ s') : journal.getSlabJournalBlockOffset s ≠ journal.getSlabJournalBlockOffset s' := by
  intro heq
  apply hne
  apply Nat.ModEq.eq_of_abs_lt heq
  rw [abs_lt]
  constructor <;> omega

@[simp] theorem setLockCount_lockCount_self (journal : SlabJournal) (s count : ℕ)
    (hcount : count < 2 ^ 16) : (journal.setLockCount s count hcount).lockCount s = count := by
  simp [setLockCount, lockCount, getSlabJournalBlockOffset]

theorem setLockCount_lockCount_of_ne {journal : SlabJournal} {s s' count : ℕ}
    {hcount : count < 2 ^ 16}
    (hne : journal.getSlabJournalBlockOffset s' ≠ journal.getSlabJournalBlockOffset s) :
    (journal.setLockCount s count hcount).lockCount s' = journal.lockCount s' := by
  simp only [setLockCount, lockCount, getSlabJournalBlockOffset] at *
  rw [Function.update_of_ne hne]

/-- An adjustment that stays within 16 bits adds to the count. -/
theorem adjustSlabJournalBlockReference_lockCount_self {journal : SlabJournal} {s : ℕ}
    {adjustment : ℤ} (hs : 0 < s) (hlow : 0 ≤ (journal.lockCount s : ℤ) + adjustment)
    (hhigh : (journal.lockCount s : ℤ) + adjustment < 2 ^ 16) :
    ((journal.adjustSlabJournalBlockReference s adjustment).lockCount s : ℤ) =
      journal.lockCount s + adjustment := by
  have hsame : ((journal.adjustSlabJournalBlockReference s adjustment).lockCount s) =
      (journal.setLockCount s (((journal.lockCount s : ℤ) + adjustment) % 2 ^ 16).toNat
        (toNat_emod_lt _)).lockCount s := by
    rw [adjustSlabJournalBlockReference, if_neg (by omega)]
    rfl
  rw [hsame, setLockCount_lockCount_self, Int.emod_eq_of_lt hlow hhigh, Int.toNat_of_nonneg hlow]

/-- An adjustment leaves the counts of the other positions alone. -/
theorem adjustSlabJournalBlockReference_lockCount_of_ne {journal : SlabJournal} {s s' : ℕ}
    {adjustment : ℤ}
    (hne : journal.getSlabJournalBlockOffset s' ≠ journal.getSlabJournalBlockOffset s) :
    (journal.adjustSlabJournalBlockReference s adjustment).lockCount s' = journal.lockCount s' := by
  unfold adjustSlabJournalBlockReference
  split_ifs
  · rfl
  · exact @setLockCount_lockCount_of_ne journal s s' _ (toNat_emod_lt _) hne

/-- An adjustment that stays within 16 bits adds to the count of its block's
position and leaves the others alone. -/
theorem adjustSlabJournalBlockReference_lockCount {journal : SlabJournal} {s : ℕ} {adjustment : ℤ}
    (hs : 0 < s) (hlow : 0 ≤ (journal.lockCount s : ℤ) + adjustment)
    (hhigh : (journal.lockCount s : ℤ) + adjustment < 2 ^ 16) (s' : ℕ) :
    ((journal.adjustSlabJournalBlockReference s adjustment).lockCount s' : ℤ) =
      if journal.getSlabJournalBlockOffset s' = journal.getSlabJournalBlockOffset s then
        journal.lockCount s + adjustment
      else journal.lockCount s' := by
  split_ifs with hoffset
  · have hsame : ∀ other : SlabJournal, other.getSlabJournalBlockOffset = journal.getSlabJournalBlockOffset →
        other.lockCount s' = other.lockCount s := by
      intro other hother
      unfold lockCount
      rw [hother, hoffset]
    rw [hsame _ (adjustSlabJournalBlockReference_getSlabJournalBlockOffset _ _ _)]
    exact adjustSlabJournalBlockReference_lockCount_self hs hlow hhigh
  · rw [adjustSlabJournalBlockReference_lockCount_of_ne hoffset]

/-- An adjustment logs nothing when it does not take more than the count. -/
theorem adjustSlabJournalBlockReference_underflowLogged {journal : SlabJournal} {s : ℕ}
    {adjustment : ℤ} (hlow : 0 ≤ (journal.lockCount s : ℤ) + adjustment) :
    (journal.adjustSlabJournalBlockReference s adjustment).underflowLogged =
      journal.underflowLogged := by
  unfold adjustSlabJournalBlockReference
  split_ifs
  · rfl
  · simp only [Bool.or_eq_left_iff_imp, decide_eq_true_eq]
    omega

end SlabJournal

/-! ## The journal functions field by field -/

namespace SlabJournal

/-- `commitSlabJournalTail` only sets `waitingToCommit`, when the tail block has
entries. -/
theorem commitSlabJournalTail_eq (journal : SlabJournal) :
    journal.commitSlabJournalTail =
      { journal with waitingToCommit := journal.waitingToCommit || journal.entryCount != 0 } := by
  unfold commitSlabJournalTail
  split_ifs with hskip
  · have hsame : (journal.waitingToCommit || journal.entryCount != 0) = journal.waitingToCommit := by
      revert hskip
      cases journal.waitingToCommit <;> simp
    rw [hsame]
  · have hset : (journal.waitingToCommit || journal.entryCount != 0) = true := by
      revert hskip
      cases journal.waitingToCommit <;> simp
    rw [hset]

/-- `addEntry` counts the entry, notes a block map increment, and asks for the
tail block to be written once it is full. -/
theorem addEntry_eq (journal : SlabJournal) (operation : JournalOperation) :
    journal.addEntry operation =
      let encoded : SlabJournal := { journal with
        entryCount := journal.entryCount + 1
        hasBlockMapIncrements :=
          journal.hasBlockMapIncrements || decide (operation = JournalOperation.blockMapIncrement) }
      { encoded with waitingToCommit := encoded.waitingToCommit || encoded.blockIsFull } := by
  unfold addEntry
  dsimp only
  split_ifs with hfull
  · rw [commitSlabJournalTail_eq, hfull]
    simp
  · rw [Bool.not_eq_true] at hfull
    rw [hfull, Bool.or_false]

section AddEntryFrame

variable (journal : SlabJournal) (operation : JournalOperation)

@[simp] theorem addEntry_entryCount : (journal.addEntry operation).entryCount = journal.entryCount + 1 := by
  rw [addEntry_eq]

@[simp] theorem addEntry_size : (journal.addEntry operation).size = journal.size := by rw [addEntry_eq]

@[simp] theorem addEntry_entriesPerBlock :
    (journal.addEntry operation).entriesPerBlock = journal.entriesPerBlock := by rw [addEntry_eq]

@[simp] theorem addEntry_head : (journal.addEntry operation).head = journal.head := by rw [addEntry_eq]

@[simp] theorem addEntry_unreapable : (journal.addEntry operation).unreapable = journal.unreapable := by
  rw [addEntry_eq]

@[simp] theorem addEntry_tail : (journal.addEntry operation).tail = journal.tail := by rw [addEntry_eq]

@[simp] theorem addEntry_lastSummarized :
    (journal.addEntry operation).lastSummarized = journal.lastSummarized := by rw [addEntry_eq]

@[simp] theorem addEntry_locks : (journal.addEntry operation).locks = journal.locks := by rw [addEntry_eq]

@[simp] theorem addEntry_underflowLogged :
    (journal.addEntry operation).underflowLogged = journal.underflowLogged := by rw [addEntry_eq]

@[simp] theorem addEntry_getSlabJournalBlockOffset :
    (journal.addEntry operation).getSlabJournalBlockOffset = journal.getSlabJournalBlockOffset := by
  funext sequence
  unfold getSlabJournalBlockOffset
  rw [addEntry_size]

@[simp] theorem addEntry_lockCount : (journal.addEntry operation).lockCount = journal.lockCount := by
  funext sequence
  unfold lockCount
  rw [addEntry_locks, addEntry_getSlabJournalBlockOffset]

end AddEntryFrame

/-- `writeSlabJournalBlock` changes the lock counts and the log, queues the tail
block as uncommitted and starts the next one. -/
theorem writeSlabJournalBlock_eq (journal : SlabJournal) :
    ∃ locks hlocks logged, journal.writeSlabJournalBlock =
      { journal with
        locks := locks, locks_lt := hlocks, underflowLogged := logged
        uncommittedBlocks := journal.uncommittedBlocks ++ [journal.tail]
        tail := journal.tail + 1
        entryCount := 0
        hasBlockMapIncrements := false
        waitingToCommit := false } := by
  unfold writeSlabJournalBlock
  dsimp only
  split_ifs
  · obtain ⟨locks, hlocks, logged, hadjust⟩ := journal.adjustSlabJournalBlockReference_eq journal.tail
      (-((journal.entriesPerBlock : ℤ) - journal.entryCount))
    exact ⟨locks, hlocks, logged, by rw [hadjust]⟩
  · exact ⟨journal.locks, journal.locks_lt, journal.underflowLogged, rfl⟩

/-- Writing the tail block gives back the locks of its unused entries, and logs
nothing when the tail block holds that many. -/
theorem writeSlabJournalBlock_locks {journal : SlabJournal} (htail : 0 < journal.tail)
    (hunused : journal.entriesPerBlock - journal.entryCount ≤ journal.lockCount journal.tail) :
    (∀ s, journal.writeSlabJournalBlock.lockCount s =
      if journal.getSlabJournalBlockOffset s = journal.getSlabJournalBlockOffset journal.tail then
        journal.lockCount journal.tail - (journal.entriesPerBlock - journal.entryCount)
      else journal.lockCount s) ∧
    journal.writeSlabJournalBlock.underflowLogged = journal.underflowLogged := by
  have hbound := journal.locks_lt (journal.getSlabJournalBlockOffset journal.tail)
  unfold writeSlabJournalBlock
  dsimp only
  split_ifs with hpos
  · have hlow : 0 ≤ (journal.lockCount journal.tail : ℤ) + -((journal.entriesPerBlock : ℤ) - journal.entryCount) := by
      omega
    have hhigh : (journal.lockCount journal.tail : ℤ) + -((journal.entriesPerBlock : ℤ) - journal.entryCount) <
        2 ^ 16 := by
      unfold lockCount
      omega
    refine ⟨fun s => ?_, adjustSlabJournalBlockReference_underflowLogged hlow⟩
    have hcount := adjustSlabJournalBlockReference_lockCount htail hlow hhigh s
    show (journal.adjustSlabJournalBlockReference journal.tail _).lockCount s = _
    split_ifs at hcount ⊢ <;> omega
  · refine ⟨fun s => ?_, rfl⟩
    show journal.lockCount s = _
    split_ifs with hoffset
    · unfold lockCount
      rw [hoffset]
      omega
    · rfl

/-- `updateTailBlockLocation` does nothing, or starts a summary update up to the
commit point when none is in progress and the commit point is past the last
summarized block. -/
theorem updateTailBlockLocation_cases (journal : SlabJournal) :
    journal.updateTailBlockLocation = journal ∨
      (journal.updatingSlabSummary = false ∧ journal.lastSummarized < journal.nextCommit ∧
        journal.updateTailBlockLocation =
          { journal with summarized := journal.nextCommit, updatingSlabSummary := true }) := by
  unfold updateTailBlockLocation
  by_cases hskip : (journal.updatingSlabSummary || decide (journal.nextCommit ≤ journal.lastSummarized)) = true
  · exact Or.inl (if_pos hskip)
  · simp only [Bool.or_eq_true, decide_eq_true_eq, not_or] at hskip
    refine Or.inr ⟨by simpa using hskip.1, by omega, ?_⟩
    rw [if_neg]
    simp only [Bool.or_eq_true, decide_eq_true_eq, not_or]
    exact hskip

/-- `updateTailBlockLocation` changes only the summary update's fields. -/
theorem updateTailBlockLocation_eq (journal : SlabJournal) :
    ∃ summarized updating, journal.updateTailBlockLocation =
      { journal with summarized := summarized, updatingSlabSummary := updating } := by
  rcases journal.updateTailBlockLocation_cases with hsame | ⟨-, -, hupdate⟩
  · exact ⟨journal.summarized, journal.updatingSlabSummary, hsame⟩
  · exact ⟨_, _, hupdate⟩

/-- `completeWrite` changes only the blocks being written, the commit point and
the summary update's fields. -/
theorem completeWrite_eq (journal : SlabJournal) (committed : ℕ) :
    ∃ summarized updating, journal.completeWrite committed =
      { journal with
        uncommittedBlocks := journal.uncommittedBlocks.erase committed
        nextCommit := (journal.uncommittedBlocks.erase committed).headD journal.tail
        summarized := summarized
        updatingSlabSummary := updating } :=
  updateTailBlockLocation_eq _

/-- A property of journals that every iteration of the reap loop keeps holds
after the loop. -/
theorem advanceUnreapable_induction (P : SlabJournal → Prop)
    (hstep : ∀ journal, P journal → journal.unreapable < journal.tail →
      journal.lockCount journal.unreapable = 0 → P { journal with unreapable := journal.unreapable + 1 })
    {journal : SlabJournal} (h : P journal) (fuel : ℕ) : P (journal.advanceUnreapable fuel) := by
  induction fuel generalizing journal with
  | zero => exact h
  | succ fuel ih =>
    unfold advanceUnreapable
    split_ifs with hfree
    · exact ih (hstep journal h hfree.1 hfree.2)
    · exact h

end SlabJournal

/-! ## Releasing one lock of several blocks -/

namespace SlabJournal

/-- Release one lock of each block of `blocks`, in order. -/
def releaseEach (journal : SlabJournal) (blocks : List ℕ) : SlabJournal :=
  blocks.foldl (fun journal i => journal.adjustSlabJournalBlockReference i (-1)) journal

theorem releaseSummarizedLocks_eq (journal : SlabJournal) (first summarized : ℕ) :
    journal.releaseSummarizedLocks first summarized =
      journal.releaseEach (List.range' first (summarized - first)).reverse := rfl

/-- Releases change the lock counts and the log, nothing else. -/
theorem releaseEach_eq (journal : SlabJournal) (blocks : List ℕ) :
    ∃ locks hlocks logged, journal.releaseEach blocks =
      { journal with locks := locks, locks_lt := hlocks, underflowLogged := logged } := by
  induction blocks generalizing journal with
  | nil => exact ⟨journal.locks, journal.locks_lt, journal.underflowLogged, rfl⟩
  | cons i rest ih =>
    obtain ⟨locks, hlocks, logged, h⟩ := ih (journal.adjustSlabJournalBlockReference i (-1))
    obtain ⟨locks', hlocks', logged', h'⟩ := journal.adjustSlabJournalBlockReference_eq i (-1)
    refine ⟨locks, hlocks, logged, ?_⟩
    change (journal.adjustSlabJournalBlockReference i (-1)).releaseEach rest = _
    rw [h, h']

/-- `releaseJournalLocks` changes the lock counts and the log, records the
summary update as complete, and may start the next one. -/
theorem releaseJournalLocks_eq (journal : SlabJournal) :
    ∃ locks hlocks logged, journal.releaseJournalLocks =
      updateTailBlockLocation { journal with
        locks := locks, locks_lt := hlocks, underflowLogged := logged
        lastSummarized := journal.summarized
        updatingSlabSummary := false } := by
  obtain ⟨locks, hlocks, logged, hreleased⟩ := journal.releaseEach_eq
    (List.range' journal.lastSummarized (journal.summarized - journal.lastSummarized)).reverse
  refine ⟨locks, hlocks, logged, ?_⟩
  unfold releaseJournalLocks
  rw [releaseSummarizedLocks_eq, hreleased]

/-- Releasing one lock of each of several blocks at distinct positions, each
with a lock, takes one from each of their counts and logs nothing. -/
theorem releaseEach_lockCount {journal : SlabJournal} {blocks : List ℕ}
    (hpos : ∀ i ∈ blocks, 0 < i) (hdistinct : (blocks.map journal.getSlabJournalBlockOffset).Nodup)
    (hlocked : ∀ i ∈ blocks, 1 ≤ journal.lockCount i) :
    (∀ s, (journal.releaseEach blocks).lockCount s = journal.lockCount s -
      if ∃ i ∈ blocks, journal.getSlabJournalBlockOffset i = journal.getSlabJournalBlockOffset s
      then 1 else 0) ∧
    (journal.releaseEach blocks).underflowLogged = journal.underflowLogged := by
  induction blocks generalizing journal with
  | nil => simp [releaseEach]
  | cons i rest ih =>
    rw [List.map_cons, List.nodup_cons] at hdistinct
    set released := journal.adjustSlabJournalBlockReference i (-1)
    have hi : 0 < i := hpos i List.mem_cons_self
    have hself : (released.lockCount i : ℤ) = journal.lockCount i - 1 :=
      adjustSlabJournalBlockReference_lockCount_self hi
        (by have := hlocked i List.mem_cons_self; omega)
        (by have := journal.locks_lt (journal.getSlabJournalBlockOffset i); unfold lockCount; omega)
    have hother : ∀ s, journal.getSlabJournalBlockOffset s ≠ journal.getSlabJournalBlockOffset i →
        released.lockCount s = journal.lockCount s := fun s hs =>
      adjustSlabJournalBlockReference_lockCount_of_ne hs
    have hrest := @ih released (fun k hk => hpos k (List.mem_cons_of_mem i hk))
      (by simpa [released] using hdistinct.2)
      (fun k hk => by
        have hne : journal.getSlabJournalBlockOffset k ≠ journal.getSlabJournalBlockOffset i :=
          fun heq => hdistinct.1 (List.mem_map.mpr ⟨k, hk, heq⟩)
        rw [hother k hne]
        exact hlocked k (List.mem_cons_of_mem i hk))
    have hlogged : released.underflowLogged = journal.underflowLogged :=
      adjustSlabJournalBlockReference_underflowLogged (by have := hlocked i List.mem_cons_self; omega)
    change (∀ s, (released.releaseEach rest).lockCount s = _) ∧
      (released.releaseEach rest).underflowLogged = _
    refine ⟨fun s => ?_, hrest.2.trans hlogged⟩
    rw [hrest.1 s]
    simp only [released, adjustSlabJournalBlockReference_getSlabJournalBlockOffset, List.mem_cons,
      exists_eq_or_imp]
    by_cases hs : journal.getSlabJournalBlockOffset i = journal.getSlabJournalBlockOffset s
    · have hnone : ¬∃ k ∈ rest,
          journal.getSlabJournalBlockOffset k = journal.getSlabJournalBlockOffset s := by
        rintro ⟨k, hk, heq⟩
        exact hdistinct.1 (List.mem_map.mpr ⟨k, hk, heq.trans hs.symm⟩)
      have hcount : released.lockCount s = released.lockCount i := by
        simp only [lockCount, released, adjustSlabJournalBlockReference_getSlabJournalBlockOffset, hs]
      have hcount' : journal.lockCount s = journal.lockCount i := by
        simp only [lockCount, hs]
      rw [if_neg hnone, if_pos (Or.inl hs), hcount, hcount']
      omega
    · rw [hother s (Ne.symm hs)]
      simp only [hs, false_or]

end SlabJournal

end Vdo
