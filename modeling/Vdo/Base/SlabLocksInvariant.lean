import Vdo.Base.SlabLocksSpec
import Vdo.Base.SlabJournalWindow
import Vdo.Lib.IndexCount

/-!
# Lock conservation in a slab

Every started, unreaped block of a slab journal has a lock count made of three
parts: the per-entry locks not yet given back, one lock until the slab summary
update covering the block completes, and the locks the reference blocks hold on
it, as their own lock while dirty or as the lock their write in flight will
release. The invariant `TrackedSlab.LockInvariant` states this equation together
with what keeps it true: the positions of the ring used by unreaped blocks are
distinct and the others hold no locks, every lock a reference block holds is on
a started, unreaped block, and every change a reference block has not written
is on a journal block that cannot be reaped. One lemma per step shows that the
step keeps it; the run lemma is `TrackedSlab.lockInvariant_of_reachable`.
-/

namespace Vdo

open IndexCount SlabJournal

/-! ## The locks reference blocks hold -/

namespace SlabState

variable {state state' : SlabState}

theorem holdsAt_of_dirty {blockIndex : ℕ} (hdirty : (state.refCounts.blocks blockIndex).isDirty = true) :
    1 ≤ state.holdsAt blockIndex (state.refCounts.blocks blockIndex).slabJournalLock := by
  unfold holdsAt ReferenceBlock.holds
  rw [if_pos ⟨hdirty, rfl⟩]
  omega

theorem holdsAt_of_inFlight {blockIndex : ℕ}
    (hwriting : (state.refCounts.blocks blockIndex).isWriting = true)
    (hlaunched : blockIndex ∉ state.vioWaiters) :
    1 ≤ state.holdsAt blockIndex (state.refCounts.blocks blockIndex).slabJournalLockToRelease := by
  have hflight : (state.refCounts.blocks blockIndex).isWriting = true ∧
      decide (blockIndex ∈ state.vioWaiters) = false ∧
      (state.refCounts.blocks blockIndex).slabJournalLockToRelease =
        (state.refCounts.blocks blockIndex).slabJournalLockToRelease :=
    ⟨hwriting, by simpa using hlaunched, rfl⟩
  unfold holdsAt ReferenceBlock.holds
  rw [if_pos hflight]
  omega

/-- A lock a reference block holds is counted. -/
theorem holdsAt_le_heldBy {blockIndex : ℕ} (hblock : blockIndex < state.refCounts.referenceBlockCount)
    (s : ℕ) : state.holdsAt blockIndex s ≤ state.heldBy s := by
  unfold heldBy
  exact Finset.single_le_sum (fun other _ => Nat.zero_le (state.holdsAt other s))
    (Finset.mem_range.mpr hblock)

/-- States whose reference blocks hold the same locks on `s` agree on the count. -/
theorem heldBy_congr (hcount : state'.refCounts.referenceBlockCount = state.refCounts.referenceBlockCount)
    {s : ℕ} (h : ∀ blockIndex < state.refCounts.referenceBlockCount,
      state'.holdsAt blockIndex s = state.holdsAt blockIndex s) :
    state'.heldBy s = state.heldBy s := by
  unfold heldBy
  rw [hcount]
  exact Finset.sum_congr rfl fun blockIndex hblock => h blockIndex (Finset.mem_range.mp hblock)

/-- A change to the locks of one reference block changes the count by that
block's difference. -/
theorem heldBy_add_of_eq_off
    (hcount : state'.refCounts.referenceBlockCount = state.refCounts.referenceBlockCount)
    {blockIndex s : ℕ} (hblock : blockIndex < state.refCounts.referenceBlockCount)
    (h : ∀ other < state.refCounts.referenceBlockCount, other ≠ blockIndex →
      state'.holdsAt other s = state.holdsAt other s) :
    state'.heldBy s + state.holdsAt blockIndex s = state.heldBy s + state'.holdsAt blockIndex s := by
  unfold heldBy
  rw [hcount]
  exact sum_add_of_eq_off (Finset.mem_range.mpr hblock) fun other hother hne =>
    h other (Finset.mem_range.mp hother) hne

/-- States whose reference blocks agree on their lock fields and that have the
same VIO waiters hold the same locks on every journal block. -/
theorem heldBy_of_sameLocks (hsame : state.refCounts.SameLocks state'.refCounts)
    (hwaiters : state'.vioWaiters = state.vioWaiters) (s : ℕ) : state'.heldBy s = state.heldBy s := by
  refine heldBy_congr hsame.referenceBlockCount_eq fun blockIndex _ => ?_
  unfold holdsAt ReferenceBlock.holds
  rw [hsame.isDirty_eq, hsame.isWriting_eq, hsame.slabJournalLock_eq, hsame.slabJournalLockToRelease_eq,
    hwaiters]

theorem Opened.congr {tailOpen tailOpen' : Prop} (hopen : tailOpen ↔ tailOpen') {s : ℕ} :
    state.Opened tailOpen s ↔ state.Opened tailOpen' s := by
  rw [propext hopen]

end SlabState

/-! ## The invariant -/

/-- The facts about a slab's reference block queues: the dirty queue holds
dirty blocks not being written and the VIO waiters dirty blocks being written,
each once; there is a reference block per `COUNTS_PER_BLOCK` counters; and the
16-bit counts have room for a block's entries, its summary lock and two locks
per reference block. -/
structure SlabState.Queues (state : SlabState) : Prop where
  queued : ∀ blockIndex ∈ state.refCounts.dirtyBlocks,
    (state.refCounts.blocks blockIndex).isDirty = true ∧
      (state.refCounts.blocks blockIndex).isWriting = false
  dirtyBlocks_nodup : state.refCounts.dirtyBlocks.Nodup
  waiting : ∀ blockIndex ∈ state.vioWaiters,
    (state.refCounts.blocks blockIndex).isWriting = true ∧
      (state.refCounts.blocks blockIndex).isDirty = true
  vioWaiters_nodup : state.vioWaiters.Nodup
  referenceBlockCount_eq :
    state.refCounts.referenceBlockCount = getSavedReferenceCountSize state.refCounts.blockCount
  capacity : state.journal.entriesPerBlock + 1 + 2 * state.refCounts.referenceBlockCount < 2 ^ 16

/-- The lock accounting of a tracked slab, with the tail block counted as
started when `tailOpen` holds. Each started block's count is its per-entry locks
not given back, plus its summary lock, plus the locks reference blocks hold on
it; its per-entry locks are given back or kept, one per entry made (all of them
once the block is written). The other positions of the ring hold nothing, and
blocks not started have no history. Every lock a reference block holds is on a
started block, every change a reference block has not written is on a block at
or after that lock or on a block keeping a lock, and no underflow was logged. -/
structure TrackedSlab.Accounting (t : TrackedSlab) (tailOpen : Prop) : Prop where
  count_eq : ∀ s, t.state.Opened tailOpen s →
    t.state.journal.lockCount s + t.history.released s =
      t.state.journal.entriesPerBlock + t.state.summaryPending s + t.state.heldBy s
  entries_eq : ∀ s, t.state.Opened tailOpen s →
    t.history.released s + t.history.kept s =
      if s = t.state.journal.tail then t.state.journal.entryCount else t.state.journal.entriesPerBlock
  window : ∀ s, t.state.Opened tailOpen s → s < t.state.journal.unreapable + t.state.journal.size
  idle_count : ∀ s, t.state.journal.unreapable ≤ s →
    s < t.state.journal.unreapable + t.state.journal.size → ¬t.state.Opened tailOpen s →
      t.state.journal.lockCount s = 0
  idle_history : ∀ s, t.state.journal.unreapable ≤ s → ¬t.state.Opened tailOpen s →
    t.history.released s = 0 ∧ t.history.kept s = 0
  reaped_kept : ∀ s < t.state.journal.unreapable, t.history.kept s = 0
  dirty_held : ∀ blockIndex, (t.state.refCounts.blocks blockIndex).isDirty = true →
    blockIndex < t.state.refCounts.referenceBlockCount ∧
      t.state.Opened tailOpen (t.state.refCounts.blocks blockIndex).slabJournalLock
  inFlight_held : ∀ blockIndex, (t.state.refCounts.blocks blockIndex).isWriting = true →
    blockIndex ∉ t.state.vioWaiters →
      blockIndex < t.state.refCounts.referenceBlockCount ∧
        t.state.Opened tailOpen (t.state.refCounts.blocks blockIndex).slabJournalLockToRelease
  unsaved_mem : ∀ blockIndex, ∀ sequence ∈ t.history.unsaved blockIndex, 0 < sequence ∧
    ((t.state.refCounts.blocks blockIndex).isDirty = true ∧
        (t.state.refCounts.blocks blockIndex).slabJournalLock ≤ sequence ∨
      0 < t.history.kept sequence)
  inFlight_mem : ∀ blockIndex, ∀ sequence ∈ t.history.inFlight blockIndex, 0 < sequence ∧
    ((t.state.refCounts.blocks blockIndex).isWriting = true ∧ blockIndex ∉ t.state.vioWaiters ∧
        (t.state.refCounts.blocks blockIndex).slabJournalLockToRelease ≤ sequence ∨
      0 < t.history.kept sequence)
  inFlight_idle : ∀ blockIndex, ((t.state.refCounts.blocks blockIndex).isWriting = true →
    blockIndex ∈ t.state.vioWaiters) → t.history.inFlight blockIndex = ∅
  underflowLogged_eq : t.state.journal.underflowLogged = false

/-- The invariant of every reachable tracked slab: the journal's window, no
unreaped block past the last completed slab summary update, the queues, and the
lock accounting. -/
structure TrackedSlab.LockInvariant (t : TrackedSlab) : Prop where
  window : t.state.journal.Window
  unreapable_le_lastSummarized : t.state.journal.unreapable ≤ t.state.journal.lastSummarized
  queues : t.state.Queues
  accounting : t.Accounting (0 < t.state.journal.entryCount)

/-- The journal of a starting slab is as `initializeJournalState` leaves it. -/
theorem SlabStart.initialized {t : TrackedSlab} (h : SlabStart t) : t.state.journal.Initialized := by
  have htail := h.tail_eq
  constructor
  case head_pos => exact h.head_pos
  case head_le_tail => rw [htail]
  case tail_le => rw [htail]; exact Nat.le_add_right _ _
  case unreapable_eq => exact h.unreapable_eq
  case nextCommit_eq => rw [h.nextCommit_eq, htail]
  case summarized_eq => rw [h.summarized_eq, htail]
  case lastSummarized_eq => rw [h.lastSummarized_eq, htail]
  case entryCount_eq => exact h.entryCount_eq
  case waitingToCommit_eq => exact h.waitingToCommit_eq
  case uncommittedBlocks_eq => exact h.uncommittedBlocks_eq

namespace TrackedSlab

variable {t : TrackedSlab}

/-- A slab as `initializeJournalState` sets it up satisfies the invariant: no
block is started, no position holds a lock and no reference block does. -/
theorem lockInvariant_of_start (h : SlabStart t) : t.LockInvariant := by
  have hnone : ∀ s, ¬t.state.Opened (0 < t.state.journal.entryCount) s := by
    rintro s ⟨hlow, hs | ⟨-, hpos⟩⟩
    · rw [h.unreapable_eq] at hlow
      rw [h.tail_eq] at hs
      omega
    · rw [h.entryCount_eq] at hpos
      exact Nat.lt_irrefl 0 hpos
  have hhistory := h.history_eq
  refine ⟨Window.of_initialized h.initialized, ?_, ?_, ?_⟩
  · rw [h.unreapable_eq, h.lastSummarized_eq]
  · constructor
    case referenceBlockCount_eq => exact h.referenceBlockCount_eq
    case capacity => exact h.capacity
    case queued => simp [h.dirtyBlocks_eq]
    case dirtyBlocks_nodup =>
      rw [h.dirtyBlocks_eq]
      exact List.nodup_nil
    case waiting => simp [h.vioWaiters_eq]
    case vioWaiters_nodup =>
      rw [h.vioWaiters_eq]
      exact List.nodup_nil
  · constructor
    case count_eq => exact fun s hs => absurd hs (hnone s)
    case entries_eq => exact fun s hs => absurd hs (hnone s)
    case window => exact fun s hs => absurd hs (hnone s)
    case idle_count => exact fun s _ _ _ => h.locks_eq _
    case underflowLogged_eq => exact h.underflowLogged_eq
    case idle_history => simp [hhistory]
    case reaped_kept => simp [hhistory]
    case dirty_held =>
      intro blockIndex hdirty
      rw [(h.blocks_idle blockIndex).1] at hdirty
      cases hdirty
    case inFlight_held =>
      intro blockIndex hwriting
      rw [(h.blocks_idle blockIndex).2] at hwriting
      cases hwriting
    case unsaved_mem => simp [hhistory]
    case inFlight_mem => simp [hhistory]
    case inFlight_idle => simp [hhistory]


end TrackedSlab

/-! ## The journal of a slab moves by journal steps -/

/-! ## Frames: what a step does not touch -/

/-- A step that changes neither the reference counts nor the VIO waiters, nor
the entries per block, keeps the queues. -/
theorem SlabState.Queues.of_journal {state state' : SlabState} (h : state.Queues)
    (hrefCounts : state'.refCounts = state.refCounts) (hwaiters : state'.vioWaiters = state.vioWaiters)
    (hentries : state'.journal.entriesPerBlock = state.journal.entriesPerBlock) : state'.Queues := by
  obtain ⟨hqueued, hdirtyNodup, hwaiting, hwaitersNodup, hcount, hcapacity⟩ := h
  refine ⟨?_, ?_, ?_, ?_, ?_, ?_⟩
  · rw [hrefCounts]
    exact hqueued
  · rw [hrefCounts]
    exact hdirtyNodup
  · rw [hwaiters, hrefCounts]
    exact hwaiting
  · rw [hwaiters]
    exact hwaitersNodup
  · rw [hrefCounts]
    exact hcount
  · rw [hentries, hrefCounts]
    exact hcapacity

/-- A step that keeps the reference blocks' locks and the VIO waiters keeps
the queues. -/
theorem SlabState.Queues.of_sameLocks {state : SlabState} (h : state.Queues) {refCounts : RefCounts}
    (hsame : state.refCounts.SameLocks refCounts) {journal : SlabJournal}
    (hentries : journal.entriesPerBlock = state.journal.entriesPerBlock) :
    SlabState.Queues { state with journal := journal, refCounts := refCounts } := by
  obtain ⟨hqueued, hdirtyNodup, hwaiting, hwaitersNodup, hcount, hcapacity⟩ := h
  refine ⟨?_, ?_, ?_, hwaitersNodup, ?_, ?_⟩
  · intro blockIndex hmem
    dsimp only at hmem ⊢
    rw [hsame.dirtyBlocks_eq] at hmem
    rw [hsame.isDirty_eq, hsame.isWriting_eq]
    exact hqueued blockIndex hmem
  · dsimp only
    rw [hsame.dirtyBlocks_eq]
    exact hdirtyNodup
  · intro blockIndex hmem
    dsimp only
    rw [hsame.isDirty_eq, hsame.isWriting_eq]
    exact hwaiting blockIndex hmem
  · dsimp only
    rw [hsame.referenceBlockCount_eq, hsame.blockCount_eq]
    exact hcount
  · dsimp only
    rw [hentries, hsame.referenceBlockCount_eq]
    exact hcapacity

namespace TrackedSlab

variable {t : TrackedSlab}

/-- The accounting does not read the journal's head, commit point, summary
update in progress, blocks being written or whether the tail block waits. -/
theorem Accounting.of_journal {tailOpen : Prop} (h : t.Accounting tailOpen) {journal : SlabJournal}
    (hjournal : ∃ head nextCommit summarized updating waiting uncommitted,
      journal = { t.state.journal with
        head := head, nextCommit := nextCommit, summarized := summarized,
        updatingSlabSummary := updating, waitingToCommit := waiting, uncommittedBlocks := uncommitted }) :
    TrackedSlab.Accounting ⟨{ t.state with journal := journal }, t.history⟩ tailOpen := by
  obtain ⟨_, _, _, _, _, _, rfl⟩ := hjournal
  exact ⟨h.count_eq, h.entries_eq, h.window, h.idle_count, h.idle_history, h.reaped_kept,
    h.dirty_held, h.inFlight_held, h.unsaved_mem, h.inFlight_mem, h.inFlight_idle, h.underflowLogged_eq⟩

/-- A step that keeps the journal, the locks given back and kept, and the locks
the reference blocks hold on each block keeps the accounting when the
reference blocks' locks and changes stay where the accounting needs them. -/
theorem Accounting.of_refCounts {tailOpen : Prop} (h : t.Accounting tailOpen) {refCounts : RefCounts}
    {vioWaiters : List ℕ} {history : LockHistory} (hreleased : history.released = t.history.released)
    (hkept : history.kept = t.history.kept)
    (hheld : ∀ s, SlabState.heldBy ⟨t.state.journal, refCounts, vioWaiters⟩ s = t.state.heldBy s)
    (hdirty : ∀ blockIndex, (refCounts.blocks blockIndex).isDirty = true →
      blockIndex < refCounts.referenceBlockCount ∧
        t.state.Opened tailOpen (refCounts.blocks blockIndex).slabJournalLock)
    (hinFlight : ∀ blockIndex, (refCounts.blocks blockIndex).isWriting = true → blockIndex ∉ vioWaiters →
      blockIndex < refCounts.referenceBlockCount ∧
        t.state.Opened tailOpen (refCounts.blocks blockIndex).slabJournalLockToRelease)
    (hunsaved : ∀ blockIndex, ∀ sequence ∈ history.unsaved blockIndex, 0 < sequence ∧
      ((refCounts.blocks blockIndex).isDirty = true ∧
          (refCounts.blocks blockIndex).slabJournalLock ≤ sequence ∨
        0 < t.history.kept sequence))
    (hinFlightMem : ∀ blockIndex, ∀ sequence ∈ history.inFlight blockIndex, 0 < sequence ∧
      ((refCounts.blocks blockIndex).isWriting = true ∧ blockIndex ∉ vioWaiters ∧
          (refCounts.blocks blockIndex).slabJournalLockToRelease ≤ sequence ∨
        0 < t.history.kept sequence))
    (hidle : ∀ blockIndex, ((refCounts.blocks blockIndex).isWriting = true → blockIndex ∈ vioWaiters) →
      history.inFlight blockIndex = ∅) :
    TrackedSlab.Accounting ⟨⟨t.state.journal, refCounts, vioWaiters⟩, history⟩ tailOpen := by
  obtain ⟨released, kept, unsaved, inFlight⟩ := history
  dsimp only at hreleased hkept
  subst hreleased hkept
  constructor
  case count_eq =>
    intro s hs
    rw [hheld]
    exact h.count_eq s hs
  case entries_eq => exact h.entries_eq
  case window => exact h.window
  case idle_count => exact h.idle_count
  case idle_history => exact h.idle_history
  case reaped_kept => exact h.reaped_kept
  case dirty_held => exact hdirty
  case inFlight_held => exact hinFlight
  case unsaved_mem => exact hunsaved
  case inFlight_mem => exact hinFlightMem
  case inFlight_idle => exact hidle
  case underflowLogged_eq => exact h.underflowLogged_eq

/-- A step that changes only what the accounting does not read, and keeps the
window, keeps the invariant. -/
theorem LockInvariant.of_journal (h : t.LockInvariant) {journal : SlabJournal}
    (hjournal : ∃ head nextCommit summarized updating waiting uncommitted,
      journal = { t.state.journal with
        head := head, nextCommit := nextCommit, summarized := summarized,
        updatingSlabSummary := updating, waitingToCommit := waiting, uncommittedBlocks := uncommitted })
    (hwindow : journal.Window) :
    TrackedSlab.LockInvariant ⟨{ t.state with journal := journal }, t.history⟩ := by
  have haccounting := h.accounting.of_journal hjournal
  obtain ⟨_, _, _, _, _, _, rfl⟩ := hjournal
  exact ⟨hwindow, h.unreapable_le_lastSummarized, h.queues.of_journal rfl rfl rfl, haccounting⟩

/-! ## The journal's own steps -/

theorem LockInvariant.commitSlabJournalTail (h : t.LockInvariant) :
    TrackedSlab.LockInvariant
      ⟨{ t.state with journal := t.state.journal.commitSlabJournalTail }, t.history⟩ :=
  h.of_journal ⟨_, _, _, _, _, _, t.state.journal.commitSlabJournalTail_eq⟩ h.window.commitSlabJournalTail

theorem LockInvariant.completeWrite (h : t.LockInvariant) (committed : ℕ) :
    TrackedSlab.LockInvariant
      ⟨{ t.state with journal := t.state.journal.completeWrite committed }, t.history⟩ := by
  obtain ⟨summarized, updating, hcomplete⟩ := t.state.journal.completeWrite_eq committed
  exact h.of_journal ⟨_, _, _, _, _, _, hcomplete⟩ (h.window.completeWrite committed)

theorem LockInvariant.finishReaping (h : t.LockInvariant) :
    TrackedSlab.LockInvariant ⟨{ t.state with journal := t.state.journal.finishReaping }, t.history⟩ :=
  h.of_journal ⟨_, _, _, _, _, _, rfl⟩ h.window.finishReaping

/-- Writing the tail block gives back the locks of its unused entries: the
tail block's count drops by as many as its history records given back. -/
theorem LockInvariant.writeSlabJournalBlock (h : t.LockInvariant)
    (hwaiting : t.state.journal.waitingToCommit = true) :
    TrackedSlab.LockInvariant ⟨{ t.state with journal := t.state.journal.writeSlabJournalBlock },
      t.history.giveBack t.state.journal.tail
        (t.state.journal.entriesPerBlock - t.state.journal.entryCount)⟩ := by
  have hw := h.window
  have ha := h.accounting
  have hw' := hw.writeSlabJournalBlock hwaiting
  have hn : 0 < t.state.journal.entryCount := hw.entryCount_pos hwaiting
  have hnE : t.state.journal.entryCount ≤ t.state.journal.entriesPerBlock :=
    hw.entryCount_le.trans t.state.journal.entryCapacity_le
  have htailOpen : t.state.Opened (0 < t.state.journal.entryCount) t.state.journal.tail :=
    ⟨hw.unreapable_le_tail, Or.inr ⟨rfl, hn⟩⟩
  have htailWindow := ha.window _ htailOpen
  have hcountTail := ha.count_eq _ htailOpen
  have hentriesTail := ha.entries_eq _ htailOpen
  rw [if_pos rfl] at hentriesTail
  have htailPos : 0 < t.state.journal.tail :=
    hw.head_pos.trans_le (hw.head_le_unreapable.trans hw.unreapable_le_tail)
  obtain ⟨hlocks, hlogged⟩ := writeSlabJournalBlock_locks htailPos (by omega)
  have hoffset : ∀ s, t.state.Opened (0 < t.state.journal.entryCount) s →
      (t.state.journal.getSlabJournalBlockOffset s = t.state.journal.getSlabJournalBlockOffset t.state.journal.tail ↔
        s = t.state.journal.tail) :=
    fun s hs => offset_eq_iff hs.1 hw.unreapable_le_tail (ha.window s hs) htailWindow
  obtain ⟨locks, hlocksLt, logged, hwrite⟩ := t.state.journal.writeSlabJournalBlock_eq
  rw [hwrite] at hlocks hlogged hw' ⊢
  have hopen : ∀ s, SlabState.Opened { t.state with journal := { t.state.journal with
        locks := locks, locks_lt := hlocksLt, underflowLogged := logged
        uncommittedBlocks := t.state.journal.uncommittedBlocks ++ [t.state.journal.tail],
        tail := t.state.journal.tail + 1, entryCount := 0, hasBlockMapIncrements := false,
        waitingToCommit := false } } (0 < 0) s ↔
      t.state.Opened (0 < t.state.journal.entryCount) s := by
    intro s
    unfold SlabState.Opened
    dsimp only
    omega
  refine ⟨hw', h.unreapable_le_lastSummarized, h.queues.of_journal rfl rfl rfl, ?_⟩
  constructor
  case count_eq =>
    intro s hs
    have hs' := (hopen s).1 hs
    change _ + _ = t.state.journal.entriesPerBlock + t.state.summaryPending s + t.state.heldBy s
    rw [hlocks s, LockHistory.giveBack_released]
    by_cases hsTail : s = t.state.journal.tail
    · subst hsTail
      rw [if_pos rfl, if_pos rfl]
      omega
    · rw [if_neg fun heq => hsTail ((hoffset s hs').1 heq), if_neg hsTail]
      exact ha.count_eq s hs'
  case entries_eq =>
    intro s hs
    have hs' := (hopen s).1 hs
    have hentries := ha.entries_eq s hs'
    have hsNew : s ≠ t.state.journal.tail + 1 := by
      have := hs'.2
      omega
    change _ + _ = if s = t.state.journal.tail + 1 then 0 else t.state.journal.entriesPerBlock
    rw [LockHistory.giveBack_released, LockHistory.giveBack_kept, if_neg hsNew]
    by_cases hsTail : s = t.state.journal.tail
    · subst hsTail
      rw [if_pos rfl]
      omega
    · rw [if_neg hsTail] at hentries ⊢
      exact hentries
  case window => exact fun s hs => ha.window s ((hopen s).1 hs)
  case idle_count =>
    intro s hlow hhigh hidle
    have hidle' : ¬t.state.Opened (0 < t.state.journal.entryCount) s := fun hs => hidle ((hopen s).2 hs)
    have hne : t.state.journal.getSlabJournalBlockOffset s ≠
        t.state.journal.getSlabJournalBlockOffset t.state.journal.tail := by
      intro heq
      have hsame := (offset_eq_iff hlow hw.unreapable_le_tail hhigh htailWindow).1 heq
      exact hidle' (hsame ▸ htailOpen)
    rw [hlocks s, if_neg hne]
    exact ha.idle_count s hlow hhigh hidle'
  case idle_history =>
    intro s hlow hidle
    have hidle' : ¬t.state.Opened (0 < t.state.journal.entryCount) s := fun hs => hidle ((hopen s).2 hs)
    have hsTail : s ≠ t.state.journal.tail := fun heq => hidle' (heq ▸ htailOpen)
    rw [LockHistory.giveBack_released, if_neg hsTail, LockHistory.giveBack_kept]
    exact ha.idle_history s hlow hidle'
  case reaped_kept => exact ha.reaped_kept
  case dirty_held =>
    intro blockIndex hdirty
    obtain ⟨hblock, hheld⟩ := ha.dirty_held blockIndex hdirty
    exact ⟨hblock, (hopen _).2 hheld⟩
  case inFlight_held =>
    intro blockIndex hwriting hlaunched
    obtain ⟨hblock, hheld⟩ := ha.inFlight_held blockIndex hwriting hlaunched
    exact ⟨hblock, (hopen _).2 hheld⟩
  case unsaved_mem => exact ha.unsaved_mem
  case inFlight_mem => exact ha.inFlight_mem
  case inFlight_idle => exact ha.inFlight_idle
  case underflowLogged_eq => exact hlogged.trans ha.underflowLogged_eq

/-- The completed slab summary update gives back one lock of each block it
covers: the blocks from the last summarized one up to the new one lose their
summary lock. -/
theorem LockInvariant.releaseJournalLocks (h : t.LockInvariant) :
    TrackedSlab.LockInvariant ⟨{ t.state with journal := t.state.journal.releaseJournalLocks }, t.history⟩ := by
  have hw := h.window
  have ha := h.accounting
  have hw' := hw.releaseJournalLocks
  have hsummary := h.unreapable_le_lastSummarized
  have hcommit := hw.summarized_le_nextCommit.trans hw.nextCommit_le_tail
  have hspan := hw.tail_le
  have hhead := hw.head_le_unreapable
  have hheadPos := hw.head_pos
  have hlast := hw.lastSummarized_le_summarized
  have hmem : ∀ i, i ∈ (List.range' t.state.journal.lastSummarized
      (t.state.journal.summarized - t.state.journal.lastSummarized)).reverse ↔
      t.state.journal.lastSummarized ≤ i ∧ i < t.state.journal.summarized := by
    intro i
    rw [List.mem_reverse, List.mem_range'_1]
    omega
  have hcovered : ∀ i, t.state.journal.lastSummarized ≤ i → i < t.state.journal.summarized →
      t.state.Opened (0 < t.state.journal.entryCount) i :=
    fun i hlow hhigh => ⟨hsummary.trans hlow, Or.inl (by omega)⟩
  have hlocked : ∀ i ∈ (List.range' t.state.journal.lastSummarized
      (t.state.journal.summarized - t.state.journal.lastSummarized)).reverse,
      1 ≤ t.state.journal.lockCount i := by
    intro i hi
    obtain ⟨hlow, hhigh⟩ := (hmem i).1 hi
    have hcount := ha.count_eq i (hcovered i hlow hhigh)
    have hentries := ha.entries_eq i (hcovered i hlow hhigh)
    rw [if_neg (by omega)] at hentries
    have hpending : t.state.summaryPending i = 1 := if_pos hlow
    omega
  have hdistinct : ((List.range' t.state.journal.lastSummarized
      (t.state.journal.summarized - t.state.journal.lastSummarized)).reverse.map
        t.state.journal.getSlabJournalBlockOffset).Nodup := by
    rw [List.map_reverse, List.nodup_reverse]
    refine List.Nodup.map_on (fun i hi k hk heq => ?_) List.nodup_range'
    rw [List.mem_range'_1] at hi hk
    exact (@offset_eq_iff _ t.state.journal.unreapable _ _ (by omega) (by omega) (by omega) (by omega)).1 heq
  obtain ⟨hcounts, hlogged⟩ := releaseEach_lockCount
    (fun i hi => by have := (hmem i).1 hi; omega) hdistinct hlocked
  have hcovers : ∀ s, t.state.Opened (0 < t.state.journal.entryCount) s →
      ((∃ i ∈ (List.range' t.state.journal.lastSummarized
        (t.state.journal.summarized - t.state.journal.lastSummarized)).reverse,
          t.state.journal.getSlabJournalBlockOffset i = t.state.journal.getSlabJournalBlockOffset s) ↔
        t.state.journal.lastSummarized ≤ s ∧ s < t.state.journal.summarized) := by
    intro s hs
    have hsWindow := ha.window s hs
    constructor
    · rintro ⟨i, hi, heq⟩
      obtain ⟨hlow, hhigh⟩ := (hmem i).1 hi
      have hsame := (offset_eq_iff (hsummary.trans hlow) hs.1 (by omega) hsWindow).1 heq
      exact hsame ▸ ⟨hlow, hhigh⟩
    · intro hcovered
      exact ⟨s, (hmem s).2 hcovered, rfl⟩
  have hrelease : t.state.journal.releaseJournalLocks = updateTailBlockLocation
      { t.state.journal.releaseEach (List.range' t.state.journal.lastSummarized
          (t.state.journal.summarized - t.state.journal.lastSummarized)).reverse with
        lastSummarized := t.state.journal.summarized, updatingSlabSummary := false } := rfl
  obtain ⟨locks, hlocksLt, logged, heach⟩ := t.state.journal.releaseEach_eq (List.range'
    t.state.journal.lastSummarized (t.state.journal.summarized - t.state.journal.lastSummarized)).reverse
  obtain ⟨summarized, updating, hupdate⟩ := updateTailBlockLocation_eq { t.state.journal.releaseEach
    (List.range' t.state.journal.lastSummarized
      (t.state.journal.summarized - t.state.journal.lastSummarized)).reverse with
    lastSummarized := t.state.journal.summarized, updatingSlabSummary := false }
  rw [hrelease, hupdate, heach] at hw' ⊢
  rw [heach] at hcounts hlogged
  refine ⟨hw', hsummary.trans hlast, h.queues.of_journal rfl rfl rfl, ?_⟩
  constructor
  case count_eq =>
    intro s hs
    change locks (t.state.journal.getSlabJournalBlockOffset s) + t.history.released s =
      t.state.journal.entriesPerBlock + (if t.state.journal.summarized ≤ s then 1 else 0) + t.state.heldBy s
    have hcount := ha.count_eq s hs
    have hold : t.state.summaryPending s = if t.state.journal.lastSummarized ≤ s then 1 else 0 := rfl
    have hnew : locks (t.state.journal.getSlabJournalBlockOffset s) = _ := hcounts s
    by_cases hcoveredS : t.state.journal.lastSummarized ≤ s ∧ s < t.state.journal.summarized
    · have hone := hlocked s ((hmem s).2 hcoveredS)
      rw [if_pos ((hcovers s hs).2 hcoveredS)] at hnew
      rw [if_pos hcoveredS.1] at hold
      rw [if_neg (by omega)]
      omega
    · rw [if_neg fun hex => hcoveredS ((hcovers s hs).1 hex)] at hnew
      by_cases hafter : t.state.journal.summarized ≤ s
      · rw [if_pos (hlast.trans hafter)] at hold
        rw [if_pos hafter]
        omega
      · rw [if_neg (by omega)] at hold
        rw [if_neg hafter]
        omega
  case entries_eq => exact ha.entries_eq
  case window => exact ha.window
  case idle_count =>
    intro s hlow hhigh hidle
    have hnew : locks (t.state.journal.getSlabJournalBlockOffset s) = _ := hcounts s
    change locks (t.state.journal.getSlabJournalBlockOffset s) = 0
    have hzero := ha.idle_count s hlow hhigh hidle
    omega
  case idle_history => exact ha.idle_history
  case reaped_kept => exact ha.reaped_kept
  case dirty_held => exact ha.dirty_held
  case inFlight_held => exact ha.inFlight_held
  case unsaved_mem => exact ha.unsaved_mem
  case inFlight_mem => exact ha.inFlight_mem
  case inFlight_idle => exact ha.inFlight_idle
  case underflowLogged_eq => exact hlogged.trans ha.underflowLogged_eq

/-- One iteration of the reap loop passes a block with no locks: it has given
back all its per-entry locks and its summary lock, and no reference block holds
a lock on it. -/
theorem LockInvariant.reapOne (h : t.LockInvariant) (hlive : t.state.journal.unreapable < t.state.journal.tail)
    (hfree : t.state.journal.lockCount t.state.journal.unreapable = 0) :
    TrackedSlab.LockInvariant ⟨{ t.state with journal :=
      { t.state.journal with unreapable := t.state.journal.unreapable + 1 } }, t.history⟩ := by
  have hw := h.window
  have ha := h.accounting
  have hopenOld : t.state.Opened (0 < t.state.journal.entryCount) t.state.journal.unreapable :=
    ⟨le_rfl, Or.inl hlive⟩
  have hcount := ha.count_eq _ hopenOld
  have hentries := ha.entries_eq _ hopenOld
  rw [if_neg hlive.ne] at hentries
  have hheld : t.state.heldBy t.state.journal.unreapable = 0 := by omega
  have hkept : t.history.kept t.state.journal.unreapable = 0 := by omega
  have hsummarized : t.state.journal.unreapable < t.state.journal.lastSummarized := by
    have hpending : t.state.summaryPending t.state.journal.unreapable = 0 := by omega
    unfold SlabState.summaryPending at hpending
    split_ifs at hpending with hlast
    omega
  have hopen : ∀ s, SlabState.Opened { t.state with journal :=
        { t.state.journal with unreapable := t.state.journal.unreapable + 1 } }
        (0 < t.state.journal.entryCount) s ↔
      t.state.Opened (0 < t.state.journal.entryCount) s ∧ s ≠ t.state.journal.unreapable := by
    intro s
    unfold SlabState.Opened
    dsimp only
    omega
  have hnotHeld : ∀ blockIndex < t.state.refCounts.referenceBlockCount,
      t.state.holdsAt blockIndex t.state.journal.unreapable = 0 := fun blockIndex hblock =>
    Nat.eq_zero_of_le_zero (hheld ▸ t.state.holdsAt_le_heldBy hblock _)
  refine ⟨?_, hsummarized, h.queues.of_journal rfl rfl rfl, ?_⟩
  · exact ⟨hw.head_pos, Nat.le_succ_of_le hw.head_le_unreapable, hlive, hw.tail_le, hw.tail_lt,
      hw.lastSummarized_le_summarized, hw.summarized_le_nextCommit, hw.nextCommit_le_tail,
      hw.uncommitted_sorted, hw.uncommitted_mem, hw.entryCount_le, hw.entryCount_lt, hw.entryCount_pos⟩
  constructor
  case count_eq => exact fun s hs => ha.count_eq s ((hopen s).1 hs).1
  case entries_eq => exact fun s hs => ha.entries_eq s ((hopen s).1 hs).1
  case window =>
    intro s hs
    have := ha.window s ((hopen s).1 hs).1
    show s < t.state.journal.unreapable + 1 + t.state.journal.size
    omega
  case idle_count =>
    intro s hlow hhigh hidle
    change t.state.journal.unreapable + 1 ≤ s at hlow
    change s < t.state.journal.unreapable + 1 + t.state.journal.size at hhigh
    by_cases hwrap : s = t.state.journal.unreapable + t.state.journal.size
    · subst hwrap
      change t.state.journal.lockCount _ = 0
      unfold SlabJournal.lockCount SlabJournal.getSlabJournalBlockOffset at hfree ⊢
      rw [Nat.add_mod_right]
      exact hfree
    · exact ha.idle_count s (by omega) (by omega) fun hs => hidle ((hopen s).2 ⟨hs, by omega⟩)
  case idle_history =>
    intro s hlow hidle
    change t.state.journal.unreapable + 1 ≤ s at hlow
    exact ha.idle_history s (by omega) fun hs => hidle ((hopen s).2 ⟨hs, by omega⟩)
  case reaped_kept =>
    intro s hs
    change s < t.state.journal.unreapable + 1 at hs
    rcases Nat.lt_succ_iff_lt_or_eq.mp hs with hs | rfl
    · exact ha.reaped_kept s hs
    · exact hkept
  case dirty_held =>
    intro blockIndex hdirty
    obtain ⟨hblock, hlock⟩ := ha.dirty_held blockIndex hdirty
    refine ⟨hblock, (hopen _).2 ⟨hlock, fun heq => ?_⟩⟩
    have hone := t.state.holdsAt_of_dirty hdirty
    rw [heq, hnotHeld blockIndex hblock] at hone
    exact Nat.not_succ_le_zero 0 hone
  case inFlight_held =>
    intro blockIndex hwriting hlaunched
    obtain ⟨hblock, hlock⟩ := ha.inFlight_held blockIndex hwriting hlaunched
    refine ⟨hblock, (hopen _).2 ⟨hlock, fun heq => ?_⟩⟩
    have hone := t.state.holdsAt_of_inFlight hwriting hlaunched
    rw [heq, hnotHeld blockIndex hblock] at hone
    exact Nat.not_succ_le_zero 0 hone
  case unsaved_mem => exact ha.unsaved_mem
  case inFlight_mem => exact ha.inFlight_mem
  case inFlight_idle => exact ha.inFlight_idle
  case underflowLogged_eq => exact ha.underflowLogged_eq

/-- A reap passes only blocks with no locks. -/
theorem LockInvariant.reapSlabJournal (h : t.LockInvariant) :
    TrackedSlab.LockInvariant ⟨{ t.state with journal := t.state.journal.reapSlabJournal }, t.history⟩ := by
  unfold SlabJournal.reapSlabJournal
  split_ifs
  · exact h
  · exact advanceUnreapable_induction
      (fun journal => TrackedSlab.LockInvariant ⟨{ t.state with journal := journal }, t.history⟩)
      (fun journal hjournal hlive hfree => LockInvariant.reapOne hjournal hlive hfree) h _

end TrackedSlab

end Vdo
