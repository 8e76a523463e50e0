import Vdo.Base.SlabLocks
import Vdo.Base.RefCountsSpec
import Vdo.Base.RefCountsInvariant

/-!
# What the slab's functions do to its locks

Each function of the slab model is described here once, by what it does to the
lock fields of the reference blocks (dirty, writing, the lock held and the lock
a write will release), to the dirty queue and to the locks the reference blocks
hold on each journal block. The invariant proofs cite these lemmas and never
unfold the functions.
-/

namespace Vdo

namespace RefCounts

/-- Two states agree on everything the lock protocol reads: the lock fields of
every reference block, the dirty queue, and the slab's size and position. -/
structure SameLocks (refCounts refCounts' : RefCounts) : Prop where
  isDirty_eq : ∀ b, (refCounts'.blocks b).isDirty = (refCounts.blocks b).isDirty
  isWriting_eq : ∀ b, (refCounts'.blocks b).isWriting = (refCounts.blocks b).isWriting
  slabJournalLock_eq : ∀ b, (refCounts'.blocks b).slabJournalLock = (refCounts.blocks b).slabJournalLock
  slabJournalLockToRelease_eq : ∀ b,
    (refCounts'.blocks b).slabJournalLockToRelease = (refCounts.blocks b).slabJournalLockToRelease
  dirtyBlocks_eq : refCounts'.dirtyBlocks = refCounts.dirtyBlocks
  referenceBlockCount_eq : refCounts'.referenceBlockCount = refCounts.referenceBlockCount
  blockCount_eq : refCounts'.blockCount = refCounts.blockCount
  start_eq : refCounts'.start = refCounts.start

namespace SameLocks

/-- Every state agrees with itself. -/
theorem refl (refCounts : RefCounts) : refCounts.SameLocks refCounts :=
  ⟨fun _ => rfl, fun _ => rfl, fun _ => rfl, fun _ => rfl, rfl, rfl, rfl, rfl⟩

/-- Agreement composes. -/
theorem trans {r₁ r₂ r₃ : RefCounts} (h₁₂ : r₁.SameLocks r₂) (h₂₃ : r₂.SameLocks r₃) :
    r₁.SameLocks r₃ :=
  ⟨fun b => (h₂₃.isDirty_eq b).trans (h₁₂.isDirty_eq b),
    fun b => (h₂₃.isWriting_eq b).trans (h₁₂.isWriting_eq b),
    fun b => (h₂₃.slabJournalLock_eq b).trans (h₁₂.slabJournalLock_eq b),
    fun b => (h₂₃.slabJournalLockToRelease_eq b).trans (h₁₂.slabJournalLockToRelease_eq b),
    h₂₃.dirtyBlocks_eq.trans h₁₂.dirtyBlocks_eq,
    h₂₃.referenceBlockCount_eq.trans h₁₂.referenceBlockCount_eq,
    h₂₃.blockCount_eq.trans h₁₂.blockCount_eq, h₂₃.start_eq.trans h₁₂.start_eq⟩

end SameLocks

variable (refCounts : RefCounts)

@[simp] theorem modifyBlock_blocks (blockIndex b : ℕ) (change : ReferenceBlock → ReferenceBlock) :
    (refCounts.modifyBlock blockIndex change).blocks b =
      if b = blockIndex then change (refCounts.blocks blockIndex) else refCounts.blocks b := by
  simp [modifyBlock, Function.update_apply]

@[simp] theorem modifyBlock_dirtyBlocks (blockIndex : ℕ) (change : ReferenceBlock → ReferenceBlock) :
    (refCounts.modifyBlock blockIndex change).dirtyBlocks = refCounts.dirtyBlocks := rfl

@[simp] theorem modifyBlock_referenceBlockCount (blockIndex : ℕ) (change : ReferenceBlock → ReferenceBlock) :
    (refCounts.modifyBlock blockIndex change).referenceBlockCount = refCounts.referenceBlockCount := rfl

/-- Changing a block without touching its lock fields keeps the locks. -/
theorem sameLocks_modifyBlock (blockIndex : ℕ) (change : ReferenceBlock → ReferenceBlock)
    (hdirty : ∀ block, (change block).isDirty = block.isDirty)
    (hwriting : ∀ block, (change block).isWriting = block.isWriting)
    (hlock : ∀ block, (change block).slabJournalLock = block.slabJournalLock)
    (hrelease : ∀ block, (change block).slabJournalLockToRelease = block.slabJournalLockToRelease) :
    refCounts.SameLocks (refCounts.modifyBlock blockIndex change) := by
  refine ⟨fun b => ?_, fun b => ?_, fun b => ?_, fun b => ?_, rfl, rfl, rfl, rfl⟩ <;>
  · simp only [modifyBlock, Function.update_apply]
    split_ifs with hb
    · subst hb
      simp [hdirty, hwriting, hlock, hrelease]
    · rfl

theorem sameLocks_setCounter (index count : ℕ) : refCounts.SameLocks (refCounts.setCounter index count) :=
  ⟨fun _ => rfl, fun _ => rfl, fun _ => rfl, fun _ => rfl, rfl, rfl, rfl, rfl⟩

theorem sameLocks_countAllocation (blockIndex : ℕ) :
    refCounts.SameLocks (refCounts.countAllocation blockIndex) :=
  let hmodify := refCounts.sameLocks_modifyBlock blockIndex
    (fun block => { block with allocatedCount := block.allocatedCount + 1 })
    (fun _ => rfl) (fun _ => rfl) (fun _ => rfl) (fun _ => rfl)
  ⟨hmodify.isDirty_eq, hmodify.isWriting_eq, hmodify.slabJournalLock_eq,
    hmodify.slabJournalLockToRelease_eq, rfl, rfl, rfl, rfl⟩

theorem sameLocks_countRelease (blockIndex : ℕ) :
    refCounts.SameLocks (refCounts.countRelease blockIndex) :=
  let hmodify := refCounts.sameLocks_modifyBlock blockIndex
    (fun block => { block with allocatedCount := block.allocatedCount - 1 })
    (fun _ => rfl) (fun _ => rfl) (fun _ => rfl) (fun _ => rfl)
  ⟨hmodify.isDirty_eq, hmodify.isWriting_eq, hmodify.slabJournalLock_eq,
    hmodify.slabJournalLockToRelease_eq, rfl, rfl, rfl, rfl⟩

theorem sameLocks_recordJournalPoint (point : Option JournalPoint) :
    refCounts.SameLocks (refCounts.recordJournalPoint point) := by
  unfold recordJournalPoint
  split
  · split_ifs
    · exact ⟨fun _ => rfl, fun _ => rfl, fun _ => rfl, fun _ => rfl, rfl, rfl, rfl, rfl⟩
    · exact SameLocks.refl _
  · exact SameLocks.refl _

/-- A counter update keeps the locks. -/
theorem sameLocks_updateReferenceCount {index : ℕ} {point : Option JournalPoint}
    {operation : ReferenceOperation} {normalOperation : Bool} {updated : RefCounts}
    {report : UpdateReport}
    (hok : refCounts.updateReferenceCount index point operation normalOperation =
      .ok (updated, report)) :
    refCounts.SameLocks updated := by
  obtain ⟨counted, countedReport, htransition, hrecorded⟩ := RefCounts.updateReferenceCount_ok hok
  have hcounted : refCounts.SameLocks counted := by
    rcases htransition with ⟨-, hinc⟩ | ⟨-, hdec⟩ | ⟨-, hmap⟩
    · rcases RefCounts.incrementForData_ok hinc with ⟨-, rfl⟩ | ⟨-, rfl⟩ | ⟨-, -, rfl⟩
      · exact (refCounts.sameLocks_setCounter _ _).trans (sameLocks_countAllocation _ _)
      · exact refCounts.sameLocks_setCounter _ _
      · exact refCounts.sameLocks_setCounter _ _
    · rcases RefCounts.decrementForData_ok hdec with ⟨-, -, rfl⟩ | ⟨-, -, rfl⟩ | ⟨-, -, -, rfl⟩
      · exact refCounts.sameLocks_setCounter _ _
      · exact (refCounts.sameLocks_setCounter _ _).trans (sameLocks_countRelease _ _)
      · exact refCounts.sameLocks_setCounter _ _
    · rcases RefCounts.incrementForBlockMap_ok hmap with ⟨-, -, rfl⟩ | ⟨-, -, rfl⟩
      · exact (refCounts.sameLocks_setCounter _ _).trans (sameLocks_countAllocation _ _)
      · exact refCounts.sameLocks_setCounter _ _
  rcases hrecorded with rfl | rfl
  · exact hcounted.trans (sameLocks_recordJournalPoint _ _)
  · exact hcounted

/-! ## Marking a block dirty -/

theorem dirtyBlock_blocks (blockIndex b : ℕ) :
    (refCounts.dirtyBlock blockIndex).blocks b =
      if b = blockIndex then { refCounts.blocks blockIndex with isDirty := true } else refCounts.blocks b := by
  have hmarked : (refCounts.modifyBlock blockIndex fun block => { block with isDirty := true }).blocks b =
      if b = blockIndex then { refCounts.blocks blockIndex with isDirty := true }
      else refCounts.blocks b := by
    simp only [modifyBlock, Function.update_apply]
  unfold dirtyBlock
  dsimp only
  by_cases hdirty : (refCounts.blocks blockIndex).isDirty = true
  · rw [if_pos hdirty]
    split_ifs with hb
    · subst hb
      cases hblock : refCounts.blocks b
      simp_all
    · rfl
  · rw [if_neg hdirty]
    by_cases hwriting : (refCounts.blocks blockIndex).isWriting = true
    · rw [if_pos hwriting]
      exact hmarked
    · rw [if_neg hwriting]
      exact hmarked

theorem dirtyBlock_dirtyBlocks (blockIndex : ℕ) :
    (refCounts.dirtyBlock blockIndex).dirtyBlocks =
      if (refCounts.blocks blockIndex).isDirty || (refCounts.blocks blockIndex).isWriting then
        refCounts.dirtyBlocks
      else refCounts.dirtyBlocks ++ [blockIndex] := by
  unfold dirtyBlock
  dsimp only
  split_ifs <;> simp_all [modifyBlock]

@[simp] theorem dirtyBlock_referenceBlockCount (blockIndex : ℕ) :
    (refCounts.dirtyBlock blockIndex).referenceBlockCount = refCounts.referenceBlockCount :=
  (refCounts.sameBookkeeping_dirtyBlock blockIndex).referenceBlockCount_eq

@[simp] theorem dirtyBlock_blockCount (blockIndex : ℕ) :
    (refCounts.dirtyBlock blockIndex).blockCount = refCounts.blockCount :=
  (refCounts.sameBookkeeping_dirtyBlock blockIndex).blockCount_eq

@[simp] theorem dirtyBlock_start (blockIndex : ℕ) :
    (refCounts.dirtyBlock blockIndex).start = refCounts.start := by
  unfold dirtyBlock
  dsimp only
  split_ifs <;> rfl

/-! ## Handing a lock to a reference block -/

section HandLock

variable (blockIndex lock : ℕ)

/-- `adjustBlockLock` handing a lock over: the block takes the lock and is
marked dirty. -/
theorem handLock_blocks (b : ℕ) :
    ((refCounts.modifyBlock blockIndex fun block => { block with slabJournalLock := lock }).dirtyBlock
      blockIndex).blocks b =
      if b = blockIndex then { refCounts.blocks blockIndex with slabJournalLock := lock, isDirty := true }
      else refCounts.blocks b := by
  rw [dirtyBlock_blocks]
  simp only [modifyBlock_blocks]
  by_cases hb : b = blockIndex
  · subst hb
    simp
  · simp [hb]

theorem handLock_dirtyBlocks :
    ((refCounts.modifyBlock blockIndex fun block => { block with slabJournalLock := lock }).dirtyBlock
      blockIndex).dirtyBlocks =
      if (refCounts.blocks blockIndex).isDirty || (refCounts.blocks blockIndex).isWriting then
        refCounts.dirtyBlocks
      else refCounts.dirtyBlocks ++ [blockIndex] := by
  rw [dirtyBlock_dirtyBlocks]
  simp

theorem handLock_referenceBlockCount :
    ((refCounts.modifyBlock blockIndex fun block => { block with slabJournalLock := lock }).dirtyBlock
      blockIndex).referenceBlockCount = refCounts.referenceBlockCount := by
  simp

theorem handLock_blockCount :
    ((refCounts.modifyBlock blockIndex fun block => { block with slabJournalLock := lock }).dirtyBlock
      blockIndex).blockCount = refCounts.blockCount := by
  rw [dirtyBlock_blockCount]
  rfl

/-- Handing a lock to a block of counts with the same locks: only that
block's lock and dirty flag change. -/
theorem SameLocks.handLock {updated : RefCounts} (hsame : refCounts.SameLocks updated) (b : ℕ) :
    let handed := (updated.modifyBlock blockIndex fun block => { block with slabJournalLock := lock }).dirtyBlock
      blockIndex
    (handed.blocks b).isDirty = (if b = blockIndex then true else (refCounts.blocks b).isDirty) ∧
      (handed.blocks b).isWriting = (refCounts.blocks b).isWriting ∧
      (handed.blocks b).slabJournalLock =
        (if b = blockIndex then lock else (refCounts.blocks b).slabJournalLock) ∧
      (handed.blocks b).slabJournalLockToRelease = (refCounts.blocks b).slabJournalLockToRelease := by
  intro handed
  simp only [handed, handLock_blocks]
  by_cases hb : b = blockIndex
  · subst hb
    simp [hsame.isWriting_eq, hsame.slabJournalLockToRelease_eq]
  · simp [hb, hsame.isDirty_eq, hsame.isWriting_eq, hsame.slabJournalLock_eq,
      hsame.slabJournalLockToRelease_eq]

end HandLock

/-! ## The locks `acquireDirtyBlockLocks` takes -/

/-- Dirtying distinct clean, idle blocks one after the other marks each dirty
and queues them in order. -/
theorem foldl_dirtyBlock {blockIndices : List ℕ} (hnodup : blockIndices.Nodup) :
    ∀ refCounts : RefCounts, (∀ b ∈ blockIndices,
      (refCounts.blocks b).isDirty = false ∧ (refCounts.blocks b).isWriting = false) →
    (∀ b, (blockIndices.foldl dirtyBlock refCounts).blocks b =
      if b ∈ blockIndices then { refCounts.blocks b with isDirty := true } else refCounts.blocks b) ∧
    (blockIndices.foldl dirtyBlock refCounts).dirtyBlocks = refCounts.dirtyBlocks ++ blockIndices ∧
    (blockIndices.foldl dirtyBlock refCounts).referenceBlockCount = refCounts.referenceBlockCount ∧
    (blockIndices.foldl dirtyBlock refCounts).blockCount = refCounts.blockCount := by
  induction blockIndices with
  | nil => intro refCounts _; simp
  | cons first rest ih =>
    intro refCounts hidle
    rw [List.nodup_cons] at hnodup
    obtain ⟨hdirty, hwriting⟩ := hidle first List.mem_cons_self
    have hidle' : ∀ b ∈ rest, ((refCounts.dirtyBlock first).blocks b).isDirty = false ∧
        ((refCounts.dirtyBlock first).blocks b).isWriting = false := by
      intro b hb
      have hne : b ≠ first := fun heq => hnodup.1 (heq ▸ hb)
      rw [dirtyBlock_blocks, if_neg hne]
      exact hidle b (List.mem_cons_of_mem _ hb)
    obtain ⟨hblocks, hqueue, hcount, hblockCount⟩ := ih hnodup.2 _ hidle'
    refine ⟨fun b => ?_, ?_, ?_, ?_⟩
    · rw [List.foldl_cons, hblocks b, dirtyBlock_blocks]
      by_cases hb : b = first
      · subst hb
        simp [hnodup.1]
      · simp [hb]
    · rw [List.foldl_cons, hqueue, dirtyBlock_dirtyBlocks, hdirty, hwriting]
      simp
    · rw [List.foldl_cons, hcount, dirtyBlock_referenceBlockCount]
    · rw [List.foldl_cons, hblockCount, dirtyBlock_blockCount]

/-- Giving distinct blocks the lock on journal block 1 changes only their
locks. -/
theorem foldl_lockBlock {blockIndices : List ℕ} (hnodup : blockIndices.Nodup) (refCounts : RefCounts) :
    let locked := blockIndices.foldl (fun refCounts blockIndex =>
      refCounts.modifyBlock blockIndex fun block => { block with slabJournalLock := 1 }) refCounts
    (∀ b, locked.blocks b =
      if b ∈ blockIndices then { refCounts.blocks b with slabJournalLock := 1 } else refCounts.blocks b) ∧
    locked.dirtyBlocks = refCounts.dirtyBlocks ∧
    locked.referenceBlockCount = refCounts.referenceBlockCount ∧
    locked.blockCount = refCounts.blockCount := by
  induction blockIndices generalizing refCounts with
  | nil => simp
  | cons first rest ih =>
    rw [List.nodup_cons] at hnodup
    obtain ⟨hblocks, hqueue, hcount, hblockCount⟩ := ih hnodup.2
      (refCounts.modifyBlock first fun block => { block with slabJournalLock := 1 })
    refine ⟨fun b => ?_, hqueue, hcount, hblockCount⟩
    rw [List.foldl_cons, hblocks b, modifyBlock_blocks]
    by_cases hb : b = first
    · subst hb
      simp [hnodup.1]
    · simp [hb]

end RefCounts

/-! ## The lock of an entry's change -/

/-- The reference block of a change is one of the slab's. -/
theorem changedBlock_lt {refCounts : RefCounts} {operation : ReferenceOperation} {blockIndex : ℕ}
    (h : changedBlock refCounts operation = some blockIndex) :
    blockIndex < getSavedReferenceCountSize refCounts.blockCount := by
  unfold changedBlock at h
  split at h
  · rename_i slabBlockNumber hslabBlockNumber
    cases h
    exact getReferenceBlock_lt (slabBlockNumberFromPBN_lt hslabBlockNumber)
  · cases h

/-- A change that keeps the locks hands no lock over. -/
theorem lockHanded_of_sameLocks {before after : RefCounts} (hsame : before.SameLocks after)
    {sequence : ℕ} (hsequence : 0 < sequence) (blockIndex : ℕ) :
    lockHanded before after blockIndex sequence = false := by
  unfold lockHanded
  rw [hsame.isDirty_eq, hsame.slabJournalLock_eq]
  cases (before.blocks blockIndex).isDirty
  · simp
  · by_cases hlock : (before.blocks blockIndex).slabJournalLock = sequence
    · simp [hlock, hsequence]
    · simp [hlock]

/-- `adjustReferenceCount` for an entry at a valid journal point does one of
three things to the locks: nothing, with the entry's lock kept (an error, or
the decrement of a provisional reference); give the entry's lock back, when the
reference block is dirty with a lock of its own; or hand the entry's lock to the
reference block and mark it dirty. -/
theorem adjustReferenceCount_lockCases (slabOpen : Bool) (refCounts : RefCounts)
    (operation : ReferenceOperation) (point : JournalPoint) (hpoint : 0 < point.sequenceNumber) :
    let outcome := adjustReferenceCount slabOpen refCounts operation (some point)
    (refCounts.SameLocks outcome.refCounts ∧ outcome.journalRelease = none ∧
        ∀ freeStatusChanged, outcome.result = .ok freeStatusChanged →
          ∃ blockIndex, changedBlock refCounts operation = some blockIndex) ∨
      (∃ blockIndex freeStatusChanged, changedBlock refCounts operation = some blockIndex ∧
        (refCounts.blocks blockIndex).isDirty = true ∧ 0 < (refCounts.blocks blockIndex).slabJournalLock ∧
        refCounts.SameLocks outcome.refCounts ∧ outcome.journalRelease = some point.sequenceNumber ∧
        outcome.result = .ok freeStatusChanged) ∨
      (∃ blockIndex freeStatusChanged updated, changedBlock refCounts operation = some blockIndex ∧
        ¬((refCounts.blocks blockIndex).isDirty = true ∧ 0 < (refCounts.blocks blockIndex).slabJournalLock) ∧
        refCounts.SameLocks updated ∧
        outcome.refCounts = (updated.modifyBlock blockIndex fun block =>
          { block with slabJournalLock := point.sequenceNumber }).dirtyBlock blockIndex ∧
        outcome.journalRelease = none ∧ outcome.result = .ok freeStatusChanged) := by
  intro outcome
  rcases adjustReferenceCount_cases slabOpen refCounts operation (some point) with
    ⟨e, hadjust⟩ |
      ⟨slabBlockNumber, counted, report, hslabBlockNumber, hupdate, ⟨-, hadjust⟩ | ⟨-, hadjust⟩⟩
  · refine Or.inl ⟨?_, ?_, ?_⟩
    · rw [show outcome.refCounts = refCounts by simp [outcome, hadjust]]
      exact RefCounts.SameLocks.refl refCounts
    · simp [outcome, hadjust]
    · intro freeStatusChanged hok
      simp [outcome, hadjust] at hok
  all_goals
    have hblock : changedBlock refCounts operation = some (getReferenceBlock slabBlockNumber) := by
      simp [changedBlock, hslabBlockNumber]
    have hcounted := refCounts.sameLocks_updateReferenceCount hupdate
  · refine Or.inl ⟨?_, ?_, fun _ _ => ⟨_, hblock⟩⟩
    · rw [show outcome.refCounts = counted by simp [outcome, hadjust]]
      exact hcounted
    · simp [outcome, hadjust]
  · by_cases hlocked : (refCounts.blocks (getReferenceBlock slabBlockNumber)).isDirty = true ∧
        0 < (refCounts.blocks (getReferenceBlock slabBlockNumber)).slabJournalLock
    · have hlocked' : ((counted.blocks (getReferenceBlock slabBlockNumber)).isDirty &&
          decide (0 < (counted.blocks (getReferenceBlock slabBlockNumber)).slabJournalLock)) = true := by
        rw [hcounted.isDirty_eq, hcounted.slabJournalLock_eq]
        simpa using hlocked
      have hreleased : outcome = ⟨counted, .ok report.freeStatusChanged, some point.sequenceNumber,
          report.lockProvisional⟩ := by
        simp only [outcome, hadjust, RefCounts.adjustBlockLock, hlocked', if_true, hpoint]
      refine Or.inr (Or.inl ⟨_, report.freeStatusChanged, hblock, hlocked.1, hlocked.2, ?_, ?_, ?_⟩) <;>
        rw [hreleased]
      exact hcounted
    · have hunlocked : ((counted.blocks (getReferenceBlock slabBlockNumber)).isDirty &&
          decide (0 < (counted.blocks (getReferenceBlock slabBlockNumber)).slabJournalLock)) = false := by
        rw [hcounted.isDirty_eq, hcounted.slabJournalLock_eq]
        simpa using hlocked
      have hhanded : outcome = ⟨(counted.modifyBlock (getReferenceBlock slabBlockNumber) fun block =>
            { block with slabJournalLock := point.sequenceNumber }).dirtyBlock
              (getReferenceBlock slabBlockNumber),
          .ok report.freeStatusChanged, none, report.lockProvisional⟩ := by
        simp only [outcome, hadjust, RefCounts.adjustBlockLock, hunlocked, Bool.false_eq_true,
          if_false, hpoint, if_true]
      refine Or.inr (Or.inr ⟨_, report.freeStatusChanged, counted, hblock, hlocked, hcounted,
        ?_, ?_, ?_⟩) <;> rw [hhanded]

/-! ## What the slab's functions do to its journal -/

namespace SlabState

variable (state : SlabState)

theorem finishReferenceBlockWrite_journal (blockIndex : ℕ) :
    (state.finishReferenceBlockWrite blockIndex).journal =
      state.journal.adjustSlabJournalBlockReference
        (state.refCounts.blocks blockIndex).slabJournalLockToRelease (-1) := rfl

/-- A finished write leaves the block no longer writing, and queues it again
when it was dirtied while writing. -/
theorem finishReferenceBlockWrite_blocks (blockIndex b : ℕ) :
    (state.finishReferenceBlockWrite blockIndex).refCounts.blocks b =
      if b = blockIndex then { state.refCounts.blocks blockIndex with isWriting := false }
      else state.refCounts.blocks b := by
  unfold finishReferenceBlockWrite
  dsimp only
  split_ifs <;> simp_all

theorem finishReferenceBlockWrite_dirtyBlocks (blockIndex : ℕ) :
    (state.finishReferenceBlockWrite blockIndex).refCounts.dirtyBlocks =
      if (state.refCounts.blocks blockIndex).isDirty then state.refCounts.dirtyBlocks ++ [blockIndex]
      else state.refCounts.dirtyBlocks := by
  unfold finishReferenceBlockWrite
  dsimp only
  split_ifs <;> rfl

theorem finishReferenceBlockWrite_referenceBlockCount (blockIndex : ℕ) :
    (state.finishReferenceBlockWrite blockIndex).refCounts.referenceBlockCount =
      state.refCounts.referenceBlockCount := by
  unfold finishReferenceBlockWrite
  dsimp only
  split_ifs <;> rfl

theorem finishReferenceBlockWrite_blockCount (blockIndex : ℕ) :
    (state.finishReferenceBlockWrite blockIndex).refCounts.blockCount = state.refCounts.blockCount := by
  unfold finishReferenceBlockWrite
  dsimp only
  split_ifs <;> rfl

theorem finishReferenceBlockWrite_vioWaiters (blockIndex : ℕ) :
    (state.finishReferenceBlockWrite blockIndex).vioWaiters = state.vioWaiters := rfl

/-- An entry is prepared only when the tail block has room for it and the
journal need not reap, and preparing it changes only the journal's locks. -/
theorem prepareEntry_journal {operation : JournalOperation} {prepared : SlabState}
    (h : state.prepareEntry operation = some prepared) :
    state.journal.waitingToCommit = false ∧
      (operation = .blockMapIncrement → state.journal.entryCount < state.journal.fullEntriesPerBlock) ∧
      state.journal.requiresReaping = false ∧
      ∃ locks hlocks logged, prepared.journal =
        { state.journal with locks := locks, locks_lt := hlocks, underflowLogged := logged } := by
  unfold prepareEntry at h
  dsimp only at h
  split_ifs at h with hwaiting hroom hreaping hstarted hlocked htail <;> cases h
  all_goals
    refine ⟨by simpa using hwaiting, fun hop => lt_of_not_ge fun hge => hroom ⟨hop, hge⟩,
      by simpa using hreaping, ?_⟩
  · exact ⟨state.journal.locks, state.journal.locks_lt, state.journal.underflowLogged, rfl⟩
  · exact SlabJournal.adjustSlabJournalBlockReference_eq _ 1 _
  · exact ⟨_, _, state.journal.underflowLogged, rfl⟩

/-- A prepared entry goes into a started tail block, or starts the tail block,
whose count was zero: it takes one lock per entry and one for its summary, and
the first block of the journal also takes the reference blocks' locks. -/
theorem prepareEntry_cases {operation : JournalOperation} {prepared : SlabState}
    (h : state.prepareEntry operation = some prepared) :
    (state.journal.entryCount ≠ 0 ∧ prepared = state) ∨
      (state.journal.entryCount = 0 ∧ state.journal.lockCount state.journal.tail = 0 ∧
        let locked : SlabState := { state with
          journal := state.journal.setLockCount state.journal.tail ((state.journal.entriesPerBlock + 1) % 2 ^ 16)
            (Nat.mod_lt _ (by norm_num)) }
        prepared = if state.journal.tail = 1 then locked.acquireDirtyBlockLocks else locked) := by
  unfold prepareEntry at h
  dsimp only at h
  split_ifs at h with hwaiting hroom hreaping hstarted hlocked htail <;> cases h
  · exact Or.inl ⟨hstarted, rfl⟩
  · exact Or.inr ⟨by simpa using hstarted, by omega, by simp [htail]⟩
  · exact Or.inr ⟨by simpa using hstarted, by omega, by simp [htail]⟩

end SlabState

end Vdo
