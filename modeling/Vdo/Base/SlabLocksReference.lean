import Vdo.Base.SlabLocksInvariant

/-!
# Reference block writes keep the lock accounting

A reference block write has three stages: `launchReferenceBlockWrite` marks the
oldest dirty block writing and queues it for a VIO, `writeReferenceBlock` packs
it, turning the lock it holds into the lock its write will release, and
`finishReferenceBlockWrite` gives that lock back to the journal. The first two
stages move a lock between the two parts of what a reference block holds, so
the count of every journal block stays the same; the third takes one lock from
both sides of the equation.
-/

namespace Vdo

open IndexCount SlabJournal

namespace TrackedSlab

variable {t : TrackedSlab}

/-- Launching the write of the oldest dirty block keeps the locks it holds: it
holds its lock as a dirty block while it waits for a VIO. -/
theorem LockInvariant.saveOldestReferenceBlock (h : t.LockInvariant) :
    TrackedSlab.LockInvariant ⟨t.state.saveOldestReferenceBlock, t.history⟩ := by
  have hq := h.queues
  have ha := h.accounting
  unfold SlabState.saveOldestReferenceBlock
  split
  · exact h
  rename_i blockIndex rest hqueue
  have hhead := hq.queued blockIndex (by rw [hqueue]; exact List.mem_cons_self)
  have hnodup : blockIndex ∉ rest ∧ rest.Nodup := by
    have := hq.dirtyBlocks_nodup
    rwa [hqueue, List.nodup_cons] at this
  have hnotWaiting : blockIndex ∉ t.state.vioWaiters := fun hmem => by
    have := (hq.waiting blockIndex hmem).1
    rw [hhead.2] at this
    cases this
  have hwaiters : ∀ other, other ≠ blockIndex →
      (other ∈ t.state.vioWaiters ++ [blockIndex] ↔ other ∈ t.state.vioWaiters) := by
    intro other hne
    simp [hne]
  have hblocks : ∀ other, other ≠ blockIndex →
      ((t.state.refCounts.modifyBlock blockIndex fun block => { block with isWriting := true }).blocks other) =
        t.state.refCounts.blocks other := fun other hne => by simp [hne]
  have hself : (t.state.refCounts.modifyBlock blockIndex fun block => { block with isWriting := true }).blocks
      blockIndex = { t.state.refCounts.blocks blockIndex with isWriting := true } := by simp
  have hheld : ∀ s, SlabState.heldBy ⟨t.state.journal,
      { t.state.refCounts.modifyBlock blockIndex fun block => { block with isWriting := true } with
        dirtyBlocks := rest }, t.state.vioWaiters ++ [blockIndex]⟩ s = t.state.heldBy s := by
    intro s
    refine SlabState.heldBy_congr (by rfl) fun other _ => ?_
    unfold SlabState.holdsAt ReferenceBlock.holds
    dsimp only
    by_cases hother : other = blockIndex
    · subst hother
      rw [hself]
      simp [hhead.2, hnotWaiting]
    · rw [hblocks other hother, decide_eq_decide.mpr (hwaiters other hother)]
  have hidle : t.history.inFlight blockIndex = ∅ :=
    ha.inFlight_idle blockIndex fun hwriting => by rw [hhead.2] at hwriting; cases hwriting
  refine ⟨h.window, h.unreapable_le_lastSummarized, ?_, ?_⟩
  · constructor
    case queued =>
      intro other hother
      have hne : other ≠ blockIndex := fun heq => hnodup.1 (heq ▸ hother)
      dsimp only
      rw [hblocks other hne]
      exact hq.queued other (by rw [hqueue]; exact List.mem_cons_of_mem _ hother)
    case dirtyBlocks_nodup => exact hnodup.2
    case waiting =>
      intro other hother
      dsimp only
      by_cases hne : other = blockIndex
      · subst hne
        rw [hself]
        exact ⟨rfl, hhead.1⟩
      · rw [hblocks other hne]
        exact hq.waiting other ((hwaiters other hne).1 hother)
    case vioWaiters_nodup =>
      exact hq.vioWaiters_nodup.append (List.nodup_singleton _) (List.disjoint_singleton.mpr hnotWaiting)
    case referenceBlockCount_eq => exact hq.referenceBlockCount_eq
    case capacity => exact hq.capacity
  · refine ha.of_refCounts rfl rfl hheld (fun other hdirty => ?_) (fun other hwriting hlaunched => ?_)
      (fun other => ?_) (fun other => ?_) (fun other hwaitsIfWriting => ?_)
    · by_cases hne : other = blockIndex
      · subst hne
        rw [hself] at hdirty ⊢
        exact ha.dirty_held other hdirty
      · rw [hblocks other hne] at hdirty ⊢
        exact ha.dirty_held other hdirty
    · have hne : other ≠ blockIndex := fun heq => hlaunched (heq ▸ List.mem_append_right _ List.mem_cons_self)
      rw [hblocks other hne] at hwriting ⊢
      exact ha.inFlight_held other hwriting fun hmem => hlaunched (List.mem_append_left _ hmem)
    · by_cases hne : other = blockIndex
      · subst hne
        rw [hself]
        exact ha.unsaved_mem other
      · rw [hblocks other hne]
        exact ha.unsaved_mem other
    · by_cases hne : other = blockIndex
      · subst hne
        rw [hidle]
        simp
      · rw [hblocks other hne, (hwaiters other hne).not]
        exact ha.inFlight_mem other
    · by_cases hne : other = blockIndex
      · subst hne
        exact hidle
      · rw [hblocks other hne, hwaiters other hne] at hwaitsIfWriting
        exact ha.inFlight_idle other hwaitsIfWriting

/-- Packing a block that has its VIO turns the lock it holds as a dirty block
into the lock its write in flight will release, and turns its changes not yet
packed into changes in flight. -/
theorem LockInvariant.writeReferenceBlock (h : t.LockInvariant) {blockIndex : ℕ}
    (hwaiting : blockIndex ∈ t.state.vioWaiters) :
    TrackedSlab.LockInvariant ⟨t.state.writeReferenceBlock blockIndex, t.history.pack blockIndex⟩ := by
  have hq := h.queues
  have ha := h.accounting
  obtain ⟨hwriting, hdirty⟩ := hq.waiting blockIndex hwaiting
  have hnotQueued : blockIndex ∉ t.state.refCounts.dirtyBlocks := fun hmem => by
    have := (hq.queued blockIndex hmem).2
    rw [hwriting] at this
    cases this
  have hnotWaiting : blockIndex ∉ t.state.vioWaiters.erase blockIndex :=
    hq.vioWaiters_nodup.not_mem_erase
  have hwaiters : ∀ other, other ≠ blockIndex →
      (other ∈ t.state.vioWaiters.erase blockIndex ↔ other ∈ t.state.vioWaiters) := fun other hne =>
    List.mem_erase_of_ne hne
  have hblocks : ∀ other, other ≠ blockIndex →
      (t.state.refCounts.modifyBlock blockIndex fun block =>
        { block with slabJournalLockToRelease := block.slabJournalLock, isDirty := false }).blocks other =
        t.state.refCounts.blocks other :=
    fun other hne => by simp [hne]
  have hself : (t.state.refCounts.modifyBlock blockIndex fun block =>
        { block with slabJournalLockToRelease := block.slabJournalLock, isDirty := false }).blocks blockIndex =
      { t.state.refCounts.blocks blockIndex with
        slabJournalLockToRelease := (t.state.refCounts.blocks blockIndex).slabJournalLock, isDirty := false } := by
    simp
  have hheld : ∀ s, SlabState.heldBy ⟨t.state.journal, t.state.refCounts.modifyBlock blockIndex fun block =>
        { block with slabJournalLockToRelease := block.slabJournalLock, isDirty := false },
      t.state.vioWaiters.erase blockIndex⟩ s = t.state.heldBy s := by
    intro s
    refine SlabState.heldBy_congr (by rfl) fun other _ => ?_
    unfold SlabState.holdsAt ReferenceBlock.holds
    dsimp only
    by_cases hother : other = blockIndex
    · subst hother
      rw [hself]
      simp [hdirty, hwriting, hwaiting, hnotWaiting]
    · rw [hblocks other hother, decide_eq_decide.mpr (hwaiters other hother)]
  unfold SlabState.writeReferenceBlock
  refine ⟨h.window, h.unreapable_le_lastSummarized, ?_, ?_⟩
  · constructor
    case queued =>
      intro other hother
      have hne : other ≠ blockIndex := fun heq => hnotQueued (heq ▸ hother)
      dsimp only
      rw [hblocks other hne]
      exact hq.queued other hother
    case dirtyBlocks_nodup => exact hq.dirtyBlocks_nodup
    case waiting =>
      intro other hother
      have hne : other ≠ blockIndex := fun heq => hnotWaiting (heq ▸ hother)
      dsimp only
      rw [hblocks other hne]
      exact hq.waiting other ((hwaiters other hne).1 hother)
    case vioWaiters_nodup => exact hq.vioWaiters_nodup.erase _
    case referenceBlockCount_eq => exact hq.referenceBlockCount_eq
    case capacity => exact hq.capacity
  · refine ha.of_refCounts rfl rfl hheld (fun other hdirty' => ?_) (fun other hwriting' hlaunched => ?_)
      (fun other => ?_) (fun other => ?_) (fun other hwaitsIfWriting => ?_)
    · have hne : other ≠ blockIndex := fun heq => by
        rw [heq, hself] at hdirty'
        cases hdirty'
      rw [hblocks other hne] at hdirty' ⊢
      exact ha.dirty_held other hdirty'
    · by_cases hne : other = blockIndex
      · subst hne
        rw [hself]
        exact ha.dirty_held other hdirty
      · rw [hblocks other hne] at hwriting' ⊢
        exact ha.inFlight_held other hwriting' fun hmem => hlaunched ((hwaiters other hne).2 hmem)
    · rw [LockHistory.pack_unsaved]
      by_cases hne : other = blockIndex
      · rw [if_pos hne]
        simp
      · rw [if_neg hne, hblocks other hne]
        exact ha.unsaved_mem other
    · rw [LockHistory.pack_inFlight]
      by_cases hne : other = blockIndex
      · subst hne
        rw [if_pos rfl, hself]
        intro sequence hsequence
        obtain ⟨hpos, hheldAt | hkept⟩ := ha.unsaved_mem other sequence hsequence
        · exact ⟨hpos, Or.inl ⟨hwriting, hnotWaiting, hheldAt.2⟩⟩
        · exact ⟨hpos, Or.inr hkept⟩
      · rw [if_neg hne, hblocks other hne, (hwaiters other hne).not]
        exact ha.inFlight_mem other
    · rw [LockHistory.pack_inFlight]
      by_cases hne : other = blockIndex
      · subst hne
        rw [hself] at hwaitsIfWriting
        exact absurd (hwaitsIfWriting hwriting) hnotWaiting
      · rw [if_neg hne]
        rw [hblocks other hne, hwaiters other hne] at hwaitsIfWriting
        exact ha.inFlight_idle other hwaitsIfWriting

/-- A completed reference block write gives the lock it released back to the
journal: the block's count and the locks held on it drop by one together. -/
theorem LockInvariant.finishReferenceBlockWrite (h : t.LockInvariant) {blockIndex : ℕ}
    (hwriting : (t.state.refCounts.blocks blockIndex).isWriting = true)
    (hlaunched : blockIndex ∉ t.state.vioWaiters) :
    TrackedSlab.LockInvariant
      ⟨t.state.finishReferenceBlockWrite blockIndex, t.history.written blockIndex⟩ := by
  have hw := h.window
  have hq := h.queues
  have ha := h.accounting
  obtain ⟨hblock, hreleaseOpen⟩ := ha.inFlight_held blockIndex hwriting hlaunched
  have hnotQueued : blockIndex ∉ t.state.refCounts.dirtyBlocks := fun hmem => by
    have := (hq.queued blockIndex hmem).2
    rw [hwriting] at this
    cases this
  have hholds := t.state.holdsAt_of_inFlight hwriting hlaunched
  have hheldRelease := t.state.holdsAt_le_heldBy hblock
    (t.state.refCounts.blocks blockIndex).slabJournalLockToRelease
  have hcount := ha.count_eq _ hreleaseOpen
  have hentries := ha.entries_eq _ hreleaseOpen
  have hentriesLe : t.history.released (t.state.refCounts.blocks blockIndex).slabJournalLockToRelease ≤
      t.state.journal.entriesPerBlock := by
    have hcapacity := hw.entryCount_le.trans t.state.journal.entryCapacity_le
    split_ifs at hentries <;> omega
  have hreleasePos : 0 < (t.state.refCounts.blocks blockIndex).slabJournalLockToRelease :=
    hw.head_pos.trans_le (hw.head_le_unreapable.trans hreleaseOpen.1)
  have hbound := t.state.journal.locks_lt
    (t.state.journal.getSlabJournalBlockOffset (t.state.refCounts.blocks blockIndex).slabJournalLockToRelease)
  have hlow : 0 ≤ (t.state.journal.lockCount (t.state.refCounts.blocks blockIndex).slabJournalLockToRelease : ℤ) +
      -1 := by omega
  have hhigh : (t.state.journal.lockCount (t.state.refCounts.blocks blockIndex).slabJournalLockToRelease : ℤ) +
      -1 < 2 ^ 16 := by
    unfold SlabJournal.lockCount
    omega
  have hlocks : ∀ s, ((t.state.finishReferenceBlockWrite blockIndex).journal.lockCount s : ℤ) =
      if t.state.journal.getSlabJournalBlockOffset s =
          t.state.journal.getSlabJournalBlockOffset (t.state.refCounts.blocks blockIndex).slabJournalLockToRelease
      then (t.state.journal.lockCount (t.state.refCounts.blocks blockIndex).slabJournalLockToRelease : ℤ) + -1
      else (t.state.journal.lockCount s : ℤ) :=
    adjustSlabJournalBlockReference_lockCount hreleasePos hlow hhigh
  have hlogged : (t.state.finishReferenceBlockWrite blockIndex).journal.underflowLogged =
      t.state.journal.underflowLogged := adjustSlabJournalBlockReference_underflowLogged hlow
  have hopen : ∀ tailOpen s, (t.state.finishReferenceBlockWrite blockIndex).Opened tailOpen s ↔
      t.state.Opened tailOpen s := by
    intro tailOpen s
    unfold SlabState.Opened
    rw [SlabState.finishReferenceBlockWrite_journal]
    simp only [adjustSlabJournalBlockReference_unreapable, adjustSlabJournalBlockReference_tail]
  have hpending : ∀ s, (t.state.finishReferenceBlockWrite blockIndex).summaryPending s =
      t.state.summaryPending s := by
    intro s
    unfold SlabState.summaryPending
    rw [SlabState.finishReferenceBlockWrite_journal, adjustSlabJournalBlockReference_lastSummarized]
  have hblocks := t.state.finishReferenceBlockWrite_blocks blockIndex
  have hheld : ∀ s, (t.state.finishReferenceBlockWrite blockIndex).heldBy s +
      (if (t.state.refCounts.blocks blockIndex).slabJournalLockToRelease = s then 1 else 0) =
      t.state.heldBy s := by
    intro s
    have hsum := @SlabState.heldBy_add_of_eq_off t.state (t.state.finishReferenceBlockWrite blockIndex)
      (t.state.finishReferenceBlockWrite_referenceBlockCount blockIndex) blockIndex s hblock fun other _ hne => by
        unfold SlabState.holdsAt
        rw [hblocks other, if_neg hne, SlabState.finishReferenceBlockWrite_vioWaiters]
    have hbefore : t.state.holdsAt blockIndex s =
        (if (t.state.refCounts.blocks blockIndex).isDirty = true ∧
          (t.state.refCounts.blocks blockIndex).slabJournalLock = s then 1 else 0) +
        (if (t.state.refCounts.blocks blockIndex).slabJournalLockToRelease = s then 1 else 0) := by
      unfold SlabState.holdsAt ReferenceBlock.holds
      simp [hwriting, hlaunched]
    have hafter : (t.state.finishReferenceBlockWrite blockIndex).holdsAt blockIndex s =
        if (t.state.refCounts.blocks blockIndex).isDirty = true ∧
          (t.state.refCounts.blocks blockIndex).slabJournalLock = s then 1 else 0 := by
      unfold SlabState.holdsAt ReferenceBlock.holds
      rw [hblocks blockIndex, if_pos rfl]
      simp
    omega
  have hoffset : ∀ s, t.state.Opened (0 < t.state.journal.entryCount) s →
      (t.state.journal.getSlabJournalBlockOffset s =
          t.state.journal.getSlabJournalBlockOffset (t.state.refCounts.blocks blockIndex).slabJournalLockToRelease ↔
        s = (t.state.refCounts.blocks blockIndex).slabJournalLockToRelease) :=
    fun s hs => offset_eq_iff hs.1 hreleaseOpen.1 (ha.window s hs) (ha.window _ hreleaseOpen)
  have hentryCount : (t.state.finishReferenceBlockWrite blockIndex).journal.entryCount =
      t.state.journal.entryCount := by
    rw [SlabState.finishReferenceBlockWrite_journal, adjustSlabJournalBlockReference_entryCount]
  refine ⟨hw.adjustSlabJournalBlockReference _ _, ?_, ?_, ?_⟩
  · rw [SlabState.finishReferenceBlockWrite_journal, adjustSlabJournalBlockReference_unreapable,
      adjustSlabJournalBlockReference_lastSummarized]
    exact h.unreapable_le_lastSummarized
  · constructor
    case queued =>
      intro other hother
      rw [SlabState.finishReferenceBlockWrite_dirtyBlocks] at hother
      rw [hblocks other]
      split_ifs at hother with hdirty
      · rcases List.mem_append.mp hother with hold | hnew
        · have hne : other ≠ blockIndex := fun heq => hnotQueued (heq ▸ hold)
          rw [if_neg hne]
          exact hq.queued other hold
        · rw [List.mem_singleton.mp hnew, if_pos rfl]
          exact ⟨hdirty, rfl⟩
      · have hne : other ≠ blockIndex := fun heq => hnotQueued (heq ▸ hother)
        rw [if_neg hne]
        exact hq.queued other hother
    case dirtyBlocks_nodup =>
      rw [SlabState.finishReferenceBlockWrite_dirtyBlocks]
      split_ifs
      · exact hq.dirtyBlocks_nodup.append (List.nodup_singleton _) (List.disjoint_singleton.mpr hnotQueued)
      · exact hq.dirtyBlocks_nodup
    case waiting =>
      intro other hother
      rw [SlabState.finishReferenceBlockWrite_vioWaiters] at hother
      have hne : other ≠ blockIndex := fun heq => hlaunched (heq ▸ hother)
      rw [hblocks other, if_neg hne]
      exact hq.waiting other hother
    case vioWaiters_nodup => exact hq.vioWaiters_nodup
    case referenceBlockCount_eq =>
      rw [t.state.finishReferenceBlockWrite_referenceBlockCount blockIndex,
        t.state.finishReferenceBlockWrite_blockCount blockIndex]
      exact hq.referenceBlockCount_eq
    case capacity =>
      rw [t.state.finishReferenceBlockWrite_referenceBlockCount blockIndex, SlabState.finishReferenceBlockWrite_journal,
        adjustSlabJournalBlockReference_entriesPerBlock]
      exact hq.capacity
  · rw [hentryCount]
    constructor
    case count_eq =>
      intro s hs
      dsimp only
      have hentries : (t.state.finishReferenceBlockWrite blockIndex).journal.entriesPerBlock =
          t.state.journal.entriesPerBlock := by
        rw [SlabState.finishReferenceBlockWrite_journal, adjustSlabJournalBlockReference_entriesPerBlock]
      rw [hentries]
      have hs' := (hopen _ s).1 hs
      have hnew := hlocks s
      have hsum := hheld s
      have hcountS := ha.count_eq s hs'
      rw [hpending, LockHistory.written_released]
      by_cases hsRelease : s = (t.state.refCounts.blocks blockIndex).slabJournalLockToRelease
      · subst hsRelease
        rw [if_pos rfl] at hnew hsum
        omega
      · rw [if_neg fun heq => hsRelease ((hoffset s hs').1 heq)] at hnew
        rw [if_neg (Ne.symm hsRelease)] at hsum
        omega
    case entries_eq =>
      intro s hs
      rw [SlabState.finishReferenceBlockWrite_journal, adjustSlabJournalBlockReference_tail,
        adjustSlabJournalBlockReference_entryCount, adjustSlabJournalBlockReference_entriesPerBlock]
      exact ha.entries_eq s ((hopen _ s).1 hs)
    case window =>
      intro s hs
      simp only [SlabState.finishReferenceBlockWrite_journal, adjustSlabJournalBlockReference_unreapable,
        adjustSlabJournalBlockReference_size]
      exact ha.window s ((hopen _ s).1 hs)
    case idle_count =>
      intro s hlow hhigh hidle
      dsimp only at hlow hhigh ⊢
      simp only [SlabState.finishReferenceBlockWrite_journal, adjustSlabJournalBlockReference_unreapable,
        adjustSlabJournalBlockReference_size] at hlow hhigh
      have hidle' := fun hs => hidle ((hopen _ s).2 hs)
      have hne : t.state.journal.getSlabJournalBlockOffset s ≠
          t.state.journal.getSlabJournalBlockOffset (t.state.refCounts.blocks blockIndex).slabJournalLockToRelease := by
        intro heq
        have hsame := (offset_eq_iff hlow hreleaseOpen.1 hhigh (ha.window _ hreleaseOpen)).1 heq
        exact hidle' (hsame ▸ hreleaseOpen)
      have hnew := hlocks s
      rw [if_neg hne] at hnew
      have hzero := ha.idle_count s hlow hhigh hidle'
      omega
    case idle_history =>
      intro s hlow hidle
      rw [SlabState.finishReferenceBlockWrite_journal, adjustSlabJournalBlockReference_unreapable] at hlow
      exact ha.idle_history s hlow fun hs => hidle ((hopen _ s).2 hs)
    case reaped_kept =>
      intro s hs
      rw [SlabState.finishReferenceBlockWrite_journal, adjustSlabJournalBlockReference_unreapable] at hs
      exact ha.reaped_kept s hs
    case dirty_held =>
      intro other hdirty
      rw [hblocks other, t.state.finishReferenceBlockWrite_referenceBlockCount blockIndex] at *
      split_ifs at hdirty ⊢ with hne
      · subst hne
        obtain ⟨hlt, hopenLock⟩ := ha.dirty_held other hdirty
        exact ⟨hlt, (hopen _ _).2 hopenLock⟩
      · obtain ⟨hlt, hopenLock⟩ := ha.dirty_held other hdirty
        exact ⟨hlt, (hopen _ _).2 hopenLock⟩
    case inFlight_held =>
      intro other hwriting' hlaunched'
      rw [SlabState.finishReferenceBlockWrite_vioWaiters] at hlaunched'
      rw [t.state.finishReferenceBlockWrite_referenceBlockCount blockIndex]
      by_cases hne : other = blockIndex
      · rw [hblocks other, if_pos hne] at hwriting'
        simp at hwriting'
      · rw [hblocks other, if_neg hne] at hwriting' ⊢
        obtain ⟨hlt, hopenLock⟩ := ha.inFlight_held other hwriting' hlaunched'
        exact ⟨hlt, (hopen _ _).2 hopenLock⟩
    case unsaved_mem =>
      intro other
      rw [LockHistory.written_unsaved, LockHistory.written_kept, hblocks other]
      split_ifs with hne
      · subst hne
        exact ha.unsaved_mem other
      · exact ha.unsaved_mem other
    case inFlight_mem =>
      intro other
      rw [LockHistory.written_inFlight, LockHistory.written_kept, hblocks other,
        SlabState.finishReferenceBlockWrite_vioWaiters]
      split_ifs with hne
      · simp
      · exact ha.inFlight_mem other
    case inFlight_idle =>
      intro other hidle
      rw [LockHistory.written_inFlight]
      split_ifs with hne
      · rfl
      · rw [hblocks other, if_neg hne, SlabState.finishReferenceBlockWrite_vioWaiters] at hidle
        exact ha.inFlight_idle other hidle
    case underflowLogged_eq => exact hlogged.trans ha.underflowLogged_eq

end TrackedSlab

end Vdo
