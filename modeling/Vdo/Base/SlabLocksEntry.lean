import Vdo.Base.SlabLocksInvariant

/-!
# Entries keep the lock accounting

An entry is made in two stages. `addEntries` first prepares the tail block: a
block without entries takes its locks (one per entry and one for its summary
update, with the reference blocks' locks on the first block of the journal), so
the tail block counts as started before its first entry. Then
`addEntryFromWaiter` makes the entry and the change: the entry's lock is given
back by an unrecovered slab or by a reference block that already holds a lock,
handed to a reference block that holds none, or kept when no change is made.
-/

namespace Vdo

open IndexCount SlabJournal

namespace TrackedSlab

variable {t : TrackedSlab}

/-- A slab whose tail block is started before its entry: the invariant with
the tail block counted as started. -/
structure Prepared (t : TrackedSlab) : Prop where
  window : t.state.journal.Window
  unreapable_le_lastSummarized : t.state.journal.unreapable ≤ t.state.journal.lastSummarized
  queues : t.state.Queues
  accounting : t.Accounting True

theorem Accounting.congr {tailOpen tailOpen' : Prop} (h : t.Accounting tailOpen) (hopen : tailOpen ↔ tailOpen') :
    t.Accounting tailOpen' :=
  propext hopen ▸ h

/-! ## Preparing the tail block -/

/-- Starting an empty tail block whose count is zero gives it one lock per
entry and one for its summary update; it held nothing and had no history. -/
theorem LockInvariant.openTail (h : t.LockInvariant) (hempty : t.state.journal.entryCount = 0)
    (hreaping : t.state.journal.requiresReaping = false) :
    Prepared ⟨{ t.state with journal := (t.state.journal.setLockCount t.state.journal.tail
      ((t.state.journal.entriesPerBlock + 1) % 2 ^ 16) (Nat.mod_lt _ (by norm_num))) }, t.history⟩ := by
  have hw := h.window
  have ha := h.accounting
  have hcapacity := h.queues.capacity
  have htailWindow : t.state.journal.tail < t.state.journal.unreapable + t.state.journal.size := by
    have hthreshold : t.state.journal.tail - t.state.journal.head < t.state.journal.blockingThreshold := by
      simpa [requiresReaping] using hreaping
    have := t.state.journal.blockingThreshold_le
    have := hw.head_le_unreapable
    have := hw.unreapable_le_tail
    omega
  have hbefore : ∀ s, t.state.Opened (0 < t.state.journal.entryCount) s ↔
      t.state.journal.unreapable ≤ s ∧ s < t.state.journal.tail := by
    intro s
    unfold SlabState.Opened
    rw [hempty]
    omega
  have hafter : ∀ s, t.state.Opened True s ↔
      t.state.Opened (0 < t.state.journal.entryCount) s ∨ s = t.state.journal.tail := by
    intro s
    rw [hbefore]
    unfold SlabState.Opened
    have := hw.unreapable_le_tail
    constructor
    · rintro ⟨hlow, hs | ⟨rfl, -⟩⟩
      · exact Or.inl ⟨hlow, hs⟩
      · exact Or.inr rfl
    · rintro (⟨hlow, hs⟩ | rfl)
      · exact ⟨hlow, Or.inl hs⟩
      · exact ⟨this, Or.inr ⟨rfl, trivial⟩⟩
  have htailIdle : ¬t.state.Opened (0 < t.state.journal.entryCount) t.state.journal.tail := fun hs =>
    ((hbefore _).1 hs).2.false
  obtain ⟨hreleased, hkept⟩ := ha.idle_history _ hw.unreapable_le_tail htailIdle
  have hpending : t.state.summaryPending t.state.journal.tail = 1 :=
    if_pos (hw.lastSummarized_le_summarized.trans (hw.summarized_le_nextCommit.trans hw.nextCommit_le_tail))
  have hheld : t.state.heldBy t.state.journal.tail = 0 := by
    refine Finset.sum_eq_zero fun blockIndex _ => ?_
    have hnotDirty : ¬((t.state.refCounts.blocks blockIndex).isDirty = true ∧
        (t.state.refCounts.blocks blockIndex).slabJournalLock = t.state.journal.tail) := by
      rintro ⟨hdirty, hlock⟩
      exact htailIdle (hlock ▸ (ha.dirty_held blockIndex hdirty).2)
    have hnotFlight : ¬((t.state.refCounts.blocks blockIndex).isWriting = true ∧
        decide (blockIndex ∈ t.state.vioWaiters) = false ∧
        (t.state.refCounts.blocks blockIndex).slabJournalLockToRelease = t.state.journal.tail) := by
      rintro ⟨hwriting, hlaunched, hlock⟩
      have hopen := (ha.inFlight_held blockIndex hwriting (by simpa using hlaunched)).2
      exact htailIdle (hlock ▸ hopen)
    unfold SlabState.holdsAt ReferenceBlock.holds
    rw [if_neg hnotDirty, if_neg hnotFlight, Nat.add_zero]
  have hlocked : (t.state.journal.setLockCount t.state.journal.tail
      ((t.state.journal.entriesPerBlock + 1) % 2 ^ 16) (Nat.mod_lt _ (by norm_num))).lockCount
        t.state.journal.tail = t.state.journal.entriesPerBlock + 1 := by
    rw [setLockCount_lockCount_self, Nat.mod_eq_of_lt (by omega)]
  have hother : ∀ s, t.state.journal.getSlabJournalBlockOffset s ≠
      t.state.journal.getSlabJournalBlockOffset t.state.journal.tail →
      (t.state.journal.setLockCount t.state.journal.tail
        ((t.state.journal.entriesPerBlock + 1) % 2 ^ 16) (Nat.mod_lt _ (by norm_num))).lockCount s =
        t.state.journal.lockCount s := fun s hne => setLockCount_lockCount_of_ne hne
  refine ⟨hw.of_locks, h.unreapable_le_lastSummarized, h.queues.of_journal rfl rfl rfl, ?_⟩
  constructor
  case count_eq =>
    intro s hs
    rcases (hafter s).1 hs with hs | rfl
    · have hne : t.state.journal.getSlabJournalBlockOffset s ≠
          t.state.journal.getSlabJournalBlockOffset t.state.journal.tail := fun heq =>
        ((hbefore s).1 hs).2.ne ((offset_eq_iff hs.1 hw.unreapable_le_tail (ha.window s hs) htailWindow).1 heq)
      rw [hother s hne]
      exact ha.count_eq s hs
    · change (t.state.journal.setLockCount t.state.journal.tail
          ((t.state.journal.entriesPerBlock + 1) % 2 ^ 16) (Nat.mod_lt _ (by norm_num))).lockCount
          t.state.journal.tail + t.history.released t.state.journal.tail =
        t.state.journal.entriesPerBlock + t.state.summaryPending t.state.journal.tail +
          t.state.heldBy t.state.journal.tail
      rw [hlocked, hreleased, hpending, hheld]
  case entries_eq =>
    intro s hs
    rcases (hafter s).1 hs with hs | rfl
    · exact ha.entries_eq s hs
    · change t.history.released t.state.journal.tail + t.history.kept t.state.journal.tail =
        if t.state.journal.tail = t.state.journal.tail then t.state.journal.entryCount
        else t.state.journal.entriesPerBlock
      rw [hreleased, hkept, if_pos rfl, hempty]
  case window =>
    intro s hs
    rcases (hafter s).1 hs with hs | rfl
    · exact ha.window s hs
    · exact htailWindow
  case idle_count =>
    intro s hlow hhigh hidle
    have hidle' : ¬t.state.Opened (0 < t.state.journal.entryCount) s := fun hs =>
      hidle ((hafter s).2 (Or.inl hs))
    have hne : t.state.journal.getSlabJournalBlockOffset s ≠
        t.state.journal.getSlabJournalBlockOffset t.state.journal.tail := fun heq =>
      hidle ((hafter s).2 (Or.inr ((offset_eq_iff hlow hw.unreapable_le_tail hhigh htailWindow).1 heq)))
    rw [hother s hne]
    exact ha.idle_count s hlow hhigh hidle'
  case idle_history =>
    intro s hlow hidle
    exact ha.idle_history s hlow fun hs => hidle ((hafter s).2 (Or.inl hs))
  case reaped_kept => exact ha.reaped_kept
  case dirty_held =>
    intro blockIndex hdirty
    obtain ⟨hblock, hopen⟩ := ha.dirty_held blockIndex hdirty
    exact ⟨hblock, (hafter _).2 (Or.inl hopen)⟩
  case inFlight_held =>
    intro blockIndex hwriting hlaunched
    obtain ⟨hblock, hopen⟩ := ha.inFlight_held blockIndex hwriting hlaunched
    exact ⟨hblock, (hafter _).2 (Or.inl hopen)⟩
  case unsaved_mem => exact ha.unsaved_mem
  case inFlight_mem => exact ha.inFlight_mem
  case inFlight_idle => exact ha.inFlight_idle
  case underflowLogged_eq => exact ha.underflowLogged_eq

/-- Before the first entry of the journal no block is started, so no reference
block is dirty or writing and both queues are empty. -/
theorem LockInvariant.idle_of_first (h : t.LockInvariant) (hempty : t.state.journal.entryCount = 0)
    (htail : t.state.journal.tail = 1) :
    (∀ blockIndex, (t.state.refCounts.blocks blockIndex).isDirty = false ∧
      (t.state.refCounts.blocks blockIndex).isWriting = false) ∧
    t.state.refCounts.dirtyBlocks = [] ∧ t.state.vioWaiters = [] := by
  have hw := h.window
  have ha := h.accounting
  have hq := h.queues
  have hnone : ∀ s, ¬t.state.Opened (0 < t.state.journal.entryCount) s := by
    rintro s ⟨hlow, hs | ⟨-, hpos⟩⟩
    · have := hw.head_pos.trans_le hw.head_le_unreapable
      omega
    · omega
  have hclean : ∀ blockIndex, (t.state.refCounts.blocks blockIndex).isDirty = false := fun blockIndex => by
    by_contra hdirty
    exact hnone _ (ha.dirty_held blockIndex (by simpa using hdirty)).2
  refine ⟨fun blockIndex => ⟨hclean blockIndex, ?_⟩, ?_, ?_⟩
  · by_contra hwriting
    rw [Bool.not_eq_false] at hwriting
    by_cases hlaunched : blockIndex ∈ t.state.vioWaiters
    · have := (hq.waiting blockIndex hlaunched).2
      rw [hclean] at this
      cases this
    · exact hnone _ (ha.inFlight_held blockIndex hwriting hlaunched).2
  · refine List.eq_nil_iff_forall_not_mem.mpr fun blockIndex hmem => ?_
    have := (hq.queued blockIndex hmem).1
    rw [hclean] at this
    cases this
  · refine List.eq_nil_iff_forall_not_mem.mpr fun blockIndex hmem => ?_
    have := (hq.waiting blockIndex hmem).2
    rw [hclean] at this
    cases this

/-- `acquireDirtyBlockLocks` on the first block of the journal: every reference
block becomes dirty with a lock on block 1, which takes one more lock per
reference block. -/
theorem Prepared.acquireDirtyBlockLocks (hp : t.Prepared) (htail : t.state.journal.tail = 1)
    (hidle : ∀ blockIndex, (t.state.refCounts.blocks blockIndex).isDirty = false ∧
      (t.state.refCounts.blocks blockIndex).isWriting = false)
    (hqueue : t.state.refCounts.dirtyBlocks = []) (hwaiters : t.state.vioWaiters = []) :
    Prepared ⟨t.state.acquireDirtyBlockLocks, t.history⟩ := by
  have hw := hp.window
  have ha := hp.accounting
  have hq := hp.queues
  obtain ⟨hdirtied, hdirtyQueue, hdirtyCount, hdirtyBlockCount⟩ :=
    RefCounts.foldl_dirtyBlock (List.nodup_range : (List.range t.state.refCounts.referenceBlockCount).Nodup)
      t.state.refCounts fun blockIndex _ => hidle blockIndex
  obtain ⟨hlocked, hlockQueue, hlockCount, hlockBlockCount⟩ :=
    RefCounts.foldl_lockBlock (List.nodup_range : (List.range t.state.refCounts.referenceBlockCount).Nodup)
      t.state.refCounts.dirtyAllReferenceBlocks
  rw [← RefCounts.dirtyAllReferenceBlocks.eq_1] at hdirtied hdirtyQueue hdirtyCount hdirtyBlockCount
  have hrefCounts : t.state.acquireDirtyBlockLocks.refCounts =
      (List.range t.state.refCounts.referenceBlockCount).foldl (fun refCounts blockIndex =>
        refCounts.modifyBlock blockIndex fun block => { block with slabJournalLock := 1 })
        t.state.refCounts.dirtyAllReferenceBlocks := by
    show t.state.refCounts.dirtyAllReferenceBlocks.lockAllReferenceBlocks = _
    unfold RefCounts.lockAllReferenceBlocks
    rw [hdirtyCount]
  have hdirtyA : ∀ blockIndex, (t.state.acquireDirtyBlockLocks.refCounts.blocks blockIndex).isDirty =
      decide (blockIndex < t.state.refCounts.referenceBlockCount) := by
    intro blockIndex
    rw [hrefCounts, hlocked, hdirtied]
    by_cases hblock : blockIndex < t.state.refCounts.referenceBlockCount
    · simp [hblock]
    · simp [hblock, (hidle blockIndex).1]
  have hwritingA : ∀ blockIndex,
      (t.state.acquireDirtyBlockLocks.refCounts.blocks blockIndex).isWriting = false := by
    intro blockIndex
    rw [hrefCounts, hlocked, hdirtied]
    split_ifs <;> simp [(hidle blockIndex).2]
  have hlockA : ∀ blockIndex < t.state.refCounts.referenceBlockCount,
      (t.state.acquireDirtyBlockLocks.refCounts.blocks blockIndex).slabJournalLock = 1 := by
    intro blockIndex hblock
    rw [hrefCounts, hlocked]
    simp [hblock]
  have hcountA : t.state.acquireDirtyBlockLocks.refCounts.referenceBlockCount =
      t.state.refCounts.referenceBlockCount := by
    rw [hrefCounts, hlockCount, hdirtyCount]
  have hblockCountA : t.state.acquireDirtyBlockLocks.refCounts.blockCount = t.state.refCounts.blockCount := by
    rw [hrefCounts, hlockBlockCount, hdirtyBlockCount]
  have hqueueA : t.state.acquireDirtyBlockLocks.refCounts.dirtyBlocks =
      List.range t.state.refCounts.referenceBlockCount := by
    rw [hrefCounts, hlockQueue, hdirtyQueue, hqueue, List.nil_append]
  have hwaitersA : t.state.acquireDirtyBlockLocks.vioWaiters = [] := hwaiters
  have hheldBefore : ∀ s, t.state.heldBy s = 0 := by
    intro s
    refine Finset.sum_eq_zero fun blockIndex _ => ?_
    unfold SlabState.holdsAt ReferenceBlock.holds
    simp [(hidle blockIndex).1, (hidle blockIndex).2]
  have hheldA : ∀ s, t.state.acquireDirtyBlockLocks.heldBy s =
      if s = 1 then t.state.refCounts.referenceBlockCount else 0 := by
    intro s
    unfold SlabState.heldBy
    rw [hcountA]
    have hterm : ∀ blockIndex ∈ Finset.range t.state.refCounts.referenceBlockCount,
        t.state.acquireDirtyBlockLocks.holdsAt blockIndex s = if s = 1 then 1 else 0 := by
      intro blockIndex hblock
      have hlt := Finset.mem_range.mp hblock
      unfold SlabState.holdsAt ReferenceBlock.holds
      rw [hdirtyA, hlockA blockIndex hlt, hwritingA]
      by_cases hs : s = 1 <;> simp [hlt, hs, eq_comm]
    rw [Finset.sum_congr rfl hterm]
    split_ifs <;> simp
  have hcapacity := hq.capacity
  have hone : t.state.Opened True 1 := ⟨htail ▸ hw.unreapable_le_tail, Or.inr ⟨htail.symm, trivial⟩⟩
  have hcountOne := ha.count_eq 1 hone
  have hpendingOne : t.state.summaryPending 1 ≤ 1 := by
    unfold SlabState.summaryPending
    split_ifs <;> omega
  rw [hheldBefore] at hcountOne
  have hlow : 0 ≤ (t.state.journal.lockCount 1 : ℤ) + (t.state.refCounts.referenceBlockCount : ℤ) := by omega
  have hhigh : (t.state.journal.lockCount 1 : ℤ) + (t.state.refCounts.referenceBlockCount : ℤ) < 2 ^ 16 := by
    omega
  have hlocksA : ∀ s, (t.state.acquireDirtyBlockLocks.journal.lockCount s : ℤ) =
      if t.state.journal.getSlabJournalBlockOffset s = t.state.journal.getSlabJournalBlockOffset 1 then
        (t.state.journal.lockCount 1 : ℤ) + t.state.refCounts.referenceBlockCount
      else (t.state.journal.lockCount s : ℤ) :=
    adjustSlabJournalBlockReference_lockCount Nat.one_pos hlow hhigh
  have hloggedA : t.state.acquireDirtyBlockLocks.journal.underflowLogged = t.state.journal.underflowLogged :=
    adjustSlabJournalBlockReference_underflowLogged hlow
  have hjournal : t.state.acquireDirtyBlockLocks.journal =
      t.state.journal.adjustSlabJournalBlockReference 1 t.state.refCounts.referenceBlockCount := rfl
  have hopen : ∀ s, t.state.acquireDirtyBlockLocks.Opened True s ↔ t.state.Opened True s := by
    intro s
    unfold SlabState.Opened
    rw [hjournal, adjustSlabJournalBlockReference_unreapable, adjustSlabJournalBlockReference_tail]
  have hunreapable : t.state.journal.unreapable = 1 := by
    have := hw.unreapable_le_tail
    have := hw.head_pos.trans_le hw.head_le_unreapable
    omega
  have honly : ∀ s, t.state.Opened True s → s = 1 := by
    rintro s ⟨hlow, hs | ⟨hs, -⟩⟩ <;> omega
  refine ⟨?_, ?_, ?_, ?_⟩
  · rw [hjournal]
    exact hw.adjustSlabJournalBlockReference _ _
  · rw [hjournal, adjustSlabJournalBlockReference_unreapable, adjustSlabJournalBlockReference_lastSummarized]
    exact hp.unreapable_le_lastSummarized
  · constructor
    case queued =>
      intro blockIndex hmem
      rw [hqueueA, List.mem_range] at hmem
      dsimp only
      rw [hdirtyA, hwritingA]
      exact ⟨by simpa using hmem, rfl⟩
    case dirtyBlocks_nodup =>
      dsimp only
      rw [hqueueA]
      exact List.nodup_range
    case waiting =>
      intro blockIndex hmem
      rw [hwaitersA] at hmem
      cases hmem
    case vioWaiters_nodup =>
      dsimp only
      rw [hwaitersA]
      exact List.nodup_nil
    case referenceBlockCount_eq =>
      dsimp only
      rw [hcountA, hblockCountA]
      exact hq.referenceBlockCount_eq
    case capacity =>
      dsimp only
      rw [hcountA, hjournal, adjustSlabJournalBlockReference_entriesPerBlock]
      exact hcapacity
  · constructor
    case count_eq =>
      intro s hs
      have hsOne := honly s ((hopen s).1 hs)
      subst hsOne
      have hnew := hlocksA 1
      rw [if_pos rfl] at hnew
      dsimp only
      have hpending : t.state.acquireDirtyBlockLocks.summaryPending 1 = t.state.summaryPending 1 := by
        unfold SlabState.summaryPending
        rw [hjournal, adjustSlabJournalBlockReference_lastSummarized]
      rw [hpending, hheldA, if_pos rfl, hjournal, adjustSlabJournalBlockReference_entriesPerBlock]
      rw [hjournal] at hnew
      omega
    case entries_eq =>
      intro s hs
      dsimp only
      rw [hjournal, adjustSlabJournalBlockReference_tail, adjustSlabJournalBlockReference_entryCount,
        adjustSlabJournalBlockReference_entriesPerBlock]
      exact ha.entries_eq s ((hopen s).1 hs)
    case window =>
      intro s hs
      dsimp only
      rw [hjournal, adjustSlabJournalBlockReference_unreapable, adjustSlabJournalBlockReference_size]
      exact ha.window s ((hopen s).1 hs)
    case idle_count =>
      intro s hlow hhigh hidle'
      dsimp only at hlow hhigh ⊢
      simp only [hjournal, adjustSlabJournalBlockReference_unreapable,
        adjustSlabJournalBlockReference_size] at hlow hhigh
      have hne : t.state.journal.getSlabJournalBlockOffset s ≠ t.state.journal.getSlabJournalBlockOffset 1 := by
        intro heq
        have hsame := (offset_eq_iff hlow (hunreapable ▸ le_rfl : t.state.journal.unreapable ≤ 1) hhigh
          (by have := t.state.journal.size_pos; omega)).1 heq
        exact hidle' ((hopen s).2 (hsame ▸ hone))
      have hnew := hlocksA s
      rw [if_neg hne] at hnew
      have hzero := ha.idle_count s hlow hhigh fun hs => hidle' ((hopen s).2 hs)
      omega
    case idle_history =>
      intro s hlow hidle'
      dsimp only at hlow
      rw [hjournal, adjustSlabJournalBlockReference_unreapable] at hlow
      exact ha.idle_history s hlow fun hs => hidle' ((hopen s).2 hs)
    case reaped_kept =>
      intro s hs
      dsimp only at hs
      rw [hjournal, adjustSlabJournalBlockReference_unreapable] at hs
      exact ha.reaped_kept s hs
    case dirty_held =>
      intro blockIndex hdirty
      dsimp only at hdirty ⊢
      rw [hdirtyA] at hdirty
      have hblock : blockIndex < t.state.refCounts.referenceBlockCount := by simpa using hdirty
      rw [hcountA, hlockA blockIndex hblock]
      exact ⟨hblock, (hopen 1).2 hone⟩
    case inFlight_held =>
      intro blockIndex hwriting
      dsimp only at hwriting
      rw [hwritingA] at hwriting
      cases hwriting
    case unsaved_mem =>
      intro blockIndex sequence hsequence
      obtain ⟨hpos, hheld | hkept⟩ := ha.unsaved_mem blockIndex sequence hsequence
      · rw [(hidle blockIndex).1] at hheld
        cases hheld.1
      · exact ⟨hpos, Or.inr hkept⟩
    case inFlight_mem =>
      intro blockIndex sequence hsequence
      have hempty := ha.inFlight_idle blockIndex fun hwriting => by
        rw [(hidle blockIndex).2] at hwriting
        cases hwriting
      rw [hempty] at hsequence
      cases hsequence
    case inFlight_idle =>
      intro blockIndex _
      exact ha.inFlight_idle blockIndex fun hwriting => by
        rw [(hidle blockIndex).2] at hwriting
        cases hwriting
    case underflowLogged_eq =>
      dsimp only
      exact hloggedA.trans ha.underflowLogged_eq

/-- `prepareEntry` starts the tail block when it has no entries: the slab is
then prepared for the entry. -/
theorem LockInvariant.prepared (h : t.LockInvariant) {operation : JournalOperation} {prepared : SlabState}
    (hprepare : t.state.prepareEntry operation = some prepared) : Prepared ⟨prepared, t.history⟩ := by
  obtain ⟨-, -, hreaping, -⟩ := t.state.prepareEntry_journal hprepare
  rcases t.state.prepareEntry_cases hprepare with ⟨hstarted, rfl⟩ | ⟨hempty, -, hprepared⟩
  · exact ⟨h.window, h.unreapable_le_lastSummarized, h.queues,
      h.accounting.congr (iff_true_intro (Nat.pos_of_ne_zero hstarted))⟩
  · have hopened := h.openTail hempty hreaping
    dsimp only at hprepared
    split_ifs at hprepared with htail
    · obtain ⟨hidle, hqueue, hwaiters⟩ := h.idle_of_first hempty htail
      subst hprepared
      exact hopened.acquireDirtyBlockLocks htail hidle hqueue hwaiters
    · subst hprepared
      exact hopened

/-! ## Making the entry -/

/-- An entry moves only the tail block's part of the accounting. A state whose
journal is the prepared one with the entry added (and its locks changed), whose
history and held locks differ only on the tail block, and whose tail block
keeps its equation and has one more entry given back or kept, keeps the
accounting when its reference blocks' locks and changes stay where the
accounting needs them. -/
theorem Prepared.entry (hp : t.Prepared) (operation : JournalOperation) {state : SlabState}
    {history : LockHistory}
    (hjournal : ∃ locks hlocks logged, state.journal =
      { t.state.journal.addEntry operation with locks := locks, locks_lt := hlocks, underflowLogged := logged })
    (hlogged : state.journal.underflowLogged = false)
    (hlocks : ∀ s, t.state.journal.getSlabJournalBlockOffset s ≠
      t.state.journal.getSlabJournalBlockOffset t.state.journal.tail →
        state.journal.lockCount s = t.state.journal.lockCount s)
    (hreleased : ∀ s ≠ t.state.journal.tail, history.released s = t.history.released s)
    (hkept : ∀ s ≠ t.state.journal.tail, history.kept s = t.history.kept s)
    (hheld : ∀ s ≠ t.state.journal.tail, state.heldBy s = t.state.heldBy s)
    (hcountTail : state.journal.lockCount t.state.journal.tail + history.released t.state.journal.tail =
      t.state.journal.entriesPerBlock + t.state.summaryPending t.state.journal.tail +
        state.heldBy t.state.journal.tail)
    (hentriesTail : history.released t.state.journal.tail + history.kept t.state.journal.tail =
      t.state.journal.entryCount + 1)
    (hdirty : ∀ blockIndex, (state.refCounts.blocks blockIndex).isDirty = true →
      blockIndex < state.refCounts.referenceBlockCount ∧
        t.state.Opened True (state.refCounts.blocks blockIndex).slabJournalLock)
    (hinFlight : ∀ blockIndex, (state.refCounts.blocks blockIndex).isWriting = true →
      blockIndex ∉ state.vioWaiters → blockIndex < state.refCounts.referenceBlockCount ∧
        t.state.Opened True (state.refCounts.blocks blockIndex).slabJournalLockToRelease)
    (hunsaved : ∀ blockIndex, ∀ sequence ∈ history.unsaved blockIndex, 0 < sequence ∧
      ((state.refCounts.blocks blockIndex).isDirty = true ∧
          (state.refCounts.blocks blockIndex).slabJournalLock ≤ sequence ∨
        0 < history.kept sequence))
    (hinFlightMem : ∀ blockIndex, ∀ sequence ∈ history.inFlight blockIndex, 0 < sequence ∧
      ((state.refCounts.blocks blockIndex).isWriting = true ∧ blockIndex ∉ state.vioWaiters ∧
          (state.refCounts.blocks blockIndex).slabJournalLockToRelease ≤ sequence ∨
        0 < history.kept sequence))
    (hidle : ∀ blockIndex, ((state.refCounts.blocks blockIndex).isWriting = true →
      blockIndex ∈ state.vioWaiters) → history.inFlight blockIndex = ∅) :
    TrackedSlab.Accounting ⟨state, history⟩ True := by
  have hw := hp.window
  have ha := hp.accounting
  obtain ⟨locks, hlocksLt, logged, hJ⟩ := hjournal
  have hunreapable : state.journal.unreapable = t.state.journal.unreapable := by rw [hJ]; simp
  have htail : state.journal.tail = t.state.journal.tail := by rw [hJ]; simp
  have hsize : state.journal.size = t.state.journal.size := by rw [hJ]; simp
  have hentries : state.journal.entriesPerBlock = t.state.journal.entriesPerBlock := by rw [hJ]; simp
  have hentryCount : state.journal.entryCount = t.state.journal.entryCount + 1 := by rw [hJ]; simp
  have hopen : ∀ s, state.Opened True s ↔ t.state.Opened True s := by
    intro s
    unfold SlabState.Opened
    rw [hunreapable, htail]
  have hpending : ∀ s, state.summaryPending s = t.state.summaryPending s := by
    intro s
    unfold SlabState.summaryPending
    rw [hJ]
    simp
  have htailOpen : t.state.Opened True t.state.journal.tail := ⟨hw.unreapable_le_tail, Or.inr ⟨rfl, trivial⟩⟩
  have htailWindow := ha.window _ htailOpen
  have hne : ∀ s, t.state.journal.unreapable ≤ s → s < t.state.journal.unreapable + t.state.journal.size →
      s ≠ t.state.journal.tail →
        t.state.journal.getSlabJournalBlockOffset s ≠ t.state.journal.getSlabJournalBlockOffset t.state.journal.tail :=
    fun s hlow hhigh hsT heq => hsT ((offset_eq_iff hlow hw.unreapable_le_tail hhigh htailWindow).1 heq)
  constructor
  case count_eq =>
    intro s hs
    have hs' := (hopen s).1 hs
    rw [hentries, hpending]
    by_cases hsT : s = t.state.journal.tail
    · subst hsT
      exact hcountTail
    · rw [hlocks s (hne s hs'.1 (ha.window s hs') hsT), hreleased s hsT, hheld s hsT]
      exact ha.count_eq s hs'
  case entries_eq =>
    intro s hs
    rw [htail, hentryCount, hentries]
    by_cases hsT : s = t.state.journal.tail
    · rw [if_pos hsT]
      subst hsT
      exact hentriesTail
    · have hbefore := ha.entries_eq s ((hopen s).1 hs)
      rw [if_neg hsT] at hbefore ⊢
      rw [hreleased s hsT, hkept s hsT]
      exact hbefore
  case window =>
    intro s hs
    rw [hunreapable, hsize]
    exact ha.window s ((hopen s).1 hs)
  case idle_count =>
    intro s hlow hhigh hidle'
    rw [hunreapable] at hlow
    rw [hunreapable, hsize] at hhigh
    have hnot : ¬t.state.Opened True s := fun hs => hidle' ((hopen s).2 hs)
    have hsT : s ≠ t.state.journal.tail := fun heq => hnot (heq ▸ htailOpen)
    rw [hlocks s (hne s hlow hhigh hsT)]
    exact ha.idle_count s hlow hhigh hnot
  case idle_history =>
    intro s hlow hidle'
    rw [hunreapable] at hlow
    have hnot : ¬t.state.Opened True s := fun hs => hidle' ((hopen s).2 hs)
    have hsT : s ≠ t.state.journal.tail := fun heq => hnot (heq ▸ htailOpen)
    rw [hreleased s hsT, hkept s hsT]
    exact ha.idle_history s hlow hnot
  case reaped_kept =>
    intro s hs
    rw [hunreapable] at hs
    have hsT : s ≠ t.state.journal.tail := by
      have := hw.unreapable_le_tail
      omega
    rw [hkept s hsT]
    exact ha.reaped_kept s hs
  case dirty_held =>
    intro blockIndex hdirty'
    obtain ⟨hblock, hheldOpen⟩ := hdirty blockIndex hdirty'
    exact ⟨hblock, (hopen _).2 hheldOpen⟩
  case inFlight_held =>
    intro blockIndex hwriting hlaunched
    obtain ⟨hblock, hheldOpen⟩ := hinFlight blockIndex hwriting hlaunched
    exact ⟨hblock, (hopen _).2 hheldOpen⟩
  case unsaved_mem => exact hunsaved
  case inFlight_mem => exact hinFlightMem
  case inFlight_idle => exact hidle
  case underflowLogged_eq => exact hlogged

/-- What an entry needs of the tail block: it has room for the entry, its
entries so far are given back or kept, and it keeps its equation. -/
theorem Prepared.tail (hp : t.Prepared) (hwaiting : t.state.journal.waitingToCommit = false) :
    t.state.journal.entryCount < t.state.journal.entriesPerBlock ∧
      t.history.released t.state.journal.tail + t.history.kept t.state.journal.tail =
        t.state.journal.entryCount ∧
      t.state.journal.lockCount t.state.journal.tail + t.history.released t.state.journal.tail =
        t.state.journal.entriesPerBlock + t.state.summaryPending t.state.journal.tail +
          t.state.heldBy t.state.journal.tail := by
  have htailOpen : t.state.Opened True t.state.journal.tail :=
    ⟨hp.window.unreapable_le_tail, Or.inr ⟨rfl, trivial⟩⟩
  have hentries := hp.accounting.entries_eq _ htailOpen
  rw [if_pos rfl] at hentries
  exact ⟨(hp.window.entryCount_lt hwaiting).trans_le t.state.journal.entryCapacity_le, hentries,
    hp.accounting.count_eq _ htailOpen⟩

theorem Prepared.tail_pos (hp : t.Prepared) : 0 < t.state.journal.tail :=
  hp.window.head_pos.trans_le (hp.window.head_le_unreapable.trans hp.window.unreapable_le_tail)

/-- Below the blocking threshold the entry keeps the journal's window. -/
theorem Prepared.addEntry_window (hp : t.Prepared) {operation : JournalOperation}
    (hwaiting : t.state.journal.waitingToCommit = false)
    (hroom : operation = .blockMapIncrement → t.state.journal.entryCount < t.state.journal.fullEntriesPerBlock)
    (hreaping : t.state.journal.requiresReaping = false) : (t.state.journal.addEntry operation).Window := by
  have hthreshold : t.state.journal.tail - t.state.journal.head < t.state.journal.blockingThreshold := by
    simpa [requiresReaping] using hreaping
  have := t.state.journal.blockingThreshold_le
  have := hp.window.head_le_unreapable
  have := hp.window.unreapable_le_tail
  exact hp.window.addEntry hwaiting hroom (by omega)

/-! ### Changes that keep the reference blocks' locks -/

section SameLocks

variable {refCounts : RefCounts}

theorem Accounting.dirty_held_of_sameLocks (ha : t.Accounting True) (hsame : t.state.refCounts.SameLocks refCounts)
    (blockIndex : ℕ) (hdirty : (refCounts.blocks blockIndex).isDirty = true) :
    blockIndex < refCounts.referenceBlockCount ∧ t.state.Opened True (refCounts.blocks blockIndex).slabJournalLock := by
  rw [hsame.isDirty_eq] at hdirty
  rw [hsame.referenceBlockCount_eq, hsame.slabJournalLock_eq]
  exact ha.dirty_held blockIndex hdirty

theorem Accounting.inFlight_held_of_sameLocks (ha : t.Accounting True)
    (hsame : t.state.refCounts.SameLocks refCounts) (blockIndex : ℕ)
    (hwriting : (refCounts.blocks blockIndex).isWriting = true) (hlaunched : blockIndex ∉ t.state.vioWaiters) :
    blockIndex < refCounts.referenceBlockCount ∧
      t.state.Opened True (refCounts.blocks blockIndex).slabJournalLockToRelease := by
  rw [hsame.isWriting_eq] at hwriting
  rw [hsame.referenceBlockCount_eq, hsame.slabJournalLockToRelease_eq]
  exact ha.inFlight_held blockIndex hwriting hlaunched

/-- Changes in flight stay justified when the locks are the same and no kept
lock is given back. -/
theorem Accounting.inFlight_mem_of_sameLocks (ha : t.Accounting True)
    (hsame : t.state.refCounts.SameLocks refCounts) {history : LockHistory}
    (hkept : ∀ s, t.history.kept s ≤ history.kept s) (hinFlight : history.inFlight = t.history.inFlight)
    (blockIndex : ℕ) : ∀ sequence ∈ history.inFlight blockIndex, 0 < sequence ∧
      ((refCounts.blocks blockIndex).isWriting = true ∧ blockIndex ∉ t.state.vioWaiters ∧
          (refCounts.blocks blockIndex).slabJournalLockToRelease ≤ sequence ∨
        0 < history.kept sequence) := by
  intro sequence hsequence
  rw [hinFlight] at hsequence
  rw [hsame.isWriting_eq, hsame.slabJournalLockToRelease_eq]
  obtain ⟨hpos, hflight | hkeeps⟩ := ha.inFlight_mem blockIndex sequence hsequence
  · exact ⟨hpos, Or.inl hflight⟩
  · exact ⟨hpos, Or.inr (hkeeps.trans_le (hkept sequence))⟩

theorem Accounting.inFlight_idle_of_sameLocks (ha : t.Accounting True)
    (hsame : t.state.refCounts.SameLocks refCounts) {history : LockHistory}
    (hinFlight : history.inFlight = t.history.inFlight) (blockIndex : ℕ)
    (hidle : (refCounts.blocks blockIndex).isWriting = true → blockIndex ∈ t.state.vioWaiters) :
    history.inFlight blockIndex = ∅ := by
  rw [hsame.isWriting_eq] at hidle
  rw [hinFlight]
  exact ha.inFlight_idle blockIndex hidle

/-- The entry's lock goes back (an unrecovered slab, or a reference block that
already holds a lock): the tail block's count drops by one and its history
records one more lock given back. The change, if any, is held by a dirty
reference block whose lock is on a block no later than the tail. -/
theorem Prepared.giveBackEntry (hp : t.Prepared) {operation : JournalOperation}
    (hwaiting : t.state.journal.waitingToCommit = false)
    (hroom : operation = .blockMapIncrement → t.state.journal.entryCount < t.state.journal.fullEntriesPerBlock)
    (hreaping : t.state.journal.requiresReaping = false) (hsame : t.state.refCounts.SameLocks refCounts)
    {history : LockHistory} (hreleased : history.released = (t.history.giveBack t.state.journal.tail 1).released)
    (hkept : history.kept = t.history.kept) (hinFlight : history.inFlight = t.history.inFlight)
    (hunsaved : ∀ blockIndex, ∀ sequence ∈ history.unsaved blockIndex, sequence ∈ t.history.unsaved blockIndex ∨
      sequence = t.state.journal.tail ∧ (t.state.refCounts.blocks blockIndex).isDirty = true ∧
        (t.state.refCounts.blocks blockIndex).slabJournalLock ≤ t.state.journal.tail) :
    TrackedSlab.LockInvariant ⟨{ t.state with
      journal := (t.state.journal.addEntry operation).adjustSlabJournalBlockReference t.state.journal.tail (-1)
      refCounts := refCounts }, history⟩ := by
  have ha := hp.accounting
  obtain ⟨hroomE, hentriesTail, hcountTail⟩ := hp.tail hwaiting
  have htailPos := hp.tail_pos
  have hlocksLt := (t.state.journal.addEntry operation).locks_lt
    (t.state.journal.getSlabJournalBlockOffset t.state.journal.tail)
  have hlow : 0 ≤ ((t.state.journal.addEntry operation).lockCount t.state.journal.tail : ℤ) + -1 := by
    rw [addEntry_lockCount]
    omega
  have hhigh : ((t.state.journal.addEntry operation).lockCount t.state.journal.tail : ℤ) + -1 < 2 ^ 16 := by
    change ((t.state.journal.addEntry operation).locks
      ((t.state.journal.addEntry operation).getSlabJournalBlockOffset t.state.journal.tail) : ℤ) + -1 < 2 ^ 16
    rw [addEntry_getSlabJournalBlockOffset]
    omega
  have hlocksNew := adjustSlabJournalBlockReference_lockCount htailPos hlow hhigh
  simp only [addEntry_getSlabJournalBlockOffset, addEntry_lockCount] at hlocksNew
  have hheld : ∀ s, SlabState.heldBy { t.state with
      journal := (t.state.journal.addEntry operation).adjustSlabJournalBlockReference t.state.journal.tail (-1)
      refCounts := refCounts } s = t.state.heldBy s :=
    SlabState.heldBy_of_sameLocks hsame rfl
  refine ⟨(hp.addEntry_window hwaiting hroom hreaping).adjustSlabJournalBlockReference _ _, ?_,
    hp.queues.of_sameLocks hsame (by simp), ?_⟩
  · simpa using hp.unreapable_le_lastSummarized
  have haccounting : TrackedSlab.Accounting ⟨{ t.state with
      journal := (t.state.journal.addEntry operation).adjustSlabJournalBlockReference t.state.journal.tail (-1)
      refCounts := refCounts }, history⟩ True :=
    hp.entry operation (adjustSlabJournalBlockReference_eq _ _ _) ?_ ?_ ?_ ?_ ?_ ?_ ?_
      (ha.dirty_held_of_sameLocks hsame) (ha.inFlight_held_of_sameLocks hsame) ?_
      (ha.inFlight_mem_of_sameLocks hsame (fun s => by rw [hkept]) hinFlight)
      (ha.inFlight_idle_of_sameLocks hsame hinFlight)
  · exact haccounting.congr (iff_true_intro (by simp)).symm
  · rw [adjustSlabJournalBlockReference_underflowLogged hlow, addEntry_underflowLogged]
    exact ha.underflowLogged_eq
  · intro s hne
    have hnew := hlocksNew s
    rw [if_neg hne] at hnew
    dsimp only
    omega
  · intro s hsT
    rw [hreleased, LockHistory.giveBack_released, if_neg hsT]
  · intro s _
    rw [hkept]
  · exact fun s _ => hheld s
  · have hnew := hlocksNew t.state.journal.tail
    rw [if_pos rfl] at hnew
    rw [hreleased, LockHistory.giveBack_released, if_pos rfl, hheld]
    dsimp only
    omega
  · rw [hreleased, hkept, LockHistory.giveBack_released, if_pos rfl]
    omega
  · intro blockIndex sequence hsequence
    dsimp only
    rw [hsame.isDirty_eq, hsame.slabJournalLock_eq, hkept]
    rcases hunsaved blockIndex sequence hsequence with hold | ⟨rfl, hdirty, hlock⟩
    · exact ha.unsaved_mem blockIndex sequence hold
    · exact ⟨htailPos, Or.inl ⟨hdirty, hlock⟩⟩

/-- The entry's lock stays taken (the change failed, or decremented a
provisional reference): the tail block's history records one more lock kept,
which also justifies the change if there is one. -/
theorem Prepared.keepEntry (hp : t.Prepared) {operation : JournalOperation}
    (hwaiting : t.state.journal.waitingToCommit = false)
    (hroom : operation = .blockMapIncrement → t.state.journal.entryCount < t.state.journal.fullEntriesPerBlock)
    (hreaping : t.state.journal.requiresReaping = false) (hsame : t.state.refCounts.SameLocks refCounts)
    {history : LockHistory} (hreleased : history.released = t.history.released)
    (hkept : history.kept = (t.history.keep t.state.journal.tail).kept)
    (hinFlight : history.inFlight = t.history.inFlight)
    (hunsaved : ∀ blockIndex, ∀ sequence ∈ history.unsaved blockIndex,
      sequence ∈ t.history.unsaved blockIndex ∨ sequence = t.state.journal.tail) :
    TrackedSlab.LockInvariant ⟨{ t.state with
      journal := t.state.journal.addEntry operation
      refCounts := refCounts }, history⟩ := by
  have ha := hp.accounting
  obtain ⟨-, hentriesTail, hcountTail⟩ := hp.tail hwaiting
  have htailPos := hp.tail_pos
  have hmore : ∀ s, t.history.kept s ≤ history.kept s := by
    intro s
    rw [hkept, LockHistory.keep_kept]
    split_ifs with hsT
    · rw [hsT]
      exact Nat.le_succ _
    · exact le_rfl
  have hheld : ∀ s, SlabState.heldBy { t.state with
      journal := t.state.journal.addEntry operation
      refCounts := refCounts } s = t.state.heldBy s :=
    SlabState.heldBy_of_sameLocks hsame rfl
  refine ⟨hp.addEntry_window hwaiting hroom hreaping, ?_, hp.queues.of_sameLocks hsame (by simp), ?_⟩
  · simpa using hp.unreapable_le_lastSummarized
  have haccounting : TrackedSlab.Accounting ⟨{ t.state with
      journal := t.state.journal.addEntry operation
      refCounts := refCounts }, history⟩ True :=
    hp.entry operation ⟨_, _, _, rfl⟩ ?_ ?_ ?_ ?_ ?_ ?_ ?_
      (ha.dirty_held_of_sameLocks hsame) (ha.inFlight_held_of_sameLocks hsame) ?_
      (ha.inFlight_mem_of_sameLocks hsame hmore hinFlight)
      (ha.inFlight_idle_of_sameLocks hsame hinFlight)
  · exact haccounting.congr (iff_true_intro (by simp)).symm
  · dsimp only
    rw [addEntry_underflowLogged]
    exact ha.underflowLogged_eq
  · intro s _
    dsimp only
    rw [addEntry_lockCount]
  · intro s _
    rw [hreleased]
  · intro s hsT
    rw [hkept, LockHistory.keep_kept, if_neg hsT]
  · exact fun s _ => hheld s
  · dsimp only
    rw [addEntry_lockCount, hreleased, hheld]
    exact hcountTail
  · rw [hreleased, hkept, LockHistory.keep_kept, if_pos rfl]
    omega
  · intro blockIndex sequence hsequence
    dsimp only
    rw [hsame.isDirty_eq, hsame.slabJournalLock_eq]
    rcases hunsaved blockIndex sequence hsequence with hold | rfl
    · obtain ⟨hpos, hdirty | hkeeps⟩ := ha.unsaved_mem blockIndex sequence hold
      · exact ⟨hpos, Or.inl hdirty⟩
      · exact ⟨hpos, Or.inr (hkeeps.trans_le (hmore sequence))⟩
    · refine ⟨htailPos, Or.inr ?_⟩
      rw [hkept, LockHistory.keep_kept, if_pos rfl]
      exact Nat.succ_pos _

end SameLocks

/-! ### A change that hands the entry's lock to its reference block -/

section HandLock

variable {updated : RefCounts} {blockIndex : ℕ}

/-- A reference block without a lock of its own is clean: a dirty block's lock
is on a started block, and no started block has sequence number 0. -/
theorem Prepared.clean_of_unlocked (hp : t.Prepared)
    (hunlocked : ¬((t.state.refCounts.blocks blockIndex).isDirty = true ∧
      0 < (t.state.refCounts.blocks blockIndex).slabJournalLock)) :
    (t.state.refCounts.blocks blockIndex).isDirty = false := by
  by_contra hdirty
  rw [Bool.not_eq_false] at hdirty
  have hopen := (hp.accounting.dirty_held blockIndex hdirty).2
  exact hunlocked ⟨hdirty, hp.window.head_pos.trans_le (hp.window.head_le_unreapable.trans hopen.1)⟩

/-- The block that takes the lock joins the dirty queue unless it is being
written, and it was in neither queue's dirty part before. -/
theorem Prepared.handLock_queues (hp : t.Prepared) (hsame : t.state.refCounts.SameLocks updated)
    (hclean : (t.state.refCounts.blocks blockIndex).isDirty = false) {journal : SlabJournal}
    (hentries : journal.entriesPerBlock = t.state.journal.entriesPerBlock) (lock : ℕ) :
    SlabState.Queues { t.state with
      journal := journal
      refCounts := (updated.modifyBlock blockIndex fun block => { block with slabJournalLock := lock }).dirtyBlock
        blockIndex } := by
  obtain ⟨hqueued, hdirtyNodup, hwaiting, hwaitersNodup, hcount, hcapacity⟩ := hp.queues
  have hfields := hsame.handLock _ blockIndex lock
  have hnotQueued : blockIndex ∉ t.state.refCounts.dirtyBlocks := fun hmem => by
    have hdirty := (hqueued blockIndex hmem).1
    rw [hclean] at hdirty
    cases hdirty
  have hqueue : ((updated.modifyBlock blockIndex fun block => { block with slabJournalLock := lock }).dirtyBlock
      blockIndex).dirtyBlocks =
      if (t.state.refCounts.blocks blockIndex).isWriting then t.state.refCounts.dirtyBlocks
      else t.state.refCounts.dirtyBlocks ++ [blockIndex] := by
    rw [RefCounts.handLock_dirtyBlocks, hsame.isDirty_eq, hsame.isWriting_eq, hclean, Bool.false_or,
      hsame.dirtyBlocks_eq]
  have hold : ∀ other ∈ t.state.refCounts.dirtyBlocks,
      (((updated.modifyBlock blockIndex fun block => { block with slabJournalLock := lock }).dirtyBlock
        blockIndex).blocks other).isDirty = true ∧
      (((updated.modifyBlock blockIndex fun block => { block with slabJournalLock := lock }).dirtyBlock
        blockIndex).blocks other).isWriting = false := by
    intro other hmem
    have hne : other ≠ blockIndex := fun heq => hnotQueued (heq ▸ hmem)
    rw [(hfields other).1, (hfields other).2.1, if_neg hne]
    exact hqueued other hmem
  refine ⟨?_, ?_, ?_, hwaitersNodup, ?_, ?_⟩
  · intro other hmem
    dsimp only at hmem ⊢
    rw [hqueue] at hmem
    split_ifs at hmem with hwriting
    · exact hold other hmem
    · rcases List.mem_append.mp hmem with hmem | hmem
      · exact hold other hmem
      · rw [List.mem_singleton] at hmem
        subst hmem
        rw [(hfields other).1, (hfields other).2.1, if_pos rfl]
        exact ⟨rfl, by simpa using hwriting⟩
  · dsimp only
    rw [hqueue]
    split_ifs
    · exact hdirtyNodup
    · exact hdirtyNodup.append (List.nodup_singleton _)
        (List.disjoint_singleton.mpr hnotQueued)
  · intro other hmem
    dsimp only
    rw [(hfields other).1, (hfields other).2.1]
    obtain ⟨hwriting, hdirty⟩ := hwaiting other hmem
    refine ⟨hwriting, ?_⟩
    split_ifs
    · rfl
    · exact hdirty
  · dsimp only
    rw [RefCounts.handLock_referenceBlockCount, RefCounts.handLock_blockCount, hsame.referenceBlockCount_eq,
      hsame.blockCount_eq]
    exact hcount
  · dsimp only
    rw [hentries, RefCounts.handLock_referenceBlockCount, hsame.referenceBlockCount_eq]
    exact hcapacity

/-- The entry's lock goes to a reference block without a lock of its own: the
block becomes dirty with that lock, so the tail block's count stays and one
more of its locks is both given back and held. -/
theorem Prepared.handEntry (hp : t.Prepared) {operation : JournalOperation}
    (hwaiting : t.state.journal.waitingToCommit = false)
    (hroom : operation = .blockMapIncrement → t.state.journal.entryCount < t.state.journal.fullEntriesPerBlock)
    (hreaping : t.state.journal.requiresReaping = false) (hsame : t.state.refCounts.SameLocks updated)
    (hblock : blockIndex < t.state.refCounts.referenceBlockCount)
    (hunlocked : ¬((t.state.refCounts.blocks blockIndex).isDirty = true ∧
      0 < (t.state.refCounts.blocks blockIndex).slabJournalLock)) :
    TrackedSlab.LockInvariant ⟨{ t.state with
      journal := t.state.journal.addEntry operation
      refCounts := (updated.modifyBlock blockIndex fun block =>
        { block with slabJournalLock := t.state.journal.tail }).dirtyBlock blockIndex },
      (t.history.recordChange blockIndex t.state.journal.tail).giveBack t.state.journal.tail 1⟩ := by
  have ha := hp.accounting
  obtain ⟨-, hentriesTail, hcountTail⟩ := hp.tail hwaiting
  have htailPos := hp.tail_pos
  have htailOpen : t.state.Opened True t.state.journal.tail :=
    ⟨hp.window.unreapable_le_tail, Or.inr ⟨rfl, trivial⟩⟩
  have hclean := hp.clean_of_unlocked hunlocked
  have hfields := hsame.handLock _ blockIndex t.state.journal.tail
  have hcount : ((updated.modifyBlock blockIndex fun block =>
      { block with slabJournalLock := t.state.journal.tail }).dirtyBlock blockIndex).referenceBlockCount =
      t.state.refCounts.referenceBlockCount := by
    rw [RefCounts.handLock_referenceBlockCount, hsame.referenceBlockCount_eq]
  have hholds : ∀ s, SlabState.holdsAt { t.state with
      journal := t.state.journal.addEntry operation
      refCounts := (updated.modifyBlock blockIndex fun block =>
        { block with slabJournalLock := t.state.journal.tail }).dirtyBlock blockIndex } blockIndex s =
      t.state.holdsAt blockIndex s + if t.state.journal.tail = s then 1 else 0 := by
    intro s
    unfold SlabState.holdsAt ReferenceBlock.holds
    dsimp only
    rw [(hfields blockIndex).1, (hfields blockIndex).2.1, (hfields blockIndex).2.2.1,
      (hfields blockIndex).2.2.2, if_pos rfl, if_pos rfl, hclean]
    simp only [true_and, Bool.false_eq_true, false_and, if_false, Nat.zero_add]
    omega
  have hothers : ∀ s, ∀ other < t.state.refCounts.referenceBlockCount, other ≠ blockIndex →
      SlabState.holdsAt { t.state with
        journal := t.state.journal.addEntry operation
        refCounts := (updated.modifyBlock blockIndex fun block =>
          { block with slabJournalLock := t.state.journal.tail }).dirtyBlock blockIndex } other s =
      t.state.holdsAt other s := by
    intro s other _ hne
    unfold SlabState.holdsAt ReferenceBlock.holds
    dsimp only
    rw [(hfields other).1, (hfields other).2.1, (hfields other).2.2.1, (hfields other).2.2.2, if_neg hne,
      if_neg hne]
  have hheld : ∀ s, SlabState.heldBy { t.state with
      journal := t.state.journal.addEntry operation
      refCounts := (updated.modifyBlock blockIndex fun block =>
        { block with slabJournalLock := t.state.journal.tail }).dirtyBlock blockIndex } s =
      t.state.heldBy s + if t.state.journal.tail = s then 1 else 0 := by
    intro s
    have hsum := SlabState.heldBy_add_of_eq_off hcount hblock (hothers s)
    rw [hholds] at hsum
    omega
  refine ⟨hp.addEntry_window hwaiting hroom hreaping, ?_, hp.handLock_queues hsame hclean (by simp) _, ?_⟩
  · simpa using hp.unreapable_le_lastSummarized
  have haccounting : TrackedSlab.Accounting ⟨{ t.state with
      journal := t.state.journal.addEntry operation
      refCounts := (updated.modifyBlock blockIndex fun block =>
        { block with slabJournalLock := t.state.journal.tail }).dirtyBlock blockIndex },
      (t.history.recordChange blockIndex t.state.journal.tail).giveBack t.state.journal.tail 1⟩ True :=
    hp.entry operation ⟨_, _, _, rfl⟩ ?_ ?_ ?_ ?_ ?_ ?_ ?_ ?_ ?_ ?_ ?_ ?_
  · exact haccounting.congr (iff_true_intro (by simp)).symm
  case refine_1 =>
    dsimp only
    rw [addEntry_underflowLogged]
    exact ha.underflowLogged_eq
  case refine_2 =>
    intro s _
    dsimp only
    rw [addEntry_lockCount]
  case refine_3 =>
    intro s hsT
    simp [hsT]
  case refine_4 =>
    intro s _
    simp
  case refine_5 =>
    intro s hsT
    rw [hheld, if_neg (Ne.symm hsT), Nat.add_zero]
  case refine_6 =>
    dsimp only
    rw [addEntry_lockCount, hheld, if_pos rfl, LockHistory.giveBack_released, if_pos rfl,
      LockHistory.recordChange_released]
    omega
  case refine_7 =>
    rw [LockHistory.giveBack_released, if_pos rfl, LockHistory.giveBack_kept, LockHistory.recordChange_released,
      LockHistory.recordChange_kept]
    omega
  case refine_8 =>
    intro other hdirty
    dsimp only at hdirty ⊢
    rw [hcount, (hfields other).2.2.1]
    rw [(hfields other).1] at hdirty
    by_cases hother : other = blockIndex
    · rw [if_pos hother]
      exact ⟨hother ▸ hblock, htailOpen⟩
    · rw [if_neg hother] at hdirty ⊢
      exact ha.dirty_held other hdirty
  case refine_9 =>
    intro other hwriting hlaunched
    dsimp only at hwriting hlaunched ⊢
    rw [hcount, (hfields other).2.2.2]
    rw [(hfields other).2.1] at hwriting
    exact ha.inFlight_held other hwriting hlaunched
  case refine_10 =>
    intro other sequence hsequence
    dsimp only
    rw [LockHistory.giveBack_kept, LockHistory.recordChange_kept, (hfields other).1, (hfields other).2.2.1]
    rw [LockHistory.giveBack_unsaved, LockHistory.recordChange_unsaved] at hsequence
    by_cases hother : other = blockIndex
    · simp only [if_pos hother] at hsequence ⊢
      subst hother
      rcases Finset.mem_insert.mp hsequence with rfl | hold
      · exact ⟨htailPos, Or.inl ⟨trivial, le_rfl⟩⟩
      · obtain ⟨hpos, hdirty | hkeeps⟩ := ha.unsaved_mem other sequence hold
        · rw [hclean] at hdirty
          cases hdirty.1
        · exact ⟨hpos, Or.inr hkeeps⟩
    · simp only [if_neg hother] at hsequence ⊢
      exact ha.unsaved_mem other sequence hsequence
  case refine_11 =>
    intro other sequence hsequence
    dsimp only
    rw [LockHistory.giveBack_kept, LockHistory.recordChange_kept, (hfields other).2.1, (hfields other).2.2.2]
    rw [LockHistory.giveBack_inFlight, LockHistory.recordChange_inFlight] at hsequence
    exact ha.inFlight_mem other sequence hsequence
  case refine_12 =>
    intro other hidle
    dsimp only at hidle
    rw [(hfields other).2.1] at hidle
    rw [LockHistory.giveBack_inFlight, LockHistory.recordChange_inFlight]
    exact ha.inFlight_idle other hidle

end HandLock

/-! ## The entry step -/

/-- `addEntryFromWaiter` after `prepareEntry` keeps the invariant, whichever of
its three outcomes the change has. -/
theorem LockInvariant.addEntry (h : t.LockInvariant) {operation : ReferenceOperation} {prepared : SlabState}
    (unrecovered slabOpen : Bool) (hprepare : t.state.prepareEntry operation.type = some prepared) :
    TrackedSlab.LockInvariant ⟨prepared.addEntryFromWaiter operation unrecovered slabOpen,
      t.history.recordEntry prepared operation unrecovered slabOpen⟩ := by
  have hp : Prepared ⟨prepared, t.history⟩ := h.prepared hprepare
  obtain ⟨hwaiting, hroom, hreaping, locks, hlocks, logged, hprepared⟩ := t.state.prepareEntry_journal hprepare
  have hwaiting' : prepared.journal.waitingToCommit = false := by rw [hprepared]; exact hwaiting
  have hroom' : operation.type = .blockMapIncrement →
      prepared.journal.entryCount < prepared.journal.fullEntriesPerBlock := by rw [hprepared]; exact hroom
  have hreaping' : prepared.journal.requiresReaping = false := by rw [hprepared]; exact hreaping
  have htailPos : 0 < prepared.journal.tail := hp.tail_pos
  unfold SlabState.addEntryFromWaiter SlabState.modifySlabReferenceCount LockHistory.recordEntry
  dsimp only
  by_cases hunrecovered : unrecovered = true
  · simp only [hunrecovered, if_true]
    exact hp.giveBackEntry hwaiting' hroom' hreaping' (RefCounts.SameLocks.refl _) rfl rfl rfl
      fun _ _ hold => Or.inl hold
  rw [if_neg hunrecovered, if_neg hunrecovered]
  have hcases := adjustReferenceCount_lockCases slabOpen prepared.refCounts operation
    ⟨prepared.journal.tail, prepared.journal.entryCount⟩ htailPos
  dsimp only at hcases
  generalize adjustReferenceCount slabOpen prepared.refCounts operation
    (some ⟨prepared.journal.tail, prepared.journal.entryCount⟩) = outcome at hcases ⊢
  rcases hcases with ⟨hsame, hnone, hok⟩ | ⟨blockIndex, freeStatusChanged, hchanged, hdirty, hlockPos, hsame,
    hrelease, hresult⟩ | ⟨blockIndex, freeStatusChanged, updated, hchanged, hunlocked, hsame, hrefCounts, hnone,
    hresult⟩
  · simp only [hnone, Option.isSome_none, Bool.false_or, lockHanded_of_sameLocks hsame htailPos,
      Bool.false_eq_true, if_false]
    split
    · exact hp.keepEntry hwaiting' hroom' hreaping' hsame rfl rfl rfl fun other sequence hsequence => by
        rw [LockHistory.keep_unsaved, LockHistory.recordChange_unsaved] at hsequence
        split_ifs at hsequence with hother
        · subst hother
          rcases Finset.mem_insert.mp hsequence with rfl | hold
          · exact Or.inr rfl
          · exact Or.inl hold
        · exact Or.inl hsequence
    · exact hp.keepEntry hwaiting' hroom' hreaping' hsame rfl rfl rfl fun _ _ hold => Or.inl hold
  · simp only [hrelease, hchanged, hresult, Option.isSome_some, Bool.true_or, if_true]
    have hlock : (prepared.refCounts.blocks blockIndex).slabJournalLock ≤ prepared.journal.tail := by
      obtain ⟨-, hbefore | ⟨hat, -⟩⟩ := (hp.accounting.dirty_held blockIndex hdirty).2
      · exact hbefore.le
      · exact hat.le
    refine hp.giveBackEntry hwaiting' hroom' hreaping' hsame rfl rfl rfl fun other sequence hsequence => ?_
    rw [LockHistory.giveBack_unsaved, LockHistory.recordChange_unsaved] at hsequence
    split_ifs at hsequence with hother
    · subst hother
      rcases Finset.mem_insert.mp hsequence with rfl | hold
      · exact Or.inr ⟨rfl, hdirty, hlock⟩
      · exact Or.inl hold
    · exact Or.inl hsequence
  · have hblock : blockIndex < prepared.refCounts.referenceBlockCount :=
      hp.queues.referenceBlockCount_eq ▸ changedBlock_lt hchanged
    have hhanded : lockHanded prepared.refCounts outcome.refCounts blockIndex prepared.journal.tail = true := by
      have hfields := hsame.handLock _ blockIndex prepared.journal.tail blockIndex
      rw [hrefCounts]
      unfold lockHanded
      rw [hfields.1, hfields.2.2.1, if_pos rfl, if_pos rfl, hp.clean_of_unlocked hunlocked]
      simp
    simp only [hnone, hchanged, hresult, Option.isSome_none, Bool.false_or, hhanded, if_true]
    rw [hrefCounts]
    exact hp.handEntry hwaiting' hroom' hreaping' hsame hblock hunlocked

end TrackedSlab

end Vdo
