import Vdo.Base.SlabLocksEntry
import Vdo.Base.SlabLocksReference

/-!
# Lock conservation over every run

Every step of a slab keeps `TrackedSlab.LockInvariant`, so every reachable slab
satisfies it. From it follow the lock equation of each started, unreaped
journal block, the absence of underflow, what a count of zero means, and that
no journal block holding a change a reference block has not written is ever
reaped. A count of zero does not mean that every change journaled in the block
has been written: a reference block keeps only its oldest lock, and gives back
the locks of later entries at once.
-/

namespace Vdo

open IndexCount SlabJournal

namespace TrackedSlab

variable {t t' : TrackedSlab}

/-- Every step of a slab keeps the invariant. -/
theorem LockInvariant.step (h : t.LockInvariant) (hstep : SlabStep t t') : t'.LockInvariant := by
  cases hstep with
  | addEntry operation unrecovered slabOpen hprepare => exact h.addEntry unrecovered slabOpen hprepare
  | commitSlabJournalTail => exact h.commitSlabJournalTail
  | writeSlabJournalBlock hwaiting => exact h.writeSlabJournalBlock hwaiting
  | completeWrite _ => exact h.completeWrite _
  | releaseJournalLocks _ => exact h.releaseJournalLocks
  | reapSlabJournal => exact h.reapSlabJournal
  | finishReaping _ => exact h.finishReaping
  | saveOldestReferenceBlock => exact h.saveOldestReferenceBlock
  | writeReferenceBlock hwaiting => exact h.writeReferenceBlock hwaiting
  | finishReferenceBlockWrite hwriting hlaunched => exact h.finishReferenceBlockWrite hwriting hlaunched

/-- The run lemma: every reachable slab satisfies the invariant. -/
theorem lockInvariant_of_reachable (h : Reachability.Reachable SlabStart SlabStep t) : t.LockInvariant :=
  @Reachability.Reachable.invariant TrackedSlab SlabStart SlabStep LockInvariant
    (fun _ hstart => lockInvariant_of_start hstart) (fun _ _ hinv hstep => hinv.step hstep) t h

/-! ## What the invariant says about a block -/

/-- A started block has given back at most one lock per entry of a block. -/
theorem LockInvariant.released_le (h : t.LockInvariant) {s : ℕ} (hs : t.state.Started s) :
    t.history.released s ≤ t.state.journal.entriesPerBlock := by
  have hentries := h.accounting.entries_eq s hs
  have hnE : t.state.journal.entryCount ≤ t.state.journal.entriesPerBlock :=
    h.window.entryCount_le.trans t.state.journal.entryCapacity_le
  split_ifs at hentries <;> omega

/-- A started block with a count of zero has given back all its per-entry
locks, its slab summary update has completed, and no reference block holds a
lock on it. -/
theorem LockInvariant.lockCount_eq_zero (h : t.LockInvariant) {s : ℕ} (hs : t.state.Started s)
    (hzero : t.state.journal.lockCount s = 0) :
    t.history.released s = t.state.journal.entriesPerBlock ∧ s < t.state.journal.lastSummarized ∧
      t.state.heldBy s = 0 := by
  have hcount := h.accounting.count_eq s hs
  have hle := h.released_le hs
  unfold SlabState.summaryPending at hcount
  split_ifs at hcount with hsummarized
  · omega
  · exact ⟨by omega, Nat.lt_of_not_le hsummarized, by omega⟩

/-- A change a reference block has not written, packed or not, is on a block
that has not been reaped: the reference block's lock is on a block no later
than it, or the block keeps a per-entry lock. -/
theorem LockInvariant.unreapable_le_of_unwritten (h : t.LockInvariant) {blockIndex s : ℕ}
    (hs : s ∈ t.history.unsaved blockIndex ∪ t.history.inFlight blockIndex) :
    t.state.journal.unreapable ≤ s := by
  have ha := h.accounting
  have hkept : 0 < t.history.kept s → t.state.journal.unreapable ≤ s := fun hkeeps =>
    Nat.le_of_not_lt fun hlt => (ha.reaped_kept s hlt ▸ hkeeps).false
  rcases Finset.mem_union.mp hs with hunsaved | hinFlight
  · obtain ⟨-, ⟨hdirty, hlock⟩ | hkeeps⟩ := ha.unsaved_mem blockIndex s hunsaved
    · exact (ha.dirty_held blockIndex hdirty).2.1.trans hlock
    · exact hkept hkeeps
  · obtain ⟨-, ⟨hwriting, hlaunched, hlock⟩ | hkeeps⟩ := ha.inFlight_mem blockIndex s hinFlight
    · exact (ha.inFlight_held blockIndex hwriting hlaunched).2.1.trans hlock
    · exact hkept hkeeps

/-- Lock conservation in every reachable slab: no underflow is ever logged;
each started, unreaped block's count is its per-entry locks not given back,
plus one until its slab summary update completes, plus the locks reference
blocks hold on it (for block 1 these include the ones `acquireDirtyBlockLocks`
takes); a count of zero means all three parts are gone; and every journal
block with a change not yet written by its reference block is unreaped. -/
theorem slabJournal_locks_conserved (h : Reachability.Reachable SlabStart SlabStep t) :
    t.state.journal.underflowLogged = false ∧
      (∀ s, t.state.Started s →
        t.history.released s ≤ t.state.journal.entriesPerBlock ∧
          t.state.journal.lockCount s = t.state.journal.entriesPerBlock - t.history.released s +
            t.state.summaryPending s + t.state.heldBy s ∧
          (t.state.journal.lockCount s = 0 →
            t.history.released s = t.state.journal.entriesPerBlock ∧
              s < t.state.journal.lastSummarized ∧ t.state.heldBy s = 0)) ∧
      ∀ blockIndex, ∀ s ∈ t.history.unsaved blockIndex ∪ t.history.inFlight blockIndex,
        t.state.journal.unreapable ≤ s := by
  have hinv := lockInvariant_of_reachable h
  refine ⟨hinv.accounting.underflowLogged_eq, fun s hs => ?_, fun _ _ hs => hinv.unreapable_le_of_unwritten hs⟩
  have hcount := hinv.accounting.count_eq s hs
  have hle := hinv.released_le hs
  exact ⟨hle, by omega, hinv.lockCount_eq_zero hs⟩

/-- A slab of one data block, with a fresh journal and no history. -/
def freshTrackedSlab : TrackedSlab :=
  ⟨⟨freshSlabJournal, makeRefCounts 1 0, []⟩, ⟨fun _ => 0, fun _ => 0, fun _ => ∅, fun _ => ∅⟩⟩

theorem freshTrackedSlab_start : SlabStart freshTrackedSlab := by
  constructor
  case locks_eq => exact fun _ => rfl
  case blocks_idle => exact fun _ => ⟨rfl, rfl⟩
  case history_eq => rfl
  all_goals decide

/-- After one entry is added to block 1 of a slab of one data block and the
block is committed and written, the block is started and holds locks. -/
theorem slabJournal_locks_conserved_written :
    ∃ t : TrackedSlab, Reachability.Reachable SlabStart SlabStep t ∧
      t.state.Started 1 ∧ t.state.journal.lockCount 1 ≠ 0 ∧
      t.state.journal.underflowLogged = false ∧
      (∀ s, t.state.Started s →
        t.history.released s ≤ t.state.journal.entriesPerBlock ∧
          t.state.journal.lockCount s = t.state.journal.entriesPerBlock - t.history.released s +
            t.state.summaryPending s + t.state.heldBy s ∧
          (t.state.journal.lockCount s = 0 →
            t.history.released s = t.state.journal.entriesPerBlock ∧
              s < t.state.journal.lastSummarized ∧ t.state.heldBy s = 0)) ∧
      ∀ blockIndex, ∀ s ∈ t.history.unsaved blockIndex ∪ t.history.inFlight blockIndex,
        t.state.journal.unreapable ≤ s := by
  have r0 := @Reachability.Reachable.init TrackedSlab SlabStart SlabStep _ freshTrackedSlab_start
  have r1 := r0.step
    (SlabStep.addEntry ⟨.dataIncrement, 0, false⟩ false true (Option.some_get (by decide +kernel)).symm)
  have r2 := r1.step SlabStep.commitSlabJournalTail
  have r3 := r2.step (SlabStep.writeSlabJournalBlock (by decide +kernel))
  exact ⟨_, r3, by unfold SlabState.Started SlabState.Opened; decide +kernel, by decide +kernel,
    slabJournal_locks_conserved r3⟩

/-- A count can reach zero before a change journaled in its block is written:
the reference block of a slab of one data block takes its lock on block 1 and
keeps it, so the entries in blocks 1 and 2 both give their locks back at once,
and once both blocks are written and summarized block 2's count is zero while
its change waits, unpacked, in the dirty reference block. -/
theorem slabJournal_lock_free_before_written :
    ∃ t : TrackedSlab, Reachability.Reachable SlabStart SlabStep t ∧
      t.state.Started 2 ∧ t.state.journal.lockCount 2 = 0 ∧ 2 ∈ t.history.unsaved 0 ∧
        (t.state.refCounts.blocks 0).isDirty = true := by
  have r0 := @Reachability.Reachable.init TrackedSlab SlabStart SlabStep _ freshTrackedSlab_start
  have r1 := r0.step
    (SlabStep.addEntry ⟨.dataIncrement, 0, false⟩ false true (Option.some_get (by decide +kernel)).symm)
  have r2 := r1.step SlabStep.commitSlabJournalTail
  have r3 := r2.step (SlabStep.writeSlabJournalBlock (by decide +kernel))
  have r4 := r3.step (@SlabStep.completeWrite _ 1 (by decide +kernel))
  have r5 := r4.step (SlabStep.releaseJournalLocks (by decide +kernel))
  have r6 := r5.step
    (SlabStep.addEntry ⟨.dataIncrement, 0, false⟩ false true (Option.some_get (by decide +kernel)).symm)
  have r7 := r6.step SlabStep.commitSlabJournalTail
  have r8 := r7.step (SlabStep.writeSlabJournalBlock (by decide +kernel))
  have r9 := r8.step (@SlabStep.completeWrite _ 2 (by decide +kernel))
  have r10 := r9.step (SlabStep.releaseJournalLocks (by decide +kernel))
  exact ⟨_, r10, by unfold SlabState.Started SlabState.Opened; decide +kernel, by decide +kernel, by decide +kernel,
    by decide +kernel⟩

end TrackedSlab

end Vdo
