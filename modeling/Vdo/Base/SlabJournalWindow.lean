import Vdo.Base.SlabJournal
import Vdo.Lib.Reachability

/-!
# The window of a slab journal

A slab journal keeps its blocks from `head` to `tail` in a ring of `size`
positions. This module states the order its sequence numbers keep
(`SlabJournal.Window`): the head, the oldest unreaped block and the tail are in
order and at most `size` apart, the slab summary lags behind the commit point,
which lags behind the tail, and the tail block has room for the entries it is
given. The steps of a journal are those of normal operation and those of
offline replay (`attemptReplayIntoSlabJournal`), with every change of the lock
counts, which the window does not read, as a step of its own. Every step keeps
the window (`SlabJournal.window_of_reachable`).
-/

namespace Vdo

namespace SlabJournal

/-- The entries the tail block can hold: fewer once it has a block map
increment. -/
def entryCapacity (journal : SlabJournal) : ℕ :=
  if journal.hasBlockMapIncrements then journal.fullEntriesPerBlock else journal.entriesPerBlock

theorem entryCapacity_le (journal : SlabJournal) : journal.entryCapacity ≤ journal.entriesPerBlock := by
  unfold entryCapacity
  split_ifs
  · exact journal.fullEntriesPerBlock_le
  · exact le_rfl

theorem entryCapacity_pos (journal : SlabJournal) : 0 < journal.entryCapacity := by
  unfold entryCapacity
  split_ifs
  · exact journal.fullEntriesPerBlock_pos
  · exact journal.fullEntriesPerBlock_pos.trans_le journal.fullEntriesPerBlock_le

/-- A block is full when it has as many entries as it can hold. -/
theorem blockIsFull_eq (journal : SlabJournal) :
    journal.blockIsFull = (journal.entryCapacity == journal.entryCount) := by
  unfold blockIsFull entryCapacity
  split_ifs <;> rfl

/-- Within a window of `size` consecutive blocks, blocks share a position of the
ring only with themselves. -/
theorem offset_eq_iff {journal : SlabJournal} {low s s' : ℕ} (hs : low ≤ s) (hs' : low ≤ s')
    (hlt : s < low + journal.size) (hlt' : s' < low + journal.size) :
    journal.getSlabJournalBlockOffset s = journal.getSlabJournalBlockOffset s' ↔ s = s' := by
  constructor
  · intro heq
    by_contra hne
    exact offset_ne hs hs' hlt hlt' hne heq
  · rintro rfl
    rfl

/-- The order of a journal's sequence numbers. The head, the oldest unreaped
block and the tail are in order, and the journal spans at most `size` blocks,
fewer than `size` once the tail block has an entry. The last completed slab
summary update, the one in progress, the commit point and the tail are in
order, and the blocks being written are in order from the commit point. The
tail block has room for an entry unless it waits to be written, and waits only
with entries. -/
structure Window (journal : SlabJournal) : Prop where
  head_pos : 0 < journal.head
  head_le_unreapable : journal.head ≤ journal.unreapable
  unreapable_le_tail : journal.unreapable ≤ journal.tail
  tail_le : journal.tail ≤ journal.head + journal.size
  tail_lt : 0 < journal.entryCount → journal.tail < journal.head + journal.size
  lastSummarized_le_summarized : journal.lastSummarized ≤ journal.summarized
  summarized_le_nextCommit : journal.summarized ≤ journal.nextCommit
  nextCommit_le_tail : journal.nextCommit ≤ journal.tail
  uncommitted_sorted : journal.uncommittedBlocks.Pairwise (· < ·)
  uncommitted_mem : ∀ sequence ∈ journal.uncommittedBlocks,
    journal.nextCommit ≤ sequence ∧ sequence < journal.tail
  entryCount_le : journal.entryCount ≤ journal.entryCapacity
  entryCount_lt : journal.waitingToCommit = false → journal.entryCount < journal.entryCapacity
  entryCount_pos : journal.waitingToCommit = true → 0 < journal.entryCount

/-- A journal as `initializeJournalState` leaves it, neither writing nor
updating the slab summary: the commit point and the summary are at the tail,
the tail block is empty, and every block from the head has been reaped or is
yet to be. The head and tail are those of a new journal or of the journal's
last block on disk, and at most `size` apart. -/
structure Initialized (journal : SlabJournal) : Prop where
  head_pos : 0 < journal.head
  head_le_tail : journal.head ≤ journal.tail
  tail_le : journal.tail ≤ journal.head + journal.size
  unreapable_eq : journal.unreapable = journal.head
  nextCommit_eq : journal.nextCommit = journal.tail
  summarized_eq : journal.summarized = journal.tail
  lastSummarized_eq : journal.lastSummarized = journal.tail
  entryCount_eq : journal.entryCount = 0
  waitingToCommit_eq : journal.waitingToCommit = false
  uncommittedBlocks_eq : journal.uncommittedBlocks = []

end SlabJournal

/-- The steps of a slab journal in normal operation and in offline replay. An
entry in normal operation is made once `addEntries` finds room and no need to
reap; a replayed entry is made on a slab that does not reap. The lock counts
change in more ways than through the journal's functions (a reference block
write gives its lock back, and a replaying slab's journal leaves them alone),
so any change of the counts and the log is a step. -/
inductive SlabJournalStep : SlabJournal → SlabJournal → Prop
  /-- `addEntry`, from `addEntries`. -/
  | addEntry {journal : SlabJournal} (operation : JournalOperation)
      (hwaiting : journal.waitingToCommit = false)
      (hroom : operation = .blockMapIncrement → journal.entryCount < journal.fullEntriesPerBlock)
      (hreaping : journal.requiresReaping = false) :
      SlabJournalStep journal (journal.addEntry operation)
  /-- `attemptReplayIntoSlabJournal`. -/
  | attemptReplayIntoSlabJournal {journal : SlabJournal} (operation : JournalOperation)
      (hreaping : journal.isReaping = false) :
      SlabJournalStep journal (journal.attemptReplayIntoSlabJournal operation).1
  /-- A change of the lock counts. -/
  | changeLocks {journal : SlabJournal} (locks : ℕ → ℕ) (hlocks : ∀ offset, locks offset < 2 ^ 16)
      (logged : Bool) :
      SlabJournalStep journal { journal with locks := locks, locks_lt := hlocks, underflowLogged := logged }
  /-- `commitSlabJournalTail`. -/
  | commitSlabJournalTail {journal : SlabJournal} :
      SlabJournalStep journal journal.commitSlabJournalTail
  /-- The tail block gets its VIO (`writeSlabJournalBlock`). -/
  | writeSlabJournalBlock {journal : SlabJournal} (hwaiting : journal.waitingToCommit = true) :
      SlabJournalStep journal journal.writeSlabJournalBlock
  /-- A journal block write completes (`completeWrite`). -/
  | completeWrite {journal : SlabJournal} {committed : ℕ}
      (hcommitted : committed ∈ journal.uncommittedBlocks) :
      SlabJournalStep journal (journal.completeWrite committed)
  /-- The slab summary update completes (`releaseJournalLocks`). -/
  | releaseJournalLocks {journal : SlabJournal} (hupdating : journal.updatingSlabSummary = true) :
      SlabJournalStep journal journal.releaseJournalLocks
  /-- `reapSlabJournal`. -/
  | reapSlabJournal {journal : SlabJournal} :
      SlabJournalStep journal journal.reapSlabJournal
  /-- The flush before reaping completes (`completeReaping`). -/
  | finishReaping {journal : SlabJournal} (hreaping : journal.isReaping = true) :
      SlabJournalStep journal journal.finishReaping

namespace SlabJournal

variable {journal : SlabJournal}

/-! ## One lemma per step -/

theorem Window.of_initialized (h : journal.Initialized) : journal.Window := by
  constructor
  case head_pos => exact h.head_pos
  case head_le_unreapable => rw [h.unreapable_eq]
  case unreapable_le_tail => rw [h.unreapable_eq]; exact h.head_le_tail
  case tail_le => exact h.tail_le
  case tail_lt => intro hpos; rw [h.entryCount_eq] at hpos; omega
  case lastSummarized_le_summarized => rw [h.lastSummarized_eq, h.summarized_eq]
  case summarized_le_nextCommit => rw [h.summarized_eq, h.nextCommit_eq]
  case nextCommit_le_tail => rw [h.nextCommit_eq]
  case uncommitted_sorted => rw [h.uncommittedBlocks_eq]; exact List.Pairwise.nil
  case uncommitted_mem => simp [h.uncommittedBlocks_eq]
  case entryCount_le => rw [h.entryCount_eq]; exact Nat.zero_le _
  case entryCount_lt => intro _; rw [h.entryCount_eq]; exact journal.entryCapacity_pos
  case entryCount_pos => simp [h.waitingToCommit_eq]

/-- A change of the lock counts and the log keeps the window. -/
theorem Window.of_locks (h : journal.Window) {locks : ℕ → ℕ} {hlocks : ∀ offset, locks offset < 2 ^ 16}
    {logged : Bool} :
    ({ journal with locks := locks, locks_lt := hlocks, underflowLogged := logged } : SlabJournal).Window :=
  ⟨h.head_pos, h.head_le_unreapable, h.unreapable_le_tail, h.tail_le, h.tail_lt,
    h.lastSummarized_le_summarized, h.summarized_le_nextCommit, h.nextCommit_le_tail,
    h.uncommitted_sorted, h.uncommitted_mem, h.entryCount_le, h.entryCount_lt, h.entryCount_pos⟩

theorem Window.adjustSlabJournalBlockReference (h : journal.Window) (s : ℕ) (adjustment : ℤ) :
    (journal.adjustSlabJournalBlockReference s adjustment).Window := by
  obtain ⟨_, _, _, hadjust⟩ := journal.adjustSlabJournalBlockReference_eq s adjustment
  rw [hadjust]
  exact h.of_locks

theorem Window.commitSlabJournalTail (h : journal.Window) : journal.commitSlabJournalTail.Window := by
  rw [commitSlabJournalTail_eq]
  refine ⟨h.head_pos, h.head_le_unreapable, h.unreapable_le_tail, h.tail_le, h.tail_lt,
    h.lastSummarized_le_summarized, h.summarized_le_nextCommit, h.nextCommit_le_tail,
    h.uncommitted_sorted, h.uncommitted_mem, h.entryCount_le, ?_, ?_⟩
  · intro hwaiting
    simp only [Bool.or_eq_false_iff, bne_eq_false_iff_eq] at hwaiting
    exact h.entryCount_lt hwaiting.1
  · intro hwaiting
    simp only [Bool.or_eq_true, bne_iff_ne] at hwaiting
    rcases hwaiting with hwaiting | hne
    · exact h.entryCount_pos hwaiting
    · exact Nat.pos_of_ne_zero hne

/-- An entry made in a tail block with room, in a journal with room for the
tail block, keeps the window. -/
theorem Window.addEntry (h : journal.Window) {operation : JournalOperation}
    (hwaiting : journal.waitingToCommit = false)
    (hroom : operation = .blockMapIncrement → journal.entryCount < journal.fullEntriesPerBlock)
    (htail : journal.tail < journal.head + journal.size) : (journal.addEntry operation).Window := by
  rw [addEntry_eq]
  have hlt := h.entryCount_lt hwaiting
  have hfits : journal.entryCount + 1 ≤
      if (journal.hasBlockMapIncrements || decide (operation = .blockMapIncrement))
      then journal.fullEntriesPerBlock else journal.entriesPerBlock := by
    unfold entryCapacity at hlt
    by_cases hmaps : journal.hasBlockMapIncrements = true
    · simp only [hmaps, if_true, Bool.true_or] at hlt ⊢
      omega
    · by_cases hop : operation = .blockMapIncrement
      · simp only [hop, decide_true, Bool.or_true, if_true]
        exact hroom hop
      · simp only [hmaps, hop, Bool.false_eq_true, if_false, decide_false, Bool.or_false] at hlt ⊢
        omega
  refine ⟨h.head_pos, h.head_le_unreapable, h.unreapable_le_tail, h.tail_le, fun _ => htail,
    h.lastSummarized_le_summarized, h.summarized_le_nextCommit, h.nextCommit_le_tail,
    h.uncommitted_sorted, h.uncommitted_mem, ?_, ?_, fun _ => Nat.succ_pos _⟩
  · exact hfits
  · intro hwaiting'
    simp only [hwaiting, Bool.false_or, blockIsFull_eq, beq_eq_false_iff_ne] at hwaiting'
    unfold entryCapacity at hwaiting'
    exact lt_of_le_of_ne hfits (Ne.symm hwaiting')

/-- Moving the head and the unreapable block on together, in a journal as long
as the ring that is not reaping, keeps the window. -/
theorem Window.advance (h : journal.Window) (hreaping : journal.head = journal.unreapable)
    (hfull : journal.size ≤ journal.tail - journal.head) :
    ({ journal with head := journal.head + 1, unreapable := journal.unreapable + 1 } : SlabJournal).Window := by
  have hsize := journal.size_pos
  have htail := h.tail_le
  refine ⟨Nat.succ_pos _, Nat.succ_le_succ h.head_le_unreapable, ?_, ?_, ?_,
    h.lastSummarized_le_summarized, h.summarized_le_nextCommit, h.nextCommit_le_tail,
    h.uncommitted_sorted, h.uncommitted_mem, h.entryCount_le, h.entryCount_lt, h.entryCount_pos⟩
  · show journal.unreapable + 1 ≤ journal.tail
    omega
  · show journal.tail ≤ journal.head + 1 + journal.size
    omega
  · intro _
    show journal.tail < journal.head + 1 + journal.size
    omega

theorem Window.attemptReplayIntoSlabJournal (h : journal.Window) (hreaping : journal.isReaping = false)
    (operation : JournalOperation) : (journal.attemptReplayIntoSlabJournal operation).1.Window := by
  have hhead : journal.head = journal.unreapable := by simpa [isReaping] using hreaping
  unfold SlabJournal.attemptReplayIntoSlabJournal
  dsimp only
  by_cases hcommit : journal.fullEntriesPerBlock ≤ journal.entryCount ∧
      (journal.hasBlockMapIncrements = true ∨ operation = .blockMapIncrement)
  · have hset : journal.commitSlabJournalTail.waitingToCommit = true := by
      have hpos := journal.fullEntriesPerBlock_pos
      simp only [commitSlabJournalTail_eq, Bool.or_eq_true, bne_iff_ne]
      exact Or.inr (by omega)
    rw [if_pos hcommit, if_pos hset]
    exact h.commitSlabJournalTail
  · rw [if_neg hcommit]
    split_ifs with hwaiting hfull
    · exact h
    · have hadvanced := h.advance hhead hfull
      refine hadvanced.addEntry (by simpa using hwaiting) (fun hop => ?_) ?_
      · show journal.entryCount < journal.fullEntriesPerBlock
        exact lt_of_not_ge fun hge => hcommit ⟨hge, Or.inr hop⟩
      · show journal.tail < journal.head + 1 + journal.size
        have := h.tail_le
        omega
    · refine h.addEntry (by simpa using hwaiting) (fun hop => ?_) (by omega)
      exact lt_of_not_ge fun hge => hcommit ⟨hge, Or.inr hop⟩

theorem Window.writeSlabJournalBlock (h : journal.Window) (hwaiting : journal.waitingToCommit = true) :
    journal.writeSlabJournalBlock.Window := by
  obtain ⟨locks, hlocks, logged, hwrite⟩ := journal.writeSlabJournalBlock_eq
  rw [hwrite]
  have htail := h.tail_lt (h.entryCount_pos hwaiting)
  have hcommit := h.nextCommit_le_tail
  constructor
  case head_pos => exact h.head_pos
  case head_le_unreapable => exact h.head_le_unreapable
  case unreapable_le_tail => exact Nat.le_succ_of_le h.unreapable_le_tail
  case tail_le => exact htail
  case tail_lt => exact fun hpos => absurd hpos (Nat.lt_irrefl 0)
  case lastSummarized_le_summarized => exact h.lastSummarized_le_summarized
  case summarized_le_nextCommit => exact h.summarized_le_nextCommit
  case nextCommit_le_tail => exact Nat.le_succ_of_le hcommit
  case uncommitted_sorted =>
    refine List.pairwise_append.mpr ⟨h.uncommitted_sorted, List.pairwise_singleton _ _, ?_⟩
    intro sequence hsequence other hother
    rw [List.mem_singleton.mp hother]
    exact (h.uncommitted_mem sequence hsequence).2
  case uncommitted_mem =>
    intro sequence hsequence
    rcases List.mem_append.mp hsequence with hold | hnew
    · have hbounds := h.uncommitted_mem sequence hold
      exact ⟨hbounds.1, Nat.lt_succ_of_lt hbounds.2⟩
    · rw [List.mem_singleton.mp hnew]
      exact ⟨hcommit, Nat.lt_succ_self _⟩
  case entryCount_le => exact Nat.zero_le _
  case entryCount_lt => exact fun _ => entryCapacity_pos _
  case entryCount_pos => exact fun hwaiting' => absurd hwaiting' Bool.false_ne_true

theorem Window.updateTailBlockLocation (h : journal.Window) : journal.updateTailBlockLocation.Window := by
  rcases journal.updateTailBlockLocation_cases with hsame | ⟨-, hbehind, hupdate⟩
  · rw [hsame]
    exact h
  · rw [hupdate]
    exact ⟨h.head_pos, h.head_le_unreapable, h.unreapable_le_tail, h.tail_le, h.tail_lt,
      hbehind.le, le_rfl, h.nextCommit_le_tail, h.uncommitted_sorted, h.uncommitted_mem,
      h.entryCount_le, h.entryCount_lt, h.entryCount_pos⟩

/-- The blocks still being written after one completes are in order from the
new commit point, which is the oldest of them, or the tail. -/
theorem Window.completeWrite (h : journal.Window) (committed : ℕ) :
    (journal.completeWrite committed).Window := by
  unfold SlabJournal.completeWrite
  apply Window.updateTailBlockLocation
  have hsorted : (journal.uncommittedBlocks.erase committed).Pairwise (· < ·) :=
    h.uncommitted_sorted.sublist (List.erase_sublist)
  have hmem : ∀ sequence ∈ journal.uncommittedBlocks.erase committed,
      journal.nextCommit ≤ sequence ∧ sequence < journal.tail :=
    fun sequence hsequence => h.uncommitted_mem sequence (List.mem_of_mem_erase hsequence)
  have hnext : journal.nextCommit ≤ (journal.uncommittedBlocks.erase committed).headD journal.tail ∧
      (journal.uncommittedBlocks.erase committed).headD journal.tail ≤ journal.tail ∧
      ∀ sequence ∈ journal.uncommittedBlocks.erase committed,
        (journal.uncommittedBlocks.erase committed).headD journal.tail ≤ sequence := by
    revert hsorted hmem
    cases journal.uncommittedBlocks.erase committed with
    | nil => simpa using h.nextCommit_le_tail
    | cons first rest =>
      intro hsorted hmem
      have hfirst := hmem first List.mem_cons_self
      refine ⟨hfirst.1, hfirst.2.le, ?_⟩
      intro sequence hsequence
      rcases List.mem_cons.mp hsequence with rfl | hrest
      · exact le_rfl
      · exact (List.rel_of_pairwise_cons hsorted hrest).le
  obtain ⟨hlow, hhigh, hfirst⟩ := hnext
  exact ⟨h.head_pos, h.head_le_unreapable, h.unreapable_le_tail, h.tail_le, h.tail_lt,
    h.lastSummarized_le_summarized, h.summarized_le_nextCommit.trans hlow, hhigh, hsorted,
    fun sequence hsequence => ⟨hfirst sequence hsequence, (hmem sequence hsequence).2⟩,
    h.entryCount_le, h.entryCount_lt, h.entryCount_pos⟩

theorem Window.releaseJournalLocks (h : journal.Window) : journal.releaseJournalLocks.Window := by
  obtain ⟨locks, hlocks, logged, hrelease⟩ := journal.releaseJournalLocks_eq
  rw [hrelease]
  apply Window.updateTailBlockLocation
  exact ⟨h.head_pos, h.head_le_unreapable, h.unreapable_le_tail, h.tail_le, h.tail_lt,
    le_rfl, h.summarized_le_nextCommit, h.nextCommit_le_tail, h.uncommitted_sorted,
    h.uncommitted_mem, h.entryCount_le, h.entryCount_lt, h.entryCount_pos⟩

/-- The reap loop stops at the tail. -/
theorem Window.reapSlabJournal (h : journal.Window) : journal.reapSlabJournal.Window := by
  unfold SlabJournal.reapSlabJournal
  split_ifs
  · exact h
  · refine advanceUnreapable_induction Window (fun journal h hlive _ => ?_) h _
    exact ⟨h.head_pos, Nat.le_succ_of_le h.head_le_unreapable, hlive, h.tail_le, h.tail_lt,
      h.lastSummarized_le_summarized, h.summarized_le_nextCommit, h.nextCommit_le_tail,
      h.uncommitted_sorted, h.uncommitted_mem, h.entryCount_le, h.entryCount_lt, h.entryCount_pos⟩

theorem Window.finishReaping (h : journal.Window) : journal.finishReaping.Window := by
  have hhead := h.head_le_unreapable
  have htail := h.tail_le
  have htail' := h.tail_lt
  refine ⟨h.head_pos.trans_le hhead, le_rfl, h.unreapable_le_tail, ?_, ?_,
    h.lastSummarized_le_summarized, h.summarized_le_nextCommit, h.nextCommit_le_tail,
    h.uncommitted_sorted, h.uncommitted_mem, h.entryCount_le, h.entryCount_lt, h.entryCount_pos⟩
  · show journal.tail ≤ journal.unreapable + journal.size
    omega
  · intro hpos
    show journal.tail < journal.unreapable + journal.size
    have := htail' hpos
    omega

/-- Every step keeps the window. -/
theorem Window.step {journal' : SlabJournal} (h : journal.Window) (hstep : SlabJournalStep journal journal') :
    journal'.Window := by
  cases hstep with
  | addEntry operation hwaiting hroom hreaping =>
    have hthreshold : journal.tail - journal.head < journal.blockingThreshold := by
      simpa [requiresReaping] using hreaping
    have hsize := journal.blockingThreshold_le
    have hhead := h.head_le_unreapable.trans h.unreapable_le_tail
    exact h.addEntry hwaiting hroom (by omega)
  | attemptReplayIntoSlabJournal operation hreaping => exact h.attemptReplayIntoSlabJournal hreaping operation
  | changeLocks locks hlocks logged => exact h.of_locks
  | commitSlabJournalTail => exact h.commitSlabJournalTail
  | writeSlabJournalBlock hwaiting => exact h.writeSlabJournalBlock hwaiting
  | completeWrite _ => exact h.completeWrite _
  | releaseJournalLocks _ => exact h.releaseJournalLocks
  | reapSlabJournal => exact h.reapSlabJournal
  | finishReaping _ => exact h.finishReaping

/-- Any number of steps keep the window. -/
theorem Window.of_reflTransGen {journal' : SlabJournal} (h : journal.Window)
    (hsteps : Relation.ReflTransGen SlabJournalStep journal journal') : journal'.Window := by
  induction hsteps with
  | refl => exact h
  | tail _ hlast ih => exact ih.step hlast

/-- Every reachable journal keeps the window. -/
theorem window_of_reachable (h : Reachability.Reachable Initialized SlabJournalStep journal) :
    journal.Window :=
  @Reachability.Reachable.invariant SlabJournal Initialized SlabJournalStep Window
    (fun _ hinit => Window.of_initialized hinit) (fun _ _ hwindow hstep => hwindow.step hstep) journal h

/-! ## The reap loop -/

/-- The reap loop only passes blocks with no lock, and stops at the tail: from a
journal whose unreapable block is at most the tail, every block it passes has a
lock count of zero and it ends at most at the tail. -/
theorem advanceUnreapable_spec (journal : SlabJournal) (fuel : ℕ) :
    journal.unreapable ≤ (journal.advanceUnreapable fuel).unreapable ∧
      (journal.unreapable ≤ journal.tail → (journal.advanceUnreapable fuel).unreapable ≤ journal.tail) ∧
      ∀ s, journal.unreapable ≤ s → s < (journal.advanceUnreapable fuel).unreapable →
        journal.lockCount s = 0 := by
  refine (advanceUnreapable_induction
    (fun reaped => reaped.locks = journal.locks ∧ reaped.size = journal.size ∧
      reaped.tail = journal.tail ∧ journal.unreapable ≤ reaped.unreapable ∧
      (journal.unreapable ≤ journal.tail → reaped.unreapable ≤ journal.tail) ∧
      ∀ s, journal.unreapable ≤ s → s < reaped.unreapable → journal.lockCount s = 0)
    (fun reaped hreaped hlive hfree => ?_) ⟨rfl, rfl, rfl, le_rfl, id, fun s hlow hhigh => ?_⟩ fuel).2.2.2
  · obtain ⟨hlocks, hsize, htail, hlow, hhigh, hpassed⟩ := hreaped
    have hcount : journal.lockCount reaped.unreapable = 0 := by
      rw [← hfree]
      unfold lockCount getSlabJournalBlockOffset
      rw [hlocks, hsize]
    refine ⟨hlocks, hsize, htail, Nat.le_succ_of_le hlow, fun _ => ?_, fun s hs hlt => ?_⟩
    · show reaped.unreapable + 1 ≤ journal.tail
      omega
    · rcases Nat.lt_succ_iff_lt_or_eq.mp hlt with hlt | rfl
      · exact hpassed s hs hlt
      · exact hcount
  · omega

theorem reapSlabJournal_unreapable_le (journal : SlabJournal) (h : journal.unreapable ≤ journal.tail) :
    journal.reapSlabJournal.unreapable ≤ journal.tail := by
  unfold SlabJournal.reapSlabJournal
  split_ifs
  · exact h
  · exact (journal.advanceUnreapable_spec _).2.1 h

theorem reapSlabJournal_lockCount (journal : SlabJournal) {s : ℕ} (hlow : journal.unreapable ≤ s)
    (hhigh : s < journal.reapSlabJournal.unreapable) : journal.lockCount s = 0 := by
  unfold SlabJournal.reapSlabJournal at hhigh
  split_ifs at hhigh
  · omega
  · exact (journal.advanceUnreapable_spec _).2.2 s hlow hhigh

/-! ## The window of every reachable journal -/

/-- In every reachable state of a slab journal the head, the oldest unreaped
block and the tail are in order and at most `size` apart, the summaries and the
commit point lag behind the tail in order, the tail block waiting to be written
(which `writeSlabJournalBlock` writes to the position of the tail) does not share
a position with an unreaped block, and a reap passes only blocks without locks
and stops at the tail. -/
theorem slabJournal_window_reachable (h : Reachability.Reachable Initialized SlabJournalStep journal) :
    1 ≤ journal.head ∧ journal.head ≤ journal.unreapable ∧ journal.unreapable ≤ journal.tail ∧
      journal.tail - journal.head ≤ journal.size ∧
      journal.lastSummarized ≤ journal.summarized ∧ journal.summarized ≤ journal.nextCommit ∧
      journal.nextCommit ≤ journal.tail ∧
      (journal.waitingToCommit = true → ∀ s, journal.unreapable ≤ s → s < journal.tail →
        journal.getSlabJournalBlockOffset s ≠ journal.getSlabJournalBlockOffset journal.tail) ∧
      journal.reapSlabJournal.unreapable ≤ journal.tail ∧
      ∀ s, journal.unreapable ≤ s → s < journal.reapSlabJournal.unreapable → journal.lockCount s = 0 := by
  have hwindow := window_of_reachable h
  have hspan := hwindow.tail_le
  refine ⟨hwindow.head_pos, hwindow.head_le_unreapable, hwindow.unreapable_le_tail, by omega,
    hwindow.lastSummarized_le_summarized, hwindow.summarized_le_nextCommit, hwindow.nextCommit_le_tail,
    ?_, journal.reapSlabJournal_unreapable_le hwindow.unreapable_le_tail,
    fun s hlow hhigh => journal.reapSlabJournal_lockCount hlow hhigh⟩
  intro hwaiting s hlow hs
  have htail := hwindow.tail_lt (hwindow.entryCount_pos hwaiting)
  have hhead := hwindow.head_le_unreapable
  exact offset_ne hlow (by omega) (by omega) (by omega) hs.ne

/-- A slab journal of eight blocks of four entries (three with block map
increments), as `makeSlabJournal` and `initializeJournalState` leave it. -/
def freshSlabJournal : SlabJournal where
  size := 8
  entriesPerBlock := 4
  fullEntriesPerBlock := 3
  blockingThreshold := 6
  head := 1
  unreapable := 1
  tail := 1
  nextCommit := 1
  summarized := 1
  lastSummarized := 1
  waitingToCommit := false
  updatingSlabSummary := false
  entryCount := 0
  hasBlockMapIncrements := false
  locks := fun _ => 0
  uncommittedBlocks := []
  underflowLogged := false
  size_pos := by decide
  locks_lt := fun _ => by decide
  blockingThreshold_le := by decide
  fullEntriesPerBlock_pos := by decide
  fullEntriesPerBlock_le := by decide

theorem slabJournal_window_reachable_committed :
    let journal := (freshSlabJournal.addEntry .dataIncrement).commitSlabJournalTail
    Reachability.Reachable Initialized SlabJournalStep journal ∧
      1 ≤ journal.head ∧ journal.head ≤ journal.unreapable ∧ journal.unreapable ≤ journal.tail ∧
      journal.tail - journal.head ≤ journal.size ∧
      journal.lastSummarized ≤ journal.summarized ∧ journal.summarized ≤ journal.nextCommit ∧
      journal.nextCommit ≤ journal.tail ∧
      (journal.waitingToCommit = true → ∀ s, journal.unreapable ≤ s → s < journal.tail →
        journal.getSlabJournalBlockOffset s ≠ journal.getSlabJournalBlockOffset journal.tail) ∧
      journal.reapSlabJournal.unreapable ≤ journal.tail ∧
      ∀ s, journal.unreapable ≤ s → s < journal.reapSlabJournal.unreapable →
        journal.lockCount s = 0 := by
  intro journal
  have hinit : freshSlabJournal.Initialized :=
    ⟨by decide, le_rfl, by decide, rfl, rfl, rfl, rfl, rfl, rfl, rfl⟩
  have hentry : SlabJournalStep freshSlabJournal (freshSlabJournal.addEntry .dataIncrement) :=
    SlabJournalStep.addEntry _ rfl (fun hop => by cases hop) (by decide)
  have hreach : Reachability.Reachable Initialized SlabJournalStep journal :=
    ((Reachability.Reachable.init hinit).tail hentry).tail SlabJournalStep.commitSlabJournalTail
  exact ⟨hreach, slabJournal_window_reachable hreach⟩

end SlabJournal

end Vdo
