import Vdo.Base.RefCounts
import Vdo.Lib.ExceptFold

/-!
# Scrubbing a slab

`applyJournalEntries` (`slabScrubber.c`) reads the slab journal from the head
recorded in the header of the tail block up to the journal's tail, checks the
header of each block, and replays each entry with `replayReferenceCountChange`
through `applyBlockEntries`; an entry whose slab block number is past the slab
is corrupt. At the end the reference counts must be no more recent than the
last entry applied.

The blocks are taken as `unpackSlabJournalBlockHeader` and
`decodeSlabJournalEntry` read them. The loops are folds in `Except`, so that
they stop at the first error as the source's `return` does; the main lemma of
this file reads a journal with good headers as one list of entries replayed in
order.
-/

namespace Vdo

open ExceptFold

/-- `VDO_METADATA_SLAB_JOURNAL`. -/
def vdoMetadataSlabJournal : ℕ := 2

/-- `SlabJournalBlockHeader`: the fields the scrubber reads. -/
structure SlabJournalBlockHeader where
  /-- Sequence number of the journal's head when the block was written. -/
  head : ℕ
  /-- Sequence number of this block. -/
  sequenceNumber : ℕ
  /-- The nonce of the VDO that wrote the block. -/
  nonce : ℕ
  /-- The metadata type. -/
  metadataType : ℕ
  /-- Whether the block holds block map increments. -/
  hasBlockMapIncrements : Bool
  /-- The number of entries in the block, a 16-bit count. -/
  entryCount : ℕ
  deriving DecidableEq, Repr

/-- A slab journal block: its header and its entries as `decodeSlabJournalEntry`
decodes them. -/
structure SlabJournalBlock where
  /-- The unpacked header. -/
  header : SlabJournalBlockHeader
  /-- The decoded entries, by position. -/
  entries : ℕ → SlabJournalEntry

/-- What `applyJournalEntries` reads of the slab and of its journal. -/
structure SlabScrubContext where
  /-- `slab->allocator->nonce`. -/
  nonce : ℕ
  /-- `journal->size`, the number of blocks of the journal ring. -/
  size : ℕ
  /-- `journal->entriesPerBlock`. -/
  entriesPerBlock : ℕ
  /-- `journal->fullEntriesPerBlock`. -/
  fullEntriesPerBlock : ℕ
  /-- `journal->tail`. -/
  tail : ℕ
  /-- `slab->end - slab->start`, the bound `applyBlockEntries` compares with. -/
  slabSize : ℕ

/-- `applyBlockEntries`: replay the first `entryCount` entries of a block at the
journal points `(blockNumber, 0)`, `(blockNumber, 1)`, ..., rejecting an entry
past `maxSBN`. -/
def applyBlockEntries (refCounts : RefCounts) (block : SlabJournalBlock)
    (entryCount blockNumber maxSBN : ℕ) : Except VdoError RefCounts :=
  (List.range entryCount).foldlM
    (fun refCounts index =>
      if maxSBN < (block.entries index).sbn then .error .corruptJournal
      else replayReferenceCountChange refCounts ⟨blockNumber, index⟩ (block.entries index))
    refCounts

/-- The header check of `applyJournalEntries`: a block is not what the scrubber
expects. -/
def SlabScrubContext.invalidHeader (ctx : SlabScrubContext) (sequence : ℕ)
    (header : SlabJournalBlockHeader) : Bool :=
  header.nonce != ctx.nonce || header.metadataType != vdoMetadataSlabJournal ||
    header.sequenceNumber != sequence || decide (ctx.entriesPerBlock < header.entryCount) ||
    (header.hasBlockMapIncrements && decide (ctx.fullEntriesPerBlock < header.entryCount))

/-- The state of the loop of `applyJournalEntries`: the reference counts, the
last entry applied and the ring offset of the next block. -/
structure ScrubProgress where
  /-- The reference counts. -/
  refCounts : RefCounts
  /-- `lastEntryApplied`. -/
  lastEntryApplied : JournalPoint
  /-- `index`, the offset of the next block in the journal ring. -/
  index : ℕ

/-- One iteration of the loop of `applyJournalEntries`, for the block with
sequence number `sequence`. `lastEntryApplied.entryCount` is a 16-bit count,
so `entryCount - 1` wraps. -/
def applyJournalBlock (ctx : SlabScrubContext) (journal : ℕ → SlabJournalBlock)
    (progress : ScrubProgress) (sequence : ℕ) : Except VdoError ScrubProgress :=
  let block := journal progress.index
  if ctx.invalidHeader sequence block.header then .error .corruptJournal
  else
    match applyBlockEntries progress.refCounts block block.header.entryCount sequence
        ctx.slabSize with
    | .error e => .error e
    | .ok applied =>
      .ok ⟨applied, ⟨sequence, (block.header.entryCount + 2 ^ 16 - 1) % 2 ^ 16⟩,
        if progress.index + 1 = ctx.size then 0 else progress.index + 1⟩

/-- `applyJournalEntries`: replay the journal from the head the tail block
records up to the tail, then check that the reference counts are no more
recent than the last entry applied. -/
def applyJournalEntries (ctx : SlabScrubContext) (journal : ℕ → SlabJournalBlock)
    (refCounts : RefCounts) : Except VdoError RefCounts :=
  let head := (journal ((ctx.tail - 1) % ctx.size)).header.head
  let refCountsPoint := refCounts.slabJournalPoint
  match ((List.range (ctx.tail - head)).map (head + ·)).foldlM (applyJournalBlock ctx journal)
      ⟨refCounts, refCountsPoint, head % ctx.size⟩ with
  | .error e => .error e
  | .ok done =>
    if beforeJournalPoint done.lastEntryApplied refCountsPoint then .error .assertionFailed
    else .ok done.refCounts

/-! ## The bound on slab block numbers -/

/-- A journal of one block, sequence number `1`, holding one `DATA_INCREMENT`
of slab block number `8`. -/
def oneEntryJournal : ℕ → SlabJournalBlock :=
  fun _ => ⟨⟨1, 1, 0, vdoMetadataSlabJournal, false, 1⟩, fun _ => ⟨8, .dataIncrement⟩⟩

/-- A slab of `10` blocks (`slab->end - slab->start`), of which `8` are data
blocks, with a journal ring of one block whose tail is `2`. -/
def tenBlockSlab : SlabScrubContext := ⟨0, 1, 1, 1, 2, 10⟩

/-- `applyBlockEntries` bounds slab block numbers by the whole slab, metadata
blocks included, and with `>`: scrubbing a slab of `8` data blocks replays an
entry for block `8`, writing the counter past the slab's last and taking a
free block from the total while all eight counters stay free. -/
theorem applyJournalEntries_replays_entry_past_data_blocks :
    ∃ scrubbed, applyJournalEntries tenBlockSlab oneEntryJournal (makeRefCounts 8 0) = .ok scrubbed ∧
      (makeRefCounts 8 0).blockCount = 8 ∧ scrubbed.counters 8 = 1 ∧ scrubbed.freeBlocks = 7 ∧
      ∀ index < 8, scrubbed.counters index = emptyReferenceCount := by
  refine ⟨_, rfl, rfl, rfl, rfl, fun index hindex => ?_⟩
  show Function.update (fun _ => emptyReferenceCount) 8 1 index = emptyReferenceCount
  rw [Function.update_of_ne (by omega)]

/-! ## Reading the journal as a list of entries -/

/-- The entries of a block at their journal points. -/
def blockEntries (sequence : ℕ) (block : SlabJournalBlock) :
    List (JournalPoint × SlabJournalEntry) :=
  (List.range block.header.entryCount).map fun index => (⟨sequence, index⟩, block.entries index)

/-- The entries of the journal blocks `head`, ..., `tail - 1`, each read at its
offset in the ring, in journal order. -/
def journalEntries (size : ℕ) (journal : ℕ → SlabJournalBlock) (head tail : ℕ) :
    List (JournalPoint × SlabJournalEntry) :=
  ((List.range (tail - head)).map (head + ·)).flatMap fun sequence =>
    blockEntries sequence (journal (sequence % size))

/-- Replay entries in order, stopping at the first error. -/
def replayEntries (refCounts : RefCounts) (entries : List (JournalPoint × SlabJournalEntry)) :
    Except VdoError RefCounts :=
  entries.foldlM (fun refCounts entry => replayReferenceCountChange refCounts entry.1 entry.2)
    refCounts

/-- Replay composes over concatenated lists of entries. -/
theorem replayEntries_append (refCounts : RefCounts) (first rest : List (JournalPoint × SlabJournalEntry)) :
    replayEntries refCounts (first ++ rest) =
      replayEntries refCounts first >>= fun replayed => replayEntries replayed rest := by
  unfold replayEntries
  rw [List.foldlM_append]

/-- A block whose entries all lie within `maxSBN` is replayed entry by entry. -/
theorem applyBlockEntries_eq {refCounts : RefCounts} {block : SlabJournalBlock}
    {entryCount blockNumber maxSBN : ℕ}
    (hbound : ∀ index < entryCount, (block.entries index).sbn ≤ maxSBN) :
    applyBlockEntries refCounts block entryCount blockNumber maxSBN =
      replayEntries refCounts ((List.range entryCount).map fun index =>
        (⟨blockNumber, index⟩, block.entries index)) := by
  unfold applyBlockEntries replayEntries
  rw [List.foldlM_map]
  apply foldlM_congr
  intro refCounts index hindex
  rw [if_neg (Nat.not_lt.mpr (hbound index (List.mem_range.mp hindex)))]

/-- Stepping the ring offset of `sequence` as the loop does gives the offset of
`sequence + 1`. -/
theorem ringIndex_succ {size sequence : ℕ} (hsize : 0 < size) :
    (if sequence % size + 1 = size then 0 else sequence % size + 1) = (sequence + 1) % size := by
  have hlt := Nat.mod_lt sequence hsize
  have hsplit := Nat.mod_add_div sequence size
  split_ifs with hwrap
  · have hmul : sequence + 1 = size * (sequence / size + 1) := by
      rw [Nat.mul_add, Nat.mul_one]
      generalize sequence % size = offset at hsplit hwrap
      omega
    rw [hmul, Nat.mul_mod_right]
  · have hone : 1 < size := by omega
    rw [Nat.add_mod, Nat.mod_eq_of_lt hone,
      Nat.mod_eq_of_lt (show sequence % size + 1 < size by omega)]

/-- The blocks `head`, ..., `tail - 1` of the ring pass the header check and
their entries lie within the slab. -/
def SlabScrubContext.GoodJournal (ctx : SlabScrubContext) (journal : ℕ → SlabJournalBlock)
    (head : ℕ) : Prop :=
  ∀ sequence, head ≤ sequence → sequence < ctx.tail →
    ctx.invalidHeader sequence (journal (sequence % ctx.size)).header = false ∧
      ∀ index < (journal (sequence % ctx.size)).header.entryCount,
        ((journal (sequence % ctx.size)).entries index).sbn ≤ ctx.slabSize

/-- The `lastEntryApplied` of a scrub that applied every block from `head` to
the tail: the last entry of the tail block, or the reference counts' own point
when there was no block. -/
def SlabScrubContext.lastEntryApplied (ctx : SlabScrubContext) (journal : ℕ → SlabJournalBlock)
    (head : ℕ) (refCountsPoint : JournalPoint) : JournalPoint :=
  if ctx.tail ≤ head then refCountsPoint
  else ⟨ctx.tail - 1, ((journal ((ctx.tail - 1) % ctx.size)).header.entryCount + 2 ^ 16 - 1) % 2 ^ 16⟩

/-- One more block of the journal adds its entries at the end. -/
theorem journalEntries_succ (size : ℕ) (journal : ℕ → SlabJournalBlock) (head m : ℕ) :
    journalEntries size journal head (head + (m + 1)) =
      journalEntries size journal head (head + m) ++
        blockEntries (head + m) (journal ((head + m) % size)) := by
  unfold journalEntries
  rw [show head + (m + 1) - head = m + 1 by omega, show head + m - head = m by omega,
    List.range_succ, List.map_append, List.flatMap_append]
  simp

section Loop

variable {ctx : SlabScrubContext} {journal : ℕ → SlabJournalBlock} {head : ℕ}

/-- A block with a good header is replayed entry by entry, and the loop moves
to the next offset of the ring. -/
theorem applyJournalBlock_eq (hsize : 0 < ctx.size) {sequence : ℕ}
    (hheader : ctx.invalidHeader sequence (journal (sequence % ctx.size)).header = false)
    (hbound : ∀ index < (journal (sequence % ctx.size)).header.entryCount,
      ((journal (sequence % ctx.size)).entries index).sbn ≤ ctx.slabSize)
    (refCounts : RefCounts) (last : JournalPoint) :
    applyJournalBlock ctx journal ⟨refCounts, last, sequence % ctx.size⟩ sequence =
      (replayEntries refCounts (blockEntries sequence (journal (sequence % ctx.size)))).map
        fun applied => ⟨applied,
          ⟨sequence, ((journal (sequence % ctx.size)).header.entryCount + 2 ^ 16 - 1) % 2 ^ 16⟩,
          (sequence + 1) % ctx.size⟩ := by
  unfold applyJournalBlock
  simp only [hheader, Bool.false_eq_true, if_false]
  rw [applyBlockEntries_eq hbound, ringIndex_succ hsize]
  unfold blockEntries
  cases replayEntries refCounts _ <;> rfl

/-- The loop over the first `count` blocks from the head replays their entries
in order. -/
theorem foldlM_applyJournalBlock (hsize : 0 < ctx.size) (hgood : ctx.GoodJournal journal head)
    (refCounts : RefCounts) (point : JournalPoint) :
    ∀ count, head + count ≤ ctx.tail →
      ((List.range count).map (head + ·)).foldlM (applyJournalBlock ctx journal)
          ⟨refCounts, point, head % ctx.size⟩ =
        (replayEntries refCounts (journalEntries ctx.size journal head (head + count))).map
          fun replayed => ⟨replayed,
            if count = 0 then point
            else ⟨head + count - 1,
              ((journal ((head + count - 1) % ctx.size)).header.entryCount + 2 ^ 16 - 1) % 2 ^ 16⟩,
            (head + count) % ctx.size⟩
  | 0, _ => by simp [journalEntries, replayEntries, Except.map, pure, Except.pure]
  | count + 1, hcount => by
    have hprefix := foldlM_applyJournalBlock hsize hgood refCounts point count (by omega)
    obtain ⟨hheader, hbound⟩ := hgood (head + count) (by omega) (by omega)
    rw [List.range_succ, List.map_append, List.foldlM_append, hprefix, journalEntries_succ,
      replayEntries_append]
    cases replayEntries refCounts (journalEntries ctx.size journal head (head + count)) with
    | error e => rfl
    | ok replayed =>
      have hstep := applyJournalBlock_eq hsize hheader hbound replayed
        (if count = 0 then point else ⟨head + count - 1,
          ((journal ((head + count - 1) % ctx.size)).header.entryCount + 2 ^ 16 - 1) % 2 ^ 16⟩)
      simp only [Except.map, List.map_cons, List.map_nil, List.foldlM_cons, List.foldlM_nil,
        bind, Except.bind, pure, Except.pure]
      rw [hstep]
      cases replayEntries replayed (blockEntries (head + count) (journal ((head + count) % ctx.size))) with
      | error e => rfl
      | ok applied =>
        simp only [Nat.add_eq_zero_iff, one_ne_zero, and_false, if_false,
          show head + (count + 1) - 1 = head + count by omega, Nat.add_assoc]
        rfl

/-- A journal whose blocks, from the head the tail block records to the tail,
all pass the checks scrubs to the replay of its entries, when that replay
succeeds and the reference counts are no more recent than the last entry. -/
theorem applyJournalEntries_ok (hsize : 0 < ctx.size) {refCounts replayed : RefCounts}
    (hhead : head = (journal ((ctx.tail - 1) % ctx.size)).header.head)
    (hgood : ctx.GoodJournal journal head)
    (hreplay : replayEntries refCounts (journalEntries ctx.size journal head ctx.tail) =
      .ok replayed)
    (hlast : beforeJournalPoint (ctx.lastEntryApplied journal head refCounts.slabJournalPoint)
      refCounts.slabJournalPoint = false) :
    applyJournalEntries ctx journal refCounts = .ok replayed := by
  unfold applyJournalEntries SlabScrubContext.lastEntryApplied at *
  dsimp only
  rw [← hhead]
  by_cases hempty : ctx.tail ≤ head
  · have hnone : journalEntries ctx.size journal head ctx.tail = [] := by
      simp [journalEntries, Nat.sub_eq_zero_of_le hempty]
    rw [hnone] at hreplay
    cases hreplay
    simp [Nat.sub_eq_zero_of_le hempty, beforeJournalPoint_self, pure, Except.pure]
  · have htail : head + (ctx.tail - head) = ctx.tail := by omega
    have hcount : ctx.tail - head ≠ 0 := by omega
    rw [if_neg hempty] at hlast
    rw [← htail] at hreplay
    rw [foldlM_applyJournalBlock hsize hgood refCounts refCounts.slabJournalPoint
      (ctx.tail - head) (le_of_eq htail), hreplay]
    simp only [Except.map, if_neg hcount, htail]
    rw [hlast]
    rfl

end Loop

end Vdo
