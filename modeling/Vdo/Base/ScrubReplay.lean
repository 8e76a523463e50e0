import Vdo.Base.ReferenceSemantics
import Vdo.Base.SlabScrubber
import Vdo.Base.RefCountsLoad

/-!
# Scrubbing rebuilds the reference counts

After a crash each sector of each stored reference block holds the counters
after some prefix of the operations of the slab journal, stamped with the
journal point of the last of them, as `packReferenceBlock` stamps the slab's
journal point; the sectors of one block differ when its write tore. Loading the
blocks and running `applyJournalEntries` over a journal that still holds every
entry after the oldest of those prefixes redoes each entry exactly on the
counters whose sector does not reflect it yet: the commit point comparison of
`replayReferenceCountChange` is the checkpoint test of `Redo`, with the prefix
of each counter's sector as its checkpoint. The scrub succeeds, and its counters
are the journal's operations applied in order to free counters.
-/

namespace Vdo

open Redo

/-! ## What a load reads -/

/-- A fold that keeps either its accumulator or the next candidate ends with the
initial value or one of the candidates. -/
private theorem foldl_select_mem {α β : Type*} (candidate : α → β) (better : β → β → Bool) :
    ∀ (l : List α) (initial : β),
      l.foldl (fun acc a => if better acc (candidate a) then candidate a else acc) initial =
          initial ∨
        ∃ a ∈ l, l.foldl (fun acc a => if better acc (candidate a) then candidate a else acc)
          initial = candidate a
  | [], _ => Or.inl rfl
  | a :: l, initial => by
    rw [List.foldl_cons]
    rcases foldl_select_mem candidate better l _ with hsame | ⟨a', ha', hcandidate⟩
    · rw [hsame]
      split_ifs
      · exact Or.inr ⟨a, List.mem_cons_self, rfl⟩
      · exact Or.inl rfl
    · exact Or.inr ⟨a', List.mem_cons_of_mem a ha', hcandidate⟩

/-- The latest commit point of a block is the point the load had or one of the
block's commit points. -/
theorem latestCommitPoint_mem (packed : PackedReferenceBlock) (point : JournalPoint) :
    latestCommitPoint packed point = point ∨
      ∃ sector < sectorsPerBlock,
        latestCommitPoint packed point = unpackJournalPoint (packed.sectors sector).commitPoint := by
  rcases foldl_select_mem (fun sector => unpackJournalPoint (packed.sectors sector).commitPoint)
      beforeJournalPoint (List.range sectorsPerBlock) point with hsame | ⟨sector, hsector, hpoint⟩
  · exact Or.inl hsame
  · exact Or.inr ⟨sector, List.mem_range.mp hsector, hpoint⟩

section LoadBlock

variable (refCounts : RefCounts) (packed : PackedReferenceBlock) (blockIndex : ℕ)

/-- Loading a block sets the commit points of its sectors and no other. -/
theorem RefCounts.finishReferenceBlockLoad_commitPoints (b sector : ℕ) :
    (refCounts.finishReferenceBlockLoad packed blockIndex).commitPoints b sector =
      if b = blockIndex ∧ sector < sectorsPerBlock then
        unpackJournalPoint (packed.sectors sector).commitPoint
      else refCounts.commitPoints b sector := by
  simp only [RefCounts.finishReferenceBlockLoad, RefCounts.clearProvisionalReferences,
    RefCounts.unpackReferenceBlock, RefCounts.commitPoints, RefCounts.modifyBlock,
    Function.update_apply]
  by_cases hb : b = blockIndex
  · subst hb
    simp
  · simp [hb]

/-- The load's slab journal point takes in the block's commit points. -/
theorem RefCounts.finishReferenceBlockLoad_slabJournalPoint :
    (refCounts.finishReferenceBlockLoad packed blockIndex).slabJournalPoint =
      latestCommitPoint packed refCounts.slabJournalPoint := rfl

end LoadBlock

/-- What a load has read after its first `loaded` blocks: their counters, with
provisional references freed, the commit points of their sectors, and a slab
journal point that is the initial one or a commit point read. -/
structure RefCounts.ReadFrom (refCounts : RefCounts) (initial : JournalPoint)
    (disk : ℕ → PackedReferenceBlock) (loaded : ℕ) : Prop where
  /-- The counters of the blocks read. -/
  counters_eq : ∀ b < loaded, ∀ index ∈ blockRange b,
    refCounts.counters index = freeProvisional ((disk b).count (index - blockBase b))
  /-- The commit points of the blocks read. -/
  commitPoints_eq : ∀ b < loaded, ∀ sector < sectorsPerBlock,
    refCounts.commitPoints b sector = unpackJournalPoint ((disk b).sectors sector).commitPoint
  /-- The slab journal point comes from the start or from a block read. -/
  slabJournalPoint_mem : refCounts.slabJournalPoint = initial ∨
    ∃ b < loaded, ∃ sector < sectorsPerBlock,
      refCounts.slabJournalPoint = unpackJournalPoint ((disk b).sectors sector).commitPoint

section Load

variable {refCounts : RefCounts} {initial : JournalPoint} {disk : ℕ → PackedReferenceBlock}

/-- Nothing is read before the load starts. -/
theorem RefCounts.readFrom_zero (refCounts : RefCounts) (disk : ℕ → PackedReferenceBlock) :
    refCounts.ReadFrom refCounts.slabJournalPoint disk 0 :=
  ⟨fun _ hb => absurd hb (Nat.not_lt_zero _), fun _ hb => absurd hb (Nat.not_lt_zero _), Or.inl rfl⟩

/-- Reading the next block adds it to what the load has read. -/
theorem RefCounts.ReadFrom.finishReferenceBlockLoad {loaded : ℕ}
    (h : refCounts.ReadFrom initial disk loaded) :
    (refCounts.finishReferenceBlockLoad (disk loaded) loaded).ReadFrom initial disk (loaded + 1) := by
  refine ⟨?_, ?_, ?_⟩
  · intro b hb index hindex
    rcases Nat.lt_succ_iff_lt_or_eq.mp hb with hlt | rfl
    · have hnot : index ∉ blockRange loaded := fun hmem =>
        absurd ((mem_blockRange.mp hindex).symm.trans (mem_blockRange.mp hmem)) (by omega)
      rw [RefCounts.finishReferenceBlockLoad_counters_of_notMem hnot]
      exact h.counters_eq b hlt index hindex
    · exact RefCounts.finishReferenceBlockLoad_counters_of_mem hindex
  · intro b hb sector hsector
    rw [RefCounts.finishReferenceBlockLoad_commitPoints]
    rcases Nat.lt_succ_iff_lt_or_eq.mp hb with hlt | rfl
    · rw [if_neg (by omega)]
      exact h.commitPoints_eq b hlt sector hsector
    · rw [if_pos ⟨rfl, hsector⟩]
  · rw [RefCounts.finishReferenceBlockLoad_slabJournalPoint]
    rcases latestCommitPoint_mem (disk loaded) refCounts.slabJournalPoint with hsame | hsector
    · rw [hsame]
      rcases h.slabJournalPoint_mem with hinitial | ⟨b, hb, sector, hsector, hpoint⟩
      · exact Or.inl hinitial
      · exact Or.inr ⟨b, by omega, sector, hsector, hpoint⟩
    · exact Or.inr ⟨loaded, by omega, hsector⟩

/-- Reading blocks in order reads each of them. -/
theorem RefCounts.ReadFrom.foldl_finishReferenceBlockLoad (h : refCounts.ReadFrom initial disk 0)
    (count : ℕ) :
    ((List.range count).foldl (fun loaded blockIndex =>
      loaded.finishReferenceBlockLoad (disk blockIndex) blockIndex) refCounts).ReadFrom
        initial disk count := by
  induction count with
  | zero => exact h
  | succ count ih =>
    rw [List.range_succ, List.foldl_append, List.foldl_cons, List.foldl_nil]
    exact ih.finishReferenceBlockLoad

/-- A load reads every reference block of the slab. -/
theorem loadReferenceBlocks_readFrom (refCounts : RefCounts) (disk : ℕ → PackedReferenceBlock) :
    (loadReferenceBlocks refCounts disk).ReadFrom refCounts.slabJournalPoint disk
      refCounts.referenceBlockCount :=
  RefCounts.ReadFrom.foldl_finishReferenceBlockLoad
    (RefCounts.readFrom_zero { refCounts with freeBlocks := refCounts.blockCount } disk) _

end Load

/-- A counter sits at its sector's offset in its reference block. -/
theorem count_sectorOfCounter (packed : PackedReferenceBlock) (index : ℕ) :
    packed.count (index - blockBase (getReferenceBlock index)) =
      (packed.sectors (sectorOfCounter index)).counts (index % countsPerBlock % countsPerSector) := by
  have hoffset : index - blockBase (getReferenceBlock index) = index % countsPerBlock := by
    simp only [blockBase, getReferenceBlock]
    have := Nat.div_add_mod index countsPerBlock
    rw [Nat.mul_comm] at this
    omega
  rw [PackedReferenceBlock.count, hoffset, sectorOfCounter]

/-- The index of the counter at an offset of a sector of its block. -/
theorem counter_eq_sectorOffset (index : ℕ) :
    blockBase (getReferenceBlock index) + sectorOfCounter index * countsPerSector +
      index % countsPerBlock % countsPerSector = index := by
  simp only [blockBase, getReferenceBlock, sectorOfCounter, countsPerBlock, countsPerSector,
    sectorsPerBlock]
  omega

/-- The sector of a counter is one of the block's sectors. -/
theorem sectorOfCounter_lt (index : ℕ) : sectorOfCounter index < sectorsPerBlock := by
  simp only [sectorOfCounter, countsPerBlock, countsPerSector, sectorsPerBlock]
  omega

/-! ## The journal's operations and the crash image -/

/-- Operations as a slab journal records them: in journal-point order, in blocks
with positive sequence numbers before the tail, at points that pack into a
commit point, and on counters of the slab. -/
structure JournaledOperations (tail blockCount : ℕ)
    (ops : List (JournalPoint × SlabJournalEntry)) : Prop where
  /-- The points increase along the list. -/
  sorted : ops.Pairwise fun first second => beforeJournalPoint first.1 second.1 = true
  /-- No entry is in block zero. -/
  sequence_pos : ∀ op ∈ ops, 0 < op.1.sequenceNumber
  /-- Every entry is in a block before the tail, within the packed 48 bits. -/
  sequence_lt : ∀ op ∈ ops, op.1.sequenceNumber < tail ∧ op.1.sequenceNumber < 2 ^ 48
  /-- Entry indices are 16-bit counts. -/
  entry_lt : ∀ op ∈ ops, op.1.entryCount < 2 ^ 16
  /-- Every entry changes a counter of the slab. -/
  sbn_lt : ∀ op ∈ ops, op.2.sbn < blockCount

/-- The journal point of the last of the first `k` operations, which a reference
block written after them carries; the zero point before any. -/
def commitPointAfter (ops : List (JournalPoint × SlabJournalEntry)) : ℕ → JournalPoint
  | 0 => JournalPoint.zero
  | k + 1 => (ops[k]?.map Prod.fst).getD JournalPoint.zero

/-- After `k + 1` operations the commit point is that of operation `k`. -/
theorem commitPointAfter_succ {ops : List (JournalPoint × SlabJournalEntry)} {k : ℕ}
    (hk : k < ops.length) : commitPointAfter ops (k + 1) = ops[k].1 := by
  simp [commitPointAfter, hk]

section Operations

variable {tail blockCount : ℕ} {ops : List (JournalPoint × SlabJournalEntry)}

/-- The commit point after `k` operations precedes operation `m` exactly when
`m` is not among the first `k`. -/
theorem JournaledOperations.before_commitPointAfter_iff (hops : JournaledOperations tail blockCount ops)
    {k m : ℕ} (hk : k ≤ ops.length) (hm : m < ops.length) :
    beforeJournalPoint (commitPointAfter ops k) ops[m].1 = true ↔ k ≤ m := by
  have hsorted := List.pairwise_iff_getElem.mp hops.sorted
  cases k with
  | zero =>
    simp only [commitPointAfter, Nat.zero_le, iff_true]
    exact zero_beforeJournalPoint (hops.sequence_pos _ (List.getElem_mem hm))
  | succ j =>
    rw [commitPointAfter_succ (by omega)]
    constructor
    · intro hbefore
      by_contra hlate
      rcases Nat.lt_or_eq_of_le (Nat.le_of_not_lt (fun h => hlate (by omega)) : m ≤ j)
        with hlt | rfl
      · rw [beforeJournalPoint_asymm (hsorted m j hm (by omega) hlt)] at hbefore
        cases hbefore
      · rw [beforeJournalPoint_self] at hbefore
        cases hbefore
    · intro hle
      exact hsorted j m (by omega) hm (by omega)

/-- The commit point after any prefix survives packing. -/
theorem JournaledOperations.unpack_commitPointAfter (hops : JournaledOperations tail blockCount ops)
    {k : ℕ} (hk : k ≤ ops.length) :
    unpackJournalPoint (packJournalPoint (commitPointAfter ops k)) = commitPointAfter ops k := by
  cases k with
  | zero => simp [commitPointAfter, packJournalPoint, unpackJournalPoint, JournalPoint.zero]
  | succ j =>
    have hmem := List.getElem_mem (show j < ops.length by omega)
    rw [commitPointAfter_succ (by omega)]
    exact unpackJournalPoint_packJournalPoint (hops.sequence_lt _ hmem).2 (hops.entry_lt _ hmem)

end Operations

/-- A crash image of a slab's reference blocks: sector `sector` of block `b`
holds the counters after the first `sectorPrefix b sector` operations, with
provisional references read as free, and the journal point of the last of them
as its commit point. -/
structure CrashImage (ops : List (JournalPoint × SlabJournalEntry)) (blockCount : ℕ)
    (disk : ℕ → PackedReferenceBlock) (sectorPrefix : ℕ → ℕ → ℕ) : Prop where
  /-- Each prefix is one of the log's. -/
  prefix_le : ∀ b < getSavedReferenceCountSize blockCount, ∀ sector < sectorsPerBlock,
    sectorPrefix b sector ≤ ops.length
  /-- Each sector carries the point of its prefix. -/
  commitPoint_eq : ∀ b < getSavedReferenceCountSize blockCount, ∀ sector < sectorsPerBlock,
    ((disk b).sectors sector).commitPoint = packJournalPoint (commitPointAfter ops (sectorPrefix b sector))
  /-- Each counter of the slab holds its value after its sector's prefix. -/
  count_eq : ∀ b sector offset, sector < sectorsPerBlock → offset < countsPerSector →
    blockBase b + sector * countsPerSector + offset < blockCount →
    freeProvisional (((disk b).sectors sector).counts offset) =
      journaledCounts ops (sectorPrefix b sector) (blockBase b + sector * countsPerSector + offset)

/-- The prefix of the sector that holds a counter: the counter's checkpoint. -/
def sectorCheckpoint (sectorPrefix : ℕ → ℕ → ℕ) (index : ℕ) : ℕ :=
  sectorPrefix (getReferenceBlock index) (sectorOfCounter index)

/-! ## The replay -/

/-- The scrub has passed the first `m` operations: every counter of the slab
holds its value after the later of its checkpoint and `m` operations, and each
sector still has the commit point of its prefix. -/
structure RefCounts.ReplayedTo (refCounts : RefCounts) (ops : List (JournalPoint × SlabJournalEntry))
    (blockCount : ℕ) (sectorPrefix : ℕ → ℕ → ℕ) (m : ℕ) : Prop where
  /-- The counters, as `Redo` has them. -/
  redone : Redone entryBlock entryChange (fun _ => emptyReferenceCount) ops
    (sectorCheckpoint sectorPrefix) {index | index < blockCount} m refCounts.counters
  /-- The commit point of each counter's sector. -/
  commitPoints_eq : ∀ index < blockCount,
    refCounts.commitPoints (getReferenceBlock index) (sectorOfCounter index) =
      commitPointAfter ops (sectorCheckpoint sectorPrefix index)

section Replay

variable {tail blockCount : ℕ} {ops : List (JournalPoint × SlabJournalEntry)} {final : ℕ → ℕ}
  {sectorPrefix : ℕ → ℕ → ℕ}

/-- Replaying operation `m` succeeds and passes it: it is skipped when its
sector already reflects it, and redone otherwise. -/
theorem RefCounts.ReplayedTo.replayReferenceCountChange {refCounts : RefCounts} {m : ℕ}
    (h : refCounts.ReplayedTo ops blockCount sectorPrefix m)
    (hops : JournaledOperations tail blockCount ops) (hreplay : replayJournal ops = some final)
    (hcheckpoint : ∀ index < blockCount, sectorCheckpoint sectorPrefix index ≤ ops.length)
    (hm : m < ops.length) :
    ∃ replayed, Vdo.replayReferenceCountChange refCounts ops[m].1 ops[m].2 = .ok replayed ∧
      replayed.ReplayedTo ops blockCount sectorPrefix (m + 1) := by
  have hsbn : ops[m].2.sbn < blockCount := hops.sbn_lt _ (List.getElem_mem hm)
  have hcommit := h.commitPoints_eq _ hsbn
  have hbefore := hops.before_commitPointAfter_iff (hcheckpoint _ hsbn) hm
  unfold Vdo.replayReferenceCountChange
  dsimp only
  by_cases hredo : sectorCheckpoint sectorPrefix ops[m].2.sbn ≤ m
  · have hnew : beforeJournalPoint ((refCounts.blocks (getReferenceBlock ops[m].2.sbn)).commitPoints
        (sectorOfCounter ops[m].2.sbn)) ops[m].1 = true := by
      rw [← RefCounts.commitPoints, hcommit]
      exact hbefore.mpr hredo
    obtain ⟨happly, hredone⟩ := h.redone.redo hreplay hm hredo hsbn
    have hcurrent : refCounts.counters ops[m].2.sbn ≤ maximumReferenceCount := by
      rw [h.redone _ hsbn, max_eq_right hredo]
      exact journaledCounts_le hreplay hm.le _
    have hnotProvisional : refCounts.counters ops[m].2.sbn ≠ provisionalReferenceCount := by
      simp only [maximumReferenceCount, provisionalReferenceCount] at hcurrent ⊢
      omega
    obtain ⟨updated, report, hupdate, hcounters⟩ :=
      RefCounts.updateReferenceCount_replay (some ops[m].1) 0 hnotProvisional happly
    simp only [hnew, Bool.not_true, Bool.false_eq_true, if_false, hupdate]
    refine ⟨_, rfl, ⟨?_, ?_⟩⟩
    · rw [RefCounts.dirtyBlock_counters, hcounters]
      exact hredone
    · intro index hindex
      rw [RefCounts.dirtyBlock_commitPoints, RefCounts.updateReferenceCount_commitPoints hupdate]
      exact h.commitPoints_eq index hindex
  · have hold : beforeJournalPoint ((refCounts.blocks (getReferenceBlock ops[m].2.sbn)).commitPoints
        (sectorOfCounter ops[m].2.sbn)) ops[m].1 = false := by
      rw [← RefCounts.commitPoints, hcommit, Bool.eq_false_iff, ne_eq, hbefore]
      exact hredo
    simp only [hold, Bool.not_false, if_true]
    exact ⟨refCounts, rfl, h.redone.skip hreplay hm (Nat.lt_of_not_le hredo), h.commitPoints_eq⟩

/-- Replaying the operations from position `m` to the end succeeds and passes
them all. -/
theorem RefCounts.ReplayedTo.replayEntries {refCounts : RefCounts} {m : ℕ}
    (h : refCounts.ReplayedTo ops blockCount sectorPrefix m)
    (hops : JournaledOperations tail blockCount ops) (hreplay : replayJournal ops = some final)
    (hcheckpoint : ∀ index < blockCount, sectorCheckpoint sectorPrefix index ≤ ops.length)
    (hm : m ≤ ops.length) :
    ∃ replayed, Vdo.replayEntries refCounts (ops.drop m) = .ok replayed ∧
      replayed.ReplayedTo ops blockCount sectorPrefix ops.length := by
  by_cases hend : m = ops.length
  · subst hend
    rw [List.drop_length]
    exact ⟨refCounts, rfl, h⟩
  · have hlt : m < ops.length := by omega
    obtain ⟨next, hstep, hnext⟩ := h.replayReferenceCountChange hops hreplay hcheckpoint hlt
    obtain ⟨replayed, hrest, hfinal⟩ := hnext.replayEntries hops hreplay hcheckpoint hlt
    refine ⟨replayed, ?_, hfinal⟩
    rw [List.drop_eq_getElem_cons hlt, Vdo.replayEntries, List.foldlM_cons, hstep]
    exact hrest
termination_by ops.length - m

end Replay

/-! ## The load of a crash image and the journal window -/

section CrashImage

variable {tail blockCount : ℕ} {ops : List (JournalPoint × SlabJournalEntry)}
  {disk : ℕ → PackedReferenceBlock} {sectorPrefix : ℕ → ℕ → ℕ}

/-- Every counter's checkpoint is a prefix of the log. -/
theorem CrashImage.sectorCheckpoint_le (himage : CrashImage ops blockCount disk sectorPrefix)
    {index : ℕ} (hindex : index < blockCount) :
    sectorCheckpoint sectorPrefix index ≤ ops.length :=
  himage.prefix_le _ (getReferenceBlock_lt hindex) _ (sectorOfCounter_lt index)

/-- Loading a crash image starts the replay at any position no later than the
prefix of every sector. -/
theorem CrashImage.replayedTo_load (himage : CrashImage ops blockCount disk sectorPrefix)
    (hops : JournaledOperations tail blockCount ops) (start : ℕ) {m : ℕ}
    (hm : ∀ b < getSavedReferenceCountSize blockCount, ∀ sector < sectorsPerBlock,
      m ≤ sectorPrefix b sector) :
    (loadReferenceBlocks (makeRefCounts blockCount start) disk).ReplayedTo ops blockCount
      sectorPrefix m := by
  have hread := loadReferenceBlocks_readFrom (makeRefCounts blockCount start) disk
  have hblocks : (makeRefCounts blockCount start).referenceBlockCount =
      getSavedReferenceCountSize blockCount := rfl
  rw [hblocks] at hread
  refine ⟨redone_of_checkpoint fun index hindex => ⟨?_, ?_⟩, fun index hindex => ?_⟩
  · exact hm _ (getReferenceBlock_lt hindex) _ (sectorOfCounter_lt index)
  · have hoffset : index % countsPerBlock % countsPerSector < countsPerSector :=
      Nat.mod_lt _ (by decide)
    have hbound : blockBase (getReferenceBlock index) + sectorOfCounter index * countsPerSector +
        index % countsPerBlock % countsPerSector < blockCount := by
      rw [counter_eq_sectorOffset]
      exact hindex
    rw [hread.counters_eq _ (getReferenceBlock_lt hindex) index (mem_blockRange.mpr rfl),
      count_sectorOfCounter, himage.count_eq _ _ _ (sectorOfCounter_lt index) hoffset hbound,
      counter_eq_sectorOffset]
    rfl
  · rw [hread.commitPoints_eq _ (getReferenceBlock_lt hindex) _ (sectorOfCounter_lt index),
      himage.commitPoint_eq _ (getReferenceBlock_lt hindex) _ (sectorOfCounter_lt index)]
    exact hops.unpack_commitPointAfter (himage.sectorCheckpoint_le hindex)

/-- The slab journal point of a loaded crash image is the zero point or the
commit point of a prefix. -/
theorem CrashImage.slabJournalPoint_load (himage : CrashImage ops blockCount disk sectorPrefix)
    (hops : JournaledOperations tail blockCount ops) (start : ℕ) :
    (loadReferenceBlocks (makeRefCounts blockCount start) disk).slabJournalPoint =
        JournalPoint.zero ∨
      ∃ k ≤ ops.length,
        (loadReferenceBlocks (makeRefCounts blockCount start) disk).slabJournalPoint =
          commitPointAfter ops k := by
  rcases (loadReferenceBlocks_readFrom (makeRefCounts blockCount start) disk).slabJournalPoint_mem
    with hzero | ⟨b, hb, sector, hsector, hpoint⟩
  · exact Or.inl hzero
  · have hprefix := himage.prefix_le b hb sector hsector
    refine Or.inr ⟨_, hprefix, ?_⟩
    rw [hpoint, himage.commitPoint_eq b hb sector hsector, hops.unpack_commitPointAfter hprefix]

end CrashImage

/-- The entries of a journal window are those of its blocks, at their points. -/
theorem mem_journalEntries {size : ℕ} {journal : ℕ → SlabJournalBlock} {head tail : ℕ}
    {entry : JournalPoint × SlabJournalEntry} :
    entry ∈ journalEntries size journal head tail ↔
      ∃ sequence, head ≤ sequence ∧ sequence < tail ∧
        ∃ index < (journal (sequence % size)).header.entryCount,
          entry = (⟨sequence, index⟩, (journal (sequence % size)).entries index) := by
  simp only [journalEntries, blockEntries, List.mem_flatMap, List.mem_map, List.mem_range]
  constructor
  · rintro ⟨_, ⟨offset, hoffset, rfl⟩, index, hindex, rfl⟩
    exact ⟨head + offset, by omega, by omega, index, hindex, rfl⟩
  · rintro ⟨sequence, hhead, htail, index, hindex, rfl⟩
    exact ⟨sequence, ⟨sequence - head, by omega, by omega⟩, index, hindex, rfl⟩

section Window

variable {ctx : SlabScrubContext} {journal : ℕ → SlabJournalBlock} {head oldest blockCount : ℕ}
  {ops : List (JournalPoint × SlabJournalEntry)}

/-- A window that holds operations of the slab has its entries within the slab,
so with good headers the scrub reads it entry by entry. -/
theorem goodJournal_of_journalEntries (hops : JournaledOperations ctx.tail blockCount ops)
    (hslab : blockCount ≤ ctx.slabSize)
    (hheaders : ∀ sequence, head ≤ sequence → sequence < ctx.tail →
      ctx.invalidHeader sequence (journal (sequence % ctx.size)).header = false)
    (hjournal : journalEntries ctx.size journal head ctx.tail = ops.drop oldest) :
    ctx.GoodJournal journal head := by
  intro sequence hhead htail
  refine ⟨hheaders sequence hhead htail, fun index hindex => ?_⟩
  have hmem : ((⟨sequence, index⟩ : JournalPoint), (journal (sequence % ctx.size)).entries index) ∈
      ops.drop oldest := by
    rw [← hjournal, mem_journalEntries]
    exact ⟨sequence, hhead, htail, index, hindex, rfl⟩
  have hsbn := hops.sbn_lt _ (List.mem_of_mem_drop hmem)
  exact Nat.le_of_lt (Nat.lt_of_lt_of_le hsbn hslab)

/-- The last entry the scrub applies is no earlier than any operation's commit
point: the operations lie before the tail, and those of the tail block are in
the window. -/
theorem JournaledOperations.not_before_lastEntryApplied
    (hops : JournaledOperations ctx.tail blockCount ops)
    (hjournal : journalEntries ctx.size journal head ctx.tail = ops.drop oldest)
    (hhead : head < ctx.tail) (point : JournalPoint) {k : ℕ} (hk : k ≤ ops.length) :
    beforeJournalPoint (ctx.lastEntryApplied journal head point) (commitPointAfter ops k) =
      false := by
  have hsorted := List.pairwise_iff_getElem.mp hops.sorted
  unfold SlabScrubContext.lastEntryApplied
  rw [if_neg (by omega)]
  cases k with
  | zero => exact beforeJournalPoint_zero _
  | succ j =>
    have hj : j < ops.length := by omega
    have hmem := List.getElem_mem hj
    have hseq := (hops.sequence_lt _ hmem).1
    have hentry := hops.entry_lt _ hmem
    rw [commitPointAfter_succ hj, Bool.eq_false_iff, ne_eq, beforeJournalPoint_iff]
    rintro (hlate | ⟨hsame, hlater⟩)
    · simp only at hlate
      omega
    simp only at hsame hlater
    set count := (journal ((ctx.tail - 1) % ctx.size)).header.entryCount with hcount
    by_cases hempty : count = 0
    · rw [hempty] at hlater
      omega
    have hlast : ((⟨ctx.tail - 1, count - 1⟩ : JournalPoint),
        (journal ((ctx.tail - 1) % ctx.size)).entries (count - 1)) ∈ ops.drop oldest := by
      rw [← hjournal, mem_journalEntries]
      exact ⟨ctx.tail - 1, by omega, by omega, count - 1, by omega, rfl⟩
    obtain ⟨i, hi, hlastEq⟩ := List.mem_drop_iff_getElem.mp hlast
    have hlastEntry := hops.entry_lt _ (List.getElem_mem (show oldest + i < ops.length by omega))
    rw [hlastEq] at hlastEntry
    simp only at hlastEntry
    have hwrap : (count + 2 ^ 16 - 1) % 2 ^ 16 = count - 1 := by omega
    rw [hwrap] at hlater
    by_cases hwindow : oldest ≤ j
    · have hin : ops[j] ∈ journalEntries ctx.size journal head ctx.tail := by
        rw [hjournal]
        exact List.mem_drop_iff_getElem.mpr
          ⟨j - oldest, by omega, by simp only [Nat.add_sub_cancel' hwindow]⟩
      obtain ⟨sequence, -, -, index, hindex, hop⟩ := mem_journalEntries.mp hin
      rw [hop] at hsame hlater
      simp only at hsame hlater
      subst hsame
      omega
    · have hbefore := hsorted j (oldest + i) hj (by omega) (by omega)
      rw [hlastEq, beforeJournalPoint_iff] at hbefore
      simp only at hbefore
      omega

end Window

/-! ## Scrubbing after a crash -/

/-- Scrubbing a slab after a crash rebuilds its reference counts. The slab
journal recorded the operations `ops` in order, each allowed on the counters the
ones before it left; each sector of each stored reference block holds the
counters after some prefix of them, with its commit point; and the journal
blocks from the head the tail block records to the tail hold every operation
after the oldest of those prefixes, with good headers. Then loading the blocks
and running `applyJournalEntries` succeeds, and every counter of the slab ends
as the operations applied in order to free counters leave it. -/
theorem applyJournalEntries_rebuilds_counts {ctx : SlabScrubContext}
    {journal : ℕ → SlabJournalBlock} {ops : List (JournalPoint × SlabJournalEntry)}
    {final : ℕ → ℕ} {disk : ℕ → PackedReferenceBlock} {sectorPrefix : ℕ → ℕ → ℕ}
    {blockCount start oldest : ℕ}
    (hsize : 0 < ctx.size) (hslab : blockCount ≤ ctx.slabSize)
    (hops : JournaledOperations ctx.tail blockCount ops)
    (hreplay : replayJournal ops = some final)
    (himage : CrashImage ops blockCount disk sectorPrefix)
    (holdest : ∀ b < getSavedReferenceCountSize blockCount, ∀ sector < sectorsPerBlock,
      oldest ≤ sectorPrefix b sector)
    (hheaders : ∀ sequence, (journal ((ctx.tail - 1) % ctx.size)).header.head ≤ sequence →
      sequence < ctx.tail → ctx.invalidHeader sequence (journal (sequence % ctx.size)).header = false)
    (hjournal : journalEntries ctx.size journal (journal ((ctx.tail - 1) % ctx.size)).header.head
      ctx.tail = ops.drop oldest) :
    ∃ scrubbed, applyJournalEntries ctx journal
        (loadReferenceBlocks (makeRefCounts blockCount start) disk) = .ok scrubbed ∧
      ∀ index < blockCount, scrubbed.counters index = final index := by
  set head := (journal ((ctx.tail - 1) % ctx.size)).header.head with hhead
  set loaded := loadReferenceBlocks (makeRefCounts blockCount start) disk with hloaded
  have hstart : loaded.ReplayedTo ops blockCount sectorPrefix (min oldest ops.length) :=
    himage.replayedTo_load hops start fun b hb sector hsector =>
      le_trans (min_le_left _ _) (holdest b hb sector hsector)
  have hwindow : ops.drop oldest = ops.drop (min oldest ops.length) := by
    rcases le_total oldest ops.length with hle | hle
    · rw [min_eq_left hle]
    · rw [min_eq_right hle, List.drop_eq_nil_of_le hle, List.drop_length]
  obtain ⟨scrubbed, hrun, hdone⟩ := hstart.replayEntries hops hreplay
    (fun index hindex => himage.sectorCheckpoint_le hindex) (min_le_right _ _)
  have hlast : beforeJournalPoint (ctx.lastEntryApplied journal head loaded.slabJournalPoint)
      loaded.slabJournalPoint = false := by
    by_cases hempty : ctx.tail ≤ head
    · rw [SlabScrubContext.lastEntryApplied, if_pos hempty, beforeJournalPoint_self]
    · rcases himage.slabJournalPoint_load hops start with hzero | ⟨k, hk, hpoint⟩
      · rw [hzero]
        exact beforeJournalPoint_zero _
      · rw [hpoint]
        exact hops.not_before_lastEntryApplied hjournal (by omega) _ hk
  refine ⟨scrubbed, applyJournalEntries_ok hsize hhead ?_ ?_ hlast, ?_⟩
  · exact goodJournal_of_journalEntries hops hslab hheaders hjournal
  · rw [hjournal, hwindow]
    exact hrun
  · intro index hindex
    exact hdone.redone.eq_final hreplay (fun i hi => himage.sectorCheckpoint_le hi) index hindex

/-- A slab whose reference blocks were never written is a crash image of any
journal, with no operation in any sector. -/
theorem zeroedReferenceBlocks_crashImage (ops : List (JournalPoint × SlabJournalEntry)) (blockCount : ℕ) :
    CrashImage ops blockCount zeroedReferenceBlocks fun _ _ => 0 :=
  ⟨fun _ _ _ _ => Nat.zero_le _,
    fun _ _ _ _ => by simp [zeroedReferenceBlocks, commitPointAfter, packJournalPoint, JournalPoint.zero],
    fun _ _ _ _ _ _ => by
      simp [zeroedReferenceBlocks, freeProvisional, journaledCounts, emptyReferenceCount, provisionalReferenceCount]⟩

/-- Reference block 0 of a slab of 1008 counters, torn between two writes:
sector 0 was written after the increments of counters 0 and 504, the other
sectors before either. -/
def tornReferenceBlocks : ℕ → PackedReferenceBlock :=
  fun _ => ⟨fun sector => if sector = 0 then ⟨packJournalPoint ⟨1, 1⟩, fun offset => if offset = 0 then 1 else 0⟩
    else ⟨0, fun _ => emptyReferenceCount⟩⟩

/-- The torn block is a crash image of the two increments: sector 0 after both,
the other sectors after none. -/
theorem tornReferenceBlocks_crashImage :
    CrashImage [(⟨1, 0⟩, ⟨0, .dataIncrement⟩), (⟨1, 1⟩, ⟨504, .dataIncrement⟩)] 1008 tornReferenceBlocks
      fun _ sector => if sector = 0 then 2 else 0 := by
  refine ⟨fun _ _ sector _ => by split_ifs <;> simp, fun _ _ sector _ => ?_, ?_⟩
  · rcases Nat.eq_zero_or_pos sector with rfl | hpos
    · rfl
    · simp [tornReferenceBlocks, hpos.ne', commitPointAfter, packJournalPoint, JournalPoint.zero]
  · intro b sector offset _ hoffset hindex
    simp only [blockBase, countsPerBlock, countsPerSector, sectorsPerBlock] at hindex hoffset
    obtain rfl : b = 0 := by omega
    have hsector : sector < 2 := by omega
    have hafter : journaledCounts [(⟨1, 0⟩, ⟨0, .dataIncrement⟩), (⟨1, 1⟩, ⟨504, .dataIncrement⟩)] 2 =
        Function.update (Function.update (fun _ => emptyReferenceCount) 0 1) 504 1 := rfl
    interval_cases sector
    · rw [if_pos rfl, hafter]
      by_cases hzero : offset = 0
      · subst hzero
        rfl
      · simp [tornReferenceBlocks, hzero, blockBase, Function.update_apply, freeProvisional,
          emptyReferenceCount, provisionalReferenceCount]
        omega
    · simp [tornReferenceBlocks, freeProvisional, journaledCounts, emptyReferenceCount,
        provisionalReferenceCount]

/-- Two crashes the scrub recovers from. A slab of one counter crashed before
any reference block was written, with one increment in journal block `1` of a
two-block journal: the scrub replays it. A crash tore reference block 0 of a
slab of 1008 counters: the scrub skips the increment of counter 0, which
sector 0 holds, and replays the one of counter 504, which sector 1 missed. -/
theorem applyJournalEntries_rebuilds_counts_fresh_and_torn :
    (replayJournal [(⟨1, 0⟩, ⟨0, .dataIncrement⟩)] =
        some (Function.update (fun _ => emptyReferenceCount) 0 1) ∧
      ∃ scrubbed, applyJournalEntries ⟨0, 2, 1, 1, 2, 1⟩
          (fun _ => ⟨⟨1, 1, 0, vdoMetadataSlabJournal, false, 1⟩, fun _ => ⟨0, .dataIncrement⟩⟩)
          (loadReferenceBlocks (makeRefCounts 1 0) zeroedReferenceBlocks) = .ok scrubbed ∧
        ∀ index < 1,
          scrubbed.counters index = Function.update (fun _ => emptyReferenceCount) 0 1 index) ∧
    (replayJournal [(⟨1, 0⟩, ⟨0, .dataIncrement⟩), (⟨1, 1⟩, ⟨504, .dataIncrement⟩)] =
        some (Function.update (Function.update (fun _ => emptyReferenceCount) 0 1) 504 1) ∧
      ∃ scrubbed, applyJournalEntries ⟨0, 2, 2, 2, 2, 1008⟩
          (fun _ => ⟨⟨1, 1, 0, vdoMetadataSlabJournal, false, 2⟩,
            fun index => if index = 0 then ⟨0, .dataIncrement⟩ else ⟨504, .dataIncrement⟩⟩)
          (loadReferenceBlocks (makeRefCounts 1008 0) tornReferenceBlocks) = .ok scrubbed ∧
        ∀ index < 1008, scrubbed.counters index =
          Function.update (Function.update (fun _ => emptyReferenceCount) 0 1) 504 1 index) := by
  have hheaders : ∀ (size count sequence : ℕ),
      1 ≤ sequence → sequence < 2 → SlabScrubContext.invalidHeader ⟨0, 2, count, count, 2, size⟩ sequence
        ⟨1, 1, 0, vdoMetadataSlabJournal, false, count⟩ = false := by
    intro size count sequence hhead htail
    obtain rfl : sequence = 1 := by omega
    simp [SlabScrubContext.invalidHeader]
  refine ⟨⟨rfl, @applyJournalEntries_rebuilds_counts ⟨0, 2, 1, 1, 2, 1⟩
      (fun _ => ⟨⟨1, 1, 0, vdoMetadataSlabJournal, false, 1⟩, fun _ => ⟨0, .dataIncrement⟩⟩)
      [(⟨1, 0⟩, ⟨0, .dataIncrement⟩)] _ zeroedReferenceBlocks (fun _ _ => 0) 1 0 0
      (by decide) le_rfl ⟨by decide, by decide, by decide, by decide, by decide⟩ rfl
      (zeroedReferenceBlocks_crashImage _ 1)
      (fun _ _ _ _ => le_rfl) (hheaders 1 1) rfl⟩,
    ⟨rfl, @applyJournalEntries_rebuilds_counts ⟨0, 2, 2, 2, 2, 1008⟩
      (fun _ => ⟨⟨1, 1, 0, vdoMetadataSlabJournal, false, 2⟩,
        fun index => if index = 0 then ⟨0, .dataIncrement⟩ else ⟨504, .dataIncrement⟩⟩)
      [(⟨1, 0⟩, ⟨0, .dataIncrement⟩), (⟨1, 1⟩, ⟨504, .dataIncrement⟩)] _ tornReferenceBlocks
      (fun _ sector => if sector = 0 then 2 else 0) 1008 0 0
      (by decide) le_rfl ⟨by decide, by decide, by decide, by decide, by decide⟩ rfl
      tornReferenceBlocks_crashImage (fun _ _ _ _ => Nat.zero_le _) (hheaders 1008 2)
      rfl⟩⟩

end Vdo
