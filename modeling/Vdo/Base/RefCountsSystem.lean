import Vdo.Base.RefCountsAllocate
import Vdo.Base.RefCountsLoad
import Vdo.Lib.Reachability

/-!
# The bookkeeping over whole runs of a slab

A slab's reference counts live in memory and in its reference blocks on disk.
Each operation of `refCounts.c` that changes them is a step: the adjustments of
normal operation, rebuild and replay, allocation and provisional references,
the reset, the write of one reference block, which may tear between sectors,
and the reload of all of them. The bookkeeping invariant, together with
well-formed stored blocks, holds in every state reachable from a fresh
`makeRefCounts`.

Replay is a step only for entries that name a counter of the slab: an entry
past the slab's counters writes outside the counters the invariant describes.
-/

namespace Vdo

open Reachability

/-- A slab's reference counts and its stored reference blocks. -/
structure SlabReferences where
  /-- The reference counts in memory. -/
  refCounts : RefCounts
  /-- The stored reference blocks, by block index. -/
  disk : ℕ → PackedReferenceBlock

/-- One operation on a slab's reference counts. An operation that returns only
an error code returns no new state, so its failures are not steps. -/
inductive RefCountsStep : SlabReferences → SlabReferences → Prop
  /-- `adjustReferenceCount`, whatever it returns. -/
  | adjust {slab : SlabReferences} (slabOpen : Bool) (operation : ReferenceOperation)
      (point : Option JournalPoint) :
      RefCountsStep slab
        { slab with
          refCounts := (adjustReferenceCount slabOpen slab.refCounts operation point).refCounts }
  /-- A successful `adjustReferenceCountForRebuild`. -/
  | rebuild {slab : SlabReferences} {pbn : ℕ} {operation : JournalOperation} {updated : RefCounts}
      (hok : adjustReferenceCountForRebuild slab.refCounts pbn operation = .ok updated) :
      RefCountsStep slab { slab with refCounts := updated }
  /-- A successful `replayReferenceCountChange` of an entry naming a counter of
  the slab. -/
  | replay {slab : SlabReferences} {entryPoint : JournalPoint} {entry : SlabJournalEntry}
      {updated : RefCounts} (hsbn : entry.sbn < slab.refCounts.blockCount)
      (hok : replayReferenceCountChange slab.refCounts entryPoint entry = .ok updated) :
      RefCountsStep slab { slab with refCounts := updated }
  /-- `allocateUnreferencedBlock`, whatever it returns. -/
  | allocate {slab : SlabReferences} (slabOpen : Bool) :
      RefCountsStep slab
        { slab with refCounts := (allocateUnreferencedBlock slabOpen slab.refCounts).1 }
  /-- A successful `provisionallyReferenceBlock`. -/
  | provision {slab : SlabReferences} {slabOpen hasLock assigned : Bool} {pbn : ℕ}
      {updated : RefCounts}
      (hok : provisionallyReferenceBlock slabOpen slab.refCounts pbn hasLock =
        .ok (updated, assigned)) :
      RefCountsStep slab { slab with refCounts := updated }
  /-- `resetReferenceCounts`. -/
  | reset {slab : SlabReferences} :
      RefCountsStep slab { slab with refCounts := resetReferenceCounts slab.refCounts }
  /-- The write of one reference block: the sectors chosen by `written` reach
  the disk. -/
  | write {slab : SlabReferences} (blockIndex : ℕ) (written : ℕ → Bool) :
      RefCountsStep slab
        { slab with
          disk := Function.update slab.disk blockIndex
            (tornWrite (slab.disk blockIndex) (packReferenceBlock slab.refCounts blockIndex)
              written) }
  /-- `loadReferenceBlocks` and the completion of every block's read. -/
  | load {slab : SlabReferences} :
      RefCountsStep slab { slab with refCounts := loadReferenceBlocks slab.refCounts slab.disk }

/-- A fresh slab: `makeRefCounts` over well-formed stored blocks. -/
def FreshSlab (slab : SlabReferences) : Prop :=
  ∃ blockCount start, slab.refCounts = makeRefCounts blockCount start ∧
    DiskConsistent blockCount slab.disk

/-- The invariant of a slab: consistent bookkeeping in memory and well-formed
stored blocks. -/
structure SlabReferences.Consistent (slab : SlabReferences) : Prop where
  /-- The bookkeeping in memory. -/
  refCounts : slab.refCounts.Consistent
  /-- The stored blocks. -/
  disk : DiskConsistent slab.refCounts.blockCount slab.disk

section Runs

variable {slab next : SlabReferences}

/-- A fresh slab satisfies the invariant. -/
theorem SlabReferences.consistent_of_fresh (hfresh : FreshSlab slab) : slab.Consistent := by
  obtain ⟨blockCount, start, hmake, hdisk⟩ := hfresh
  have hblockCount : slab.refCounts.blockCount = blockCount := by
    rw [hmake]
    rfl
  refine ⟨?_, ?_⟩
  · rw [hmake]
    exact makeRefCounts_consistent blockCount start
  · rw [hblockCount]
    exact hdisk

/-- Every step keeps the invariant. Each operation keeps the bookkeeping and
the slab's size, so the stored blocks stay well formed; a write keeps them well
formed because it stores counters of a consistent state. -/
theorem SlabReferences.Consistent.step (h : slab.Consistent) (hstep : RefCountsStep slab next) :
    next.Consistent := by
  cases hstep with
  | adjust slabOpen operation point =>
    refine ⟨h.refCounts.adjustReferenceCount slabOpen operation point, ?_⟩
    show DiskConsistent
      (adjustReferenceCount slabOpen slab.refCounts operation point).refCounts.blockCount slab.disk
    rw [adjustReferenceCount_blockCount]
    exact h.disk
  | rebuild hok =>
    refine ⟨h.refCounts.adjustReferenceCountForRebuild hok, ?_⟩
    show DiskConsistent _ slab.disk
    rw [adjustReferenceCountForRebuild_blockCount hok]
    exact h.disk
  | replay hsbn hok =>
    refine ⟨h.refCounts.replayReferenceCountChange hsbn hok, ?_⟩
    show DiskConsistent _ slab.disk
    rw [replayReferenceCountChange_blockCount hok]
    exact h.disk
  | allocate slabOpen =>
    refine ⟨h.refCounts.allocateUnreferencedBlock slabOpen, ?_⟩
    show DiskConsistent (allocateUnreferencedBlock slabOpen slab.refCounts).1.blockCount slab.disk
    rw [allocateUnreferencedBlock_blockCount]
    exact h.disk
  | provision hok =>
    refine ⟨h.refCounts.provisionallyReferenceBlock hok, ?_⟩
    show DiskConsistent _ slab.disk
    rw [provisionallyReferenceBlock_blockCount hok]
    exact h.disk
  | reset => exact ⟨h.refCounts.resetReferenceCounts, h.disk⟩
  | write blockIndex written => exact ⟨h.refCounts, h.disk.write h.refCounts blockIndex written⟩
  | load =>
    refine ⟨h.refCounts.loadReferenceBlocks h.disk, ?_⟩
    show DiskConsistent (loadReferenceBlocks slab.refCounts slab.disk).blockCount slab.disk
    rw [loadReferenceBlocks, (RefCounts.foldl_finishReferenceBlockLoad_frame _ _ _).1]
    exact h.disk

/-- The invariant holds in every reachable state. -/
theorem SlabReferences.Consistent.of_reachable (hreach : Reachable FreshSlab RefCountsStep slab) :
    slab.Consistent :=
  hreach.invariant (fun _ hfresh => SlabReferences.consistent_of_fresh hfresh)
    (fun _ _ h hstep => h.step hstep)

end Runs

/-- In every reachable state every counter is a byte, the free total counts the
zero counters of the slab and each reference block's allocated count counts its
non-zero counters; an adjustment that fails other than by the assertion on the
journal point, and an allocation that fails, change no counter and no total. -/
theorem refCounts_bookkeeping {slab : SlabReferences}
    (hreach : Reachable FreshSlab RefCountsStep slab) :
    slab.refCounts.Consistent ∧
      (∀ slabOpen operation point e,
        (adjustReferenceCount slabOpen slab.refCounts operation point).result = .error e →
        e ≠ .assertionFailed →
        slab.refCounts.SameCounts
          (adjustReferenceCount slabOpen slab.refCounts operation point).refCounts) ∧
      (∀ slabOpen e, (allocateUnreferencedBlock slabOpen slab.refCounts).2 = .error e →
        slab.refCounts.SameCounts (allocateUnreferencedBlock slabOpen slab.refCounts).1) := by
  refine ⟨(SlabReferences.Consistent.of_reachable hreach).refCounts, ?_, ?_⟩
  · intro slabOpen operation point e herror hassertion
    rw [adjustReferenceCount_error_eq slabOpen slab.refCounts operation point herror hassertion]
    exact RefCounts.SameCounts.refl _
  · intro slabOpen e herror
    exact allocateUnreferencedBlock_error_sameCounts slabOpen slab.refCounts herror

/-- A slab of one reference block after a data increment with a journal point,
a write of its reference block torn after the first sector, and an allocation. -/
def writtenSlab : SlabReferences :=
  let adjusted : SlabReferences :=
    ⟨(adjustReferenceCount true (makeRefCounts 4032 0) ⟨.dataIncrement, 0, false⟩ (some ⟨1, 0⟩)).refCounts,
      zeroedReferenceBlocks⟩
  let torn : SlabReferences :=
    { adjusted with
      disk := Function.update adjusted.disk 0
        (tornWrite (adjusted.disk 0) (packReferenceBlock adjusted.refCounts 0) fun sector => sector == 0) }
  { torn with refCounts := (allocateUnreferencedBlock true torn.refCounts).1 }

theorem writtenSlab_reachable : Reachable FreshSlab RefCountsStep writtenSlab :=
  have hfresh : Reachable FreshSlab RefCountsStep ⟨makeRefCounts 4032 0, zeroedReferenceBlocks⟩ :=
    Reachable.init ⟨4032, 0, rfl, diskConsistent_zeroed 4032⟩
  ((hfresh.tail
    (RefCountsStep.adjust true ⟨.dataIncrement, 0, false⟩ (some ⟨1, 0⟩))).tail
    (RefCountsStep.write 0 fun sector => sector == 0)).tail (RefCountsStep.allocate true)

theorem refCounts_bookkeeping_written :
    Reachable FreshSlab RefCountsStep writtenSlab ∧ writtenSlab.refCounts.Consistent ∧
      (∀ slabOpen operation point e,
        (adjustReferenceCount slabOpen writtenSlab.refCounts operation point).result = .error e →
        e ≠ .assertionFailed →
        writtenSlab.refCounts.SameCounts
          (adjustReferenceCount slabOpen writtenSlab.refCounts operation point).refCounts) ∧
      (∀ slabOpen e, (allocateUnreferencedBlock slabOpen writtenSlab.refCounts).2 = .error e →
        writtenSlab.refCounts.SameCounts (allocateUnreferencedBlock slabOpen writtenSlab.refCounts).1) :=
  ⟨writtenSlab_reachable, refCounts_bookkeeping writtenSlab_reachable⟩

/-- The assertion of `adjustReferenceCount` fails after the counter update:
from a fresh slab of one counter, an increment with a journal point leaves the
block dirty with a slab journal lock, and a second increment without a journal
point then reports the failed assertion with the counter already raised from
one to two. -/
theorem adjustReferenceCount_assertion_after_update :
    Reachable FreshSlab RefCountsStep
        ⟨(adjustReferenceCount true (makeRefCounts 1 0) ⟨.dataIncrement, 0, false⟩
          (some ⟨1, 0⟩)).refCounts, zeroedReferenceBlocks⟩ ∧
      (adjustReferenceCount true (adjustReferenceCount true (makeRefCounts 1 0)
          ⟨.dataIncrement, 0, false⟩ (some ⟨1, 0⟩)).refCounts
          ⟨.dataIncrement, 0, false⟩ none).result = .error .assertionFailed ∧
      (adjustReferenceCount true (makeRefCounts 1 0) ⟨.dataIncrement, 0, false⟩
          (some ⟨1, 0⟩)).refCounts.counters 0 = 1 ∧
      (adjustReferenceCount true (adjustReferenceCount true (makeRefCounts 1 0)
          ⟨.dataIncrement, 0, false⟩ (some ⟨1, 0⟩)).refCounts
          ⟨.dataIncrement, 0, false⟩ none).refCounts.counters 0 = 2 := by
  have hfresh : Reachable FreshSlab RefCountsStep ⟨makeRefCounts 1 0, zeroedReferenceBlocks⟩ :=
    Reachable.init ⟨1, 0, rfl, diskConsistent_zeroed 1⟩
  exact ⟨hfresh.tail (RefCountsStep.adjust true ⟨.dataIncrement, 0, false⟩ (some ⟨1, 0⟩)),
    rfl, rfl, rfl⟩

end Vdo
