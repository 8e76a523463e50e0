import Vdo.Base.RefCountsInvariant
import Vdo.Lib.Redo

/-!
# What a journaled change means for a counter

The slab journal records each change of a reference count as an entry: a slab
block number and an operation. Read with a provisional reference as free, as a
reload reads it, a counter is a number of references from `0`, free, to
`MAXIMUM_REFERENCE_COUNT`, and the meaning of an entry is a partial function on
that number. Replaying a journal from free counters is a run of `Redo` with
that meaning.

Both modes of `updateReferenceCount` refine the meaning. A successful update,
other than the release of a provisional reference (which is never journaled),
changes only its own counter, and changes it as the meaning says once
provisional references are read as free. In replay mode, without a PBN lock
and with `normalOperation` false, the update succeeds whenever the meaning
allows the change and stores exactly its result.
-/

namespace Vdo

/-! ## The meaning of an entry -/

/-- The change a journal operation makes to a number of references: a data
reference is added below the maximum or removed from a referenced block, and a
block map page takes a free block with the maximum count. Block map pages are
never freed, so a block map decrement has no meaning. -/
def JournalOperation.applyTo : JournalOperation → ℕ → Option ℕ
  | .dataIncrement, count => if count < maximumReferenceCount then some (count + 1) else none
  | .dataDecrement, count => if count = emptyReferenceCount then none else some (count - 1)
  | .blockMapIncrement, count =>
    if count = emptyReferenceCount then some maximumReferenceCount else none
  | .blockMapDecrement, _ => none

theorem JournalOperation.applyTo_dataIncrement {count count' : ℕ} :
    JournalOperation.dataIncrement.applyTo count = some count' ↔
      count < maximumReferenceCount ∧ count' = count + 1 := by
  simp only [JournalOperation.applyTo]
  split_ifs with hlt
  · simp [hlt, eq_comm]
  · simp [hlt]

theorem JournalOperation.applyTo_dataDecrement {count count' : ℕ} :
    JournalOperation.dataDecrement.applyTo count = some count' ↔
      count ≠ emptyReferenceCount ∧ count' = count - 1 := by
  simp only [JournalOperation.applyTo]
  split_ifs with hzero
  · simp [hzero]
  · simp [hzero, eq_comm]

theorem JournalOperation.applyTo_blockMapIncrement {count count' : ℕ} :
    JournalOperation.blockMapIncrement.applyTo count = some count' ↔
      count = emptyReferenceCount ∧ count' = maximumReferenceCount := by
  simp only [JournalOperation.applyTo]
  split_ifs with hzero
  · simp [hzero, eq_comm]
  · simp [hzero]

/-- A counter read with a provisional reference as free, as
`clearProvisionalReferences` leaves it after a reload. -/
def freeProvisional (count : ℕ) : ℕ :=
  if count = provisionalReferenceCount then emptyReferenceCount else count

/-- The counter an entry at its journal point changes. -/
def entryBlock (entry : JournalPoint × SlabJournalEntry) : ℕ :=
  entry.2.sbn

/-- The change an entry at its journal point makes. -/
def entryChange (entry : JournalPoint × SlabJournalEntry) (count : ℕ) : Option ℕ :=
  entry.2.operation.applyTo count

/-- The counters after the first `k` entries, applied in order to free counters. -/
def journaledCounts (entries : List (JournalPoint × SlabJournalEntry)) (k : ℕ) : ℕ → ℕ :=
  Redo.after entryBlock entryChange (fun _ => emptyReferenceCount) entries k

/-- All the entries applied in order to free counters, if each is allowed. -/
def replayJournal (entries : List (JournalPoint × SlabJournalEntry)) : Option (ℕ → ℕ) :=
  Redo.run entryBlock entryChange (fun _ => emptyReferenceCount) entries

/-- A change never goes past the maximum count from a count within it. -/
theorem JournalOperation.applyTo_le {operation : JournalOperation} {count count' : ℕ}
    (hcount : count ≤ maximumReferenceCount) (happly : operation.applyTo count = some count') :
    count' ≤ maximumReferenceCount := by
  cases operation with
  | dataIncrement =>
    obtain ⟨hlt, rfl⟩ := JournalOperation.applyTo_dataIncrement.mp happly
    omega
  | dataDecrement =>
    obtain ⟨-, rfl⟩ := JournalOperation.applyTo_dataDecrement.mp happly
    omega
  | blockMapIncrement =>
    obtain ⟨-, rfl⟩ := JournalOperation.applyTo_blockMapIncrement.mp happly
    exact le_rfl
  | blockMapDecrement => cases happly

/-- Every counter along a successful replay is within the maximum count. -/
theorem journaledCounts_le {entries : List (JournalPoint × SlabJournalEntry)} {final : ℕ → ℕ}
    (hreplay : replayJournal entries = some final) {k : ℕ} (hk : k ≤ entries.length) (i : ℕ) :
    journaledCounts entries k i ≤ maximumReferenceCount :=
  Redo.after_of_apply (· ≤ maximumReferenceCount) (fun _ => Nat.zero_le _)
    (fun _ _ _ hcount happly => JournalOperation.applyTo_le hcount happly) hreplay k hk i

/-! ## The primitives of the counter updates -/

namespace RefCounts

variable (refCounts : RefCounts)

@[simp] theorem setCounter_counters (index count : ℕ) :
    (refCounts.setCounter index count).counters = Function.update refCounts.counters index count :=
  rfl

@[simp] theorem countAllocation_counters (blockIndex : ℕ) :
    (refCounts.countAllocation blockIndex).counters = refCounts.counters := rfl

@[simp] theorem countRelease_counters (blockIndex : ℕ) :
    (refCounts.countRelease blockIndex).counters = refCounts.counters := rfl

@[simp] theorem recordJournalPoint_counters (point : Option JournalPoint) :
    (refCounts.recordJournalPoint point).counters = refCounts.counters :=
  (refCounts.sameBookkeeping_recordJournalPoint point).counters_eq

@[simp] theorem dirtyBlock_counters (blockIndex : ℕ) :
    (refCounts.dirtyBlock blockIndex).counters = refCounts.counters :=
  (refCounts.sameBookkeeping_dirtyBlock blockIndex).counters_eq

/-- The commit points of every block, which only a load changes. -/
def commitPoints (block : ℕ) : ℕ → JournalPoint :=
  (refCounts.blocks block).commitPoints

/-- Changing a block without touching its commit points keeps them all. -/
theorem commitPoints_modifyBlock (blockIndex : ℕ) (change : ReferenceBlock → ReferenceBlock)
    (hchange : ∀ block, (change block).commitPoints = block.commitPoints) :
    (refCounts.modifyBlock blockIndex change).commitPoints = refCounts.commitPoints := by
  funext b
  simp only [commitPoints, modifyBlock, Function.update_apply]
  split_ifs with hb
  · subst hb
    exact hchange _
  · rfl

@[simp] theorem setCounter_commitPoints (index count : ℕ) :
    (refCounts.setCounter index count).commitPoints = refCounts.commitPoints := rfl

@[simp] theorem countAllocation_commitPoints (blockIndex : ℕ) :
    (refCounts.countAllocation blockIndex).commitPoints = refCounts.commitPoints :=
  refCounts.commitPoints_modifyBlock blockIndex
    (fun block => { block with allocatedCount := block.allocatedCount + 1 }) fun _ => rfl

@[simp] theorem countRelease_commitPoints (blockIndex : ℕ) :
    (refCounts.countRelease blockIndex).commitPoints = refCounts.commitPoints :=
  refCounts.commitPoints_modifyBlock blockIndex
    (fun block => { block with allocatedCount := block.allocatedCount - 1 }) fun _ => rfl

@[simp] theorem recordJournalPoint_commitPoints (point : Option JournalPoint) :
    (refCounts.recordJournalPoint point).commitPoints = refCounts.commitPoints := by
  unfold recordJournalPoint
  split
  · split_ifs <;> rfl
  · rfl

@[simp] theorem dirtyBlock_commitPoints (blockIndex : ℕ) :
    (refCounts.dirtyBlock blockIndex).commitPoints = refCounts.commitPoints := by
  have hmark := refCounts.commitPoints_modifyBlock blockIndex
    (fun block => { block with isDirty := true }) fun _ => rfl
  unfold dirtyBlock
  dsimp only
  split_ifs
  · rfl
  · exact hmark
  · exact hmark

end RefCounts

/-! ## Counter updates refine the meaning -/

section Refinement

variable {refCounts updated : RefCounts} {index : ℕ} {report : UpdateReport}

/-- A successful update changes only its own counter. -/
theorem RefCounts.updateReferenceCount_counters_of_ne {point : Option JournalPoint}
    {operation : ReferenceOperation} {normalOperation : Bool}
    (hok : refCounts.updateReferenceCount index point operation normalOperation =
      .ok (updated, report)) {i : ℕ} (hi : i ≠ index) :
    updated.counters i = refCounts.counters i := by
  obtain ⟨counted, countedReport, htransition, hrecorded⟩ := RefCounts.updateReferenceCount_ok hok
  have hcounted : counted.counters i = refCounts.counters i := by
    rcases htransition with ⟨-, hinc⟩ | ⟨-, hdec⟩ | ⟨-, hmap⟩
    · rcases RefCounts.incrementForData_ok hinc with ⟨-, rfl⟩ | ⟨-, rfl⟩ | ⟨-, -, rfl⟩ <;>
        simp [Function.update_of_ne hi]
    · rcases RefCounts.decrementForData_ok hdec with ⟨-, -, rfl⟩ | ⟨-, -, rfl⟩ | ⟨-, -, -, rfl⟩ <;>
        simp [Function.update_of_ne hi]
    · rcases RefCounts.incrementForBlockMap_ok hmap with ⟨-, -, rfl⟩ | ⟨-, -, rfl⟩ <;>
        simp [Function.update_of_ne hi]
  rcases hrecorded with rfl | rfl
  · rw [RefCounts.recordJournalPoint_counters, hcounted]
  · exact hcounted

/-- A successful update keeps every commit point. -/
theorem RefCounts.updateReferenceCount_commitPoints {point : Option JournalPoint}
    {operation : ReferenceOperation} {normalOperation : Bool}
    (hok : refCounts.updateReferenceCount index point operation normalOperation =
      .ok (updated, report)) :
    updated.commitPoints = refCounts.commitPoints := by
  obtain ⟨counted, countedReport, htransition, hrecorded⟩ := RefCounts.updateReferenceCount_ok hok
  have hcounted : counted.commitPoints = refCounts.commitPoints := by
    rcases htransition with ⟨-, hinc⟩ | ⟨-, hdec⟩ | ⟨-, hmap⟩
    · rcases RefCounts.incrementForData_ok hinc with ⟨-, rfl⟩ | ⟨-, rfl⟩ | ⟨-, -, rfl⟩ <;> simp
    · rcases RefCounts.decrementForData_ok hdec with ⟨-, -, rfl⟩ | ⟨-, -, rfl⟩ | ⟨-, -, -, rfl⟩ <;>
        simp
    · rcases RefCounts.incrementForBlockMap_ok hmap with ⟨-, -, rfl⟩ | ⟨-, -, rfl⟩ <;> simp
  rcases hrecorded with rfl | rfl
  · rw [RefCounts.recordJournalPoint_commitPoints, hcounted]
  · exact hcounted

/-- In either mode, a successful update of a counter within the byte range,
other than the release of a provisional reference, changes the counter as the
meaning of its operation says, with provisional references read as free. -/
theorem RefCounts.updateReferenceCount_applyTo {point : Option JournalPoint}
    {operation : ReferenceOperation} {normalOperation : Bool}
    (hbyte : refCounts.counters index ≤ provisionalReferenceCount)
    (hjournaled : ¬(operation.type = .dataDecrement ∧
      refCounts.counters index = provisionalReferenceCount))
    (hok : refCounts.updateReferenceCount index point operation normalOperation =
      .ok (updated, report)) :
    operation.type.applyTo (freeProvisional (refCounts.counters index)) =
      some (freeProvisional (updated.counters index)) := by
  obtain ⟨counted, countedReport, htransition, hrecorded⟩ := RefCounts.updateReferenceCount_ok hok
  have hsame : updated.counters index = counted.counters index := by
    rcases hrecorded with rfl | rfl
    · rw [RefCounts.recordJournalPoint_counters]
    · rfl
  rw [hsame]
  simp only [freeProvisional, emptyReferenceCount, provisionalReferenceCount] at hbyte hjournaled ⊢
  rcases htransition with ⟨htype, hinc⟩ | ⟨htype, hdec⟩ | ⟨htype, hmap⟩ <;>
    rw [htype] at hjournaled ⊢ <;> simp only [JournalOperation.applyTo]
  · rcases RefCounts.incrementForData_ok hinc with ⟨hzero, rfl⟩ | ⟨hfree, rfl⟩ | ⟨hzero, hlt, rfl⟩
    · simp_all [emptyReferenceCount, maximumReferenceCount]
    · simp_all [provisionalReferenceCount, maximumReferenceCount]
    · have hnot : refCounts.counters index ≠ 255 := by
        simp only [maximumReferenceCount] at hlt
        omega
      simp only [RefCounts.setCounter_counters, Function.update_self, hnot, if_false, hlt, if_true]
      split_ifs <;> simp_all [maximumReferenceCount]
  · have hnot : refCounts.counters index ≠ 255 := fun h => hjournaled ⟨rfl, h⟩
    rcases RefCounts.decrementForData_ok hdec with ⟨hlast, -, rfl⟩ | ⟨hlast, -, rfl⟩ |
        ⟨hzero, hone, -, rfl⟩
    · have hone : refCounts.counters index = 1 := hlast.resolve_right hnot
      simp [hone, provisionalReferenceCount, emptyReferenceCount]
    · have hone : refCounts.counters index = 1 := hlast.resolve_right hnot
      simp [hone, emptyReferenceCount]
    · have hlow : refCounts.counters index - 1 ≠ 255 := by omega
      simp_all [emptyReferenceCount]
  · rcases RefCounts.incrementForBlockMap_ok hmap with ⟨hzero, -, rfl⟩ | ⟨hfree, -, rfl⟩
    · simp_all [emptyReferenceCount, maximumReferenceCount]
    · simp_all [provisionalReferenceCount, maximumReferenceCount, emptyReferenceCount]

/-- In replay mode an update of a counter that is not provisional succeeds
whenever the meaning of its operation allows the change, and stores the
result. -/
theorem RefCounts.updateReferenceCount_replay (point : Option JournalPoint) (pbn : ℕ)
    {operation : JournalOperation} {count : ℕ}
    (hcount : refCounts.counters index ≠ provisionalReferenceCount)
    (happly : operation.applyTo (refCounts.counters index) = some count) :
    ∃ updated report,
      refCounts.updateReferenceCount index point ⟨operation, pbn, false⟩ false =
        .ok (updated, report) ∧
      updated.counters = Function.update refCounts.counters index count := by
  cases operation with
  | dataIncrement =>
    obtain ⟨hlt, rfl⟩ := JournalOperation.applyTo_dataIncrement.mp happly
    have hroom : ¬maximumReferenceCount ≤ refCounts.counters index := Nat.not_le.mpr hlt
    cases hstatus : referenceCountToStatus (refCounts.counters index) with
    | free =>
      have hzero := referenceCountToStatus_free.mp hstatus
      simp only [RefCounts.updateReferenceCount, RefCounts.incrementForData, hstatus, Except.map]
      refine ⟨_, _, rfl, ?_⟩
      simp [hzero, emptyReferenceCount]
    | provisional => exact absurd (referenceCountToStatus_provisional.mp hstatus) hcount
    | single | shared =>
      simp [RefCounts.updateReferenceCount, RefCounts.incrementForData, hstatus, hroom, Except.map]
  | dataDecrement =>
    obtain ⟨hzero, rfl⟩ := JournalOperation.applyTo_dataDecrement.mp happly
    cases hstatus : referenceCountToStatus (refCounts.counters index) with
    | free => exact absurd (referenceCountToStatus_free.mp hstatus) hzero
    | provisional => exact absurd (referenceCountToStatus_provisional.mp hstatus) hcount
    | single =>
      have hone := referenceCountToStatus_single.mp hstatus
      simp only [RefCounts.updateReferenceCount, RefCounts.decrementForData, hstatus, Except.map]
      refine ⟨_, _, rfl, ?_⟩
      simp [hone, emptyReferenceCount]
    | shared =>
      simp [RefCounts.updateReferenceCount, RefCounts.decrementForData, hstatus, Except.map]
  | blockMapIncrement =>
    obtain ⟨hzero, rfl⟩ := JournalOperation.applyTo_blockMapIncrement.mp happly
    have hstatus := referenceCountToStatus_free.mpr hzero
    simp [RefCounts.updateReferenceCount, RefCounts.incrementForBlockMap, hstatus, Except.map]
  | blockMapDecrement => cases happly

end Refinement

end Vdo
