import Mathlib
import Vdo.Base.PriorityTable

/-!
# Slab priorities

A block allocator keeps the slabs it may open in a priority table
(`prioritizedSlabs`), ranked by `calculateSlabPriority` (`blockAllocator.c`):
0 for a full slab, the reserved `unopenedSlabPriority` for a slab whose journal
is blank, and otherwise one more than the binary logarithm of its free blocks,
shifted up by one from `unopenedSlabPriority` on so as to skip it.
`makeBlockAllocator` sizes the table with `maxPriority = 2 + logBaseTwo
dataBlocks` and sets `unopenedSlabPriority = 1 + logBaseTwo (dataBlocks * 3 / 4)`,
in 64-bit arithmetic.

Every priority fits the table (`calculateSlabPriority_spec`), so `prioritizeSlab`
always enqueues within it (`prioritizeSlab_spec`). The reserved priority is `0`
when `dataBlocks * 3 / 4` is `0`, as it is for one data block: a blank slab then
shares priority `0` with the full ones.
-/

namespace Vdo

/-- The slab prioritization a `BlockAllocator` holds. -/
structure SlabPrioritization where
  /-- The `maxPriority` of the `prioritizedSlabs` table. -/
  maxPriority : ℕ
  /-- The priority of slabs whose journal is blank. -/
  unopenedSlabPriority : ℕ
  deriving DecidableEq

/-- The prioritization `makeBlockAllocator` sets up from the slab configuration's
`dataBlocks`, the most free blocks a slab can have. `maxFreeBlocks * 3` is
`BlockCount` arithmetic, modulo `2^64`. -/
def makeSlabPrioritization (maxFreeBlocks : ℕ) : SlabPrioritization where
  maxPriority := (2 + logBaseTwo maxFreeBlocks).toNat
  unopenedSlabPriority := (1 + logBaseTwo (maxFreeBlocks * 3 % 2 ^ 64 / 4)).toNat

/-- `calculateSlabPriority`, of a slab with `freeBlocks` free blocks whose
journal is blank or not. -/
def calculateSlabPriority (allocator : SlabPrioritization) (freeBlocks : ℕ)
    (journalBlank : Bool) : ℕ :=
  if freeBlocks = 0 then 0
  else if journalBlank then allocator.unopenedSlabPriority
  else
    let priority := (1 + logBaseTwo freeBlocks).toNat
    if priority < allocator.unopenedSlabPriority then priority else priority + 1

/-- `prioritizeSlab`: the slab's ring node enqueued in `prioritizedSlabs` at the
slab's priority. -/
def prioritizeSlab {ε : Type*} [DecidableEq ε] (allocator : SlabPrioritization)
    (prioritizedSlabs : PriorityTable ε) (slab : ε) (freeBlocks : ℕ) (journalBlank : Bool) :
    Option (PriorityTable ε) :=
  prioritizedSlabs.priorityTableEnqueue (calculateSlabPriority allocator freeBlocks journalBlank) slab

/-! ## Logarithms as unsigned priorities -/

theorem toNat_one_add_logBaseTwo {n : ℕ} (hn : n ≠ 0) : (1 + logBaseTwo n).toNat = n.log2 + 1 := by
  simp only [logBaseTwo, hn, if_false]
  omega

theorem toNat_one_add_logBaseTwo_zero : (1 + logBaseTwo 0).toNat = 0 := rfl

theorem toNat_two_add_logBaseTwo {n : ℕ} (hn : n ≠ 0) : (2 + logBaseTwo n).toNat = n.log2 + 2 := by
  simp only [logBaseTwo, hn, if_false]
  omega

theorem log2_mono {m n : ℕ} (h : m ≤ n) : m.log2 ≤ n.log2 := by
  rw [Nat.log2_eq_log_two, Nat.log2_eq_log_two]
  exact Nat.log_mono_right h

/-! ## The prioritization of a slab configuration -/

section Config

variable {dataBlocks : ℕ}

/-- The reserved priority is `0` exactly when three quarters of `dataBlocks`,
in 64-bit arithmetic, is `0`. -/
theorem unopenedSlabPriority_eq_zero_iff :
    (makeSlabPrioritization dataBlocks).unopenedSlabPriority = 0 ↔
      dataBlocks * 3 % 2 ^ 64 / 4 = 0 := by
  by_cases hq : dataBlocks * 3 % 2 ^ 64 / 4 = 0
  · simp only [makeSlabPrioritization, hq, toNat_one_add_logBaseTwo_zero]
  · simp only [makeSlabPrioritization, toNat_one_add_logBaseTwo hq]
    exact iff_of_false (Nat.succ_ne_zero _) hq

/-- The reserved priority is at most one more than the logarithm of
`dataBlocks`: three quarters of it, wrapped or not, are no more than it. -/
theorem unopenedSlabPriority_le :
    (makeSlabPrioritization dataBlocks).unopenedSlabPriority ≤ dataBlocks.log2 + 1 := by
  have hquarter : dataBlocks * 3 % 2 ^ 64 / 4 ≤ dataBlocks := by
    have := Nat.mod_le (dataBlocks * 3) (2 ^ 64)
    omega
  by_cases hq : dataBlocks * 3 % 2 ^ 64 / 4 = 0
  · simp only [makeSlabPrioritization, hq, toNat_one_add_logBaseTwo_zero]
    omega
  · simp only [makeSlabPrioritization, toNat_one_add_logBaseTwo hq]
    exact Nat.succ_le_succ (log2_mono hquarter)

theorem maxPriority_makeSlabPrioritization (hd : dataBlocks ≠ 0) :
    (makeSlabPrioritization dataBlocks).maxPriority = dataBlocks.log2 + 2 :=
  toNat_two_add_logBaseTwo hd

end Config

/-! ## Priorities of slabs -/

section Priority

variable (allocator : SlabPrioritization)

/-- The priority of a slab with free blocks whose journal is not blank: the
logarithm's priority, shifted past the reserved one. -/
theorem calculateSlabPriority_of_not_blank {f : ℕ} (hf : f ≠ 0) :
    calculateSlabPriority allocator f false =
      if f.log2 + 1 < allocator.unopenedSlabPriority then f.log2 + 1 else f.log2 + 2 := by
  simp only [calculateSlabPriority, hf, if_false, Bool.false_eq_true,
    toNat_one_add_logBaseTwo hf]

/-- The priority of a slab whose journal is not blank grows with its free
blocks: the logarithm does, and so does skipping the reserved priority. -/
theorem calculateSlabPriority_mono {f f' : ℕ} (hle : f ≤ f') :
    calculateSlabPriority allocator f false ≤ calculateSlabPriority allocator f' false := by
  by_cases hf : f = 0
  · simp [calculateSlabPriority, hf]
  · have hf' : f' ≠ 0 := by omega
    have hlog := log2_mono hle
    rw [calculateSlabPriority_of_not_blank allocator hf,
      calculateSlabPriority_of_not_blank allocator hf']
    split_ifs <;> omega

/-- A slab is given priority `0` when it is full, and when its journal is blank
and the reserved priority is `0`. -/
theorem calculateSlabPriority_eq_zero_iff (f : ℕ) (journalBlank : Bool) :
    calculateSlabPriority allocator f journalBlank = 0 ↔
      f = 0 ∨ (journalBlank = true ∧ allocator.unopenedSlabPriority = 0) := by
  by_cases hf : f = 0
  · simp [calculateSlabPriority, hf]
  · cases journalBlank with
    | true => simp [calculateSlabPriority, hf]
    | false =>
      rw [calculateSlabPriority_of_not_blank allocator hf]
      split_ifs <;> simp [hf]

/-- A slab whose journal is not blank gets the reserved priority only when it
is full and the reserved priority is `0`. -/
theorem calculateSlabPriority_eq_unopened {f : ℕ}
    (h : calculateSlabPriority allocator f false = allocator.unopenedSlabPriority) :
    f = 0 ∧ allocator.unopenedSlabPriority = 0 := by
  by_cases hf : f = 0
  · simp only [calculateSlabPriority, hf, if_true] at h
    exact ⟨hf, h.symm⟩
  · rw [calculateSlabPriority_of_not_blank allocator hf] at h
    split_ifs at h <;> omega

end Priority

/-- Every priority of a slab with at most `dataBlocks` free blocks fits the
table: the logarithm of its free blocks, shifted by two at most. -/
theorem calculateSlabPriority_le {dataBlocks f : ℕ} (hd : dataBlocks ≠ 0) (hf : f ≤ dataBlocks)
    (journalBlank : Bool) :
    calculateSlabPriority (makeSlabPrioritization dataBlocks) f journalBlank ≤
      (makeSlabPrioritization dataBlocks).maxPriority := by
  have hunopened : (makeSlabPrioritization dataBlocks).unopenedSlabPriority ≤
      dataBlocks.log2 + 1 := unopenedSlabPriority_le
  rw [maxPriority_makeSlabPrioritization hd]
  by_cases hf0 : f = 0
  · simp [calculateSlabPriority, hf0]
  · have hlog := log2_mono hf
    cases journalBlank with
    | true =>
      simp only [calculateSlabPriority, hf0, if_false, if_true]
      omega
    | false =>
      rw [calculateSlabPriority_of_not_blank _ hf0]
      split_ifs <;> omega

/-- For a configuration with at least one data block and every free-block count
up to it, the priority fits the allocator's table, is `0` for a full slab and
for a blank one when the reserved priority is `0` (three quarters of
`dataBlocks` being `0`), is the reserved one for a slab whose journal is not
blank only in that case, and grows with the free blocks. -/
theorem calculateSlabPriority_spec {dataBlocks : ℕ} {allocator : SlabPrioritization}
    (hallocator : makeSlabPrioritization dataBlocks = allocator) (hd : 1 ≤ dataBlocks) :
    (∀ f ≤ dataBlocks, ∀ journalBlank,
      calculateSlabPriority allocator f journalBlank ≤ allocator.maxPriority) ∧
    (∀ f ≤ dataBlocks, ∀ journalBlank, calculateSlabPriority allocator f journalBlank = 0 ↔
      f = 0 ∨ (journalBlank = true ∧ allocator.unopenedSlabPriority = 0)) ∧
    (∀ f ≤ dataBlocks, calculateSlabPriority allocator f false = allocator.unopenedSlabPriority →
      f = 0 ∧ allocator.unopenedSlabPriority = 0) ∧
    (∀ f f', f ≤ f' → f' ≤ dataBlocks →
      calculateSlabPriority allocator f false ≤ calculateSlabPriority allocator f' false) ∧
    (allocator.unopenedSlabPriority = 0 ↔ dataBlocks * 3 % 2 ^ 64 / 4 = 0) := by
  subst hallocator
  exact ⟨fun f hf => calculateSlabPriority_le (by omega) hf,
    fun f _ => calculateSlabPriority_eq_zero_iff _ f, fun f _ => calculateSlabPriority_eq_unopened _,
    fun f f' hle _ => calculateSlabPriority_mono _ hle, unopenedSlabPriority_eq_zero_iff⟩

theorem calculateSlabPriority_spec_eight :
    makeSlabPrioritization 8 = ⟨5, 3⟩ ∧ 1 ≤ 8 ∧
    (∀ f ≤ 8, ∀ journalBlank, calculateSlabPriority ⟨5, 3⟩ f journalBlank ≤ 5) ∧
    (∀ f ≤ 8, ∀ journalBlank, calculateSlabPriority ⟨5, 3⟩ f journalBlank = 0 ↔
      f = 0 ∨ (journalBlank = true ∧ 3 = 0)) ∧
    (∀ f ≤ 8, calculateSlabPriority ⟨5, 3⟩ f false = 3 → f = 0 ∧ 3 = 0) ∧
    (∀ f f', f ≤ f' → f' ≤ 8 →
      calculateSlabPriority ⟨5, 3⟩ f false ≤ calculateSlabPriority ⟨5, 3⟩ f' false) ∧
    (3 = 0 ↔ 8 * 3 % 2 ^ 64 / 4 = 0) :=
  ⟨by decide, by decide, calculateSlabPriority_spec (by decide) (by decide)⟩

/-- With one data block the reserved priority is `0`: a blank slab with its one
block free is ranked with the full slabs, and a full slab whose journal is not
blank gets the reserved priority. -/
theorem calculateSlabPriority_one_data_block :
    (makeSlabPrioritization 1).unopenedSlabPriority = 0 ∧
    calculateSlabPriority (makeSlabPrioritization 1) 1 true = 0 ∧
    calculateSlabPriority (makeSlabPrioritization 1) 0 false =
      (makeSlabPrioritization 1).unopenedSlabPriority := by
  decide

/-- `prioritizeSlab` of a slab on no ring, with at most `dataBlocks` free blocks,
enqueues it at its priority within the allocator's table. -/
theorem prioritizeSlab_spec {ε : Type*} [DecidableEq ε] {dataBlocks f : ℕ}
    {table : PriorityTable ε} {slab : ε} (hd : 1 ≤ dataBlocks) (hf : f ≤ dataBlocks)
    (hwf : table.Wf) (hmax : table.maxPriority = (makeSlabPrioritization dataBlocks).maxPriority)
    (hfree : table.isRingEmpty (.entry slab) = true) (journalBlank : Bool) :
    ∃ table', prioritizeSlab (makeSlabPrioritization dataBlocks) table slab f journalBlank =
        some table' ∧ table'.Wf ∧
      table'.toQueues = table.toQueues.enqueue
        (calculateSlabPriority (makeSlabPrioritization dataBlocks) f journalBlank) slab := by
  have hle := calculateSlabPriority_le (by omega) hf journalBlank
  exact PriorityTable.enqueue_spec hwf (hmax ▸ hle) hfree

end Vdo
