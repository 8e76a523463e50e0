import Mathlib
import Vdo.Base.RefCounts

/-!
# Recovery points

Recovery reads the recovery journal entry by entry with a `RecoveryPoint`
(vdoRecoveryInternals.h): the sequence number of a journal block, a sector
of the block (numbered from 1, sector 0 holding the block header) and an
entry of the sector. A block holds 311 entries, 46 in each full sector and
the remaining 35 in sector 7 (packedRecoveryJournalBlock.h), and the writer
fills them in that order. `incrementRecoveryPoint`, `decrementRecoveryPoint`
and `beforeRecoveryPoint` (vdoRecovery.c) step and compare points.

The sequence number is a `uint64_t` and wraps; the sector and entry counts
are naturals, which they stay on every valid point.

A valid point is the entry at some index `slot < 311` of its block, and the
three functions are described once on that index (`incrementRecoveryPoint_ofSlot`,
`decrementRecoveryPoint_ofSlot`, `beforeRecoveryPoint_ofSlot`); everything
else is derived from those.
-/

namespace Vdo

/-- `VDO_SECTOR_SIZE`. -/
def vdoSectorSize : ℕ := 512

/-- The bytes of a `PackedJournalSector` before its entries: the check byte,
the recovery count and the entry count. -/
def packedJournalSectorHeaderSize : ℕ := 3

/-- The bytes of a `PackedRecoveryJournalEntry`: two of operation and slot,
four of the page number's low word and five of the block map entry. -/
def packedRecoveryJournalEntrySize : ℕ := 11

/-- `RECOVERY_JOURNAL_ENTRIES_PER_BLOCK`. -/
def recoveryJournalEntriesPerBlock : ℕ := 311

/-- `RECOVERY_JOURNAL_ENTRIES_PER_SECTOR`. -/
def recoveryJournalEntriesPerSector : ℕ :=
  (vdoSectorSize - packedJournalSectorHeaderSize) / packedRecoveryJournalEntrySize

/-- `RECOVERY_JOURNAL_ENTRIES_PER_LAST_SECTOR`. -/
def recoveryJournalEntriesPerLastSector : ℕ :=
  recoveryJournalEntriesPerBlock % recoveryJournalEntriesPerSector

theorem recoveryJournalEntriesPerSector_eq : recoveryJournalEntriesPerSector = 46 := rfl

theorem recoveryJournalEntriesPerLastSector_eq : recoveryJournalEntriesPerLastSector = 35 := rfl

/-- A `RecoveryPoint`. -/
structure RecoveryPoint where
  sequenceNumber : UInt64
  sectorCount : ℕ
  entryCount : ℕ
  deriving DecidableEq, Repr

/-- `incrementRecoveryPoint`: the next entry, past the end of the last
sector to the first entry of the next block, and past the end of a full
sector to the next sector. -/
def incrementRecoveryPoint (point : RecoveryPoint) : RecoveryPoint :=
  let point := { point with entryCount := point.entryCount + 1 }
  let point :=
    if point.sectorCount = sectorsPerBlock - 1 ∧
        point.entryCount = recoveryJournalEntriesPerLastSector then
      { sequenceNumber := point.sequenceNumber + 1, sectorCount := 1, entryCount := 0 }
    else point
  if point.entryCount = recoveryJournalEntriesPerSector then
    { point with sectorCount := point.sectorCount + 1, entryCount := 0 }
  else point

/-- `decrementRecoveryPoint`: the previous entry. -/
def decrementRecoveryPoint (point : RecoveryPoint) : RecoveryPoint :=
  if point.sectorCount ≤ 1 ∧ point.entryCount = 0 then
    { sequenceNumber := point.sequenceNumber - 1
      sectorCount := sectorsPerBlock - 1
      entryCount := recoveryJournalEntriesPerLastSector - 1 }
  else if point.entryCount = 0 then
    { point with sectorCount := point.sectorCount - 1, entryCount := recoveryJournalEntriesPerSector - 1 }
  else { point with entryCount := point.entryCount - 1 }

/-- `beforeRecoveryPoint`: the order of sequence number, sector and entry. -/
def beforeRecoveryPoint (first second : RecoveryPoint) : Bool :=
  if first.sequenceNumber < second.sequenceNumber then true
  else if first.sequenceNumber > second.sequenceNumber then false
  else if first.sectorCount < second.sectorCount then true
  else first.sectorCount = second.sectorCount && first.entryCount < second.entryCount

namespace RecoveryPoint

/-- A point on an entry of a journal block: sectors 1 to 6 hold 46 entries,
sector 7 holds 35. -/
def Valid (point : RecoveryPoint) : Prop :=
  (1 ≤ point.sectorCount ∧ point.sectorCount < sectorsPerBlock - 1 ∧
      point.entryCount < recoveryJournalEntriesPerSector) ∨
    (point.sectorCount = sectorsPerBlock - 1 ∧ point.entryCount < recoveryJournalEntriesPerLastSector)

instance : DecidablePred Valid := fun _ => inferInstanceAs (Decidable (_ ∨ _))

/-- The entry at index `slot` of block `sequenceNumber`, in the order the
writer fills the block. -/
def ofSlot (sequenceNumber : UInt64) (slot : ℕ) : RecoveryPoint :=
  ⟨sequenceNumber, 1 + slot / recoveryJournalEntriesPerSector, slot % recoveryJournalEntriesPerSector⟩

@[simp] theorem ofSlot_sequenceNumber (sequenceNumber : UInt64) (slot : ℕ) :
    (ofSlot sequenceNumber slot).sequenceNumber = sequenceNumber := rfl

@[simp] theorem ofSlot_sectorCount (sequenceNumber : UInt64) (slot : ℕ) :
    (ofSlot sequenceNumber slot).sectorCount = 1 + slot / recoveryJournalEntriesPerSector := rfl

@[simp] theorem ofSlot_entryCount (sequenceNumber : UInt64) (slot : ℕ) :
    (ofSlot sequenceNumber slot).entryCount = slot % recoveryJournalEntriesPerSector := rfl

/-- The point `count` entries after the first entry of block
`sequenceNumber`. -/
def nth (sequenceNumber : UInt64) (count : ℕ) : RecoveryPoint :=
  ofSlot (sequenceNumber + UInt64.ofNat (count / recoveryJournalEntriesPerBlock))
    (count % recoveryJournalEntriesPerBlock)

/-- The valid points are the entries of the blocks' 311 slots. -/
theorem valid_iff (point : RecoveryPoint) :
    point.Valid ↔ ∃ slot < recoveryJournalEntriesPerBlock, point = ofSlot point.sequenceNumber slot := by
  obtain ⟨sequenceNumber, sectorCount, entryCount⟩ := point
  simp only [Valid, ofSlot, mk.injEq, true_and, recoveryJournalEntriesPerSector_eq,
    recoveryJournalEntriesPerLastSector_eq, sectorsPerBlock, recoveryJournalEntriesPerBlock]
  constructor
  · intro hvalid
    exact ⟨(sectorCount - 1) * 46 + entryCount, by omega, by omega, by omega⟩
  · rintro ⟨slot, hslot, rfl, rfl⟩
    omega

theorem ofSlot_valid (sequenceNumber : UInt64) {slot : ℕ} (hslot : slot < recoveryJournalEntriesPerBlock) :
    (ofSlot sequenceNumber slot).Valid :=
  (valid_iff _).mpr ⟨slot, hslot, rfl⟩

/-- The slot of a point is determined by its sector and entry. -/
theorem ofSlot_inj {sequenceNumber sequenceNumber' : UInt64} {slot slot' : ℕ}
    (h : ofSlot sequenceNumber slot = ofSlot sequenceNumber' slot') :
    sequenceNumber = sequenceNumber' ∧ slot = slot' := by
  simp only [ofSlot, mk.injEq, recoveryJournalEntriesPerSector_eq] at h
  exact ⟨h.1, by omega⟩

end RecoveryPoint

open RecoveryPoint

/-- The next entry of a slot is the next slot of the block, or the first
slot of the next block. -/
theorem incrementRecoveryPoint_ofSlot (sequenceNumber : UInt64) {slot : ℕ}
    (hslot : slot < recoveryJournalEntriesPerBlock) :
    incrementRecoveryPoint (ofSlot sequenceNumber slot) =
      if slot + 1 < recoveryJournalEntriesPerBlock then ofSlot sequenceNumber (slot + 1)
      else ofSlot (sequenceNumber + 1) 0 := by
  simp only [recoveryJournalEntriesPerBlock] at hslot ⊢
  have hseven : sectorsPerBlock - 1 = 7 := rfl
  simp only [incrementRecoveryPoint, ofSlot, recoveryJournalEntriesPerSector_eq,
    recoveryJournalEntriesPerLastSector_eq, hseven]
  by_cases hlast : slot = 310
  · subst hlast
    simp
  have hwrap : ¬ (1 + slot / 46 = 7 ∧ slot % 46 + 1 = 35) := by omega
  have hnext : slot + 1 < 311 := by omega
  simp only [hwrap, if_false]
  simp only [hnext, if_true]
  by_cases hsector : slot % 46 + 1 = 46
  · simp only [hsector, if_true, mk.injEq, true_and]
    omega
  · simp only [hsector, if_false, mk.injEq, true_and]
    omega

/-- The previous entry of a slot is the previous slot of the block, or the
last slot of the previous block. -/
theorem decrementRecoveryPoint_ofSlot (sequenceNumber : UInt64) {slot : ℕ}
    (hslot : slot < recoveryJournalEntriesPerBlock) :
    decrementRecoveryPoint (ofSlot sequenceNumber slot) =
      if slot = 0 then ofSlot (sequenceNumber - 1) (recoveryJournalEntriesPerBlock - 1)
      else ofSlot sequenceNumber (slot - 1) := by
  simp only [recoveryJournalEntriesPerBlock] at hslot ⊢
  simp only [decrementRecoveryPoint, ofSlot, recoveryJournalEntriesPerSector_eq,
    recoveryJournalEntriesPerLastSector_eq]
  by_cases hfirst : slot = 0
  · subst hfirst
    simp [sectorsPerBlock]
  have hblock : ¬ (1 + slot / 46 ≤ 1 ∧ slot % 46 = 0) := by omega
  simp only [hblock, hfirst, if_false]
  by_cases hsector : slot % 46 = 0
  · simp only [hsector, if_true, mk.injEq, true_and]
    omega
  · simp only [hsector, if_false, mk.injEq, true_and]
    omega

/-- `beforeRecoveryPoint` is the lexicographic order of sequence number,
sector and entry. -/
theorem beforeRecoveryPoint_iff (first second : RecoveryPoint) :
    beforeRecoveryPoint first second = true ↔
      first.sequenceNumber < second.sequenceNumber ∨
        (first.sequenceNumber = second.sequenceNumber ∧
          (first.sectorCount < second.sectorCount ∨
            (first.sectorCount = second.sectorCount ∧ first.entryCount < second.entryCount))) := by
  simp only [beforeRecoveryPoint]
  by_cases hlt : first.sequenceNumber < second.sequenceNumber
  · simp [hlt]
  by_cases hgt : second.sequenceNumber < first.sequenceNumber
  · have hne : first.sequenceNumber ≠ second.sequenceNumber := fun h =>
      absurd (UInt64.lt_iff_toNat_lt.mp hgt) (by rw [h]; exact lt_irrefl _)
    simp [hlt, hgt, hne]
  have heq : first.sequenceNumber = second.sequenceNumber := by
    rw [UInt64.lt_iff_toNat_lt] at hlt hgt
    exact UInt64.toNat_inj.mp (by omega)
  by_cases hsector : first.sectorCount < second.sectorCount <;> simp [heq, hsector]

/-- Points of slots compare by block, then by slot. -/
theorem beforeRecoveryPoint_ofSlot (sequenceNumber sequenceNumber' : UInt64) {slot slot' : ℕ} :
    beforeRecoveryPoint (ofSlot sequenceNumber slot) (ofSlot sequenceNumber' slot') = true ↔
      sequenceNumber < sequenceNumber' ∨ (sequenceNumber = sequenceNumber' ∧ slot < slot') := by
  rw [beforeRecoveryPoint_iff]
  simp only [ofSlot_sequenceNumber, ofSlot_sectorCount, ofSlot_entryCount,
    recoveryJournalEntriesPerSector_eq]
  have hslots : (1 + slot / 46 < 1 + slot' / 46 ∨
      (1 + slot / 46 = 1 + slot' / 46 ∧ slot % 46 < slot' % 46)) ↔ slot < slot' := by
    omega
  rw [hslots]

/-! ## Stepping through the journal -/

theorem incrementRecoveryPoint_valid {point : RecoveryPoint} (hvalid : point.Valid) :
    (incrementRecoveryPoint point).Valid := by
  obtain ⟨slot, hslot, hpoint⟩ := (valid_iff point).mp hvalid
  rw [hpoint, incrementRecoveryPoint_ofSlot _ hslot]
  split_ifs with hnext
  · exact ofSlot_valid _ hnext
  · exact ofSlot_valid _ (by simp [recoveryJournalEntriesPerBlock])

theorem decrementRecoveryPoint_valid {point : RecoveryPoint} (hvalid : point.Valid) :
    (decrementRecoveryPoint point).Valid := by
  obtain ⟨slot, hslot, hpoint⟩ := (valid_iff point).mp hvalid
  rw [hpoint, decrementRecoveryPoint_ofSlot _ hslot]
  split_ifs with hfirst
  · exact ofSlot_valid _ (by simp [recoveryJournalEntriesPerBlock])
  · exact ofSlot_valid _ (by omega)

theorem decrementRecoveryPoint_incrementRecoveryPoint {point : RecoveryPoint} (hvalid : point.Valid) :
    decrementRecoveryPoint (incrementRecoveryPoint point) = point := by
  obtain ⟨slot, hslot, hpoint⟩ := (valid_iff point).mp hvalid
  rw [hpoint, incrementRecoveryPoint_ofSlot _ hslot]
  split_ifs with hnext
  · rw [decrementRecoveryPoint_ofSlot _ hnext, if_neg (Nat.succ_ne_zero slot), Nat.add_sub_cancel]
  · have hlast : slot = recoveryJournalEntriesPerBlock - 1 := by omega
    rw [decrementRecoveryPoint_ofSlot _ (by simp [recoveryJournalEntriesPerBlock]), if_pos rfl,
      add_sub_cancel_right, hlast]

theorem incrementRecoveryPoint_decrementRecoveryPoint {point : RecoveryPoint} (hvalid : point.Valid) :
    incrementRecoveryPoint (decrementRecoveryPoint point) = point := by
  obtain ⟨slot, hslot, hpoint⟩ := (valid_iff point).mp hvalid
  rw [hpoint, decrementRecoveryPoint_ofSlot _ hslot]
  split_ifs with hfirst
  · rw [incrementRecoveryPoint_ofSlot _ (by simp [recoveryJournalEntriesPerBlock]),
      if_neg (by simp [recoveryJournalEntriesPerBlock]), sub_add_cancel, hfirst]
  · rw [incrementRecoveryPoint_ofSlot _ (by omega), if_pos (by omega), Nat.sub_add_cancel (by omega)]

/-- `UINT64_MAX`. -/
def uint64Max : UInt64 := 18446744073709551615

/-- Every entry comes before the next one, except the last entry of the
block whose sequence number is `UINT64_MAX`: its successor's sequence number
wraps to zero. -/
theorem beforeRecoveryPoint_incrementRecoveryPoint {point : RecoveryPoint} (hvalid : point.Valid) :
    beforeRecoveryPoint point (incrementRecoveryPoint point) = true ↔
      ¬ (point.sequenceNumber = uint64Max ∧ point.sectorCount = sectorsPerBlock - 1 ∧
        point.entryCount = recoveryJournalEntriesPerLastSector - 1) := by
  obtain ⟨slot, hslot, hpoint⟩ := (valid_iff point).mp hvalid
  generalize point.sequenceNumber = sequenceNumber at hpoint
  subst hpoint
  rw [incrementRecoveryPoint_ofSlot _ hslot]
  split_ifs with hnext
  · rw [beforeRecoveryPoint_ofSlot]
    simp only [ofSlot_sectorCount, ofSlot_entryCount, recoveryJournalEntriesPerSector_eq,
      recoveryJournalEntriesPerLastSector_eq, sectorsPerBlock]
    simp only [recoveryJournalEntriesPerBlock] at hnext
    constructor
    · rintro - ⟨-, hsector, hentry⟩
      omega
    · intro _
      exact Or.inr ⟨trivial, Nat.lt_succ_self slot⟩
  · have hlast : slot = 310 := by simp only [recoveryJournalEntriesPerBlock] at hslot hnext; omega
    subst hlast
    rw [beforeRecoveryPoint_ofSlot]
    simp only [ofSlot_sectorCount, ofSlot_entryCount, recoveryJournalEntriesPerSector_eq,
      recoveryJournalEntriesPerLastSector_eq, sectorsPerBlock, show (310 : ℕ) / 46 = 6 from rfl, show (310 : ℕ) % 46 = 34 from rfl, and_true,
      Nat.not_lt_zero, and_false, or_false]
    rw [UInt64.lt_iff_toNat_lt, UInt64.toNat_add, uint64Max]
    have hbound := UInt64.toNat_lt sequenceNumber
    constructor
    · intro hlt heq
      rw [heq] at hlt
      exact absurd hlt (by decide)
    · intro hne
      have hne' : sequenceNumber.toNat ≠ 18446744073709551615 := fun h =>
        hne (UInt64.toNat_inj.mp (by rw [h]; rfl))
      simp only [UInt64.toNat_one] at hbound ⊢
      omega

/-! ## The run of the writer's entries -/

namespace RecoveryPoint

/-- The entries of blocks `sequenceNumber` to `UINT64_MAX`. -/
def runLength (sequenceNumber : UInt64) : ℕ :=
  recoveryJournalEntriesPerBlock * (2 ^ 64 - sequenceNumber.toNat)

theorem nth_zero (sequenceNumber : UInt64) : nth sequenceNumber 0 = ⟨sequenceNumber, 1, 0⟩ := by
  simp [nth, ofSlot]

/-- One step of the run: the entry after the `count`-th is the `count + 1`-th. -/
theorem incrementRecoveryPoint_nth (sequenceNumber : UInt64) (count : ℕ) :
    incrementRecoveryPoint (nth sequenceNumber count) = nth sequenceNumber (count + 1) := by
  have hslot : count % recoveryJournalEntriesPerBlock < recoveryJournalEntriesPerBlock :=
    Nat.mod_lt _ (by decide)
  rw [nth, incrementRecoveryPoint_ofSlot _ hslot, nth]
  split_ifs with hnext
  · simp only [recoveryJournalEntriesPerBlock] at hnext ⊢
    have hdiv : (count + 1) / 311 = count / 311 := by omega
    have hmod : (count + 1) % 311 = count % 311 + 1 := by omega
    rw [hdiv, hmod]
  · simp only [recoveryJournalEntriesPerBlock] at hslot hnext ⊢
    have hdiv : (count + 1) / 311 = count / 311 + 1 := by omega
    have hmod : (count + 1) % 311 = 0 := by omega
    rw [hdiv, hmod, UInt64.ofNat_add, add_assoc]
    rfl

/-- Iterating `incrementRecoveryPoint` from the first entry of a block walks
the blocks' slots in order. -/
theorem iterate_incrementRecoveryPoint (sequenceNumber : UInt64) (count : ℕ) :
    incrementRecoveryPoint^[count] ⟨sequenceNumber, 1, 0⟩ = nth sequenceNumber count := by
  induction count with
  | zero => exact (nth_zero sequenceNumber).symm
  | succ count ih => rw [Function.iterate_succ_apply', ih, incrementRecoveryPoint_nth]

/-- Before `UINT64_MAX` is passed the block of the `count`-th entry does not
wrap. -/
theorem toNat_add_block {sequenceNumber : UInt64} {count : ℕ} (hcount : count < runLength sequenceNumber) :
    (sequenceNumber + UInt64.ofNat (count / recoveryJournalEntriesPerBlock)).toNat =
      sequenceNumber.toNat + count / recoveryJournalEntriesPerBlock := by
  have hblock : count / recoveryJournalEntriesPerBlock < 2 ^ 64 - sequenceNumber.toNat :=
    (Nat.div_lt_iff_lt_mul (by decide)).mpr (by rw [runLength] at hcount; linarith)
  have hbound := UInt64.toNat_lt sequenceNumber
  rw [UInt64.toNat_add, UInt64.toNat_ofNat', Nat.mod_eq_of_lt (a := count / _) (by omega)]
  exact Nat.mod_eq_of_lt (by omega)

/-- Within the run the entries come in the order of their counts. -/
theorem beforeRecoveryPoint_nth {sequenceNumber : UInt64} {count count' : ℕ}
    (hcount : count < runLength sequenceNumber) (hcount' : count' < runLength sequenceNumber) :
    beforeRecoveryPoint (nth sequenceNumber count) (nth sequenceNumber count') = true ↔ count < count' := by
  rw [nth, nth, beforeRecoveryPoint_ofSlot, UInt64.lt_iff_toNat_lt, ← UInt64.toNat_inj,
    toNat_add_block hcount, toNat_add_block hcount']
  simp only [recoveryJournalEntriesPerBlock]
  omega

/-- Within the run no entry comes twice. -/
theorem nth_inj {sequenceNumber : UInt64} {count count' : ℕ}
    (hcount : count < runLength sequenceNumber) (hcount' : count' < runLength sequenceNumber)
    (h : nth sequenceNumber count = nth sequenceNumber count') : count = count' := by
  obtain ⟨hblock, hslot⟩ := ofSlot_inj h
  have hblock' := congrArg UInt64.toNat hblock
  rw [toNat_add_block hcount, toNat_add_block hcount'] at hblock'
  simp only [recoveryJournalEntriesPerBlock] at hblock' hslot
  omega

/-- Every entry of blocks `sequenceNumber` to `UINT64_MAX` is in the run. -/
theorem exists_nth_eq {sequenceNumber : UInt64} {point : RecoveryPoint} (hvalid : point.Valid)
    (hle : sequenceNumber.toNat ≤ point.sequenceNumber.toNat) :
    ∃ count < runLength sequenceNumber, nth sequenceNumber count = point := by
  obtain ⟨slot, hslot, hpoint⟩ := (valid_iff point).mp hvalid
  generalize point.sequenceNumber = block at hpoint hle
  subst hpoint
  have hbound := UInt64.toNat_lt block
  have hcount : (block.toNat - sequenceNumber.toNat) * recoveryJournalEntriesPerBlock + slot <
      runLength sequenceNumber := by
    simp only [runLength, recoveryJournalEntriesPerBlock] at hslot ⊢
    omega
  refine ⟨_, hcount, ?_⟩
  have hblock := toNat_add_block hcount
  rw [nth]
  simp only [recoveryJournalEntriesPerBlock] at hslot hblock ⊢
  have hdiv : ((block.toNat - sequenceNumber.toNat) * 311 + slot) / 311 =
      block.toNat - sequenceNumber.toNat := by omega
  have hmod : ((block.toNat - sequenceNumber.toNat) * 311 + slot) % 311 = slot := by omega
  rw [hmod]
  congr 1
  apply UInt64.toNat_inj.mp
  rw [hblock, hdiv]
  omega

end RecoveryPoint

/-- Recovery point arithmetic on valid points: `incrementRecoveryPoint` keeps
points valid and `decrementRecoveryPoint` undoes it both ways; a point comes
before its successor except at the last entry of block `UINT64_MAX`, whose
successor's sequence number wraps to zero; and from the first entry of block
`sequenceNumber` the increments walk the slots of blocks `sequenceNumber` to
`UINT64_MAX` in the writer's order, each once. -/
theorem recoveryPoint_increment_enumerates_entries :
    (∀ point : RecoveryPoint, point.Valid →
      (incrementRecoveryPoint point).Valid ∧
      decrementRecoveryPoint (incrementRecoveryPoint point) = point ∧
      incrementRecoveryPoint (decrementRecoveryPoint point) = point ∧
      (beforeRecoveryPoint point (incrementRecoveryPoint point) = true ↔
        ¬ (point.sequenceNumber = uint64Max ∧ point.sectorCount = sectorsPerBlock - 1 ∧
          point.entryCount = recoveryJournalEntriesPerLastSector - 1))) ∧
    ∀ sequenceNumber : UInt64,
      (∀ count, incrementRecoveryPoint^[count] ⟨sequenceNumber, 1, 0⟩ = nth sequenceNumber count) ∧
      (∀ count < runLength sequenceNumber, ∀ count' < runLength sequenceNumber,
        (incrementRecoveryPoint^[count] ⟨sequenceNumber, 1, 0⟩ =
            incrementRecoveryPoint^[count'] ⟨sequenceNumber, 1, 0⟩ ↔ count = count') ∧
        (beforeRecoveryPoint (incrementRecoveryPoint^[count] ⟨sequenceNumber, 1, 0⟩)
            (incrementRecoveryPoint^[count'] ⟨sequenceNumber, 1, 0⟩) = true ↔ count < count')) ∧
      ∀ point : RecoveryPoint, point.Valid → sequenceNumber.toNat ≤ point.sequenceNumber.toNat →
        ∃ count < runLength sequenceNumber,
          incrementRecoveryPoint^[count] ⟨sequenceNumber, 1, 0⟩ = point := by
  refine ⟨fun point hvalid => ⟨incrementRecoveryPoint_valid hvalid,
    decrementRecoveryPoint_incrementRecoveryPoint hvalid, incrementRecoveryPoint_decrementRecoveryPoint hvalid,
    beforeRecoveryPoint_incrementRecoveryPoint hvalid⟩, fun sequenceNumber => ?_⟩
  simp only [iterate_incrementRecoveryPoint]
  refine ⟨fun _ => trivial, fun count hcount count' hcount' => ⟨?_, beforeRecoveryPoint_nth hcount hcount'⟩,
    fun point hvalid hle => exists_nth_eq hvalid hle⟩
  exact ⟨nth_inj hcount hcount', fun h => h ▸ rfl⟩

theorem recoveryPoint_increment_enumerates_entries_block5 :
    decrementRecoveryPoint (incrementRecoveryPoint ⟨0, 7, 34⟩) = ⟨0, 7, 34⟩ ∧
      beforeRecoveryPoint (incrementRecoveryPoint^[310] ⟨5, 1, 0⟩)
        (incrementRecoveryPoint^[311] ⟨5, 1, 0⟩) = true :=
  ⟨(recoveryPoint_increment_enumerates_entries.1 ⟨0, 7, 34⟩ (by decide)).2.1,
    ((recoveryPoint_increment_enumerates_entries.2 5).2.1 310 (by decide) 311 (by decide)).2.mpr
      (by decide)⟩

/-- The last entry of block `UINT64_MAX` does not come before its successor,
the first entry of block zero. -/
theorem beforeRecoveryPoint_incrementRecoveryPoint_wraps :
    (⟨uint64Max, 7, 34⟩ : RecoveryPoint).Valid ∧
      beforeRecoveryPoint ⟨uint64Max, 7, 34⟩ (incrementRecoveryPoint ⟨uint64Max, 7, 34⟩) = false := by
  decide

end Vdo
