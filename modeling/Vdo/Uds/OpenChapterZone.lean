import Mathlib.Logic.Function.Basic
import Mathlib.Order.Basic
import Mathlib.Algebra.Order.Monoid.Unbundled.Pow
import Mathlib.Tactic.Ring

/-!
# The open chapter zone

An open chapter zone (`openChapterZone.c`) holds the records a zone of the
index has added to the chapter being written: a flat array of records numbered
from one, and a hash table of slots that point to them, searched by quadratic
probing from `nameToHashSlot`. A removed record keeps its slot, so that the
probe chains through it stay intact; it is only flagged deleted. The flags are
stored in the same slot array, indexed by record number instead of by hash
(`openChapterZone.h`): every record number is below the number of slots.

Names are any type with decidable equality, and `chapterIndexBytes` the bytes of
a name that `extractChapterIndexBytes` reads.
-/

namespace Vdo.Uds

/-- The error codes the modelled UDS functions return. -/
inductive UdsError
  /-- `UDS_ASSERTION_FAILED`, the code of a failed `ASSERT`. -/
  | assertionFailed
  /-- `UDS_BAD_STATE`. -/
  | badState
  /-- `UDS_INVALID_ARGUMENT`. -/
  | invalidArgument
  /-- `UDS_VOLUME_OVERFLOW`: the open chapter zone is full. -/
  | volumeOverflow
  /-- `UDS_OVERFLOW`: a delta list of a chapter index is full. -/
  | overflow
  /-- `UDS_CORRUPT_DATA`: a delta list number or offset is out of range. -/
  | corruptData
  /-- `UDS_DUPLICATE_NAME`: a collision entry was put onto a collision entry. -/
  | duplicateName
  /-- `UDS_CORRUPT_COMPONENT`: a saved component does not read back. -/
  | corruptComponent
  /-- `UDS_END_OF_FILE`: a read found no bytes left. -/
  | endOfFile
  /-- `UDS_SHORT_READ`: a read found some bytes left, but not enough. -/
  | shortRead
  deriving DecidableEq, Repr

/-- The fields of a `Geometry` the open chapter reads. -/
structure Geometry where
  recordsPerPage : ℕ
  recordPagesPerChapter : ℕ
  recordsPerChapter : ℕ
  openChapterLoadRatio : ℕ
  deriving DecidableEq, Repr

/-- `OPEN_CHAPTER_RECORD_NUMBER_BITS`, the width of a slot's record number. -/
def openChapterRecordNumberBits : ℕ := 23

/-- `OPEN_CHAPTER_MAX_RECORD_NUMBER`. -/
def openChapterMaxRecordNumber : ℕ := 2 ^ openChapterRecordNumberBits - 1

/-- A hash slot, and the deleted flag of the record whose number is the slot's
index. -/
structure Slot where
  /-- If non-zero, the record number addressed by this hash slot. -/
  recordNumber : ℕ
  /-- If true, the record at the index of this hash slot was deleted. -/
  recordDeleted : Bool
  deriving DecidableEq, Repr

/-- A slot as `memset` leaves it. -/
def Slot.empty : Slot := ⟨0, false⟩

/-- An `OpenChapterZone`; a record (`UdsChunkRecord`) is a name and its
metadata. Indices past the `1 + capacity` records and the `slotCount` slots are
memory the zone does not own. -/
structure OpenChapterZone (Name Data : Type*) where
  /-- Maximum number of records that can be stored. -/
  capacity : ℕ
  /-- Number of records stored, deleted ones included. -/
  size : ℕ
  /-- Number of deleted records. -/
  deleted : ℕ
  /-- Record names and metadata, one-based. -/
  records : ℕ → Name × Data
  /-- The number of slots in the hash table. -/
  slotCount : ℕ
  /-- The hash table, and the deleted flags by record number. -/
  slots : ℕ → Slot

/-! ## Creating and resetting a zone -/

/-- The loop of `computeBits`, for at most `fuel` shifts. -/
def computeBitsFrom : ℕ → ℕ → ℕ
  | 0, _ => 0
  | fuel + 1, maxValue => if maxValue > 0 then computeBitsFrom fuel (maxValue / 2) + 1 else 0

/-- `computeBits`: the bits needed for an `unsigned int`, which is zero after
32 shifts. -/
def computeBits (maxValue : ℕ) : ℕ := computeBitsFrom 32 (maxValue % 2 ^ 32)

/-- `nextPowerOfTwo`: `1 << computeBits(val - 1)`, the argument taken as an
`unsigned int`. -/
def nextPowerOfTwo (val : ℕ) : ℕ :=
  if val = 0 then 1 else 2 ^ computeBits (val - 1)

/-- `makeOpenChapter`: a zone for one of `zoneCount` zones, with an equal share
of the chapter's records and a power-of-two hash table `openChapterLoadRatio`
times as large; the allocations are zeroed. -/
def makeOpenChapter {Name Data : Type*} [Inhabited Name] [Inhabited Data] (geometry : Geometry)
    (zoneCount : ℕ) : Except UdsError (OpenChapterZone Name Data) :=
  if ¬ zoneCount > 0 then .error .assertionFailed
  else if ¬ geometry.openChapterLoadRatio > 1 then .error .badState
  else if ¬ geometry.recordsPerChapter ≤ openChapterMaxRecordNumber then .error .badState
  else if geometry.recordsPerChapter < zoneCount then .error .invalidArgument
  else
    let capacity := geometry.recordsPerChapter / zoneCount
    .ok
      { capacity := capacity
        size := 0
        deleted := 0
        records := fun _ => default
        slotCount := nextPowerOfTwo (capacity * geometry.openChapterLoadRatio)
        slots := fun _ => Slot.empty }

/-- The loop counts enough bits: a value below `2 ^ fuel` is below two to the
power it counts. -/
theorem lt_two_pow_computeBitsFrom (fuel : ℕ) :
    ∀ maxValue, maxValue < 2 ^ fuel → maxValue < 2 ^ computeBitsFrom fuel maxValue := by
  induction fuel with
  | zero => intro maxValue h; exact h
  | succ fuel ih =>
    intro maxValue h
    show maxValue < 2 ^ (if maxValue > 0 then computeBitsFrom fuel (maxValue / 2) + 1 else 0)
    split_ifs with hpos
    · have hhalf := ih (maxValue / 2) (by rw [pow_succ] at h; omega)
      rw [pow_succ]
      omega
    · rw [pow_zero]
      omega

/-- Below `2 ^ 30`, where neither the `unsigned int` argument nor the `int`
shift wraps, `nextPowerOfTwo` is a power of two at least its argument. -/
theorem nextPowerOfTwo_spec {val : ℕ} (hpos : 0 < val) (hle : val ≤ 2 ^ 30) :
    ∃ k, nextPowerOfTwo val = 2 ^ k ∧ val ≤ 2 ^ k := by
  have hmod : (val - 1) % 2 ^ 32 = val - 1 := Nat.mod_eq_of_lt (by omega)
  have hbits := lt_two_pow_computeBitsFrom 32 (val - 1) (by omega)
  refine ⟨computeBits (val - 1), if_neg (by omega), ?_⟩
  rw [computeBits, hmod]
  omega

/-- A zone `makeOpenChapter` makes passed its checks, and has the capacity and
slot count it computes. -/
theorem makeOpenChapter_eq_ok {Name Data : Type*} [Inhabited Name] [Inhabited Data] {geometry : Geometry}
    {zoneCount : ℕ} {made : OpenChapterZone Name Data} (h : makeOpenChapter geometry zoneCount = .ok made) :
    0 < zoneCount ∧ 1 < geometry.openChapterLoadRatio ∧
      geometry.recordsPerChapter ≤ openChapterMaxRecordNumber ∧ zoneCount ≤ geometry.recordsPerChapter ∧
      made.capacity = geometry.recordsPerChapter / zoneCount ∧
      made.slotCount = nextPowerOfTwo (geometry.recordsPerChapter / zoneCount * geometry.openChapterLoadRatio) := by
  unfold makeOpenChapter at h
  split_ifs at h with hzones hratio hmax hfew
  cases h
  exact ⟨hzones, hratio, hmax, Nat.le_of_not_lt hfew, rfl, rfl⟩

section Zone

variable {Name Data : Type*}

/-- `openChapterSize`: the records that have not been deleted. -/
def openChapterSize (openChapter : OpenChapterZone Name Data) : ℕ :=
  openChapter.size - openChapter.deleted

/-- `resetOpenChapter`: mark the zone empty, zeroing its `1 + capacity`
records and its `slotCount` slots. -/
def resetOpenChapter [Inhabited Name] [Inhabited Data] (openChapter : OpenChapterZone Name Data) :
    OpenChapterZone Name Data :=
  { openChapter with
    size := 0
    deleted := 0
    records := fun i => if i ≤ openChapter.capacity then default else openChapter.records i
    slots := fun i => if i < openChapter.slotCount then Slot.empty else openChapter.slots i }

/-! ## Probing -/

variable [DecidableEq Name] (chapterIndexBytes : Name → ℕ)

/-- `nameToHashSlot`: the slot where the probe for a name starts. -/
def nameToHashSlot (name : Name) (slotCount : ℕ) : ℕ :=
  chapterIndexBytes name % slotCount

/-- The loop of `probeChapterSlots` from `probe`, on attempt `probeAttempts`,
for at most `fuel` probes: it stops at an empty slot, or at a slot whose record
has the name and is not deleted, and answers the slot and its record number;
`none` if it has not stopped. -/
def probeChapterSlotsFrom (openChapter : OpenChapterZone Name Data) (name : Name) :
    ℕ → ℕ → ℕ → Option (ℕ × ℕ)
  | _, _, 0 => none
  | probe, probeAttempts, fuel + 1 =>
    let recordNumber := (openChapter.slots probe).recordNumber
    if recordNumber = 0 then some (probe, 0)
    else if (openChapter.records recordNumber).1 = name ∧
        (openChapter.slots recordNumber).recordDeleted = false then some (probe, recordNumber)
    else
      let next := probe + probeAttempts
      probeChapterSlotsFrom openChapter name
        (if openChapter.slotCount ≤ next then next % openChapter.slotCount else next)
        (probeAttempts + 1) fuel

theorem probeChapterSlotsFrom_succ (openChapter : OpenChapterZone Name Data)
    (name : Name) (probe probeAttempts fuel : ℕ) :
    probeChapterSlotsFrom openChapter name probe probeAttempts (fuel + 1) =
      if (openChapter.slots probe).recordNumber = 0 then some (probe, 0)
      else if (openChapter.records (openChapter.slots probe).recordNumber).1 = name ∧
          (openChapter.slots (openChapter.slots probe).recordNumber).recordDeleted = false then
        some (probe, (openChapter.slots probe).recordNumber)
      else probeChapterSlotsFrom openChapter name
        (if openChapter.slotCount ≤ probe + probeAttempts then
          (probe + probeAttempts) % openChapter.slotCount else probe + probeAttempts)
        (probeAttempts + 1) fuel := rfl

/-- `probeChapterSlots`: the probe loop from the name's hash slot, which the
code runs without bound; the model gives it `slotCount` probes. -/
def probeChapterSlots (openChapter : OpenChapterZone Name Data) (name : Name) : Option (ℕ × ℕ) :=
  probeChapterSlotsFrom openChapter name (nameToHashSlot chapterIndexBytes name openChapter.slotCount) 1
    openChapter.slotCount

/-! ## The operations -/

omit [DecidableEq Name] in
/-- `record->data = *metadata`: the metadata of record `recordNumber` is
replaced, its name kept. -/
def OpenChapterZone.setMetadata (openChapter : OpenChapterZone Name Data) (recordNumber : ℕ)
    (metadata : Data) : OpenChapterZone Name Data :=
  { openChapter with
    records := Function.update openChapter.records recordNumber
      ((openChapter.records recordNumber).1, metadata) }

omit [DecidableEq Name] in
/-- The new record of `putOpenChapter`: number `size + 1`, stored in the
record array and in the 23-bit record number of the slot the probe stopped at. -/
def OpenChapterZone.addRecord (openChapter : OpenChapterZone Name Data) (slot : ℕ) (name : Name)
    (metadata : Data) : OpenChapterZone Name Data :=
  let recordNumber := openChapter.size + 1
  { openChapter with
    size := recordNumber
    slots := Function.update openChapter.slots slot
      { openChapter.slots slot with recordNumber := recordNumber % 2 ^ openChapterRecordNumberBits }
    records := Function.update openChapter.records recordNumber (name, metadata) }

omit [DecidableEq Name] in
/-- The deleted flag of `removeFromOpenChapter`, set in the slot indexed by the
record number, and the count of deleted records. -/
def OpenChapterZone.markDeleted (openChapter : OpenChapterZone Name Data) (recordNumber : ℕ) :
    OpenChapterZone Name Data :=
  { openChapter with
    slots := Function.update openChapter.slots recordNumber
      { openChapter.slots recordNumber with recordDeleted := true }
    deleted := openChapter.deleted + 1 }

/-- `searchOpenChapter`: the metadata of the name's record, if it is found;
`none` if the probe does not stop. -/
def searchOpenChapter (openChapter : OpenChapterZone Name Data) (name : Name) : Option (Option Data) :=
  (probeChapterSlots chapterIndexBytes openChapter name).map fun probe =>
    if probe.2 = 0 then none else some (openChapter.records probe.2).2

/-- `putOpenChapter`: update a record found, or add one in the empty slot the
probe stopped at unless the zone is full; answers the remaining capacity. -/
def putOpenChapter (openChapter : OpenChapterZone Name Data) (name : Name) (metadata : Data) :
    Option (OpenChapterZone Name Data × Except UdsError ℕ) :=
  (probeChapterSlots chapterIndexBytes openChapter name).map fun probe =>
    if probe.2 ≠ 0 then
      (openChapter.setMetadata probe.2 metadata, .ok (openChapter.capacity - openChapter.size))
    else if openChapter.capacity ≤ openChapter.size then (openChapter, .error .volumeOverflow)
    else
      (openChapter.addRecord probe.1 name metadata, .ok (openChapter.capacity - (openChapter.size + 1)))

/-- `removeFromOpenChapter`: flag the record found as deleted; answers whether
one was found. -/
def removeFromOpenChapter (openChapter : OpenChapterZone Name Data) (name : Name) :
    Option (OpenChapterZone Name Data × Bool) :=
  (probeChapterSlots chapterIndexBytes openChapter name).map fun probe =>
    if probe.2 = 0 then (openChapter, false) else (openChapter.markDeleted probe.2, true)

/-! ## The fields each update changes -/

namespace OpenChapterZone

section Fields

omit [DecidableEq Name]

variable (openChapter : OpenChapterZone Name Data) (recordNumber slot i : ℕ) (name : Name)
  (metadata : Data)

@[simp] theorem setMetadata_capacity : (openChapter.setMetadata recordNumber metadata).capacity =
    openChapter.capacity := rfl
@[simp] theorem setMetadata_size : (openChapter.setMetadata recordNumber metadata).size =
    openChapter.size := rfl
@[simp] theorem setMetadata_deleted : (openChapter.setMetadata recordNumber metadata).deleted =
    openChapter.deleted := rfl
@[simp] theorem setMetadata_slotCount : (openChapter.setMetadata recordNumber metadata).slotCount =
    openChapter.slotCount := rfl
@[simp] theorem setMetadata_slots : (openChapter.setMetadata recordNumber metadata).slots =
    openChapter.slots := rfl

theorem setMetadata_records : (openChapter.setMetadata recordNumber metadata).records i =
    if i = recordNumber then ((openChapter.records recordNumber).1, metadata) else openChapter.records i :=
  Function.update_apply _ _ _ _

@[simp] theorem setMetadata_name : ((openChapter.setMetadata recordNumber metadata).records i).1 =
    (openChapter.records i).1 := by
  rw [setMetadata_records]
  split_ifs with h
  · rw [h]
  · rfl

@[simp] theorem addRecord_capacity : (openChapter.addRecord slot name metadata).capacity =
    openChapter.capacity := rfl
@[simp] theorem addRecord_size : (openChapter.addRecord slot name metadata).size =
    openChapter.size + 1 := rfl
@[simp] theorem addRecord_deleted : (openChapter.addRecord slot name metadata).deleted =
    openChapter.deleted := rfl
@[simp] theorem addRecord_slotCount : (openChapter.addRecord slot name metadata).slotCount =
    openChapter.slotCount := rfl

theorem addRecord_records : (openChapter.addRecord slot name metadata).records i =
    if i = openChapter.size + 1 then (name, metadata) else openChapter.records i :=
  Function.update_apply _ _ _ _

theorem addRecord_recordNumber : ((openChapter.addRecord slot name metadata).slots i).recordNumber =
    if i = slot then (openChapter.size + 1) % 2 ^ openChapterRecordNumberBits
    else (openChapter.slots i).recordNumber := by
  show (Function.update openChapter.slots slot _ i).recordNumber = _
  rw [Function.update_apply]
  split_ifs <;> rfl

@[simp] theorem addRecord_recordDeleted : ((openChapter.addRecord slot name metadata).slots i).recordDeleted =
    (openChapter.slots i).recordDeleted := by
  show (Function.update openChapter.slots slot _ i).recordDeleted = _
  rw [Function.update_apply]
  split_ifs with h
  · rw [h]
  · rfl

@[simp] theorem markDeleted_capacity : (openChapter.markDeleted recordNumber).capacity =
    openChapter.capacity := rfl
@[simp] theorem markDeleted_size : (openChapter.markDeleted recordNumber).size = openChapter.size := rfl
@[simp] theorem markDeleted_deleted : (openChapter.markDeleted recordNumber).deleted =
    openChapter.deleted + 1 := rfl
@[simp] theorem markDeleted_slotCount : (openChapter.markDeleted recordNumber).slotCount =
    openChapter.slotCount := rfl
@[simp] theorem markDeleted_records : (openChapter.markDeleted recordNumber).records =
    openChapter.records := rfl

@[simp] theorem markDeleted_recordNumber : ((openChapter.markDeleted recordNumber).slots i).recordNumber =
    (openChapter.slots i).recordNumber := by
  show (Function.update openChapter.slots recordNumber _ i).recordNumber = _
  rw [Function.update_apply]
  split_ifs with h
  · rw [h]
  · rfl

theorem markDeleted_recordDeleted : ((openChapter.markDeleted recordNumber).slots i).recordDeleted =
    if i = recordNumber then true else (openChapter.slots i).recordDeleted := by
  show (Function.update openChapter.slots recordNumber _ i).recordDeleted = _
  rw [Function.update_apply]
  split_ifs <;> rfl

@[simp] theorem resetOpenChapter_capacity [Inhabited Name] [Inhabited Data] :
    (resetOpenChapter openChapter).capacity = openChapter.capacity := rfl
@[simp] theorem resetOpenChapter_size [Inhabited Name] [Inhabited Data] :
    (resetOpenChapter openChapter).size = 0 := rfl
@[simp] theorem resetOpenChapter_deleted [Inhabited Name] [Inhabited Data] :
    (resetOpenChapter openChapter).deleted = 0 := rfl
@[simp] theorem resetOpenChapter_slotCount [Inhabited Name] [Inhabited Data] :
    (resetOpenChapter openChapter).slotCount = openChapter.slotCount := rfl

theorem resetOpenChapter_slots [Inhabited Name] [Inhabited Data] {i : ℕ} (hi : i < openChapter.slotCount) :
    (resetOpenChapter openChapter).slots i = Slot.empty := if_pos hi

end Fields

end OpenChapterZone

/-! ## What each operation does once the probe has stopped -/

variable {chapterIndexBytes} {openChapter : OpenChapterZone Name Data} {name : Name} {probe : ℕ × ℕ}

theorem searchOpenChapter_of_probe (h : probeChapterSlots chapterIndexBytes openChapter name = some probe) :
    searchOpenChapter chapterIndexBytes openChapter name =
      some (if probe.2 = 0 then none else some (openChapter.records probe.2).2) := by
  rw [searchOpenChapter, h, Option.map_some]

theorem putOpenChapter_of_probe (h : probeChapterSlots chapterIndexBytes openChapter name = some probe)
    (metadata : Data) :
    putOpenChapter chapterIndexBytes openChapter name metadata =
      some (if probe.2 ≠ 0 then
          (openChapter.setMetadata probe.2 metadata, .ok (openChapter.capacity - openChapter.size))
        else if openChapter.capacity ≤ openChapter.size then (openChapter, .error .volumeOverflow)
        else (openChapter.addRecord probe.1 name metadata,
          .ok (openChapter.capacity - (openChapter.size + 1)))) := by
  rw [putOpenChapter, h, Option.map_some]

theorem removeFromOpenChapter_of_probe
    (h : probeChapterSlots chapterIndexBytes openChapter name = some probe) :
    removeFromOpenChapter chapterIndexBytes openChapter name =
      some (if probe.2 = 0 then (openChapter, false) else (openChapter.markDeleted probe.2, true)) := by
  rw [removeFromOpenChapter, h, Option.map_some]

end Zone

end Vdo.Uds
