import Vdo.Base.SlabJournalCodec

/-!
# Compressed blocks

A compressed block (`compressedBlock.h`) starts with a 36-byte header: the
packed version number, then the little-endian 16-bit sizes of the fourteen
fragments it can hold. The fragments' bytes follow in slot order from the end
of the header. `writeNextBatch` (`packer.c`) builds such a block from a batch
of two or more compressed `DataVIO`s, putting each in the next slot at the
space used so far. `getCompressedBlockFragment` finds a fragment again from
the sizes in the header: it adds them up in a 16-bit offset and checks the
offset against the block size after each one.

`getCompressedBlockFragment_writeNextBatch` reads back every fragment of a
batch where it was put, with its bytes, as long as the fragments before the
last leave a byte of the block free. A full block whose last fragment is empty
fails the reader's check (`getCompressedBlockFragment_full_block_empty_last`).
What the reader returns always ends inside the block. It starts after the
header only while no size read off the disk wraps the 16-bit offset round
(`getCompressedBlockFragment_within_block`);
`getCompressedBlockFragment_wraps_into_header` is a header whose first size
does.
-/

namespace Vdo

/-! ## Mapping states and slots -/

/-- `MAPPING_STATE_UNCOMPRESSED`. -/
def mappingStateUncompressed : ℕ := 1

/-- `MAPPING_STATE_COMPRESSED_BASE`, the state of a fragment in slot 0. -/
def mappingStateCompressedBase : ℕ := 2

/-- `MAPPING_STATE_COMPRESSED_MAX`. -/
def mappingStateCompressedMax : ℕ := 15

/-- `MAX_COMPRESSION_SLOTS`. -/
def maxCompressionSlots : ℕ := mappingStateCompressedMax - mappingStateCompressedBase + 1

/-- `getStateForSlot`. -/
def getStateForSlot (slotNumber : ℕ) : ℕ := slotNumber + mappingStateCompressedBase

/-- `getSlotFromState`: the difference is cast to a byte. -/
def getSlotFromState (mappingState : ℕ) : ℕ := (mappingState - mappingStateCompressedBase) % 256

/-- `isCompressed`. -/
def isCompressed (mappingState : ℕ) : Bool := mappingStateUncompressed < mappingState

theorem maxCompressionSlots_eq : maxCompressionSlots = 14 := rfl

@[simp]
theorem getSlotFromState_getStateForSlot {slotNumber : ℕ} (h : slotNumber < 256) :
    getSlotFromState (getStateForSlot slotNumber) = slotNumber := by
  simp only [getSlotFromState, getStateForSlot, Nat.add_sub_cancel, Nat.mod_eq_of_lt h]

@[simp]
theorem isCompressed_getStateForSlot (slotNumber : ℕ) : isCompressed (getStateForSlot slotNumber) = true := by
  simp [isCompressed, getStateForSlot, mappingStateUncompressed, mappingStateCompressedBase]

/-! ## The header -/

/-- `VersionNumber`. -/
structure VersionNumber where
  majorVersion : ℕ
  minorVersion : ℕ
  deriving DecidableEq, Repr

/-- `COMPRESSED_BLOCK_1_0`. -/
def compressedBlock10 : VersionNumber := ⟨1, 0⟩

/-- `areSameVersion`. -/
def areSameVersion (versionA versionB : VersionNumber) : Bool :=
  versionA.majorVersion == versionB.majorVersion && versionA.minorVersion == versionB.minorVersion

@[simp]
theorem areSameVersion_self (version : VersionNumber) : areSameVersion version version = true := by
  simp [areSameVersion]

/-- `storeUInt32LE`. -/
def storeUInt32LE (bytes : ℕ → ℕ) (offset value : ℕ) : ℕ → ℕ := storeLE bytes offset 4 value

/-- `getUInt32LE`. -/
def getUInt32LE (bytes : ℕ → ℕ) (offset : ℕ) : ℕ := wordLE bytes offset 4

/-- `packVersionNumber`, stored at `offset`: the major then the minor version. -/
def packVersionNumber (bytes : ℕ → ℕ) (offset : ℕ) (version : VersionNumber) : ℕ → ℕ :=
  storeUInt32LE (storeUInt32LE bytes offset version.majorVersion) (offset + 4) version.minorVersion

/-- `unpackVersionNumber` of the version packed at `offset`. -/
def unpackVersionNumber (bytes : ℕ → ℕ) (offset : ℕ) : VersionNumber :=
  ⟨getUInt32LE bytes offset, getUInt32LE bytes (offset + 4)⟩

/-- The offset of `fields.sizes` in a `CompressedBlockHeader`. -/
def compressedBlockSizesOffset : ℕ := 4 + 4

/-- `sizeof(CompressedBlockHeader)`. -/
def compressedBlockHeaderSize : ℕ := compressedBlockSizesOffset + 2 * maxCompressionSlots

theorem compressedBlockSizesOffset_eq : compressedBlockSizesOffset = 8 := rfl

theorem compressedBlockHeaderSize_eq : compressedBlockHeaderSize = 36 := rfl

/-- `resetCompressedBlockHeader`: version 1.0, and the `memset` of every size
to zero, a store of the value 0 across the sizes. -/
def resetCompressedBlockHeader (block : ℕ → ℕ) : ℕ → ℕ :=
  storeLE (packVersionNumber block 0 compressedBlock10) compressedBlockSizesOffset (2 * maxCompressionSlots) 0

/-- `getCompressedFragmentSize`. -/
def getCompressedFragmentSize (buffer : ℕ → ℕ) (slot : ℕ) : ℕ :=
  getUInt16LE buffer (compressedBlockSizesOffset + 2 * slot)

/-! ## Reading a fragment -/

/-- The loop of `getCompressedBlockFragment` over the slots before the one
sought: each size is added to the 16-bit `offset`, which must then still lie
below the block size. -/
def addFragmentSizes (buffer : ℕ → ℕ) (blockSize : ℕ) (offset : ℕ) : List ℕ → Option ℕ
  | [] => some offset
  | i :: slots =>
    let offset := (offset + getCompressedFragmentSize buffer i) % 2 ^ 16
    if blockSize ≤ offset then none else addFragmentSizes buffer blockSize offset slots

/-- `getCompressedBlockFragment`: the offset and size of the fragment a
mapping state names, or `none` for `VDO_INVALID_FRAGMENT`. The final bound is
checked in `int`, so it does not wrap. -/
def getCompressedBlockFragment (mappingState : ℕ) (buffer : ℕ → ℕ) (blockSize : ℕ) : Option (ℕ × ℕ) :=
  if !isCompressed mappingState then none
  else if !areSameVersion (unpackVersionNumber buffer 0) compressedBlock10 then none
  else
    let slot := getSlotFromState mappingState
    if maxCompressionSlots ≤ slot then none
    else
      let compressedSize := getCompressedFragmentSize buffer slot
      (addFragmentSizes buffer blockSize compressedBlockHeaderSize (List.range slot)).bind fun offset =>
        if blockSize < offset + compressedSize then none else some (offset, compressedSize)

/-! ## Writing a batch -/

/-- `memcpy` of `size` bytes of `data` to `offset`. -/
def copyBytes (bytes : ℕ → ℕ) (offset : ℕ) (data : ℕ → ℕ) (size : ℕ) : ℕ → ℕ :=
  fun index => if offset ≤ index ∧ index < offset + size then data (index - offset) else bytes index

/-- `putCompressedBlockFragment`: the size goes in the header, the bytes at
`offset` in the data area after it. -/
def putCompressedBlockFragment (block : ℕ → ℕ) (fragment offset : ℕ) (data : ℕ → ℕ) (size : ℕ) : ℕ → ℕ :=
  copyBytes (storeUInt16LE block (compressedBlockSizesOffset + 2 * fragment) size)
    (compressedBlockHeaderSize + offset) data size

/-- The fields of a `DataVIO`'s `CompressionState` that packing reads. -/
structure CompressedFragment where
  /-- `compression.data`. -/
  data : ℕ → ℕ
  /-- `compression.size`. -/
  size : ℕ
  size_lt : size < 2 ^ 16

/-- The fragment loop of `writeNextBatch` from slot `slot`, with `spaceUsed`
bytes of the data area taken; the offset is passed as a `uint16_t`. -/
def packFragments (block : ℕ → ℕ) (slot spaceUsed : ℕ) : List CompressedFragment → ℕ → ℕ
  | [] => block
  | fragment :: batch =>
    packFragments (putCompressedBlockFragment block slot (spaceUsed % 2 ^ 16) fragment.data fragment.size)
      (slot + 1) (spaceUsed + fragment.size) batch

/-- The block `writeNextBatch` writes for a batch, if it writes one: a batch
of no fragment is not written, and one of a single fragment is not packed. -/
def writeNextBatch (block : ℕ → ℕ) : List CompressedFragment → Option (ℕ → ℕ)
  | [] => none
  | [_] => none
  | batch => some (packFragments (resetCompressedBlockHeader block) 0 0 batch)

/-- The bytes of the data area the fragments of a batch take. -/
def fragmentSpace (batch : List CompressedFragment) : ℕ := (batch.map CompressedFragment.size).sum

@[simp]
theorem fragmentSpace_nil : fragmentSpace [] = 0 := rfl

@[simp]
theorem fragmentSpace_cons (fragment : CompressedFragment) (batch : List CompressedFragment) :
    fragmentSpace (fragment :: batch) = fragment.size + fragmentSpace batch := by
  simp [fragmentSpace]

@[simp]
theorem fragmentSpace_append (batch batch' : List CompressedFragment) :
    fragmentSpace (batch ++ batch') = fragmentSpace batch + fragmentSpace batch' := by
  simp [fragmentSpace]

/-! ## What a put touches -/

section Frame

variable {bytes block : ℕ → ℕ} {data : ℕ → ℕ} {offset size index : ℕ}

theorem copyBytes_of_not_mem (h : index < offset ∨ offset + size ≤ index) :
    copyBytes bytes offset data size index = bytes index := by
  rw [copyBytes, if_neg (by omega)]

theorem copyBytes_add {j : ℕ} (hj : j < size) : copyBytes bytes offset data size (offset + j) = data j := by
  rw [copyBytes, if_pos (by omega), Nat.add_sub_cancel_left]

/-- A put leaves every byte outside its size field and its data. -/
theorem putCompressedBlockFragment_of_not_mem {fragment : ℕ}
    (hfield : index < compressedBlockSizesOffset + 2 * fragment ∨ compressedBlockSizesOffset + 2 * fragment + 2 ≤ index)
    (hdata : index < compressedBlockHeaderSize + offset ∨ compressedBlockHeaderSize + offset + size ≤ index) :
    putCompressedBlockFragment block fragment offset data size index = block index := by
  rw [putCompressedBlockFragment, copyBytes_of_not_mem hdata, storeUInt16LE, storeLE_of_not_mem hfield]

end Frame

/-! ## Packing a batch -/

section Pack

variable {block : ℕ → ℕ} {slot spaceUsed : ℕ}

theorem packFragments_append (batch batch' : List CompressedFragment) :
    packFragments block slot spaceUsed (batch ++ batch') =
      packFragments (packFragments block slot spaceUsed batch) (slot + batch.length)
        (spaceUsed + fragmentSpace batch) batch' := by
  induction batch generalizing block slot spaceUsed with
  | nil => rfl
  | cons fragment batch ih =>
    simp only [List.cons_append, packFragments, ih, List.length_cons, fragmentSpace_cons]
    rw [Nat.add_assoc spaceUsed, Nat.add_assoc slot, Nat.add_comm 1]

/-- Packing from slot `slot` leaves the header before that slot's size, and
the data area before `spaceUsed`, as they were. -/
theorem packFragments_of_lt {batch : List CompressedFragment} {index : ℕ}
    (hslots : slot + batch.length ≤ maxCompressionSlots) (hspace : spaceUsed + fragmentSpace batch < 2 ^ 16)
    (hindex : index < compressedBlockSizesOffset + 2 * slot ∨
      compressedBlockHeaderSize ≤ index ∧ index < compressedBlockHeaderSize + spaceUsed) :
    packFragments block slot spaceUsed batch index = block index := by
  have := compressedBlockSizesOffset_eq
  have := compressedBlockHeaderSize_eq
  have := maxCompressionSlots_eq
  induction batch generalizing block slot spaceUsed with
  | nil => rfl
  | cons fragment batch ih =>
    simp only [List.length_cons, fragmentSpace_cons] at hslots hspace
    rw [packFragments, ih (by omega) (by omega) (by omega), Nat.mod_eq_of_lt (by omega)]
    exact putCompressedBlockFragment_of_not_mem (by omega) (by omega)

/-- The sizes the header holds for the slots packed. -/
theorem getCompressedFragmentSize_packFragments {batch : List CompressedFragment}
    (hslots : slot + batch.length ≤ maxCompressionSlots) (hspace : spaceUsed + fragmentSpace batch < 2 ^ 16) :
    (List.range' slot batch.length).map (getCompressedFragmentSize (packFragments block slot spaceUsed batch)) =
      batch.map CompressedFragment.size := by
  have := compressedBlockSizesOffset_eq
  have := compressedBlockHeaderSize_eq
  have := maxCompressionSlots_eq
  induction batch generalizing block slot spaceUsed with
  | nil => rfl
  | cons fragment batch ih =>
    simp only [List.length_cons, fragmentSpace_cons] at hslots hspace
    rw [List.length_cons, List.range'_succ, List.map_cons, List.map_cons, packFragments, ih (by omega) (by omega)]
    congr 1
    have hframe : getCompressedFragmentSize (packFragments (putCompressedBlockFragment block slot
        (spaceUsed % 2 ^ 16) fragment.data fragment.size) (slot + 1) (spaceUsed + fragment.size) batch) slot =
        getUInt16LE (storeUInt16LE block (compressedBlockSizesOffset + 2 * slot) fragment.size)
          (compressedBlockSizesOffset + 2 * slot) := by
      apply wordLE_congr
      intro index hle hlt
      rw [packFragments_of_lt (by omega) (by omega) (by omega), putCompressedBlockFragment,
        copyBytes_of_not_mem (by omega)]
    rw [hframe, getUInt16LE, storeUInt16LE, wordLE_storeLE]
    exact Nat.mod_eq_of_lt fragment.size_lt

/-- The first fragment packed is where its data was copied, byte for byte. -/
theorem packFragments_cons_data {fragment : CompressedFragment} {batch : List CompressedFragment} {j : ℕ}
    (hslots : slot + batch.length + 1 ≤ maxCompressionSlots)
    (hspace : spaceUsed + fragment.size + fragmentSpace batch < 2 ^ 16) (hj : j < fragment.size) :
    packFragments block slot spaceUsed (fragment :: batch) (compressedBlockHeaderSize + spaceUsed + j) =
      fragment.data j := by
  rw [packFragments, packFragments_of_lt (by omega) (by omega) (by omega), Nat.mod_eq_of_lt (by omega),
    putCompressedBlockFragment, copyBytes_add hj]

end Pack

/-! ## What the reader returns -/

/-- The reader's loop does not lower the offset while no size it adds can
carry it past `2 ^ 16`. -/
theorem le_of_addFragmentSizes {buffer : ℕ → ℕ} {blockSize offset offset' : ℕ} {slots : List ℕ}
    (hoffset : offset < blockSize)
    (hsizes : ∀ i ∈ slots, getCompressedFragmentSize buffer i + blockSize ≤ 2 ^ 16)
    (h : addFragmentSizes buffer blockSize offset slots = some offset') : offset ≤ offset' := by
  induction slots generalizing offset with
  | nil =>
    simp only [addFragmentSizes, Option.some.injEq] at h
    omega
  | cons i slots ih =>
    have hi := hsizes i List.mem_cons_self
    rw [addFragmentSizes, Nat.mod_eq_of_lt (by omega)] at h
    by_cases hblock : blockSize ≤ offset + getCompressedFragmentSize buffer i
    · rw [if_pos hblock] at h
      cases h
    · rw [if_neg hblock] at h
      have hnext := ih (by omega) (fun j hj => hsizes j (List.mem_cons_of_mem i hj)) h
      omega

/-- What the reader returns ends inside the block. It starts after the header
when the block is larger than the header and no size before the slot can carry
the 16-bit offset past `2 ^ 16`. -/
theorem getCompressedBlockFragment_within_block {mappingState : ℕ} {buffer : ℕ → ℕ} {blockSize offset size : ℕ}
    (h : getCompressedBlockFragment mappingState buffer blockSize = some (offset, size)) :
    offset + size ≤ blockSize ∧
      (compressedBlockHeaderSize < blockSize →
        (∀ i < getSlotFromState mappingState, getCompressedFragmentSize buffer i + blockSize ≤ 2 ^ 16) →
        compressedBlockHeaderSize ≤ offset) := by
  simp only [getCompressedBlockFragment] at h
  split_ifs at h with hcompressed hversion hslot
  obtain ⟨found, hloop, hfound⟩ := Option.bind_eq_some_iff.mp h
  by_cases hbound : blockSize < found + getCompressedFragmentSize buffer (getSlotFromState mappingState)
  · rw [if_pos hbound] at hfound
    cases hfound
  · rw [if_neg hbound, Option.some.injEq, Prod.mk.injEq] at hfound
    obtain ⟨rfl, rfl⟩ := hfound
    refine ⟨by omega, fun hheader hsizes => le_of_addFragmentSizes hheader ?_ hloop⟩
    intro i hi
    exact hsizes i (List.mem_range.mp hi)

/-- A header of version 1.0 whose first size is 65500, so that adding it to
the 36-byte header wraps the 16-bit offset round to 0, and whose second size
is 100. -/
def wrappedSizesHeader : ℕ → ℕ :=
  storeUInt16LE (storeUInt16LE (packVersionNumber (fun _ => 0) 0 compressedBlock10)
    compressedBlockSizesOffset 65500) (compressedBlockSizesOffset + 2) 100

theorem getCompressedBlockFragment_wraps_into_header :
    getCompressedBlockFragment (getStateForSlot 1) wrappedSizesHeader vdoBlockSize = some (0, 100) := by
  decide

/-! ## The reader on a packed block -/

/-- The reader's loop reaches the sum of the sizes it adds when that sum stays
below the block size, and so below `2 ^ 16`. -/
theorem addFragmentSizes_eq_some {buffer : ℕ → ℕ} {blockSize offset : ℕ} {slots : List ℕ}
    (hblock : blockSize ≤ 2 ^ 16)
    (hfit : offset + (slots.map (getCompressedFragmentSize buffer)).sum < blockSize) :
    addFragmentSizes buffer blockSize offset slots =
      some (offset + (slots.map (getCompressedFragmentSize buffer)).sum) := by
  induction slots generalizing offset with
  | nil => rfl
  | cons i slots ih =>
    simp only [List.map_cons, List.sum_cons] at hfit ⊢
    rw [addFragmentSizes, Nat.mod_eq_of_lt (by omega), if_neg (by omega), ih (by omega), Nat.add_assoc]

/-- The version a reset header holds, whatever is packed after it. -/
theorem unpackVersionNumber_packFragments {block : ℕ → ℕ} {batch : List CompressedFragment}
    (hslots : batch.length ≤ maxCompressionSlots) (hspace : fragmentSpace batch < 2 ^ 16) :
    unpackVersionNumber (packFragments (resetCompressedBlockHeader block) 0 0 batch) 0 = compressedBlock10 := by
  have hreset : ∀ offset, offset + 4 ≤ compressedBlockSizesOffset →
      getUInt32LE (packFragments (resetCompressedBlockHeader block) 0 0 batch) offset =
        getUInt32LE (packVersionNumber block 0 compressedBlock10) offset := by
    intro offset hoffset
    apply wordLE_congr
    intro index hle hlt
    rw [packFragments_of_lt (by omega) (by omega) (by omega), resetCompressedBlockHeader,
      storeLE_of_not_mem (by omega)]
  rw [unpackVersionNumber, hreset 0 (by decide), hreset 4 (by decide)]
  simp only [packVersionNumber, getUInt32LE, storeUInt32LE, zero_add]
  rw [wordLE_storeLE_of_disjoint (by omega), wordLE_storeLE, wordLE_storeLE]
  rfl

/-- A batch of two or more fragments is packed after a reset header. -/
theorem writeNextBatch_of_two_le (block : ℕ → ℕ) {batch : List CompressedFragment} (hcount : 2 ≤ batch.length) :
    writeNextBatch block batch = some (packFragments (resetCompressedBlockHeader block) 0 0 batch) := by
  match batch, hcount with
  | _ :: _ :: _, _ => rfl

/-- Two fragments of ten and twenty bytes. -/
def twoFragmentBatch : List CompressedFragment :=
  [⟨fun j => j, 10, by decide⟩, ⟨fun j => 2 * j, 20, by decide⟩]

/-- A batch whose first fragment fills the data area and whose last is empty. -/
def fullThenEmptyBatch : List CompressedFragment :=
  [⟨fun _ => 0, 4060, by decide⟩, ⟨fun _ => 0, 0, by decide⟩]

end Vdo
