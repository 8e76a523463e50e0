import Vdo.Base.CompressedBlock
import Vdo.Lib.ByteStream

/-!
# Fixed layouts

A `FixedLayout` (`fixedLayout.c`) carves partitions off one range of
physical blocks, from either end of a free range in the middle. Each partition
translates its own block numbers, from `base`, to the layout's, from `offset`.
The partitions are a list, each new one put at the head; the layout is saved
with its partitions in that order and read back by putting each at the head
again, so the list comes back reversed.

Block numbers and counts are `uint64_t` fields; the model keeps them as
naturals, which is exact as long as nothing passes `2 ^ 64`. A `Buffer` is
modelled by its content: the encoder appends to it (it always has room, as
`ensureAvailableSpace` grows it), and the decoder takes fields off its front.
-/

namespace Vdo

open ByteStream

/-- The error codes of the layout functions. -/
inductive LayoutError
  /-- `VDO_NO_SPACE`. -/
  | noSpace
  /-- `VDO_PARTITION_EXISTS`. -/
  | partitionExists
  /-- `VDO_UNKNOWN_PARTITION`. -/
  | unknownPartition
  /-- `VDO_OUT_OF_RANGE`. -/
  | outOfRange
  /-- `UDS_BUFFER_ERROR`: too few bytes left to read a field. -/
  | bufferError
  /-- `VDO_INCORRECT_COMPONENT`. -/
  | incorrectComponent
  /-- `VDO_UNSUPPORTED_VERSION`. -/
  | unsupportedVersion
  /-- A failed `ASSERT`. -/
  | assertionFailed
  deriving DecidableEq, Repr

/-- `PartitionID`, a packed enumeration stored as a byte. -/
inductive PartitionID
  | blockMap
  | blockAllocator
  | recoveryJournal
  | slabSummary
  deriving DecidableEq, Repr

/-- The byte of a `PartitionID`. -/
def PartitionID.toByte : PartitionID → ℕ
  | blockMap => 0
  | blockAllocator => 1
  | recoveryJournal => 2
  | slabSummary => 3

/-- `PartitionDirection`. -/
inductive PartitionDirection
  | fromBeginning
  | fromEnd
  deriving DecidableEq, Repr

/-- A `Partition`: the byte of its id, where it starts in the layout, the
number its users give its first block, and its size. -/
structure Partition where
  id : ℕ
  offset : ℕ
  base : ℕ
  count : ℕ
  deriving DecidableEq, Repr

/-- A `FixedLayout`: the free range `[firstFree, lastFree)` and the partition
list from `head`. -/
structure FixedLayout where
  firstFree : ℕ
  lastFree : ℕ
  numPartitions : ℕ
  head : List Partition
  deriving DecidableEq, Repr

/-- `ALL_FREE_BLOCKS`, `(uint64_t) -1`. -/
def allFreeBlocks : ℕ := 2 ^ 64 - 1

/-- `makeFixedLayout`: all `totalBlocks` blocks from `startOffset` free. -/
def makeFixedLayout (totalBlocks startOffset : ℕ) : FixedLayout :=
  ⟨startOffset, startOffset + totalBlocks, 0, []⟩

/-- `getFixedLayoutBlocksAvailable`. -/
def getFixedLayoutBlocksAvailable (layout : FixedLayout) : ℕ := layout.lastFree - layout.firstFree

/-- `getTotalFixedLayoutSize`: the free blocks and those of every partition. -/
def getTotalFixedLayoutSize (layout : FixedLayout) : ℕ :=
  layout.head.foldl (fun size partition => size + partition.count) (getFixedLayoutBlocksAvailable layout)

/-- `getPartition`: the first partition of the list with the id. -/
def getPartition (layout : FixedLayout) (id : PartitionID) : Except LayoutError Partition :=
  match layout.head.find? (fun partition => partition.id = id.toByte) with
  | some partition => .ok partition
  | none => .error .unknownPartition

/-- `translateToPBN`: a partition's block number to the layout's; `NULL`
translates nothing. The sum is `PhysicalBlockNumber` arithmetic, modulo `2^64`. -/
def translateToPBN (partition : Option Partition) (partitionBlockNumber : ℕ) : Except LayoutError ℕ :=
  match partition with
  | none => .ok partitionBlockNumber
  | some partition =>
    if partitionBlockNumber < partition.base then .error .outOfRange
    else
      let offsetFromBase := partitionBlockNumber - partition.base
      if offsetFromBase ≥ partition.count then .error .outOfRange
      else .ok ((partition.offset + offsetFromBase) % 2 ^ 64)

/-- `translateFromPBN`: the layout's block number to a partition's, the sum
modulo `2^64`. -/
def translateFromPBN (partition : Option Partition) (layerBlockNumber : ℕ) : Except LayoutError ℕ :=
  match partition with
  | none => .ok layerBlockNumber
  | some partition =>
    if layerBlockNumber < partition.offset then .error .outOfRange
    else
      let partitionBlockNumber := layerBlockNumber - partition.offset
      if partitionBlockNumber ≥ partition.count then .error .outOfRange
      else .ok ((partitionBlockNumber + partition.base) % 2 ^ 64)

/-- `allocatePartition`: the partition put at the head of the list. -/
def allocatePartition (layout : FixedLayout) (id offset base blockCount : ℕ) : FixedLayout :=
  { layout with head := ⟨id, offset, base, blockCount⟩ :: layout.head }

/-- `makeFixedLayoutPartition`: `blockCount` blocks (all the free ones for
`ALL_FREE_BLOCKS`) taken from the start or the end of the free range, for a
partition of an id not yet used. -/
def makeFixedLayoutPartition (layout : FixedLayout) (id : PartitionID) (blockCount : ℕ)
    (direction : PartitionDirection) (base : ℕ) : Except LayoutError FixedLayout := do
  let freeBlocks := layout.lastFree - layout.firstFree
  let blockCount ← if blockCount = allFreeBlocks then
      if freeBlocks = 0 then .error .noSpace else .ok freeBlocks
    else if blockCount > freeBlocks then .error .noSpace
    else .ok blockCount
  match getPartition layout id with
  | .ok _ => .error .partitionExists
  | .error _ =>
    let offset := if direction = .fromEnd then layout.lastFree - blockCount else layout.firstFree
    let layout := allocatePartition layout id.toByte offset base blockCount
    let layout := { layout with numPartitions := layout.numPartitions + 1 }
    if direction = .fromEnd then .ok { layout with lastFree := layout.lastFree - blockCount }
    else .ok { layout with firstFree := layout.firstFree + blockCount }

/-! ## Buffers -/

/-- `putByte`. -/
def putByte (buffer : List ℕ) (byte : ℕ) : List ℕ := buffer ++ [byte % 256]

/-- `putUInt32LEIntoBuffer`. -/
def putUInt32LEIntoBuffer (buffer : List ℕ) (value : ℕ) : List ℕ := buffer ++ leBytes 4 value

/-- `putUInt64LEIntoBuffer`. -/
def putUInt64LEIntoBuffer (buffer : List ℕ) (value : ℕ) : List ℕ := buffer ++ leBytes 8 value

/-- A field of `width` bytes read off the front of the buffer. -/
def getLEFromBuffer (width : ℕ) (buffer : List ℕ) : Except LayoutError (ℕ × List ℕ) :=
  match takeLE width buffer with
  | some field => .ok field
  | none => .error .bufferError

/-- `getByte`. -/
def getByte (buffer : List ℕ) : Except LayoutError (ℕ × List ℕ) := getLEFromBuffer 1 buffer

/-- `getUInt32LEFromBuffer`. -/
def getUInt32LEFromBuffer (buffer : List ℕ) : Except LayoutError (ℕ × List ℕ) := getLEFromBuffer 4 buffer

/-- `getUInt64LEFromBuffer`. -/
def getUInt64LEFromBuffer (buffer : List ℕ) : Except LayoutError (ℕ × List ℕ) := getLEFromBuffer 8 buffer

/-! ## Headers -/

/-- A component `Header`: its id, its version and the size of what follows. -/
structure Header where
  id : ℕ
  version : VersionNumber
  size : ℕ
  deriving DecidableEq, Repr

/-- `encodeHeader`: the id, the packed version, major then minor, and the size. -/
def encodeHeader (header : Header) (buffer : List ℕ) : List ℕ :=
  putUInt64LEIntoBuffer
    (putUInt32LEIntoBuffer (putUInt32LEIntoBuffer (putUInt32LEIntoBuffer buffer header.id)
      header.version.majorVersion) header.version.minorVersion) header.size

/-- `decodeHeader`. -/
def decodeHeader (buffer : List ℕ) : Except LayoutError (Header × List ℕ) := do
  let (id, buffer) ← getUInt32LEFromBuffer buffer
  let (majorVersion, buffer) ← getUInt32LEFromBuffer buffer
  let (minorVersion, buffer) ← getUInt32LEFromBuffer buffer
  let (size, buffer) ← getUInt64LEFromBuffer buffer
  .ok (⟨id, ⟨majorVersion, minorVersion⟩, size⟩, buffer)

/-- `validateHeader`: the id and the version must match, and the size be at
least the expected one (exactly it, for `exactSize`). -/
def validateHeader (expectedHeader actualHeader : Header) (exactSize : Bool) : Except LayoutError Unit :=
  if expectedHeader.id ≠ actualHeader.id then .error .incorrectComponent
  else if !areSameVersion expectedHeader.version actualHeader.version then .error .unsupportedVersion
  else if expectedHeader.size > actualHeader.size ∨ (exactSize ∧ expectedHeader.size < actualHeader.size) then
    .error .unsupportedVersion
  else .ok ()

/-! ## Saving and loading a layout -/

/-- `sizeof(Layout3_0)`: two block numbers and the partition count byte. -/
def layout30Size : ℕ := 8 + 8 + 1

/-- `sizeof(Partition3_0)`: the id byte and three block numbers. -/
def partition30Size : ℕ := 1 + 8 + 8 + 8

/-- `FIXED_LAYOUT`. -/
def fixedLayoutComponent : ℕ := 1

/-- `LAYOUT_HEADER_3_0`. -/
def layoutHeader30 : Header := ⟨fixedLayoutComponent, ⟨3, 0⟩, layout30Size⟩

/-- `getEncodedSize`. -/
def getEncodedSize (layout : FixedLayout) : ℕ := layout30Size + partition30Size * layout.numPartitions

/-- One partition in format 3.0. -/
def encodePartition30 (buffer : List ℕ) (partition : Partition) : List ℕ :=
  putUInt64LEIntoBuffer (putUInt64LEIntoBuffer (putUInt64LEIntoBuffer (putByte buffer partition.id)
    partition.offset) partition.base) partition.count

/-- `encodePartitions_3_0`: the partitions from the head of the list. -/
def encodePartitions30 (layout : FixedLayout) (buffer : List ℕ) : List ℕ :=
  layout.head.foldl encodePartition30 buffer

/-- `encodeLayout_3_0`. -/
def encodeLayout30 (layout : FixedLayout) (buffer : List ℕ) : Except LayoutError (List ℕ) :=
  if layout.numPartitions ≤ 255 then
    .ok (putByte (putUInt64LEIntoBuffer (putUInt64LEIntoBuffer buffer layout.firstFree) layout.lastFree)
      layout.numPartitions)
  else .error .assertionFailed

/-- `encodeFixedLayout`: the header, the layout fields and the partitions,
each length checked against the header's size. -/
def encodeFixedLayout (layout : FixedLayout) (buffer : List ℕ) : Except LayoutError (List ℕ) := do
  let header := { layoutHeader30 with size := getEncodedSize layout }
  let buffer := encodeHeader header buffer
  let initialLength := buffer.length
  let buffer ← encodeLayout30 layout buffer
  if buffer.length - initialLength ≠ layout30Size then .error .assertionFailed
  else
    let buffer := encodePartitions30 layout buffer
    if buffer.length - initialLength ≠ header.size then .error .assertionFailed
    else .ok buffer

/-- `decodeLayout_3_0`: the free range and the partition count. -/
def decodeLayout30 (buffer : List ℕ) : Except LayoutError ((ℕ × ℕ × ℕ) × List ℕ) := do
  let initialLength := buffer.length
  let (firstFree, buffer) ← getUInt64LEFromBuffer buffer
  let (lastFree, buffer) ← getUInt64LEFromBuffer buffer
  let (partitionCount, buffer) ← getByte buffer
  if initialLength - buffer.length ≠ layout30Size then .error .assertionFailed
  else .ok ((firstFree, lastFree, partitionCount), buffer)

/-- `decodePartitions_3_0`: `count` partitions, each put at the head. -/
def decodePartitions30 : ℕ → FixedLayout → List ℕ → Except LayoutError (FixedLayout × List ℕ)
  | 0, layout, buffer => .ok (layout, buffer)
  | count + 1, layout, buffer => do
    let (id, buffer) ← getByte buffer
    let (offset, buffer) ← getUInt64LEFromBuffer buffer
    let (base, buffer) ← getUInt64LEFromBuffer buffer
    let (blockCount, buffer) ← getUInt64LEFromBuffer buffer
    decodePartitions30 count (allocatePartition layout id offset base blockCount) buffer

/-- `decodeFixedLayout`: a layout read off the front of the buffer. -/
def decodeFixedLayout (buffer : List ℕ) : Except LayoutError (FixedLayout × List ℕ) := do
  let (header, buffer) ← decodeHeader buffer
  validateHeader layoutHeader30 header false
  let ((firstFree, lastFree, partitionCount), buffer) ← decodeLayout30 buffer
  if buffer.length < partition30Size * partitionCount then .error .unsupportedVersion
  else decodePartitions30 partitionCount ⟨firstFree, lastFree, partitionCount, []⟩ buffer

/-! ## The codec round trip

Each put appends a field's bytes, so an encoding is the list of its fields'
bytes (`encodeFixedLayout_eq`); each get takes a field that fits its width
back off the front. The decoder is then run on that list of fields. -/

/-- The largest `uint64_t`, as bytes. -/
theorem lt_256_pow_8 {value : ℕ} (h : value < 2 ^ 64) : value < 256 ^ 8 := by
  have hpow : (2 : ℕ) ^ 64 = 256 ^ 8 := by norm_num
  rwa [← hpow]

theorem putByte_eq (buffer : List ℕ) (byte : ℕ) : putByte buffer byte = buffer ++ leBytes 1 byte := rfl

/-- A field that fits its width reads back off the front of a buffer. -/
theorem getLEFromBuffer_leBytes {width value : ℕ} (h : value < 256 ^ width) (rest : List ℕ) :
    getLEFromBuffer width (leBytes width value ++ rest) = .ok (value, rest) := by
  rw [getLEFromBuffer, takeLE_leBytes_append, Nat.mod_eq_of_lt h]

theorem encodeHeader_eq (header : Header) (buffer : List ℕ) :
    encodeHeader header buffer = buffer ++ encodeHeader header [] := by
  simp [encodeHeader, putUInt32LEIntoBuffer, putUInt64LEIntoBuffer]

/-- A header whose fields fit their widths reads back. -/
theorem decodeHeader_encodeHeader {header : Header} (hid : header.id < 2 ^ 32)
    (hmajor : header.version.majorVersion < 2 ^ 32) (hminor : header.version.minorVersion < 2 ^ 32)
    (hsize : header.size < 2 ^ 64) (rest : List ℕ) :
    decodeHeader (encodeHeader header [] ++ rest) = .ok (header, rest) := by
  have hpow : (2 : ℕ) ^ 32 = 256 ^ 4 := by norm_num
  rw [hpow] at hid hmajor hminor
  simp only [encodeHeader, putUInt32LEIntoBuffer, putUInt64LEIntoBuffer, List.nil_append,
    List.append_assoc, decodeHeader, getUInt32LEFromBuffer, getUInt64LEFromBuffer,
    getLEFromBuffer_leBytes hid, getLEFromBuffer_leBytes hmajor, getLEFromBuffer_leBytes hminor,
    getLEFromBuffer_leBytes (lt_256_pow_8 hsize), ExceptFold.ok_bind]

/-- Each field of a partition fits the width format 3.0 saves it in. -/
structure Partition.Fits (partition : Partition) : Prop where
  id : partition.id < 256
  offset : partition.offset < 2 ^ 64
  base : partition.base < 2 ^ 64
  count : partition.count < 2 ^ 64

/-- Each field of a layout fits the width format 3.0 saves it in, and the
partition count, saved as a byte, is the length of the list. -/
structure FixedLayout.Fits (layout : FixedLayout) : Prop where
  firstFree : layout.firstFree < 2 ^ 64
  lastFree : layout.lastFree < 2 ^ 64
  numPartitions : layout.numPartitions = layout.head.length
  numPartitions_le : layout.numPartitions ≤ 255
  partitions : ∀ partition ∈ layout.head, partition.Fits

/-- The 25 bytes of one partition in format 3.0. -/
def partitionBytes30 (partition : Partition) : List ℕ :=
  leBytes 1 partition.id ++ leBytes 8 partition.offset ++ leBytes 8 partition.base ++
    leBytes 8 partition.count

@[simp]
theorem length_partitionBytes30 (partition : Partition) :
    (partitionBytes30 partition).length = partition30Size := by
  simp [partitionBytes30, partition30Size]

theorem encodePartitions30_eq (layout : FixedLayout) (buffer : List ℕ) :
    encodePartitions30 layout buffer = buffer ++ layout.head.flatMap partitionBytes30 := by
  rw [encodePartitions30]
  induction layout.head generalizing buffer with
  | nil => simp
  | cons partition partitions ih =>
    rw [List.foldl_cons, ih, List.flatMap_cons]
    simp [encodePartition30, putByte_eq, putUInt64LEIntoBuffer, partitionBytes30]

/-- Decoding the bytes of a list of partitions puts each at the head in turn,
so the list comes out reversed in front of what the layout had. -/
theorem decodePartitions30_flatMap (partitions : List Partition)
    (hfits : ∀ partition ∈ partitions, partition.Fits) (layout : FixedLayout) (rest : List ℕ) :
    decodePartitions30 partitions.length layout (partitions.flatMap partitionBytes30 ++ rest) =
      .ok ({ layout with head := partitions.reverse ++ layout.head }, rest) := by
  induction partitions generalizing layout with
  | nil => simp [decodePartitions30]
  | cons partition partitions ih =>
    have hpartition := hfits partition List.mem_cons_self
    have hid : partition.id < 256 ^ 1 := by simpa using hpartition.id
    rw [List.length_cons, List.flatMap_cons, decodePartitions30]
    simp only [partitionBytes30, List.append_assoc, getByte, getUInt64LEFromBuffer,
      getLEFromBuffer_leBytes hid, getLEFromBuffer_leBytes (lt_256_pow_8 hpartition.offset),
      getLEFromBuffer_leBytes (lt_256_pow_8 hpartition.base),
      getLEFromBuffer_leBytes (lt_256_pow_8 hpartition.count), ExceptFold.ok_bind]
    rw [ih (fun p hp => hfits p (List.mem_cons_of_mem _ hp))]
    simp [allocatePartition]

/-- The bytes `encodeFixedLayout` appends: the header, the layout's fields and
its partitions from the head. -/
def fixedLayoutBytes (layout : FixedLayout) : List ℕ :=
  encodeHeader { layoutHeader30 with size := getEncodedSize layout } [] ++
    (leBytes 8 layout.firstFree ++ leBytes 8 layout.lastFree ++ leBytes 1 layout.numPartitions) ++
    layout.head.flatMap partitionBytes30

theorem encodeFixedLayout_eq {layout : FixedLayout} (hfits : layout.Fits) (buffer : List ℕ) :
    encodeFixedLayout layout buffer = .ok (buffer ++ fixedLayoutBytes layout) := by
  have hlayout : encodeLayout30 layout (encodeHeader { layoutHeader30 with size := getEncodedSize layout } buffer) =
      .ok (encodeHeader { layoutHeader30 with size := getEncodedSize layout } buffer ++
        (leBytes 8 layout.firstFree ++ leBytes 8 layout.lastFree ++ leBytes 1 layout.numPartitions)) := by
    simp [encodeLayout30, hfits.numPartitions_le, putByte_eq, putUInt64LEIntoBuffer]
  have hfields : (leBytes 8 layout.firstFree ++ leBytes 8 layout.lastFree ++
      leBytes 1 layout.numPartitions).length = layout30Size := by
    simp [layout30Size]
  have hpartitions : (layout.head.flatMap partitionBytes30).length = partition30Size * layout.numPartitions := by
    simp [List.length_flatMap, hfits.numPartitions, mul_comm]
  simp only [encodeFixedLayout, hlayout, ExceptFold.ok_bind, encodePartitions30_eq, List.length_append,
    hfields, hpartitions]
  rw [if_neg (by omega), if_neg (by simp [getEncodedSize]; omega)]
  simp [fixedLayoutBytes, encodeHeader_eq _ buffer]

/-- The layout's fields read back off the front of a buffer. -/
theorem decodeLayout30_leBytes {firstFree lastFree partitionCount : ℕ} (hfirst : firstFree < 2 ^ 64)
    (hlast : lastFree < 2 ^ 64) (hcount : partitionCount < 256) (rest : List ℕ) :
    decodeLayout30 (leBytes 8 firstFree ++ (leBytes 8 lastFree ++ (leBytes 1 partitionCount ++ rest))) =
      .ok ((firstFree, lastFree, partitionCount), rest) := by
  have hcount' : partitionCount < 256 ^ 1 := by simpa using hcount
  simp only [decodeLayout30, getByte, getUInt64LEFromBuffer,
    getLEFromBuffer_leBytes (lt_256_pow_8 hfirst), getLEFromBuffer_leBytes (lt_256_pow_8 hlast),
    getLEFromBuffer_leBytes hcount', ExceptFold.ok_bind]
  simp [layout30Size]
  omega

/-- The header of a layout passes the check of format 3.0. -/
theorem validateHeader_layoutHeader30 {size : ℕ} (h : layout30Size ≤ size) :
    validateHeader layoutHeader30 { layoutHeader30 with size := size } false = .ok () := by
  simp [validateHeader, layoutHeader30]
  omega

/-- A layout whose fields fit reads back from its bytes, with its partition
list reversed. -/
theorem decodeFixedLayout_fixedLayoutBytes {layout : FixedLayout} (hfits : layout.Fits) (rest : List ℕ) :
    decodeFixedLayout (fixedLayoutBytes layout ++ rest) =
      .ok ({ layout with head := layout.head.reverse }, rest) := by
  have hsize : getEncodedSize layout < 2 ^ 64 := by
    have := hfits.numPartitions_le
    simp only [getEncodedSize, layout30Size, partition30Size]
    omega
  have hheader : decodeHeader (encodeHeader { layoutHeader30 with size := getEncodedSize layout } [] ++
      (leBytes 8 layout.firstFree ++ (leBytes 8 layout.lastFree ++
        (leBytes 1 layout.numPartitions ++ (layout.head.flatMap partitionBytes30 ++ rest))))) =
      .ok ({ layoutHeader30 with size := getEncodedSize layout }, leBytes 8 layout.firstFree ++
        (leBytes 8 layout.lastFree ++ (leBytes 1 layout.numPartitions ++
          (layout.head.flatMap partitionBytes30 ++ rest)))) :=
    decodeHeader_encodeHeader (by simp [layoutHeader30, fixedLayoutComponent]) (by simp [layoutHeader30])
      (by simp [layoutHeader30]) hsize _
  have hvalid : validateHeader layoutHeader30 { layoutHeader30 with size := getEncodedSize layout } false = .ok () :=
    validateHeader_layoutHeader30 (by simp [getEncodedSize])
  have hfields := decodeLayout30_leBytes hfits.firstFree hfits.lastFree
    (show layout.numPartitions < 256 by have := hfits.numPartitions_le; omega)
    (layout.head.flatMap partitionBytes30 ++ rest)
  have hlength : ¬(layout.head.flatMap partitionBytes30 ++ rest).length < partition30Size * layout.numPartitions := by
    simp [List.length_flatMap, hfits.numPartitions, mul_comm]
  have hpartitions := decodePartitions30_flatMap layout.head hfits.partitions
    ⟨layout.firstFree, layout.lastFree, layout.numPartitions, []⟩ rest
  rw [← hfits.numPartitions] at hpartitions
  simp only [fixedLayoutBytes, List.append_assoc] at hheader ⊢
  simp only [decodeFixedLayout, hheader, hvalid, hfields, ExceptFold.ok_bind, if_neg hlength, hpartitions]
  simp

/-! ## Making partitions -/

/-- The blocks a request for `blockCount` gets: all the free ones for
`ALL_FREE_BLOCKS`. -/
def requestedBlocks (layout : FixedLayout) (blockCount : ℕ) : ℕ :=
  if blockCount = allFreeBlocks then getFixedLayoutBlocksAvailable layout else blockCount

/-- A request `makeFixedLayoutPartition` has no space for: all the free
blocks of an empty free range, or more than it holds. -/
def NoSpace (layout : FixedLayout) (blockCount : ℕ) : Prop :=
  blockCount = allFreeBlocks ∧ getFixedLayoutBlocksAvailable layout = 0 ∨
    blockCount ≠ allFreeBlocks ∧ getFixedLayoutBlocksAvailable layout < blockCount

instance (layout : FixedLayout) (blockCount : ℕ) : Decidable (NoSpace layout blockCount) :=
  inferInstanceAs (Decidable (_ ∨ _))

/-- A request with space gets no more blocks than are free. -/
theorem requestedBlocks_le {layout : FixedLayout} {blockCount : ℕ} (h : ¬NoSpace layout blockCount) :
    requestedBlocks layout blockCount ≤ getFixedLayoutBlocksAvailable layout := by
  unfold NoSpace at h
  unfold requestedBlocks
  split_ifs with hall
  · exact le_refl _
  · omega

/-- `getPartition` finds a partition exactly when one has the id. -/
theorem getPartition_isOk (layout : FixedLayout) (id : PartitionID) :
    (getPartition layout id).isOk = true ↔ ∃ partition ∈ layout.head, partition.id = id.toByte := by
  unfold getPartition
  cases hfind : layout.head.find? (fun partition => partition.id = id.toByte) with
  | none =>
    simp only [List.find?_eq_none, decide_eq_true_eq] at hfind
    simpa [Except.isOk, Except.toBool] using hfind
  | some partition =>
    have hmem := List.mem_of_find?_eq_some hfind
    have hid := List.find?_some hfind
    simp only [decide_eq_true_eq] at hid
    simpa [Except.isOk, Except.toBool] using ⟨partition, hmem, hid⟩

/-- `makeFixedLayoutPartition` in closed form: no space, an id in use, or the
requested blocks taken off the chosen end of the free range. -/
theorem makeFixedLayoutPartition_eq (layout : FixedLayout) (id : PartitionID) (blockCount : ℕ)
    (direction : PartitionDirection) (base : ℕ) :
    makeFixedLayoutPartition layout id blockCount direction base =
      if NoSpace layout blockCount then .error .noSpace
      else if ∃ partition ∈ layout.head, partition.id = id.toByte then .error .partitionExists
      else
        let count := requestedBlocks layout blockCount
        .ok (if direction = .fromEnd then
            ⟨layout.firstFree, layout.lastFree - count, layout.numPartitions + 1,
              ⟨id.toByte, layout.lastFree - count, base, count⟩ :: layout.head⟩
          else ⟨layout.firstFree + count, layout.lastFree, layout.numPartitions + 1,
              ⟨id.toByte, layout.firstFree, base, count⟩ :: layout.head⟩) := by
  have hexists := getPartition_isOk layout id
  unfold makeFixedLayoutPartition NoSpace requestedBlocks getFixedLayoutBlocksAvailable
  cases hget : getPartition layout id with
  | ok partition =>
    have hused : ∃ partition ∈ layout.head, partition.id = id.toByte := hexists.mp (by rw [hget]; rfl)
    by_cases hall : blockCount = allFreeBlocks <;> split_ifs <;> simp_all
  | error e =>
    have hfresh : ¬∃ partition ∈ layout.head, partition.id = id.toByte := by
      rw [← hexists, hget]
      simp [Except.isOk, Except.toBool]
    by_cases hall : blockCount = allFreeBlocks <;> split_ifs <;> simp_all [allocatePartition]

/-- The only failures of `makeFixedLayoutPartition`. -/
theorem makeFixedLayoutPartition_eq_noSpace_iff (layout : FixedLayout) (id : PartitionID) (blockCount : ℕ)
    (direction : PartitionDirection) (base : ℕ) :
    makeFixedLayoutPartition layout id blockCount direction base = .error .noSpace ↔
      NoSpace layout blockCount := by
  rw [makeFixedLayoutPartition_eq]
  split_ifs <;> simp_all

theorem makeFixedLayoutPartition_eq_partitionExists_iff (layout : FixedLayout) (id : PartitionID)
    (blockCount : ℕ) (direction : PartitionDirection) (base : ℕ) :
    makeFixedLayoutPartition layout id blockCount direction base = .error .partitionExists ↔
      ¬NoSpace layout blockCount ∧ ∃ partition ∈ layout.head, partition.id = id.toByte := by
  rw [makeFixedLayoutPartition_eq]
  split_ifs <;> simp_all

theorem makeFixedLayoutPartition_error {layout : FixedLayout} {id : PartitionID} {blockCount : ℕ}
    {direction : PartitionDirection} {base : ℕ} {e : LayoutError}
    (h : makeFixedLayoutPartition layout id blockCount direction base = .error e) :
    e = .noSpace ∨ e = .partitionExists := by
  rw [makeFixedLayoutPartition_eq] at h
  split_ifs at h <;> simp_all

/-- What a successful `makeFixedLayoutPartition` did: it took at most the
free blocks, for an id not in use, off the chosen end of the free range. -/
theorem makeFixedLayoutPartition_eq_ok {layout layout' : FixedLayout} {id : PartitionID} {blockCount : ℕ}
    {direction : PartitionDirection} {base : ℕ}
    (h : makeFixedLayoutPartition layout id blockCount direction base = .ok layout') :
    ∃ count, count ≤ getFixedLayoutBlocksAvailable layout ∧
      (¬∃ partition ∈ layout.head, partition.id = id.toByte) ∧
      layout' = if direction = .fromEnd then
          ⟨layout.firstFree, layout.lastFree - count, layout.numPartitions + 1,
            ⟨id.toByte, layout.lastFree - count, base, count⟩ :: layout.head⟩
        else ⟨layout.firstFree + count, layout.lastFree, layout.numPartitions + 1,
            ⟨id.toByte, layout.firstFree, base, count⟩ :: layout.head⟩ := by
  rw [makeFixedLayoutPartition_eq] at h
  by_cases hspace : NoSpace layout blockCount
  · simp [hspace] at h
  by_cases hused : ∃ partition ∈ layout.head, partition.id = id.toByte
  · simp [hspace, hused] at h
  simp only [hspace, hused, if_false, Except.ok.injEq] at h
  exact ⟨requestedBlocks layout blockCount, requestedBlocks_le hspace, hused, h.symm⟩

/-! ## Partitions tile the layout -/

/-- The blocks of the layout a partition holds. -/
def Partition.blocks (partition : Partition) : List ℕ := List.range' partition.offset partition.count

/-- The free blocks of a layout. -/
def freeBlocks (layout : FixedLayout) : List ℕ :=
  List.range' layout.firstFree (layout.lastFree - layout.firstFree)

/-- A layout made by `makeFixedLayout totalBlocks startOffset` and grown by
partitions: the free range and the partitions hold each block of
`[startOffset, startOffset + totalBlocks)` exactly once, every partition lies
in that range, and no two partitions have one id, each a `PartitionID`. -/
structure FixedLayout.Tiles (layout : FixedLayout) (startOffset totalBlocks : ℕ) : Prop where
  startOffset_le : startOffset ≤ layout.firstFree
  firstFree_le : layout.firstFree ≤ layout.lastFree
  lastFree_le : layout.lastFree ≤ startOffset + totalBlocks
  perm : (freeBlocks layout ++ layout.head.flatMap Partition.blocks).Perm
    (List.range' startOffset totalBlocks)
  within : ∀ partition ∈ layout.head,
    startOffset ≤ partition.offset ∧ partition.offset + partition.count ≤ startOffset + totalBlocks
  ids : (layout.head.map Partition.id).Nodup
  named : ∀ partition ∈ layout.head, ∃ id : PartitionID, partition.id = id.toByte
  numPartitions : layout.numPartitions = layout.head.length

namespace FixedLayout.Tiles

variable {layout layout' : FixedLayout} {startOffset totalBlocks : ℕ}

theorem makeFixedLayout (totalBlocks startOffset : ℕ) :
    (Vdo.makeFixedLayout totalBlocks startOffset).Tiles startOffset totalBlocks where
  startOffset_le := le_refl _
  firstFree_le := by simp [Vdo.makeFixedLayout]
  lastFree_le := le_refl _
  perm := by simp [Vdo.makeFixedLayout, freeBlocks]
  within := by simp [Vdo.makeFixedLayout]
  ids := by simp [Vdo.makeFixedLayout]
  named := by simp [Vdo.makeFixedLayout]
  numPartitions := rfl

/-- The ids of a tiled layout are at most the four `PartitionID`s. -/
theorem length_le (htiles : layout.Tiles startOffset totalBlocks) : layout.head.length ≤ 4 := by
  have hsub : layout.head.map Partition.id ⊆ [0, 1, 2, 3] := by
    intro byte hbyte
    obtain ⟨partition, hmem, rfl⟩ := List.mem_map.mp hbyte
    obtain ⟨id, hid⟩ := htiles.named partition hmem
    cases id <;> simp [hid, PartitionID.toByte]
  simpa using (htiles.ids.subperm hsub).length_le

/-- A new partition of `count` free blocks at the start of the free range. -/
theorem fromBeginning (htiles : layout.Tiles startOffset totalBlocks) {id : PartitionID} {base count : ℕ}
    (hcount : count ≤ getFixedLayoutBlocksAvailable layout)
    (hfresh : ¬∃ partition ∈ layout.head, partition.id = id.toByte) :
    (⟨layout.firstFree + count, layout.lastFree, layout.numPartitions + 1,
      ⟨id.toByte, layout.firstFree, base, count⟩ :: layout.head⟩ : FixedLayout).Tiles startOffset totalBlocks := by
  have hfree := htiles.firstFree_le
  unfold getFixedLayoutBlocksAvailable at hcount
  have hsplit : List.range' layout.firstFree count ++
      List.range' (layout.firstFree + count) (layout.lastFree - (layout.firstFree + count)) = freeBlocks layout := by
    rw [List.range'_append_1, freeBlocks]
    congr 1
    omega
  refine ⟨by have := htiles.startOffset_le; dsimp only; omega, by dsimp only; omega, htiles.lastFree_le,
    ?_, ?_, ?_, ?_, ?_⟩
  · rw [freeBlocks, List.flatMap_cons, Partition.blocks]
    refine (List.perm_append_comm_assoc _ _ _).trans ?_
    rw [← List.append_assoc, hsplit]
    exact htiles.perm
  · intro partition hmem
    rcases List.mem_cons.mp hmem with rfl | hmem
    · exact ⟨htiles.startOffset_le, by have := htiles.lastFree_le; simp only; omega⟩
    · exact htiles.within partition hmem
  · refine List.nodup_cons.mpr ⟨?_, htiles.ids⟩
    intro hmem
    obtain ⟨partition, hpartition, hid⟩ := List.mem_map.mp hmem
    exact hfresh ⟨partition, hpartition, hid⟩
  · intro partition hmem
    rcases List.mem_cons.mp hmem with rfl | hmem
    · exact ⟨id, rfl⟩
    · exact htiles.named partition hmem
  · simp [htiles.numPartitions]

/-- A new partition of `count` free blocks at the end of the free range. -/
theorem fromEnd (htiles : layout.Tiles startOffset totalBlocks) {id : PartitionID} {base count : ℕ}
    (hcount : count ≤ getFixedLayoutBlocksAvailable layout)
    (hfresh : ¬∃ partition ∈ layout.head, partition.id = id.toByte) :
    (⟨layout.firstFree, layout.lastFree - count, layout.numPartitions + 1,
      ⟨id.toByte, layout.lastFree - count, base, count⟩ :: layout.head⟩ : FixedLayout).Tiles
        startOffset totalBlocks := by
  have hfree := htiles.firstFree_le
  unfold getFixedLayoutBlocksAvailable at hcount
  have hsplit : List.range' layout.firstFree (layout.lastFree - count - layout.firstFree) ++
      List.range' (layout.lastFree - count) count = freeBlocks layout := by
    have happend := List.range'_append_1 (s := layout.firstFree) (m := layout.lastFree - count - layout.firstFree)
      (n := count)
    have hstart : layout.firstFree + (layout.lastFree - count - layout.firstFree) = layout.lastFree - count := by
      omega
    have hlength : layout.lastFree - count - layout.firstFree + count = layout.lastFree - layout.firstFree := by
      omega
    rw [hstart, hlength] at happend
    exact happend
  refine ⟨htiles.startOffset_le, by dsimp only; omega, by have := htiles.lastFree_le; dsimp only; omega,
    ?_, ?_, ?_, ?_, ?_⟩
  · rw [freeBlocks, List.flatMap_cons, Partition.blocks, ← List.append_assoc, hsplit]
    exact htiles.perm
  · intro partition hmem
    rcases List.mem_cons.mp hmem with rfl | hmem
    · exact ⟨by have := htiles.startOffset_le; simp only; omega, by have := htiles.lastFree_le; simp only; omega⟩
    · exact htiles.within partition hmem
  · refine List.nodup_cons.mpr ⟨?_, htiles.ids⟩
    intro hmem
    obtain ⟨partition, hpartition, hid⟩ := List.mem_map.mp hmem
    exact hfresh ⟨partition, hpartition, hid⟩
  · intro partition hmem
    rcases List.mem_cons.mp hmem with rfl | hmem
    · exact ⟨id, rfl⟩
    · exact htiles.named partition hmem
  · simp [htiles.numPartitions]

/-- The step lemma: a partition made on a tiled layout leaves it tiled. -/
theorem makeFixedLayoutPartition (htiles : layout.Tiles startOffset totalBlocks) {id : PartitionID}
    {blockCount base : ℕ} {direction : PartitionDirection}
    (h : Vdo.makeFixedLayoutPartition layout id blockCount direction base = .ok layout') :
    layout'.Tiles startOffset totalBlocks := by
  obtain ⟨count, hcount, hfresh, rfl⟩ := makeFixedLayoutPartition_eq_ok h
  split_ifs
  · exact htiles.fromEnd hcount hfresh
  · exact htiles.fromBeginning hcount hfresh

end FixedLayout.Tiles

/-- The total is the length of the free range and of every partition's blocks. -/
theorem foldl_add_count (partitions : List Partition) (size : ℕ) :
    partitions.foldl (fun size partition => size + partition.count) size =
      size + (partitions.flatMap Partition.blocks).length := by
  induction partitions generalizing size with
  | nil => simp
  | cons partition partitions ih =>
    rw [List.foldl_cons, ih, List.flatMap_cons, List.length_append, Partition.blocks, List.length_range']
    omega

theorem getTotalFixedLayoutSize_eq_length (layout : FixedLayout) :
    getTotalFixedLayoutSize layout = (freeBlocks layout ++ layout.head.flatMap Partition.blocks).length := by
  rw [getTotalFixedLayoutSize, foldl_add_count, List.length_append, freeBlocks, List.length_range',
    getFixedLayoutBlocksAvailable]

namespace FixedLayout.Tiles

variable {layout : FixedLayout} {startOffset totalBlocks : ℕ}

theorem getTotalFixedLayoutSize (htiles : layout.Tiles startOffset totalBlocks) :
    Vdo.getTotalFixedLayoutSize layout = totalBlocks := by
  rw [getTotalFixedLayoutSize_eq_length, htiles.perm.length_eq, List.length_range']

theorem nodup (htiles : layout.Tiles startOffset totalBlocks) :
    (freeBlocks layout ++ layout.head.flatMap Partition.blocks).Nodup :=
  htiles.perm.nodup_iff.mpr List.nodup_range'

/-- No two partitions share a block. -/
theorem pairwise_disjoint (htiles : layout.Tiles startOffset totalBlocks) :
    layout.head.Pairwise fun partition partition' => partition.blocks.Disjoint partition'.blocks :=
  (List.nodup_flatMap.mp (List.nodup_append.mp htiles.nodup).2.1).2

/-- No partition holds a free block. -/
theorem free_disjoint (htiles : layout.Tiles startOffset totalBlocks) :
    ∀ partition ∈ layout.head, (freeBlocks layout).Disjoint partition.blocks := by
  intro partition hpartition block hfree hblock
  have hseparate := (List.nodup_append.mp htiles.nodup).2.2
  exact hseparate block hfree block (List.mem_flatMap.mpr ⟨partition, hpartition, hblock⟩) rfl

/-- Each block of the range is free or in a partition, and no other block is. -/
theorem mem_iff (htiles : layout.Tiles startOffset totalBlocks) (block : ℕ) :
    (block ∈ freeBlocks layout ∨ ∃ partition ∈ layout.head, block ∈ partition.blocks) ↔
      startOffset ≤ block ∧ block < startOffset + totalBlocks := by
  rw [← List.mem_range'_1, ← htiles.perm.mem_iff, List.mem_append, List.mem_flatMap]

/-- The fields of a tiled layout fit their widths when its range does and
every base does. -/
theorem fits (htiles : layout.Tiles startOffset totalBlocks) (hoverflow : startOffset + totalBlocks < 2 ^ 64)
    (hbase : ∀ partition ∈ layout.head, partition.base < 2 ^ 64) : layout.Fits where
  firstFree := by have := htiles.firstFree_le; have := htiles.lastFree_le; omega
  lastFree := by have := htiles.lastFree_le; omega
  numPartitions := htiles.numPartitions
  numPartitions_le := by have := htiles.length_le; rw [htiles.numPartitions]; omega
  partitions partition hpartition := by
    obtain ⟨id, hid⟩ := htiles.named partition hpartition
    have hwithin := htiles.within partition hpartition
    refine ⟨?_, by omega, hbase partition hpartition, by omega⟩
    rw [hid]
    cases id <;> decide

end FixedLayout.Tiles

/-! ## Translating block numbers -/

theorem translateToPBN_of_lt {partition : Partition} {partitionBlockNumber : ℕ}
    (hfits : partition.offset + partition.count ≤ 2 ^ 64) (hbase : partition.base ≤ partitionBlockNumber)
    (hcount : partitionBlockNumber < partition.base + partition.count) :
    translateToPBN (some partition) partitionBlockNumber =
      .ok (partition.offset + (partitionBlockNumber - partition.base)) := by
  rw [translateToPBN, if_neg (by omega), if_neg (by omega), Nat.mod_eq_of_lt (by omega)]

theorem translateFromPBN_of_lt {partition : Partition} {layerBlockNumber : ℕ}
    (hfits : partition.base + partition.count ≤ 2 ^ 64) (hoffset : partition.offset ≤ layerBlockNumber)
    (hcount : layerBlockNumber < partition.offset + partition.count) :
    translateFromPBN (some partition) layerBlockNumber =
      .ok (layerBlockNumber - partition.offset + partition.base) := by
  rw [translateFromPBN, if_neg (by omega), if_neg (by omega), Nat.mod_eq_of_lt (by omega)]

theorem translateToPBN_outOfRange {partition : Partition} {partitionBlockNumber : ℕ}
    (h : partitionBlockNumber < partition.base ∨ partition.base + partition.count ≤ partitionBlockNumber) :
    translateToPBN (some partition) partitionBlockNumber = .error .outOfRange := by
  rcases h with hbelow | habove
  · rw [translateToPBN, if_pos hbelow]
  · rw [translateToPBN, if_neg (by omega), if_pos (by omega)]

theorem translateFromPBN_outOfRange {partition : Partition} {layerBlockNumber : ℕ}
    (h : layerBlockNumber < partition.offset ∨ partition.offset + partition.count ≤ layerBlockNumber) :
    translateFromPBN (some partition) layerBlockNumber = .error .outOfRange := by
  rcases h with hbelow | habove
  · rw [translateFromPBN, if_pos hbelow]
  · rw [translateFromPBN, if_neg (by omega), if_pos (by omega)]

/-- `translateToPBN` and `translateFromPBN` of a partition are inverse
bijections between its own numbers `[base, base + count)` and the layout's
`[offset, offset + count)`, and refuse every other number. -/
structure Partition.Translates (partition : Partition) : Prop where
  toPBN : ∀ partitionBlockNumber, partition.base ≤ partitionBlockNumber →
    partitionBlockNumber < partition.base + partition.count →
    ∃ layerBlockNumber, translateToPBN (some partition) partitionBlockNumber = .ok layerBlockNumber ∧
      partition.offset ≤ layerBlockNumber ∧ layerBlockNumber < partition.offset + partition.count ∧
      translateFromPBN (some partition) layerBlockNumber = .ok partitionBlockNumber
  fromPBN : ∀ layerBlockNumber, partition.offset ≤ layerBlockNumber →
    layerBlockNumber < partition.offset + partition.count →
    ∃ partitionBlockNumber, translateFromPBN (some partition) layerBlockNumber = .ok partitionBlockNumber ∧
      partition.base ≤ partitionBlockNumber ∧ partitionBlockNumber < partition.base + partition.count ∧
      translateToPBN (some partition) partitionBlockNumber = .ok layerBlockNumber
  toPBN_outOfRange : ∀ partitionBlockNumber,
    partitionBlockNumber < partition.base ∨ partition.base + partition.count ≤ partitionBlockNumber →
    translateToPBN (some partition) partitionBlockNumber = .error .outOfRange
  fromPBN_outOfRange : ∀ layerBlockNumber,
    layerBlockNumber < partition.offset ∨ partition.offset + partition.count ≤ layerBlockNumber →
    translateFromPBN (some partition) layerBlockNumber = .error .outOfRange

/-- A partition translates both ways when neither of its ranges passes
`2^64`, so that no sum wraps. -/
theorem Partition.translates {partition : Partition} (hoffset : partition.offset + partition.count ≤ 2 ^ 64)
    (hbase : partition.base + partition.count ≤ 2 ^ 64) : partition.Translates where
  toPBN partitionBlockNumber hlow hcount := by
    refine ⟨_, translateToPBN_of_lt hoffset hlow hcount, by omega, by omega, ?_⟩
    rw [translateFromPBN_of_lt hbase (by omega) (by omega)]
    congr 1
    omega
  fromPBN layerBlockNumber hlow hcount := by
    refine ⟨_, translateFromPBN_of_lt hbase hlow hcount, by omega, by omega, ?_⟩
    rw [translateToPBN_of_lt hoffset (by omega) (by omega)]
    congr 1
    omega
  toPBN_outOfRange _ := translateToPBN_outOfRange
  fromPBN_outOfRange _ := translateFromPBN_outOfRange

/-! ## Reading a layout back -/

/-- With distinct ids, the first partition with an id is the only one, so the
order of the list does not change what `getPartition` finds. -/
theorem find?_reverse_of_nodup {partitions : List Partition} (hids : (partitions.map Partition.id).Nodup)
    (byte : ℕ) :
    partitions.reverse.find? (fun partition => partition.id = byte) =
      partitions.find? (fun partition => partition.id = byte) := by
  induction partitions with
  | nil => rfl
  | cons partition partitions ih =>
    rw [List.map_cons, List.nodup_cons] at hids
    rw [List.reverse_cons, List.find?_append, ih hids.2, List.find?_cons]
    by_cases hid : partition.id = byte
    · have hnone : partitions.find? (fun partition => partition.id = byte) = none := by
        rw [List.find?_eq_none]
        intro partition' hpartition' hid'
        exact hids.1 (List.mem_map.mpr ⟨partition', hpartition', by simpa [hid] using hid'⟩)
      simp [hnone, hid]
    · simp [hid]

theorem getPartition_reverse {layout : FixedLayout} (hids : (layout.head.map Partition.id).Nodup)
    (id : PartitionID) :
    getPartition { layout with head := layout.head.reverse } id = getPartition layout id := by
  simp only [getPartition, find?_reverse_of_nodup hids]

/-! ## Runs of calls

A layout is made by `makeFixedLayout` and then carved by calls of
`makeFixedLayoutPartition`, each of which may fail; a failed call changes
nothing, and the calls after it go on from the same layout. -/

/-- The arguments of one call of `makeFixedLayoutPartition`. -/
structure PartitionRequest where
  id : PartitionID
  blockCount : ℕ
  direction : PartitionDirection
  base : ℕ
  deriving DecidableEq, Repr

/-- The calls in turn. -/
def makeFixedLayoutPartitions : FixedLayout → List PartitionRequest → FixedLayout
  | layout, [] => layout
  | layout, request :: requests =>
    match makeFixedLayoutPartition layout request.id request.blockCount request.direction request.base with
    | .ok layout' => makeFixedLayoutPartitions layout' requests
    | .error _ => makeFixedLayoutPartitions layout requests

theorem makeFixedLayoutPartitions_of_error {layout : FixedLayout} {request : PartitionRequest}
    {e : LayoutError}
    (h : makeFixedLayoutPartition layout request.id request.blockCount request.direction request.base = .error e)
    (requests : List PartitionRequest) :
    makeFixedLayoutPartitions layout (request :: requests) = makeFixedLayoutPartitions layout requests := by
  rw [makeFixedLayoutPartitions, h]

/-- The run lemma: every run of calls from a tiled layout ends tiled. -/
theorem FixedLayout.Tiles.makeFixedLayoutPartitions {layout : FixedLayout} {startOffset totalBlocks : ℕ}
    (htiles : layout.Tiles startOffset totalBlocks) (requests : List PartitionRequest) :
    (Vdo.makeFixedLayoutPartitions layout requests).Tiles startOffset totalBlocks := by
  induction requests generalizing layout with
  | nil => exact htiles
  | cons request requests ih =>
    rw [Vdo.makeFixedLayoutPartitions]
    split
    · next layout' hmake => exact ih (htiles.makeFixedLayoutPartition hmake)
    · exact ih htiles

/-- Every partition a run makes has the base of one of its calls. -/
theorem base_lt_of_makeFixedLayoutPartitions {bound : ℕ} {layout : FixedLayout}
    (hlayout : ∀ partition ∈ layout.head, partition.base < bound) {requests : List PartitionRequest}
    (hrequests : ∀ request ∈ requests, request.base < bound) :
    ∀ partition ∈ (makeFixedLayoutPartitions layout requests).head, partition.base < bound := by
  induction requests generalizing layout with
  | nil => exact hlayout
  | cons request requests ih =>
    have hrest : ∀ request ∈ requests, request.base < bound :=
      fun request' hrequest' => hrequests request' (List.mem_cons_of_mem _ hrequest')
    rw [makeFixedLayoutPartitions]
    split
    · next layout' hmake =>
      obtain ⟨count, -, -, rfl⟩ := makeFixedLayoutPartition_eq_ok hmake
      have hnew : ∀ offset, ∀ partition ∈ (⟨request.id.toByte, offset, request.base, count⟩ :: layout.head :
          List Partition), partition.base < bound := by
        intro offset partition hpartition
        rcases List.mem_cons.mp hpartition with rfl | hold
        · exact hrequests request List.mem_cons_self
        · exact hlayout partition hold
      split_ifs <;> exact ih (hnew _) hrest
    · exact ih hlayout hrest

theorem partitions_tile_translate_and_round_trip (totalBlocks startOffset : ℕ)
    (requests : List PartitionRequest) (hoverflow : startOffset + totalBlocks < 2 ^ 64)
    (hbase : ∀ request ∈ requests, request.base < 2 ^ 64) :
    let layout := makeFixedLayoutPartitions (makeFixedLayout totalBlocks startOffset) requests
    ((layout.head.Pairwise fun partition partition' => partition.blocks.Disjoint partition'.blocks) ∧
      (∀ partition ∈ layout.head, (freeBlocks layout).Disjoint partition.blocks) ∧
      (∀ block, (block ∈ freeBlocks layout ∨ ∃ partition ∈ layout.head, block ∈ partition.blocks) ↔
        startOffset ≤ block ∧ block < startOffset + totalBlocks) ∧
      getTotalFixedLayoutSize layout = totalBlocks) ∧
    (∀ request : PartitionRequest,
      let result := makeFixedLayoutPartition layout request.id request.blockCount request.direction request.base
      (result = .error .noSpace ↔ NoSpace layout request.blockCount) ∧
      (result = .error .partitionExists ↔
        ¬NoSpace layout request.blockCount ∧ ∃ partition ∈ layout.head, partition.id = request.id.toByte) ∧
      ∀ e, result = .error e →
        (e = .noSpace ∨ e = .partitionExists) ∧ makeFixedLayoutPartitions layout [request] = layout) ∧
    (∀ partition ∈ layout.head, partition.base + partition.count ≤ 2 ^ 64 → partition.Translates) ∧
    ∃ bytes, encodeFixedLayout layout [] = .ok bytes ∧ ∀ rest,
      decodeFixedLayout (bytes ++ rest) = .ok ({ layout with head := layout.head.reverse }, rest) ∧
      ∀ id, getPartition { layout with head := layout.head.reverse } id = getPartition layout id := by
  intro layout
  have htiles : layout.Tiles startOffset totalBlocks :=
    (FixedLayout.Tiles.makeFixedLayout totalBlocks startOffset).makeFixedLayoutPartitions requests
  have hfits : layout.Fits :=
    htiles.fits hoverflow (base_lt_of_makeFixedLayoutPartitions (by simp [makeFixedLayout]) hbase)
  refine ⟨⟨htiles.pairwise_disjoint, htiles.free_disjoint, htiles.mem_iff, htiles.getTotalFixedLayoutSize⟩,
    fun request => ⟨?_, ?_, ?_⟩,
    fun partition hmem hbase => Partition.translates (by have := htiles.within partition hmem; omega) hbase,
    fixedLayoutBytes layout, by rw [encodeFixedLayout_eq hfits, List.nil_append], fun rest =>
      ⟨decodeFixedLayout_fixedLayoutBytes hfits rest, getPartition_reverse htiles.ids⟩⟩
  · exact makeFixedLayoutPartition_eq_noSpace_iff _ _ _ _ _
  · exact makeFixedLayoutPartition_eq_partitionExists_iff _ _ _ _ _
  · intro e he
    exact ⟨makeFixedLayoutPartition_error he, makeFixedLayoutPartitions_of_error he []⟩

theorem partitions_tile_translate_and_round_trip_three_calls :
    let requests : List PartitionRequest :=
      [⟨.blockMap, 10, .fromBeginning, 0⟩, ⟨.slabSummary, allFreeBlocks, .fromEnd, 5⟩,
        ⟨.recoveryJournal, 1, .fromEnd, 0⟩]
    let layout := makeFixedLayoutPartitions (makeFixedLayout 100 0) requests
    (0 + 100 < 2 ^ 64 ∧ ∀ request ∈ requests, request.base < 2 ^ 64) ∧
    (∀ partition ∈ layout.head, partition.base + partition.count ≤ 2 ^ 64) ∧
    ((layout.head.Pairwise fun partition partition' => partition.blocks.Disjoint partition'.blocks) ∧
      (∀ partition ∈ layout.head, (freeBlocks layout).Disjoint partition.blocks) ∧
      (∀ block, (block ∈ freeBlocks layout ∨ ∃ partition ∈ layout.head, block ∈ partition.blocks) ↔
        0 ≤ block ∧ block < 0 + 100) ∧
      getTotalFixedLayoutSize layout = 100) ∧
    (∀ request : PartitionRequest,
      let result := makeFixedLayoutPartition layout request.id request.blockCount request.direction request.base
      (result = .error .noSpace ↔ NoSpace layout request.blockCount) ∧
      (result = .error .partitionExists ↔
        ¬NoSpace layout request.blockCount ∧ ∃ partition ∈ layout.head, partition.id = request.id.toByte) ∧
      ∀ e, result = .error e →
        (e = .noSpace ∨ e = .partitionExists) ∧ makeFixedLayoutPartitions layout [request] = layout) ∧
    (∀ partition ∈ layout.head, partition.base + partition.count ≤ 2 ^ 64 → partition.Translates) ∧
    ∃ bytes, encodeFixedLayout layout [] = .ok bytes ∧ ∀ rest,
      decodeFixedLayout (bytes ++ rest) = .ok ({ layout with head := layout.head.reverse }, rest) ∧
      ∀ id, getPartition { layout with head := layout.head.reverse } id = getPartition layout id :=
  ⟨⟨by norm_num, by simp⟩, by decide, partitions_tile_translate_and_round_trip 100 0 _ (by norm_num) (by simp)⟩

end Vdo
