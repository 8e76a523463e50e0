import Vdo.Base.RefCountsSearch
import Vdo.Base.SlabScrubber
import Mathlib.Data.Nat.Bitwise

/-!
# The slab journal block format

A slab journal block (`slabJournalInternals.h`) is a 36-byte header and a
payload of three-byte entries: the 23-bit slab block number, little-endian,
and an increment flag in the top bit. A block that holds block map increments
has room for fewer entries, followed by a bit map of which entries are block
map increments; the two layouts share the payload's bytes, and the bit map lies
past the last entry such a block can hold. Bytes are natural numbers, a block's
bytes functions from their offsets; the masks and shifts with which the source
splits a number into bytes are written as division and remainder by powers of
two, the shifts and ors with which it joins them as the source has them.

`encodeSlabJournalEntry` builds the tail block one entry at a time, and
`SlabJournalTail.Holds` says what the tail holds after each: the step lemma
`SlabJournalTail.Holds.encode` carries it across one entry, and
`encodeSlabJournalEntries_holds` across a whole block. The decoder then reads
back every entry and the header fields, whatever the buffer held before, as
long as the block keeps to the capacity `addEntry` enforces, except that a
block map decrement reads back as a data decrement, and the recovery point
only when its sequence number fits 48 bits.
-/

namespace Vdo

/-- `VDO_BLOCK_SIZE`. -/
def vdoBlockSize : ℕ := 4096

/-- The size of a `PackedSlabJournalBlockHeader`. -/
def packedSlabJournalBlockHeaderSize : ℕ := 8 + 8 + 8 + 8 + 1 + 1 + 2

/-- The size of a `PackedSlabJournalEntry`. -/
def packedSlabJournalEntrySize : ℕ := 3

/-- `SLAB_JOURNAL_PAYLOAD_SIZE`. -/
def slabJournalPayloadSize : ℕ := vdoBlockSize - packedSlabJournalBlockHeaderSize

/-- `SLAB_JOURNAL_FULL_ENTRIES_PER_BLOCK`: entries of 25 bits, the type bit
included. -/
def slabJournalFullEntriesPerBlock : ℕ := slabJournalPayloadSize * 8 / 25

/-- `SLAB_JOURNAL_ENTRY_TYPES_SIZE`. -/
def slabJournalEntryTypesSize : ℕ := (slabJournalFullEntriesPerBlock - 1) / 8 + 1

/-- `SLAB_JOURNAL_ENTRIES_PER_BLOCK`. -/
def slabJournalEntriesPerBlock : ℕ := slabJournalPayloadSize / packedSlabJournalEntrySize

/-- The payload offset of `fullEntries.entryTypes`, just past the entries a
block with block map increments holds. -/
def slabJournalEntryTypesOffset : ℕ := packedSlabJournalEntrySize * slabJournalFullEntriesPerBlock

theorem slabJournalFullEntriesPerBlock_eq : slabJournalFullEntriesPerBlock = 1299 := rfl

theorem slabJournalEntriesPerBlock_eq : slabJournalEntriesPerBlock = 1353 := rfl

theorem slabJournalEntryTypesSize_eq : slabJournalEntryTypesSize = 163 := rfl

/-! ## Little-endian fields -/

/-- Store the `width` low bytes of `value` little-endian at `offset`
(`storeUInt64LE`, `storeUInt16LE`). -/
def storeLE (bytes : ℕ → ℕ) (offset width value : ℕ) : ℕ → ℕ :=
  fun index => if offset ≤ index ∧ index < offset + width then value / 256 ^ (index - offset) % 256
    else bytes index

/-- `storeUInt64LE`. -/
def storeUInt64LE (bytes : ℕ → ℕ) (offset value : ℕ) : ℕ → ℕ := storeLE bytes offset 8 value

/-- `storeUInt16LE`. -/
def storeUInt16LE (bytes : ℕ → ℕ) (offset value : ℕ) : ℕ → ℕ := storeLE bytes offset 2 value

/-- `getUInt16LE`. -/
def getUInt16LE (bytes : ℕ → ℕ) (offset : ℕ) : ℕ := wordLE bytes offset 2

/-- A word reads only its own bytes. -/
theorem wordLE_congr {bytes bytes' : ℕ → ℕ} {offset width : ℕ}
    (h : ∀ index, offset ≤ index → index < offset + width → bytes index = bytes' index) :
    wordLE bytes offset width = wordLE bytes' offset width := by
  induction width generalizing offset with
  | zero => rfl
  | succ width ih =>
    rw [wordLE, wordLE, h offset le_rfl (by omega),
      ih fun index hle hlt => h index (by omega) (by omega)]

/-- A store leaves the bytes outside its field. -/
theorem storeLE_of_not_mem {bytes : ℕ → ℕ} {offset width value index : ℕ}
    (h : index < offset ∨ offset + width ≤ index) : storeLE bytes offset width value index = bytes index := by
  rw [storeLE, if_neg (by omega)]

/-- Reading a field back gives the value stored, less what does not fit. -/
theorem wordLE_storeLE (bytes : ℕ → ℕ) (offset width value : ℕ) :
    wordLE (storeLE bytes offset width value) offset width = value % 256 ^ width := by
  induction width generalizing offset value with
  | zero => rw [pow_zero, Nat.mod_one]; rfl
  | succ width ih =>
    have hrest : wordLE (storeLE bytes offset (width + 1) value) (offset + 1) width =
        wordLE (storeLE bytes (offset + 1) width (value / 256)) (offset + 1) width := by
      apply wordLE_congr
      intro index hle hlt
      have hpow : value / 256 ^ (index - offset) = value / 256 / 256 ^ (index - (offset + 1)) := by
        rw [Nat.div_div_eq_div_mul, ← pow_succ']
        congr 2
        omega
      rw [storeLE, storeLE, if_pos (by omega), if_pos (by omega), hpow]
    rw [wordLE, hrest, ih, storeLE, if_pos (by omega), Nat.sub_self, pow_zero, Nat.div_one,
      pow_succ', Nat.mod_mul]

/-- A store leaves every word outside its field. -/
theorem wordLE_storeLE_of_disjoint {bytes : ℕ → ℕ} {offset width value offset' width' : ℕ}
    (h : offset' + width' ≤ offset ∨ offset + width ≤ offset') :
    wordLE (storeLE bytes offset width value) offset' width' = wordLE bytes offset' width' :=
  wordLE_congr fun _ hle hlt => storeLE_of_not_mem (by omega)

/-- A one-byte write leaves every word that does not hold the byte. -/
theorem wordLE_update_of_not_mem {bytes : ℕ → ℕ} {offset width index value : ℕ}
    (h : index < offset ∨ offset + width ≤ index) :
    wordLE (Function.update bytes index value) offset width = wordLE bytes offset width :=
  wordLE_congr fun _ hle hlt => Function.update_of_ne (by omega) _ _

/-! ## The header -/

/-- `packSlabJournalBlockHeader`: `head`, `sequenceNumber`, the recovery
point and `nonce` at offsets 0, 8, 16 and 24, then the metadata type, the
block map flag and the 16-bit entry count. The model's header keeps the
recovery point apart, as the scrubber never reads it. -/
def packSlabJournalBlockHeader (header : SlabJournalBlockHeader) (recoveryPoint : JournalPoint)
    (packed : ℕ → ℕ) : ℕ → ℕ :=
  let packed := storeUInt64LE packed 0 header.head
  let packed := storeUInt64LE packed 8 header.sequenceNumber
  let packed := storeUInt64LE packed 24 header.nonce
  let packed := storeUInt16LE packed 34 header.entryCount
  let packed := Function.update packed 32 (header.metadataType % 256)
  let packed := Function.update packed 33 (if header.hasBlockMapIncrements then 1 else 0)
  storeUInt64LE packed 16 (packJournalPoint recoveryPoint)

/-- `unpackSlabJournalBlockHeader`: the header and its recovery point. -/
def unpackSlabJournalBlockHeader (packed : ℕ → ℕ) : SlabJournalBlockHeader × JournalPoint :=
  (⟨getUInt64LE packed 0, getUInt64LE packed 8, getUInt64LE packed 24, packed 32, packed 33 != 0,
    getUInt16LE packed 34⟩, unpackJournalPoint (getUInt64LE packed 16))

/-- A header whose fields fit their widths reads back from its packing, with a
recovery point whose sequence number fits the 48 bits above the entry count. -/
theorem unpackSlabJournalBlockHeader_packSlabJournalBlockHeader {header : SlabJournalBlockHeader}
    {recoveryPoint : JournalPoint} (packed : ℕ → ℕ) (hhead : header.head < 2 ^ 64)
    (hsequence : header.sequenceNumber < 2 ^ 64) (hnonce : header.nonce < 2 ^ 64)
    (htype : header.metadataType < 2 ^ 8) (hcount : header.entryCount < 2 ^ 16)
    (hpoint : recoveryPoint.sequenceNumber < 2 ^ 48)
    (hpointCount : recoveryPoint.entryCount < 2 ^ 16) :
    unpackSlabJournalBlockHeader (packSlabJournalBlockHeader header recoveryPoint packed) =
      (header, recoveryPoint) := by
  have hword : packJournalPoint recoveryPoint % 256 ^ 8 = packJournalPoint recoveryPoint :=
    Nat.mod_eq_of_lt (Nat.mod_lt _ (by norm_num))
  have hflag : ((if header.hasBlockMapIncrements then 1 else 0) != 0) = header.hasBlockMapIncrements := by
    cases header.hasBlockMapIncrements <;> rfl
  simp (disch := omega) only [unpackSlabJournalBlockHeader, packSlabJournalBlockHeader,
    getUInt64LE, getUInt16LE, storeUInt64LE, storeUInt16LE, wordLE_storeLE,
    wordLE_storeLE_of_disjoint, wordLE_update_of_not_mem, storeLE_of_not_mem,
    Function.update_self, Function.update_of_ne, hword, hflag,
    unpackJournalPoint_packJournalPoint hpoint hpointCount]
  obtain ⟨head, sequenceNumber, nonce, metadataType, hasBlockMapIncrements, entryCount⟩ := header
  simp only at hhead hsequence hnonce htype hcount ⊢
  congr 2 <;> omega

/-! ## Entries and their types -/

/-- `packSlabJournalEntry`: entry `entryNumber` of the payload, the low and
middle bytes of its slab block number, then its high seven bits with the
increment flag above them. -/
def packSlabJournalEntry (payload : ℕ → ℕ) (entryNumber sbn : ℕ) (isIncrement : Bool) : ℕ → ℕ :=
  let offset := packedSlabJournalEntrySize * entryNumber
  let payload := Function.update payload offset (sbn % 2 ^ 8)
  let payload := Function.update payload (offset + 1) (sbn / 2 ^ 8 % 2 ^ 8)
  Function.update payload (offset + 2) (sbn / 2 ^ 16 % 2 ^ 7 + 2 ^ 7 * if isIncrement then 1 else 0)

/-- `unpackSlabJournalEntry`: entry `entryNumber` of the payload, a data
increment or decrement as its flag says. -/
def unpackSlabJournalEntry (payload : ℕ → ℕ) (entryNumber : ℕ) : SlabJournalEntry :=
  let offset := packedSlabJournalEntrySize * entryNumber
  let offsetHigh7 := payload (offset + 2) % 2 ^ 7
  let increment := payload (offset + 2) / 2 ^ 7 % 2
  ⟨((offsetHigh7 <<< 8 ||| payload (offset + 1)) <<< 8) ||| payload offset,
    if increment != 0 then .dataIncrement else .dataDecrement⟩

/-- The `memset` of `encodeSlabJournalEntry`: zero `fullEntries.entryTypes`. -/
def clearEntryTypes (payload : ℕ → ℕ) : ℕ → ℕ :=
  fun index => if slabJournalEntryTypesOffset ≤ index ∧
      index < slabJournalEntryTypesOffset + slabJournalEntryTypesSize then 0
    else payload index

/-- Mark entry `entryNumber` as a block map increment:
`entryTypes[entryNumber / 8] |= 1 << (entryNumber % 8)`. -/
def setEntryType (payload : ℕ → ℕ) (entryNumber : ℕ) : ℕ → ℕ :=
  let index := slabJournalEntryTypesOffset + entryNumber / 8
  Function.update payload index (payload index ||| 1 <<< (entryNumber % 8))

/-- The test of `decodeSlabJournalEntry`: whether the entry-type bit of entry
`entryNumber` is set. -/
def entryTypeBit (payload : ℕ → ℕ) (entryNumber : ℕ) : Bool :=
  payload (slabJournalEntryTypesOffset + entryNumber / 8) &&& 1 <<< (entryNumber % 8) != 0

/-- An or below a shift by eight adds the low byte. -/
theorem shiftLeft_eight_or {high low : ℕ} (hlow : low < 2 ^ 8) :
    high <<< 8 ||| low = high * 2 ^ 8 + low := by
  rw [← Nat.shiftLeft_add_eq_or_of_lt hlow, Nat.shiftLeft_eq]

/-- An entry reads only its own three bytes. -/
theorem unpackSlabJournalEntry_congr {payload payload' : ℕ → ℕ} {entryNumber : ℕ}
    (h : ∀ index, packedSlabJournalEntrySize * entryNumber ≤ index →
      index < packedSlabJournalEntrySize * entryNumber + 3 → payload index = payload' index) :
    unpackSlabJournalEntry payload entryNumber = unpackSlabJournalEntry payload' entryNumber := by
  have hlow := h _ le_rfl (by omega)
  have hmid := h (packedSlabJournalEntrySize * entryNumber + 1) (by omega) (by omega)
  have hhigh := h (packedSlabJournalEntrySize * entryNumber + 2) (by omega) (by omega)
  simp only [unpackSlabJournalEntry, hlow, hmid, hhigh]

/-- Packing an entry writes only its own three bytes. -/
theorem packSlabJournalEntry_of_not_mem {payload : ℕ → ℕ} {entryNumber sbn index : ℕ}
    {isIncrement : Bool} (h : index < packedSlabJournalEntrySize * entryNumber ∨
      packedSlabJournalEntrySize * entryNumber + 3 ≤ index) :
    packSlabJournalEntry payload entryNumber sbn isIncrement index = payload index := by
  simp only [packSlabJournalEntry, packedSlabJournalEntrySize] at h ⊢
  rw [Function.update_of_ne (by omega), Function.update_of_ne (by omega),
    Function.update_of_ne (by omega)]

/-- A slab block number of 23 bits reads back from its entry, as a data
increment or decrement. -/
theorem unpackSlabJournalEntry_packSlabJournalEntry (payload : ℕ → ℕ) (entryNumber : ℕ)
    {sbn : ℕ} (isIncrement : Bool) (hsbn : sbn < 2 ^ 23) :
    unpackSlabJournalEntry (packSlabJournalEntry payload entryNumber sbn isIncrement) entryNumber =
      ⟨sbn, if isIncrement then .dataIncrement else .dataDecrement⟩ := by
  have hhigh : (sbn / 2 ^ 16 % 2 ^ 7 + 2 ^ 7 * if isIncrement then 1 else 0) % 2 ^ 7 =
      sbn / 2 ^ 16 % 2 ^ 7 := by
    cases isIncrement <;> simp
  have hflag : ((sbn / 2 ^ 16 % 2 ^ 7 + 2 ^ 7 * if isIncrement then 1 else 0) / 2 ^ 7 % 2 != 0) =
      isIncrement := by
    cases isIncrement <;> simp
  simp only [unpackSlabJournalEntry, packSlabJournalEntry, Function.update_self,
    Function.update_of_ne (show packedSlabJournalEntrySize * entryNumber + 1 ≠
      packedSlabJournalEntrySize * entryNumber + 2 by omega),
    Function.update_of_ne (show packedSlabJournalEntrySize * entryNumber ≠
      packedSlabJournalEntrySize * entryNumber + 2 by omega),
    Function.update_of_ne (show packedSlabJournalEntrySize * entryNumber ≠
      packedSlabJournalEntrySize * entryNumber + 1 by omega), hhigh, hflag,
    shiftLeft_eight_or (Nat.mod_lt _ (by norm_num : 0 < 2 ^ 8))]
  congr 1
  omega

/-- The entry-type test reads one bit of the entry's byte. -/
theorem entryTypeBit_eq_testBit (payload : ℕ → ℕ) (entryNumber : ℕ) :
    entryTypeBit payload entryNumber =
      (payload (slabJournalEntryTypesOffset + entryNumber / 8)).testBit (entryNumber % 8) := by
  rw [entryTypeBit, Nat.one_shiftLeft, Nat.and_two_pow]
  cases (payload (slabJournalEntryTypesOffset + entryNumber / 8)).testBit (entryNumber % 8) <;> simp

/-- The entries a block with block map increments can hold lie below its
entry types. -/
theorem entry_bytes_lt_entryTypesOffset {entryNumber index : ℕ}
    (hentry : entryNumber < slabJournalFullEntriesPerBlock)
    (hindex : index < packedSlabJournalEntrySize * entryNumber + 3) :
    index < slabJournalEntryTypesOffset := by
  rw [slabJournalEntryTypesOffset, slabJournalFullEntriesPerBlock_eq] at *
  rw [packedSlabJournalEntrySize] at *
  omega

/-- Clearing the entry types leaves the entries a full block can hold. -/
theorem unpackSlabJournalEntry_clearEntryTypes (payload : ℕ → ℕ) {entryNumber : ℕ}
    (hentry : entryNumber < slabJournalFullEntriesPerBlock) :
    unpackSlabJournalEntry (clearEntryTypes payload) entryNumber =
      unpackSlabJournalEntry payload entryNumber :=
  unpackSlabJournalEntry_congr fun _ _ hlt =>
    if_neg fun hmem => absurd hmem.1 (not_le.mpr (entry_bytes_lt_entryTypesOffset hentry hlt))

/-- Setting an entry type leaves the entries a full block can hold. -/
theorem unpackSlabJournalEntry_setEntryType (payload : ℕ → ℕ) (typed : ℕ) {entryNumber : ℕ}
    (hentry : entryNumber < slabJournalFullEntriesPerBlock) :
    unpackSlabJournalEntry (setEntryType payload typed) entryNumber =
      unpackSlabJournalEntry payload entryNumber :=
  unpackSlabJournalEntry_congr fun _ _ hlt =>
    Function.update_of_ne (by have := entry_bytes_lt_entryTypesOffset hentry hlt; omega) _ _

/-- Packing an entry leaves the other entries. -/
theorem unpackSlabJournalEntry_packSlabJournalEntry_of_ne (payload : ℕ → ℕ) {entryNumber packed sbn : ℕ}
    (isIncrement : Bool) (hne : entryNumber ≠ packed) :
    unpackSlabJournalEntry (packSlabJournalEntry payload packed sbn isIncrement) entryNumber =
      unpackSlabJournalEntry payload entryNumber :=
  unpackSlabJournalEntry_congr fun _ hle hlt => packSlabJournalEntry_of_not_mem (by
    rw [packedSlabJournalEntrySize] at *
    omega)

/-- Packing an entry a full block can hold leaves the entry types. -/
theorem entryTypeBit_packSlabJournalEntry (payload : ℕ → ℕ) {packed sbn : ℕ} (isIncrement : Bool)
    (entryNumber : ℕ) (hpacked : packed < slabJournalFullEntriesPerBlock) :
    entryTypeBit (packSlabJournalEntry payload packed sbn isIncrement) entryNumber =
      entryTypeBit payload entryNumber := by
  have hbelow := entry_bytes_lt_entryTypesOffset hpacked
    (lt_add_one (packedSlabJournalEntrySize * packed + 2))
  rw [entryTypeBit, entryTypeBit, packSlabJournalEntry_of_not_mem (by omega)]

/-- No entry a full block can hold is typed once the entry types are cleared. -/
theorem entryTypeBit_clearEntryTypes (payload : ℕ → ℕ) {entryNumber : ℕ}
    (hentry : entryNumber < slabJournalFullEntriesPerBlock) :
    entryTypeBit (clearEntryTypes payload) entryNumber = false := by
  have hbyte : clearEntryTypes payload (slabJournalEntryTypesOffset + entryNumber / 8) = 0 := by
    rw [clearEntryTypes, if_pos]
    rw [slabJournalFullEntriesPerBlock_eq] at hentry
    rw [slabJournalEntryTypesSize_eq]
    omega
  rw [entryTypeBit_eq_testBit, hbyte, Nat.zero_testBit]

/-- Setting the type of one entry sets its bit and no other. -/
theorem entryTypeBit_setEntryType (payload : ℕ → ℕ) (typed entryNumber : ℕ) :
    entryTypeBit (setEntryType payload typed) entryNumber =
      (decide (entryNumber = typed) || entryTypeBit payload entryNumber) := by
  rw [entryTypeBit_eq_testBit, entryTypeBit_eq_testBit, setEntryType]
  by_cases hbyte : entryNumber / 8 = typed / 8
  · have hsame : (entryNumber = typed) ↔ typed % 8 = entryNumber % 8 := by omega
    rw [hbyte, Function.update_self, ← hbyte, Nat.one_shiftLeft, Nat.testBit_or, Nat.testBit_two_pow,
      Bool.or_comm]
    simp only [hsame]
  · have hne : entryNumber ≠ typed := fun h => hbyte (h ▸ rfl)
    rw [Function.update_of_ne (by omega), decide_eq_false hne, Bool.false_or]

/-! ## Encoding the tail block and decoding a written one -/

/-- `encodeSlabJournalEntry`: append an entry to the tail block. The first
block map increment switches the block to the layout with entry types,
clearing them. -/
def encodeSlabJournalEntry (tailHeader : SlabJournalBlockHeader) (payload : ℕ → ℕ) (sbn : ℕ)
    (operation : JournalOperation) : SlabJournalBlockHeader × (ℕ → ℕ) :=
  let entryNumber := tailHeader.entryCount
  if operation = .blockMapIncrement then
    let payload := if tailHeader.hasBlockMapIncrements then payload else clearEntryTypes payload
    ({ tailHeader with entryCount := entryNumber + 1, hasBlockMapIncrements := true },
      packSlabJournalEntry (setEntryType payload entryNumber) entryNumber sbn
        (isIncrementOperation operation))
  else
    ({ tailHeader with entryCount := entryNumber + 1 },
      packSlabJournalEntry payload entryNumber sbn (isIncrementOperation operation))

/-- The tail block after `addEntry` has encoded each of `entries` in turn. -/
def encodeSlabJournalEntries (tailHeader : SlabJournalBlockHeader) (payload : ℕ → ℕ)
    (entries : List SlabJournalEntry) : SlabJournalBlockHeader × (ℕ → ℕ) :=
  entries.foldl (fun tail entry => encodeSlabJournalEntry tail.1 tail.2 entry.sbn entry.operation)
    (tailHeader, payload)

/-- `PackedSlabJournalBlock`: the bytes of the packed header and of the
payload. -/
structure PackedSlabJournalBlock where
  /-- The 36 bytes of the packed header. -/
  header : ℕ → ℕ
  /-- The payload, in either of its layouts. -/
  payload : ℕ → ℕ

/-- `decodeSlabJournalEntry`: entry `entryCount` of a written block; an entry
whose type bit is set in a block with block map increments is one. -/
def decodeSlabJournalEntry (block : PackedSlabJournalBlock) (entryCount : ℕ) : SlabJournalEntry :=
  let entry := unpackSlabJournalEntry block.payload entryCount
  if (block.header 33 != 0) && entryTypeBit block.payload entryCount then
    { entry with operation := .blockMapIncrement }
  else entry

/-- What a decoded entry says of an operation: the flag keeps only whether it
is an increment, the entry types whether it is a block map increment. -/
def decodedOperation : JournalOperation → JournalOperation
  | .blockMapIncrement => .blockMapIncrement
  | operation => if isIncrementOperation operation then .dataIncrement else .dataDecrement

/-- Every operation but a block map decrement decodes as itself. -/
theorem decodedOperation_eq {operation : JournalOperation}
    (h : operation ≠ .blockMapDecrement) : decodedOperation operation = operation := by
  cases operation <;> simp_all [decodedOperation, isIncrementOperation]

/-- Whether an entry is a block map increment. -/
def isBlockMapIncrement (entry : SlabJournalEntry) : Bool :=
  decide (entry.operation = .blockMapIncrement)

/-- The capacity `addEntries` and `addEntry` keep the tail block to
(`blockIsFull`): `fullEntriesPerBlock` entries once one of them is a block map
increment, `entriesPerBlock` otherwise. -/
def tailBlockCapacity (entries : List SlabJournalEntry) : ℕ :=
  if entries.any isBlockMapIncrement then slabJournalFullEntriesPerBlock else slabJournalEntriesPerBlock

/-- The block `commitSlabJournalTail` writes: the tail header packed over the
block's header bytes, with the payload the entries were encoded into. -/
def committedBlock (tailHeader : SlabJournalBlockHeader) (recoveryPoint : JournalPoint)
    (payload packed : ℕ → ℕ) : PackedSlabJournalBlock :=
  ⟨packSlabJournalBlockHeader tailHeader recoveryPoint packed, payload⟩

/-! ## The tail block's invariant -/

/-- An entry as its three bytes record it: the slab block number and whether
it is an increment. -/
def unpackedEntry (entry : SlabJournalEntry) : SlabJournalEntry :=
  ⟨entry.sbn, if isIncrementOperation entry.operation then .dataIncrement else .dataDecrement⟩

/-- Whether entry `entryNumber` of `entries` is a block map increment. -/
def isBlockMapIncrementAt (entries : List SlabJournalEntry) (entryNumber : ℕ) : Bool :=
  decide (entries[entryNumber]?.map SlabJournalEntry.operation = some .blockMapIncrement)

/-- Appending an entry types one more position. -/
theorem isBlockMapIncrementAt_append_singleton (entries : List SlabJournalEntry)
    (entry : SlabJournalEntry) (entryNumber : ℕ) :
    isBlockMapIncrementAt (entries ++ [entry]) entryNumber =
      (decide (entryNumber = entries.length ∧ entry.operation = .blockMapIncrement) ||
        isBlockMapIncrementAt entries entryNumber) := by
  rcases lt_trichotomy entryNumber entries.length with hlt | heq | hgt
  · simp [isBlockMapIncrementAt, List.getElem?_append_left hlt, hlt.ne]
  · subst heq
    simp [isBlockMapIncrementAt]
  · simp [isBlockMapIncrementAt, hgt.ne', List.getElem?_eq_none_iff.mpr hgt.le, hgt.not_ge]

/-- No position of a list without block map increments is typed. -/
theorem isBlockMapIncrementAt_of_any_eq_false {entries : List SlabJournalEntry}
    (h : entries.any isBlockMapIncrement = false) (entryNumber : ℕ) :
    isBlockMapIncrementAt entries entryNumber = false := by
  rcases hentry : entries[entryNumber]? with _ | entry
  · simp [isBlockMapIncrementAt, hentry]
  · have hmem : entry ∈ entries := List.mem_of_getElem? hentry
    simp only [List.any_eq_false, isBlockMapIncrement, decide_eq_true_eq] at h
    simp [isBlockMapIncrementAt, hentry, h entry hmem]

/-- `SlabJournalTail.Holds initial tailHeader payload done`: the tail block,
started from the header `initial`, holds the entries `done`. Its header counts
them and is flagged exactly when one of them is a block map increment; each
entry reads back from its bytes; and in the layout with entry types the types
of the entries a full block holds are exactly the block map increments. -/
structure SlabJournalTail.Holds (initial tailHeader : SlabJournalBlockHeader) (payload : ℕ → ℕ)
    (done : List SlabJournalEntry) : Prop where
  header_eq : tailHeader =
    { initial with entryCount := done.length, hasBlockMapIncrements := done.any isBlockMapIncrement }
  entry_eq : ∀ entryNumber (h : entryNumber < done.length),
    unpackSlabJournalEntry payload entryNumber = unpackedEntry done[entryNumber]
  entryType_eq : tailHeader.hasBlockMapIncrements = true →
    ∀ entryNumber < slabJournalFullEntriesPerBlock,
      entryTypeBit payload entryNumber = isBlockMapIncrementAt done entryNumber

namespace SlabJournalTail.Holds

variable {initial tailHeader : SlabJournalBlockHeader} {payload : ℕ → ℕ}
  {done : List SlabJournalEntry}

/-- A freshly initialized tail block holds no entries. -/
theorem fresh (hcount : initial.entryCount = 0) (hflag : initial.hasBlockMapIncrements = false)
    (payload : ℕ → ℕ) : SlabJournalTail.Holds initial initial payload [] where
  header_eq := by
    obtain ⟨head, sequenceNumber, nonce, metadataType, hasBlockMapIncrements, entryCount⟩ := initial
    simp only at hcount hflag
    simp [hcount, hflag]
  entry_eq := fun _ h => absurd h (Nat.not_lt_zero _)
  entryType_eq := fun h => absurd h (by simp [hflag])

theorem entryCount_eq (hold : SlabJournalTail.Holds initial tailHeader payload done) :
    tailHeader.entryCount = done.length := by
  rw [hold.header_eq]

theorem hasBlockMapIncrements_eq (hold : SlabJournalTail.Holds initial tailHeader payload done) :
    tailHeader.hasBlockMapIncrements = done.any isBlockMapIncrement := by
  rw [hold.header_eq]

/-- The entries of the block after packing `entry` at the next position over a
payload that keeps the earlier ones. -/
theorem entry_eq_of_pack (hold : SlabJournalTail.Holds initial tailHeader payload done)
    {payload' : ℕ → ℕ} {entry : SlabJournalEntry} (hsbn : entry.sbn < 2 ^ 23)
    (hkeep : ∀ entryNumber < done.length,
      unpackSlabJournalEntry payload' entryNumber = unpackSlabJournalEntry payload entryNumber)
    (entryNumber : ℕ) (h : entryNumber < (done ++ [entry]).length) :
    unpackSlabJournalEntry (packSlabJournalEntry payload' done.length entry.sbn
      (isIncrementOperation entry.operation)) entryNumber = unpackedEntry (done ++ [entry])[entryNumber] := by
  rw [List.length_append, List.length_singleton] at h
  rcases Nat.lt_succ_iff_lt_or_eq.mp h with hlt | heq
  · rw [unpackSlabJournalEntry_packSlabJournalEntry_of_ne _ _ hlt.ne, hkeep _ hlt,
      hold.entry_eq _ hlt, List.getElem_append_left hlt]
  · subst heq
    rw [unpackSlabJournalEntry_packSlabJournalEntry _ _ _ hsbn, List.getElem_concat_length rfl]
    rfl

/-- Encoding a block map increment keeps the invariant while a full block has
room for it. -/
theorem encode_of_blockMapIncrement (hold : SlabJournalTail.Holds initial tailHeader payload done)
    {entry : SlabJournalEntry} (hsbn : entry.sbn < 2 ^ 23) (hop : entry.operation = .blockMapIncrement)
    (hroom : done.length < slabJournalFullEntriesPerBlock) :
    SlabJournalTail.Holds initial (encodeSlabJournalEntry tailHeader payload entry.sbn entry.operation).1
      (encodeSlabJournalEntry tailHeader payload entry.sbn entry.operation).2 (done ++ [entry]) := by
  set typed := if tailHeader.hasBlockMapIncrements then payload else clearEntryTypes payload
  have hkeep : ∀ entryNumber < done.length,
      unpackSlabJournalEntry (setEntryType typed done.length) entryNumber =
        unpackSlabJournalEntry payload entryNumber := by
    intro entryNumber hlt
    rw [unpackSlabJournalEntry_setEntryType _ _ (hlt.trans hroom)]
    by_cases hflag : tailHeader.hasBlockMapIncrements
    · simp only [typed, if_pos hflag]
    · simp only [typed, if_neg hflag, unpackSlabJournalEntry_clearEntryTypes _ (hlt.trans hroom)]
  have hencode : encodeSlabJournalEntry tailHeader payload entry.sbn entry.operation =
      ({ tailHeader with entryCount := done.length + 1, hasBlockMapIncrements := true },
        packSlabJournalEntry (setEntryType typed done.length) done.length entry.sbn
          (isIncrementOperation entry.operation)) := by
    simp only [encodeSlabJournalEntry, if_pos hop, hold.entryCount_eq, typed]
  rw [hencode]
  refine ⟨?_, hold.entry_eq_of_pack hsbn hkeep, fun _ entryNumber hlt => ?_⟩
  · rw [hold.header_eq]
    simp [List.any_append, isBlockMapIncrement, hop]
  · rw [entryTypeBit_packSlabJournalEntry _ _ _ hroom, entryTypeBit_setEntryType,
      isBlockMapIncrementAt_append_singleton]
    by_cases hflag : tailHeader.hasBlockMapIncrements
    · simp only [typed, if_pos hflag, hold.entryType_eq hflag _ hlt, hop, and_true]
    · have hnone : done.any isBlockMapIncrement = false := by
        rw [← hold.hasBlockMapIncrements_eq]
        simpa using hflag
      simp only [typed, if_neg hflag, entryTypeBit_clearEntryTypes _ hlt,
        isBlockMapIncrementAt_of_any_eq_false hnone, hop, and_true]

/-- Encoding any other entry keeps the invariant, once the block has the
layout with entry types only while a full block has room. -/
theorem encode_of_not_blockMapIncrement (hold : SlabJournalTail.Holds initial tailHeader payload done)
    {entry : SlabJournalEntry} (hsbn : entry.sbn < 2 ^ 23) (hop : entry.operation ≠ .blockMapIncrement)
    (hroom : tailHeader.hasBlockMapIncrements = true → done.length < slabJournalFullEntriesPerBlock) :
    SlabJournalTail.Holds initial (encodeSlabJournalEntry tailHeader payload entry.sbn entry.operation).1
      (encodeSlabJournalEntry tailHeader payload entry.sbn entry.operation).2 (done ++ [entry]) := by
  have hencode : encodeSlabJournalEntry tailHeader payload entry.sbn entry.operation =
      ({ tailHeader with entryCount := done.length + 1 },
        packSlabJournalEntry payload done.length entry.sbn (isIncrementOperation entry.operation)) := by
    simp only [encodeSlabJournalEntry, if_neg hop, hold.entryCount_eq]
  rw [hencode]
  refine ⟨?_, hold.entry_eq_of_pack hsbn fun _ _ => rfl, fun hflag entryNumber hlt => ?_⟩
  · rw [hold.header_eq]
    simp [List.any_append, isBlockMapIncrement, hop]
  · rw [entryTypeBit_packSlabJournalEntry _ _ _ (hroom hflag), isBlockMapIncrementAt_append_singleton,
      hold.entryType_eq hflag _ hlt]
    simp [hop]

/-- One `encodeSlabJournalEntry` keeps the invariant under the capacity rule of
`addEntry`: a 23-bit slab block number, and room in a full block for an entry
that is, or joins, a block map increment. -/
theorem encode (hold : SlabJournalTail.Holds initial tailHeader payload done)
    {entry : SlabJournalEntry} (hsbn : entry.sbn < 2 ^ 23)
    (hroom : isBlockMapIncrement entry = true ∨ tailHeader.hasBlockMapIncrements = true →
      done.length < slabJournalFullEntriesPerBlock) :
    SlabJournalTail.Holds initial (encodeSlabJournalEntry tailHeader payload entry.sbn entry.operation).1
      (encodeSlabJournalEntry tailHeader payload entry.sbn entry.operation).2 (done ++ [entry]) := by
  by_cases hop : entry.operation = .blockMapIncrement
  · exact hold.encode_of_blockMapIncrement hsbn hop (hroom (Or.inl (by simp [isBlockMapIncrement, hop])))
  · exact hold.encode_of_not_blockMapIncrement hsbn hop fun hflag => hroom (Or.inr hflag)

end SlabJournalTail.Holds

/-- An entry that is not a block map increment reads back from its bytes as
it decodes. -/
theorem unpackedEntry_eq {entry : SlabJournalEntry} (h : entry.operation ≠ .blockMapIncrement) :
    unpackedEntry entry = ⟨entry.sbn, decodedOperation entry.operation⟩ := by
  obtain ⟨sbn, operation⟩ := entry
  cases operation <;> simp_all [unpackedEntry, decodedOperation]

/-- A position of the list is typed exactly when its entry is a block map
increment. -/
theorem isBlockMapIncrementAt_of_lt {entries : List SlabJournalEntry} {entryNumber : ℕ}
    (h : entryNumber < entries.length) :
    isBlockMapIncrementAt entries entryNumber = isBlockMapIncrement entries[entryNumber] := by
  simp [isBlockMapIncrementAt, isBlockMapIncrement, List.getElem?_eq_getElem h]

/-- The committed header records the block map flag in its byte. -/
theorem committedBlock_flag (tailHeader : SlabJournalBlockHeader) (recoveryPoint : JournalPoint)
    (payload packed : ℕ → ℕ) : (committedBlock tailHeader recoveryPoint payload packed).header 33 =
      if tailHeader.hasBlockMapIncrements then 1 else 0 := by
  simp only [committedBlock, packSlabJournalBlockHeader, storeUInt64LE]
  rw [storeLE_of_not_mem (by omega), Function.update_self]

/-- Every entry of a committed tail block decodes as it was encoded, a block
map decrement as the data decrement its bytes record. -/
theorem SlabJournalTail.Holds.decodeSlabJournalEntry_eq {initial tailHeader : SlabJournalBlockHeader}
    {payload : ℕ → ℕ} {done : List SlabJournalEntry} (hold : SlabJournalTail.Holds initial tailHeader payload done)
    (hcap : done.length ≤ tailBlockCapacity done) (recoveryPoint : JournalPoint) (packed : ℕ → ℕ)
    {entryNumber : ℕ} (h : entryNumber < done.length) :
    decodeSlabJournalEntry (committedBlock tailHeader recoveryPoint payload packed) entryNumber =
      ⟨done[entryNumber].sbn, decodedOperation done[entryNumber].operation⟩ := by
  rw [decodeSlabJournalEntry, committedBlock_flag]
  simp only [committedBlock, hold.entry_eq _ h]
  by_cases hflag : tailHeader.hasBlockMapIncrements
  · have hfull : entryNumber < slabJournalFullEntriesPerBlock := by
      rw [tailBlockCapacity, ← hold.hasBlockMapIncrements_eq, if_pos hflag] at hcap
      omega
    rw [hold.entryType_eq hflag _ hfull, isBlockMapIncrementAt_of_lt h]
    by_cases hop : done[entryNumber].operation = .blockMapIncrement
    · simp [hflag, isBlockMapIncrement, hop, unpackedEntry, decodedOperation]
    · simp [hflag, isBlockMapIncrement, hop, unpackedEntry_eq hop]
  · have hnone : done.any isBlockMapIncrement = false := by
      rw [← hold.hasBlockMapIncrements_eq]
      simpa using hflag
    have hop : done[entryNumber].operation ≠ .blockMapIncrement := by
      have := isBlockMapIncrementAt_of_any_eq_false hnone entryNumber
      rw [isBlockMapIncrementAt_of_lt h, isBlockMapIncrement] at this
      simpa using this
    simp [hflag, unpackedEntry_eq hop]

theorem encodeSlabJournalEntries_append_singleton (tailHeader : SlabJournalBlockHeader)
    (payload : ℕ → ℕ) (entries : List SlabJournalEntry) (entry : SlabJournalEntry) :
    encodeSlabJournalEntries tailHeader payload (entries ++ [entry]) =
      encodeSlabJournalEntry (encodeSlabJournalEntries tailHeader payload entries).1
        (encodeSlabJournalEntries tailHeader payload entries).2 entry.sbn entry.operation := by
  rw [encodeSlabJournalEntries, List.foldl_append, List.foldl_cons, List.foldl_nil]
  rfl

/-- The tail block a fresh header starts holds every list of entries with
23-bit slab block numbers that keeps to the capacity of a full block once one
of them is a block map increment. -/
theorem encodeSlabJournalEntries_holds {initial : SlabJournalBlockHeader}
    (hcount : initial.entryCount = 0) (hflag : initial.hasBlockMapIncrements = false)
    (payload : ℕ → ℕ) {entries : List SlabJournalEntry} (hsbn : ∀ entry ∈ entries, entry.sbn < 2 ^ 23)
    (hcap : entries.any isBlockMapIncrement = true → entries.length ≤ slabJournalFullEntriesPerBlock) :
    SlabJournalTail.Holds initial (encodeSlabJournalEntries initial payload entries).1
      (encodeSlabJournalEntries initial payload entries).2 entries := by
  induction entries using List.reverseRecOn with
  | nil => exact SlabJournalTail.Holds.fresh hcount hflag payload
  | append_singleton done entry ih =>
    have hdone := ih (fun e he => hsbn e (List.mem_append_left _ he)) fun hany => by
      have := hcap (by simp [hany])
      rw [List.length_append, List.length_singleton] at this
      omega
    rw [encodeSlabJournalEntries_append_singleton]
    refine hdone.encode (hsbn entry (by simp)) fun hroom => ?_
    have hany : (done ++ [entry]).any isBlockMapIncrement = true := by
      rcases hroom with hentry | htail
      · simp [hentry]
      · rw [hdone.hasBlockMapIncrements_eq] at htail
        simp [htail]
    have := hcap hany
    rw [List.length_append, List.length_singleton] at this
    omega

/-- The slab journal block round trip: entries of 23-bit slab block numbers,
none a block map decrement, encoded one by one into a freshly initialized tail
block under the capacity rule, whatever its payload held, and the block
committed with its header packed, whatever the header bytes held: every entry
decodes as it was encoded, and the header unpacks to the tail's header, which
counts the entries and is flagged exactly when one is a block map increment,
with its recovery point. The recovery point's sequence number has to fit the
48 bits `packJournalPoint` keeps above the entry count. -/
theorem decodeSlabJournalEntry_encodeSlabJournalEntries {initial : SlabJournalBlockHeader}
    (hcount : initial.entryCount = 0) (hflag : initial.hasBlockMapIncrements = false)
    (payload packed : ℕ → ℕ) (recoveryPoint : JournalPoint) {entries : List SlabJournalEntry}
    (hentries : ∀ entry ∈ entries, entry.sbn < 2 ^ 23 ∧ entry.operation ≠ .blockMapDecrement)
    (hcap : entries.length ≤ tailBlockCapacity entries)
    (hhead : initial.head < 2 ^ 64) (hsequence : initial.sequenceNumber < 2 ^ 64)
    (hnonce : initial.nonce < 2 ^ 64) (htype : initial.metadataType < 2 ^ 8)
    (hpoint : recoveryPoint.sequenceNumber < 2 ^ 48) (hpointCount : recoveryPoint.entryCount < 2 ^ 16) :
    let tail := encodeSlabJournalEntries initial payload entries
    let block := committedBlock tail.1 recoveryPoint tail.2 packed
    (∀ entryNumber (h : entryNumber < entries.length),
      decodeSlabJournalEntry block entryNumber = entries[entryNumber]) ∧
    unpackSlabJournalBlockHeader block.header = (tail.1, recoveryPoint) ∧
    tail.1 =
      { initial with entryCount := entries.length, hasBlockMapIncrements := entries.any isBlockMapIncrement } := by
  intro tail block
  have hfull : entries.any isBlockMapIncrement = true → entries.length ≤ slabJournalFullEntriesPerBlock :=
    fun hany => by rwa [tailBlockCapacity, if_pos hany] at hcap
  have hold : SlabJournalTail.Holds initial tail.1 tail.2 entries :=
    encodeSlabJournalEntries_holds hcount hflag payload (fun entry hentry => (hentries entry hentry).1) hfull
  have hlength : entries.length < 2 ^ 16 := by
    have : tailBlockCapacity entries ≤ slabJournalEntriesPerBlock := by
      unfold tailBlockCapacity
      split <;> simp [slabJournalFullEntriesPerBlock_eq, slabJournalEntriesPerBlock_eq]
    rw [slabJournalEntriesPerBlock_eq] at this
    omega
  refine ⟨fun entryNumber h => ?_, ?_, hold.header_eq⟩
  · rw [hold.decodeSlabJournalEntry_eq hcap recoveryPoint packed h,
      decodedOperation_eq (hentries _ (List.getElem_mem h)).2]
  · show unpackSlabJournalBlockHeader (packSlabJournalBlockHeader tail.1 recoveryPoint packed) =
      (tail.1, recoveryPoint)
    rw [hold.header_eq]
    exact unpackSlabJournalBlockHeader_packSlabJournalBlockHeader packed hhead hsequence hnonce htype
      hlength hpoint hpointCount

/-- A tail header as `initializeTailBlock` leaves it. -/
def freshSlabJournalHeader : SlabJournalBlockHeader := ⟨1, 1, 7, vdoMetadataSlabJournal, false, 0⟩

/-- A data increment, a block map increment that switches the layout, and a
data decrement of the largest slab block number. -/
def mixedSlabJournalEntries : List SlabJournalEntry :=
  [⟨5, .dataIncrement⟩, ⟨70000, .blockMapIncrement⟩, ⟨2 ^ 23 - 1, .dataDecrement⟩]

theorem decodeSlabJournalEntry_encodeSlabJournalEntries_mixed :
    (∀ entry ∈ mixedSlabJournalEntries, entry.sbn < 2 ^ 23 ∧ entry.operation ≠ .blockMapDecrement) ∧
    mixedSlabJournalEntries.length ≤ tailBlockCapacity mixedSlabJournalEntries ∧
    let tail := encodeSlabJournalEntries freshSlabJournalHeader (fun _ => 255) mixedSlabJournalEntries
    let block := committedBlock tail.1 ⟨40, 2⟩ tail.2 fun _ => 255
    (∀ entryNumber (h : entryNumber < mixedSlabJournalEntries.length),
      decodeSlabJournalEntry block entryNumber = mixedSlabJournalEntries[entryNumber]) ∧
    unpackSlabJournalBlockHeader block.header = (tail.1, ⟨40, 2⟩) ∧
    tail.1 =
      { freshSlabJournalHeader with
        entryCount := mixedSlabJournalEntries.length
        hasBlockMapIncrements := mixedSlabJournalEntries.any isBlockMapIncrement } :=
  ⟨by decide, by decide, decodeSlabJournalEntry_encodeSlabJournalEntries rfl rfl _ _ _ (by decide)
    (by decide) (by decide) (by decide) (by decide) (by decide) (by decide) (by decide)⟩

/-- A recovery point whose sequence number reaches `2 ^ 48` does not survive
the header: its high bits are shifted out of the packed word. -/
theorem unpackSlabJournalBlockHeader_drops_high_recovery_sequence :
    let tail := encodeSlabJournalEntries freshSlabJournalHeader (fun _ => 0) []
    (unpackSlabJournalBlockHeader (committedBlock tail.1 ⟨2 ^ 48, 0⟩ tail.2 fun _ => 0).header).2 =
      ⟨0, 0⟩ := by
  decide

end Vdo
