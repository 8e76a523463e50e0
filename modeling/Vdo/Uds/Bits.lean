import Vdo.Lib.BitField
import Vdo.Uds.DeltaIndexInsert

/-!
# Bit streams

`bits.h` and `bits.c` read and write fields at any bit offset of a byte array
through unaligned little-endian loads and stores of 32 and 64 bits
(`numeric.h`). A `ByteBuffer` is the array's bits, bit `i` of byte `k` being
bit `8 * k + i`, with its length in bytes. A load or store that reaches past
the end is undefined in C; here it fails, so a call that returns has stayed
inside the buffer.

`moveBits` copies a field in 32-bit chunks aligned at the destination, the
lowest first for a move down and the highest first for a move up, between a
head and a tail moved with `getBigField` and `setBigField`. It is shown to be
the overlapping copy `Vdo.Uds.moveBits` that the delta index model uses, for
fields followed by the buffer's `POST_FIELD_GUARD_BYTES`.
-/

namespace Vdo.Uds.Bits

open BitField

/-- A byte array: its bits, and its length in bytes. -/
structure ByteBuffer where
  bits : ℕ → Bool
  size : ℕ

/-- `getUInt64LE`: the eight bytes from `address`. -/
def getUInt64LE (buffer : ByteBuffer) (address : ℕ) : Option UInt64 :=
  if address + 8 ≤ buffer.size then some (UInt64.ofNat (readBits buffer.bits (8 * address) 64))
  else none

/-- `storeUInt64LE`. -/
def storeUInt64LE (buffer : ByteBuffer) (address : ℕ) (num : UInt64) : Option ByteBuffer :=
  if address + 8 ≤ buffer.size then
    some { buffer with bits := writeBits buffer.bits (8 * address) 64 num.toNat }
  else none

/-- `getUInt32LE`: the four bytes from `address`. -/
def getUInt32LE (buffer : ByteBuffer) (address : ℕ) : Option UInt32 :=
  if address + 4 ≤ buffer.size then some (UInt32.ofNat (readBits buffer.bits (8 * address) 32))
  else none

/-- `storeUInt32LE`. -/
def storeUInt32LE (buffer : ByteBuffer) (address : ℕ) (num : UInt32) : Option ByteBuffer :=
  if address + 4 ≤ buffer.size then
    some { buffer with bits := writeBits buffer.bits (8 * address) 32 num.toNat }
  else none

/-- `MAX_BIG_FIELD_BITS`. -/
def maxBigFieldBits : ℕ := (8 - 1) * 8 + 1

/-- `UINT32_BIT` of `moveBits`. -/
def uint32Bit : ℕ := 4 * 8

/-- `getBigField`: at most `MAX_BIG_FIELD_BITS` bits from one 64-bit load. -/
def getBigField (buffer : ByteBuffer) (offset size : ℕ) : Option UInt64 := do
  let data ← getUInt64LE buffer (offset / 8)
  pure ((data >>> UInt64.ofNat (offset % 8)) &&& ((1 <<< UInt64.ofNat size) - 1))

/-- `setBigField`: the field's bits of the 64-bit word cleared, `value`
shifted in, and the word stored back. -/
def setBigField (value : UInt64) (buffer : ByteBuffer) (offset size : ℕ) : Option ByteBuffer := do
  let shift := UInt64.ofNat (offset % 8)
  let data ← getUInt64LE buffer (offset / 8)
  let data := data &&& ~~~(((1 <<< UInt64.ofNat size) - 1) <<< shift)
  let data := data ||| (value <<< shift)
  storeUInt64LE buffer (offset / 8) data

/-- The loop of a large move from a higher to a lower address: 32-bit chunks
stored at the destination word `dest`, each the 64 bits at `src` shifted by
`offset`, lowest first. -/
def moveBitsDown (buffer : ByteBuffer) (offset src dest source destination size : ℕ) :
    Option (ByteBuffer × ℕ × ℕ × ℕ) :=
  if size > maxBigFieldBits then do
    let data ← getUInt64LE buffer src
    let buffer ← storeUInt32LE buffer dest (data >>> UInt64.ofNat offset).toUInt32
    moveBitsDown buffer offset (src + 4) (dest + 4) (source + uint32Bit) (destination + uint32Bit)
      (size - uint32Bit)
  else some (buffer, source, destination, size)
termination_by size
decreasing_by simp only [maxBigFieldBits, uint32Bit] at *; omega

/-- The loop of a large move from a lower to a higher address: the same
chunks, highest first. -/
def moveBitsUp (buffer : ByteBuffer) (offset src dest size : ℕ) : Option (ByteBuffer × ℕ) :=
  if size > maxBigFieldBits then do
    let src := src - 4
    let dest := dest - 4
    let data ← getUInt64LE buffer src
    let buffer ← storeUInt32LE buffer dest (data >>> UInt64.ofNat offset).toUInt32
    moveBitsUp buffer offset src dest (size - uint32Bit)
  else some (buffer, size)
termination_by size
decreasing_by simp only [maxBigFieldBits, uint32Bit] at *; omega

/-- The head of a large move up: the field above the last destination word
boundary, `count` bits, when there is one. -/
def moveBitsUpHead (buffer : ByteBuffer) (source destination size count : ℕ) : Option (ByteBuffer × ℕ) :=
  if count > 0 then do
    let size := size - count
    let field ← getBigField buffer (source + size) count
    let buffer ← setBigField field buffer (destination + size) count
    pure (buffer, size)
  else pure (buffer, size)

/-- `moveBits` within one buffer. A large move first moves one field that
ends (moving down) or begins (moving up) on a destination word boundary,
then whole words; the bits left, fewer than `MAX_BIG_FIELD_BITS`, are moved
last. -/
def moveBits (buffer : ByteBuffer) (source destination size : ℕ) : Option ByteBuffer := do
  let (buffer, source, destination, size) ←
    if size > maxBigFieldBits then
      if source > destination then do
        let count := maxBigFieldBits - (destination + maxBigFieldBits) % uint32Bit
        let field ← getBigField buffer source count
        let buffer ← setBigField field buffer destination count
        let source := source + count
        let destination := destination + count
        let size := size - count
        let offset := source % uint32Bit
        moveBitsDown buffer offset ((source - offset) / 8) (destination / 8) source destination size
      else do
        let count := (destination + size) % uint32Bit
        let (buffer, size) ← moveBitsUpHead buffer source destination size count
        let offset := (source + size) % uint32Bit
        let (buffer, size) ←
          moveBitsUp buffer offset ((source + size - offset) / 8) ((destination + size) / 8) size
        pure (buffer, source, destination, size)
    else pure (buffer, source, destination, size)
  if size > 0 then do
    let field ← getBigField buffer source size
    setBigField field buffer destination size
  else pure buffer

/-! ## Loads and stores -/

theorem getUInt64LE_of_le {buffer : ByteBuffer} {address : ℕ} (h : address + 8 ≤ buffer.size) :
    getUInt64LE buffer address = some (UInt64.ofNat (readBits buffer.bits (8 * address) 64)) :=
  if_pos h

theorem storeUInt64LE_of_le {buffer : ByteBuffer} {address : ℕ} (num : UInt64)
    (h : address + 8 ≤ buffer.size) :
    storeUInt64LE buffer address num =
      some { buffer with bits := writeBits buffer.bits (8 * address) 64 num.toNat } :=
  if_pos h

theorem storeUInt32LE_of_le {buffer : ByteBuffer} {address : ℕ} (num : UInt32)
    (h : address + 4 ≤ buffer.size) :
    storeUInt32LE buffer address num =
      some { buffer with bits := writeBits buffer.bits (8 * address) 32 num.toNat } :=
  if_pos h

/-- A field of at most 64 bits is its own 64-bit word. -/
theorem toNat_ofNat_readBits (memory : ℕ → Bool) (start : ℕ) {size : ℕ} (hsize : size ≤ 64) :
    (UInt64.ofNat (readBits memory start size)).toNat = readBits memory start size :=
  UInt64.toNat_ofNat_of_lt' (lt_of_lt_of_le readBits_lt (Nat.pow_le_pow_right (by decide) hsize))

/-- A shift amount below 64 is taken as it is. -/
theorem toNat_ofNat_shift {shift : ℕ} (hshift : shift < 64) : (UInt64.ofNat shift).toNat % 64 = shift := by
  rw [UInt64.toNat_ofNat_of_lt' (lt_trans hshift (by decide)), Nat.mod_eq_of_lt hshift]

/-- The mask `(1UL << size) - 1` of a field of fewer than 64 bits. -/
theorem toNat_fieldMask {size : ℕ} (hsize : size < 64) :
    (((1 : UInt64) <<< UInt64.ofNat size) - 1).toNat = 2 ^ size - 1 := by
  have hlt : (2 : ℕ) ^ size < 2 ^ 64 := Nat.pow_lt_pow_right (by omega) hsize
  have hbit : ((1 : UInt64) <<< UInt64.ofNat size).toNat = 2 ^ size := by
    rw [UInt64.toNat_shiftLeft, toNat_ofNat_shift hsize, UInt64.toNat_one, Nat.one_shiftLeft,
      Nat.mod_eq_of_lt hlt]
  have hone : (1 : UInt64) ≤ (1 : UInt64) <<< UInt64.ofNat size := by
    rw [UInt64.le_iff_toNat_le, hbit]
    exact Nat.one_le_two_pow
  rw [UInt64.toNat_sub_of_le _ _ hone, hbit, UInt64.toNat_one]

/-- The bits of the word `setBigField` stores: the field's bits from
`value`, the others from `data`. -/
theorem testBit_setBigFieldWord {data value : UInt64} {size shift : ℕ} (hsize : size ≤ maxBigFieldBits)
    (hshift : shift < 8) (hvalue : value.toNat < 2 ^ size) {j : ℕ} (hj : j < 64) :
    ((data &&& ~~~(((1 <<< UInt64.ofNat size) - 1) <<< UInt64.ofNat shift)) |||
        (value <<< UInt64.ofNat shift)).toNat.testBit j =
      if shift ≤ j ∧ j < shift + size then value.toNat.testBit (j - shift) else data.toNat.testBit j := by
  simp only [maxBigFieldBits] at hsize
  rw [UInt64.toNat_or, UInt64.toNat_and, UInt64.toNat_not, UInt64.toNat_shiftLeft, UInt64.toNat_shiftLeft,
    toNat_fieldMask (by omega), toNat_ofNat_shift (by omega), Nat.mod_eq_of_lt (fieldMask_lt (by omega)),
    show UInt64.size = 2 ^ 64 from rfl]
  exact testBit_replaceField (by omega) hvalue hj

/-! ## Big fields -/

/-- A field within one 64-bit load is read whole. -/
theorem getBigField_of_le {buffer : ByteBuffer} {offset size : ℕ} (hsize : size ≤ maxBigFieldBits)
    (h : offset / 8 + 8 ≤ buffer.size) :
    getBigField buffer offset size = some (UInt64.ofNat (readBits buffer.bits offset size)) := by
  simp only [maxBigFieldBits] at hsize
  rw [getBigField, getUInt64LE_of_le h]
  simp only [Option.pure_def, Option.bind_eq_bind, Option.bind_some, Option.some.injEq]
  apply UInt64.toNat_inj.mp
  rw [UInt64.toNat_and, UInt64.toNat_shiftRight, toNat_fieldMask (by omega),
    toNat_ofNat_shift (by omega), toNat_ofNat_readBits _ _ le_rfl, Nat.and_two_pow_sub_one_eq_mod,
    readBits_shiftRight, readBits_mod_two_pow, Nat.div_add_mod, toNat_ofNat_readBits _ _ (by omega),
    min_eq_right (by omega)]

/-- A value of the field's size is written whole, and the rest of the 64-bit
word stored back as it was. -/
theorem setBigField_of_le {value : UInt64} {buffer : ByteBuffer} {offset size : ℕ}
    (hsize : size ≤ maxBigFieldBits) (hvalue : value.toNat < 2 ^ size) (h : offset / 8 + 8 ≤ buffer.size) :
    setBigField value buffer offset size =
      some { buffer with bits := writeBits buffer.bits offset size value.toNat } := by
  rw [setBigField, getUInt64LE_of_le h]
  simp only [Option.bind_eq_bind, Option.bind_some]
  rw [storeUInt64LE_of_le _ h, Option.some.injEq, ByteBuffer.mk.injEq]
  refine ⟨writeBits_replaceField (by simp only [maxBigFieldBits] at hsize; omega) fun j hj => ?_, rfl⟩
  rw [testBit_setBigFieldWord hsize (Nat.mod_lt _ (by decide)) hvalue hj, toNat_ofNat_readBits _ _ le_rfl,
    testBit_readBits, decide_eq_true hj, Bool.true_and]

/-! ## Chunks -/

/-- The 32 bits a chunk of `moveBits` stores: those from `offset` in its
64-bit load. -/
theorem toNat_toUInt32_shiftRight (memory : ℕ → Bool) (start : ℕ) {offset : ℕ} (hoffset : offset < 32) :
    ((UInt64.ofNat (readBits memory start 64)) >>> UInt64.ofNat offset).toUInt32.toNat =
      readBits memory (start + offset) 32 := by
  rw [UInt64.toNat_toUInt32, UInt64.toNat_shiftRight, toNat_ofNat_shift (by omega),
    toNat_ofNat_readBits _ _ le_rfl, readBits_shiftRight, readBits_mod_two_pow, min_eq_right (by omega)]

/-! ## The copy, chunk by chunk -/

theorem moveBits_zero (memory : ℕ → Bool) (source destination : ℕ) :
    Uds.moveBits memory source destination 0 = memory := by
  funext bit
  simp only [Uds.moveBits]
  rw [if_neg (by omega)]

/-- A field moved in one piece is the copy. -/
theorem writeBits_readBits_eq_moveBits (memory : ℕ → Bool) (source destination count : ℕ) :
    writeBits memory destination count (readBits memory source count) =
      Uds.moveBits memory source destination count := by
  funext bit
  simp only [writeBits, Uds.moveBits, testBit_readBits]
  by_cases hfield : destination ≤ bit ∧ bit < destination + count
  · rw [if_pos hfield, if_pos hfield]
    simp only [Bool.and_eq_right_iff_imp, decide_eq_true_eq]
    omega
  · rw [if_neg hfield, if_neg hfield]

/-- Moving down, the chunk after the part copied so far is read from bits the
copy has not overwritten. -/
theorem writeBits_moveBits_append {memory : ℕ → Bool} {source destination : ℕ} (hle : destination ≤ source)
    (count n : ℕ) :
    writeBits (Uds.moveBits memory source destination count) (destination + count) n
        (readBits (Uds.moveBits memory source destination count) (source + count) n) =
      Uds.moveBits memory source destination (count + n) := by
  funext bit
  simp only [writeBits, testBit_readBits]
  by_cases hchunk : destination + count ≤ bit ∧ bit < destination + count + n
  · have hread : source + count + (bit - (destination + count)) = source + (bit - destination) := by omega
    rw [if_pos hchunk, hread]
    simp only [Uds.moveBits]
    rw [if_neg (by omega), if_pos (by omega)]
    simp only [Bool.and_eq_right_iff_imp, decide_eq_true_eq]
    omega
  · rw [if_neg hchunk]
    simp only [Uds.moveBits]
    by_cases hdone : destination ≤ bit ∧ bit < destination + count
    · rw [if_pos hdone, if_pos (by omega)]
    · rw [if_neg hdone, if_neg (by omega)]

/-- Moving up, the chunk before the part copied so far is read from bits the
copy has not overwritten. -/
theorem writeBits_moveBits_prepend {memory : ℕ → Bool} {source destination : ℕ} (hle : source ≤ destination)
    (n count : ℕ) :
    writeBits (Uds.moveBits memory (source + n) (destination + n) count) destination n
        (readBits (Uds.moveBits memory (source + n) (destination + n) count) source n) =
      Uds.moveBits memory source destination (n + count) := by
  funext bit
  simp only [writeBits, testBit_readBits]
  by_cases hchunk : destination ≤ bit ∧ bit < destination + n
  · rw [if_pos hchunk]
    simp only [Uds.moveBits]
    rw [if_neg (by omega), if_pos (by omega)]
    simp only [Bool.and_eq_right_iff_imp, decide_eq_true_eq]
    omega
  · rw [if_neg hchunk]
    simp only [Uds.moveBits]
    by_cases hdone : destination + n ≤ bit ∧ bit < destination + n + count
    · rw [if_pos hdone, if_pos (by omega)]
      congr 1
      omega
    · rw [if_neg hdone, if_neg (by omega)]

/-! ## The loops -/

/-- The loop of a move down extends the copy made so far, up to fewer than
`MAX_BIG_FIELD_BITS` bits left, reading and writing inside the buffer. -/
theorem moveBitsDown_copies (memory : ℕ → Bool) (bufferSize : ℕ) {source destination offset : ℕ}
    (hle : destination ≤ source) (hoffset : offset < 32) :
    ∀ size count src dest, 8 * src + offset = source + count → 8 * dest = destination + count →
      source + count + size + 56 ≤ 8 * bufferSize → destination + count + size ≤ 8 * bufferSize →
      ∃ rest ≤ maxBigFieldBits, rest ≤ size ∧
        moveBitsDown ⟨Uds.moveBits memory source destination count, bufferSize⟩ offset src dest
            (source + count) (destination + count) size =
          some (⟨Uds.moveBits memory source destination (count + (size - rest)), bufferSize⟩,
            source + count + (size - rest), destination + count + (size - rest), rest) := by
  intro size
  induction size using Nat.strong_induction_on with
  | _ size ih =>
  intro count src dest hsrc hdest hsourceBound hdestBound
  rw [moveBitsDown]
  by_cases hbig : size > maxBigFieldBits
  · rw [if_pos hbig]
    simp only [maxBigFieldBits, uint32Bit] at hbig ⊢
    rw [getUInt64LE_of_le (by dsimp only; omega)]
    simp only [Option.bind_eq_bind, Option.bind_some]
    rw [storeUInt32LE_of_le _ (by dsimp only; omega)]
    simp only [Option.bind_some, toNat_toUInt32_shiftRight _ _ hoffset]
    rw [hdest, hsrc, writeBits_moveBits_append hle, Nat.add_assoc source, Nat.add_assoc destination]
    obtain ⟨rest, hrest, hrestSize, hloop⟩ := ih (size - 32) (by omega) (count + 32) (src + 4) (dest + 4)
      (by omega) (by omega) (by omega) (by omega)
    refine ⟨rest, hrest, by omega, ?_⟩
    have hcopied : count + 32 + (size - 32 - rest) = count + (size - rest) := by omega
    rw [hloop, hcopied]
    simp only [Option.some.injEq, Prod.mk.injEq, true_and, and_true]
    omega
  · rw [if_neg hbig]
    exact ⟨size, by omega, le_rfl, by simp⟩

/-- The loop of a move up extends the copy of the top `total - size` bits
downwards, up to fewer than `MAX_BIG_FIELD_BITS` bits left, reading and
writing inside the buffer. -/
theorem moveBitsUp_copies (memory : ℕ → Bool) (bufferSize total : ℕ) {source destination offset : ℕ}
    (hle : source ≤ destination) (hoffset : offset < 32)
    (hsourceBound : source + total + 56 ≤ 8 * bufferSize) (hdestBound : destination + total ≤ 8 * bufferSize) :
    ∀ size src dest, 8 * src + offset = source + size → 8 * dest = destination + size → size ≤ total →
      ∃ rest ≤ maxBigFieldBits, rest ≤ size ∧
        moveBitsUp ⟨Uds.moveBits memory (source + size) (destination + size) (total - size), bufferSize⟩
            offset src dest size =
          some (⟨Uds.moveBits memory (source + rest) (destination + rest) (total - rest), bufferSize⟩, rest) := by
  intro size
  induction size using Nat.strong_induction_on with
  | _ size ih =>
  intro src dest hsrc hdest hsize
  rw [moveBitsUp]
  by_cases hbig : size > maxBigFieldBits
  · rw [if_pos hbig]
    simp only [maxBigFieldBits, uint32Bit] at hbig ⊢
    rw [getUInt64LE_of_le (by dsimp only; omega)]
    simp only [Option.bind_eq_bind, Option.bind_some]
    rw [storeUInt32LE_of_le _ (by dsimp only; omega)]
    simp only [Option.bind_some, toNat_toUInt32_shiftRight _ _ hoffset]
    have hsrc' : 8 * (src - 4) + offset = source + (size - 32) := by omega
    have hdest' : 8 * (dest - 4) = destination + (size - 32) := by omega
    have hsplit : ∀ base, base + size = base + (size - 32) + 32 := fun base => by omega
    rw [hdest', hsrc', hsplit source, hsplit destination,
      writeBits_moveBits_prepend (by omega), show 32 + (total - size) = total - (size - 32) by omega]
    obtain ⟨rest, hrest, hrestSize, hloop⟩ := ih (size - 32) (by omega) (src - 4) (dest - 4)
      hsrc' hdest' (by omega)
    exact ⟨rest, hrest, by omega, hloop⟩
  · rw [if_neg hbig]
    exact ⟨size, by omega, le_rfl, rfl⟩

/-! ## `moveBits` is the overlapping copy -/

/-- The last chunk of `moveBits`, of at most `MAX_BIG_FIELD_BITS` bits. -/
theorem moveBits_last {memory : ℕ → Bool} {bufferSize source destination rest : ℕ}
    (hrest : rest ≤ maxBigFieldBits) (hsource : source + rest + 56 ≤ 8 * bufferSize)
    (hdestination : destination + rest + 56 ≤ 8 * bufferSize) :
    (if rest > 0 then
        (getBigField ⟨memory, bufferSize⟩ source rest).bind fun field =>
          setBigField field ⟨memory, bufferSize⟩ destination rest
      else some ⟨memory, bufferSize⟩) =
      some ⟨writeBits memory destination rest (readBits memory source rest), bufferSize⟩ := by
  by_cases hpos : rest > 0
  · have hfits : rest ≤ 64 := by simp only [maxBigFieldBits] at hrest; omega
    rw [if_pos hpos, getBigField_of_le hrest (by dsimp only; omega), Option.bind_some,
      setBigField_of_le hrest (by rw [toNat_ofNat_readBits _ _ hfits]; exact readBits_lt)
        (by dsimp only; omega), toNat_ofNat_readBits _ _ hfits]
  · rw [if_neg hpos, show rest = 0 by omega, writeBits_zero]

/-- A move of at most `MAX_BIG_FIELD_BITS` bits is one field. -/
theorem moveBits_of_le {memory : ℕ → Bool} {bufferSize source destination size : ℕ}
    (hsmall : ¬ size > maxBigFieldBits) (hsource : source + size + 56 ≤ 8 * bufferSize)
    (hdestination : destination + size + 56 ≤ 8 * bufferSize) :
    moveBits ⟨memory, bufferSize⟩ source destination size =
      some ⟨Uds.moveBits memory source destination size, bufferSize⟩ := by
  rw [moveBits, if_neg hsmall]
  simp only [Option.pure_def, Option.bind_eq_bind, Option.bind_some]
  rw [moveBits_last (by omega) hsource hdestination, writeBits_readBits_eq_moveBits]

/-- A large move down: the head field up to a destination word boundary,
the words upwards, then the last field. -/
theorem moveBits_of_gt {memory : ℕ → Bool} {bufferSize source destination size : ℕ}
    (hbig : size > maxBigFieldBits) (hdown : source > destination)
    (hsource : source + size + 56 ≤ 8 * bufferSize) (hdestination : destination + size + 56 ≤ 8 * bufferSize) :
    moveBits ⟨memory, bufferSize⟩ source destination size =
      some ⟨Uds.moveBits memory source destination size, bufferSize⟩ := by
  rw [moveBits, if_pos hbig, if_pos hdown]
  dsimp only
  generalize hcount : maxBigFieldBits - (destination + maxBigFieldBits) % uint32Bit = count
  simp only [maxBigFieldBits, uint32Bit] at hcount hbig
  have hfits : count ≤ 64 := by omega
  rw [getBigField_of_le (by simp only [maxBigFieldBits]; omega) (by dsimp only; omega)]
  simp only [Option.bind_eq_bind, Option.bind_some]
  rw [setBigField_of_le (by simp only [maxBigFieldBits]; omega)
      (by rw [toNat_ofNat_readBits _ _ hfits]; exact readBits_lt) (by dsimp only; omega)]
  simp only [Option.bind_some, toNat_ofNat_readBits _ _ hfits, writeBits_readBits_eq_moveBits, uint32Bit]
  obtain ⟨rest, hrest, hrestSize, hloop⟩ := moveBitsDown_copies memory bufferSize hdown.le
    (Nat.mod_lt (source + count) (show 32 > 0 by decide)) (size - count) count
    ((source + count - (source + count) % 32) / 8) ((destination + count) / 8) (by omega) (by omega)
    (by omega) (by omega)
  rw [hloop]
  simp only [Option.bind_some, Option.pure_def]
  have hdone : count + (size - count - rest) = size - rest := by omega
  rw [hdone, moveBits_last hrest (by omega) (by omega), Nat.add_assoc source, Nat.add_assoc destination,
    hdone, writeBits_moveBits_append hdown.le, Nat.sub_add_cancel (by omega : rest ≤ size)]

/-- A large move up: the head field from the last destination word boundary,
the words downwards, then the last field at the start. -/
theorem moveBits_of_le_of_gt {memory : ℕ → Bool} {bufferSize source destination size : ℕ}
    (hbig : size > maxBigFieldBits) (hup : ¬ source > destination)
    (hsource : source + size + 56 ≤ 8 * bufferSize) (hdestination : destination + size + 56 ≤ 8 * bufferSize) :
    moveBits ⟨memory, bufferSize⟩ source destination size =
      some ⟨Uds.moveBits memory source destination size, bufferSize⟩ := by
  rw [moveBits, if_pos hbig, if_neg hup]
  dsimp only
  generalize hcount : (destination + size) % uint32Bit = count
  simp only [maxBigFieldBits, uint32Bit] at hcount hbig
  obtain ⟨below, hbelow, hword, hhead⟩ : ∃ below ≤ size, (destination + below) % 32 = 0 ∧
      moveBitsUpHead ⟨memory, bufferSize⟩ source destination size count =
        some (⟨Uds.moveBits memory (source + below) (destination + below) (size - below), bufferSize⟩, below) := by
    rw [moveBitsUpHead]
    by_cases hpos : count > 0
    · refine ⟨size - count, by omega, by omega, ?_⟩
      have hfits : count ≤ 64 := by omega
      rw [if_pos hpos]
      dsimp only
      rw [getBigField_of_le (by simp only [maxBigFieldBits]; omega) (by dsimp only; omega)]
      simp only [Option.bind_eq_bind, Option.bind_some]
      rw [setBigField_of_le (by simp only [maxBigFieldBits]; omega)
          (by rw [toNat_ofNat_readBits _ _ hfits]; exact readBits_lt) (by dsimp only; omega)]
      simp only [Option.bind_some, Option.pure_def, toNat_ofNat_readBits _ _ hfits,
        writeBits_readBits_eq_moveBits, show size - (size - count) = count by omega]
    · refine ⟨size, le_rfl, by omega, ?_⟩
      rw [if_neg hpos, Nat.sub_self, moveBits_zero]
      rfl
  rw [hhead]
  simp only [Option.bind_eq_bind, Option.bind_some, uint32Bit]
  obtain ⟨rest, hrest, hrestSize, hloop⟩ := moveBitsUp_copies memory bufferSize size (not_lt.mp hup)
    (Nat.mod_lt (source + below) (show 32 > 0 by decide)) (by omega) (by omega)
    below ((source + below - (source + below) % 32) / 8) ((destination + below) / 8) (by omega) (by omega) hbelow
  rw [hloop]
  simp only [Option.bind_some, Option.pure_def]
  rw [moveBits_last hrest (by omega) (by omega), writeBits_moveBits_prepend (not_lt.mp hup),
    Nat.add_sub_cancel' (hrestSize.trans hbelow)]

/-- `moveBits` is an overlapping-safe copy: for a source and a destination
field each followed by the buffer's `POST_FIELD_GUARD_BYTES`, every load and
store stays inside the buffer, the destination bits end as the source bits
were, and every other bit is unchanged, whichever way the fields overlap. -/
theorem moveBits_copies_bits (buffer : ByteBuffer) (source destination size : ℕ)
    (hsource : source + size + 8 * postFieldGuardBytes ≤ 8 * buffer.size)
    (hdestination : destination + size + 8 * postFieldGuardBytes ≤ 8 * buffer.size) :
    moveBits buffer source destination size =
      some { buffer with bits := Uds.moveBits buffer.bits source destination size } := by
  obtain ⟨memory, bufferSize⟩ := buffer
  simp only [postFieldGuardBytes] at hsource hdestination
  by_cases hbig : size > maxBigFieldBits
  · by_cases hdown : source > destination
    · exact moveBits_of_gt hbig hdown (by omega) (by omega)
    · exact moveBits_of_le_of_gt hbig hdown (by omega) (by omega)
  · exact moveBits_of_le hbig (by omega) (by omega)

theorem moveBits_copies_bits_overlapping :
    moveBits ⟨fun bit => decide (bit % 3 = 0), 48⟩ 70 5 200 =
      some ⟨Uds.moveBits (fun bit => decide (bit % 3 = 0)) 70 5 200, 48⟩ :=
  moveBits_copies_bits _ 70 5 200 (by decide) (by decide)

end Vdo.Uds.Bits
