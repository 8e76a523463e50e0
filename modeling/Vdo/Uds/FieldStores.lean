import Vdo.Uds.Bits

/-!
# Fields and runs of bits

`setField` (`bits.h`) writes a field of at most `MAX_FIELD_BITS` bits through
one 32-bit load and store, the way `setBigField` does through 64 bits.
`setOne` and `setZero` set a run of bits a byte at a time: the first byte's
bits from the offset, whole bytes, then the low bits of a last byte. They
differ only in how a byte is combined with its mask, so both are `setRun`
applied to their own byte operations, and one lemma about `setRun` covers
both. Each store is shown to write its field or run and to leave every other
bit as it was, for fields that stay inside the buffer.
-/

namespace Vdo.Uds.Bits

open BitField

/-- `MAX_FIELD_BITS`. -/
def maxFieldBits : ℕ := (4 - 1) * 8 + 1

/-- `setField`: the field's bits of the 32-bit word cleared, `value` shifted
in, and the word stored back. -/
def setField (value : UInt32) (buffer : ByteBuffer) (offset size : ℕ) : Option ByteBuffer := do
  let shift := UInt32.ofNat (offset % 8)
  let data ← getUInt32LE buffer (offset / 8)
  let data := data &&& ~~~(((1 <<< UInt32.ofNat size) - 1) <<< shift)
  let data := data ||| (value <<< shift)
  storeUInt32LE buffer (offset / 8) data

/-- A byte of the buffer, `*addr`. -/
def getByte (buffer : ByteBuffer) (address : ℕ) : Option UInt8 :=
  if address < buffer.size then some (UInt8.ofNat (readBits buffer.bits (8 * address) 8)) else none

/-- A byte stored at `*addr`. -/
def storeByte (buffer : ByteBuffer) (address : ℕ) (byte : UInt8) : Option ByteBuffer :=
  if address < buffer.size then some { buffer with bits := writeBits buffer.bits (8 * address) 8 byte.toNat }
  else none

/-- The loop of `setOne` and `setZero` after the first byte: bytes of `fill`
while more than a byte is left, then the last byte's low `size` bits set by
`last`. -/
def fillBytes (fill : UInt8) (last : UInt8 → UInt32 → UInt8) (buffer : ByteBuffer) (address size : ℕ) :
    Option ByteBuffer :=
  if size > 8 then do
    let buffer ← storeByte buffer address fill
    fillBytes fill last buffer (address + 1) (size - 8)
  else if size ≠ 0 then do
    let byte ← getByte buffer address
    storeByte buffer address (last byte (UInt32.ofNat size))
  else some buffer
termination_by size

/-- The body of `setOne` and `setZero`: the first byte's `count` bits from
the offset set by `first` under the mask `((1 << count) - 1) << shift`, then
`fillBytes`. The masks are `int`s in the source; they are 32-bit words here. -/
def setRun (first : UInt8 → UInt32 → UInt8) (fill : UInt8) (last : UInt8 → UInt32 → UInt8)
    (buffer : ByteBuffer) (offset size : ℕ) : Option ByteBuffer :=
  if size > 0 then do
    let address := offset / 8
    let shift := offset % 8
    let count := if size + shift > 8 then 8 - shift else size
    let byte ← getByte buffer address
    let buffer ← storeByte buffer address
      (first byte ((((1 : UInt32) <<< UInt32.ofNat count) - 1) <<< UInt32.ofNat shift))
    fillBytes fill last buffer (address + 1) (size - count)
  else some buffer

/-- `setOne`: the first byte or-ed with its mask, `0xFF` bytes, and the last
byte or-ed with `~(0xFF << size)`. -/
def setOne (buffer : ByteBuffer) (offset size : ℕ) : Option ByteBuffer :=
  setRun (fun byte mask => byte ||| mask.toUInt8) 0xFF
    (fun byte size => byte ||| (~~~((0xFF : UInt32) <<< size)).toUInt8) buffer offset size

/-- `setZero`: the first byte and-ed with its mask's complement, zero bytes,
and the last byte and-ed with `0xFF << size`. -/
def setZero (buffer : ByteBuffer) (offset size : ℕ) : Option ByteBuffer :=
  setRun (fun byte mask => byte &&& (~~~mask).toUInt8) 0
    (fun byte size => byte &&& ((0xFF : UInt32) <<< size).toUInt8) buffer offset size

/-! ## 32-bit words -/

theorem getUInt32LE_of_le {buffer : ByteBuffer} {address : ℕ} (h : address + 4 ≤ buffer.size) :
    getUInt32LE buffer address = some (UInt32.ofNat (readBits buffer.bits (8 * address) 32)) :=
  if_pos h

/-- A field of at most 32 bits is its own 32-bit word. -/
theorem toNat_ofNat_readBits32 (memory : ℕ → Bool) (start : ℕ) {size : ℕ} (hsize : size ≤ 32) :
    (UInt32.ofNat (readBits memory start size)).toNat = readBits memory start size :=
  UInt32.toNat_ofNat_of_lt' (lt_of_lt_of_le readBits_lt (Nat.pow_le_pow_right (by decide) hsize))

/-- A shift amount below 32 is taken as it is. -/
theorem toNat_ofNat_shift32 {shift : ℕ} (hshift : shift < 32) : (UInt32.ofNat shift).toNat % 32 = shift := by
  rw [UInt32.toNat_ofNat_of_lt' (lt_trans hshift (by decide)), Nat.mod_eq_of_lt hshift]

/-- The mask `(1 << size) - 1` of a field of fewer than 32 bits. -/
theorem toNat_fieldMask32 {size : ℕ} (hsize : size < 32) :
    (((1 : UInt32) <<< UInt32.ofNat size) - 1).toNat = 2 ^ size - 1 := by
  have hlt : (2 : ℕ) ^ size < 2 ^ 32 := Nat.pow_lt_pow_right (by omega) hsize
  have hbit : ((1 : UInt32) <<< UInt32.ofNat size).toNat = 2 ^ size := by
    rw [UInt32.toNat_shiftLeft, toNat_ofNat_shift32 hsize, UInt32.toNat_one, Nat.one_shiftLeft,
      Nat.mod_eq_of_lt hlt]
  have hone : (1 : UInt32) ≤ (1 : UInt32) <<< UInt32.ofNat size := by
    rw [UInt32.le_iff_toNat_le, hbit]
    exact Nat.one_le_two_pow
  rw [UInt32.toNat_sub_of_le _ _ hone, hbit, UInt32.toNat_one]

/-- The bits of the mask `((1 << count) - 1) << shift`. -/
theorem testBit_shiftedMask32 {count shift : ℕ} (hfits : shift + count < 32) (j : ℕ) :
    ((((1 : UInt32) <<< UInt32.ofNat count) - 1) <<< UInt32.ofNat shift).toNat.testBit j =
      decide (shift ≤ j ∧ j < shift + count) := by
  rw [UInt32.toNat_shiftLeft, toNat_fieldMask32 (by omega), toNat_ofNat_shift32 (by omega),
    Nat.mod_eq_of_lt (fieldMask_lt hfits.le), Nat.testBit_shiftLeft, Nat.testBit_two_pow_sub_one]
  by_cases hj : shift ≤ j
  · simp only [hj, decide_true, Bool.true_and, true_and]
    exact decide_eq_decide.mpr (by omega)
  · simp [hj]

/-- The complement of a 32-bit word, bit by bit. -/
theorem testBit_toNat_not32 (mask : UInt32) {j : ℕ} (hj : j < 32) :
    (~~~mask).toNat.testBit j = !mask.toNat.testBit j := by
  have hlt := mask.toNat_lt
  rw [UInt32.toNat_not, show UInt32.size - 1 - mask.toNat = 2 ^ 32 - (mask.toNat + 1) from by
    simp only [UInt32.size]; omega, Nat.testBit_two_pow_sub_succ hlt]
  simp [hj]

/-- The bits of the word `setField` stores: the field's bits from `value`,
the others from `data`. -/
theorem testBit_setFieldWord {data value : UInt32} {size shift : ℕ} (hsize : size ≤ maxFieldBits)
    (hshift : shift < 8) (hvalue : value.toNat < 2 ^ size) {j : ℕ} (hj : j < 32) :
    ((data &&& ~~~(((1 <<< UInt32.ofNat size) - 1) <<< UInt32.ofNat shift)) |||
        (value <<< UInt32.ofNat shift)).toNat.testBit j =
      if shift ≤ j ∧ j < shift + size then value.toNat.testBit (j - shift) else data.toNat.testBit j := by
  simp only [maxFieldBits] at hsize
  rw [UInt32.toNat_or, UInt32.toNat_and, UInt32.toNat_not, UInt32.toNat_shiftLeft, UInt32.toNat_shiftLeft,
    toNat_fieldMask32 (by omega), toNat_ofNat_shift32 (by omega), Nat.mod_eq_of_lt (fieldMask_lt (by omega)),
    show UInt32.size = 2 ^ 32 from rfl]
  exact testBit_replaceField (by omega) hvalue hj

/-- A value of the field's size is written whole, and the rest of the 32-bit
word stored back as it was. -/
theorem setField_of_le {value : UInt32} {buffer : ByteBuffer} {offset size : ℕ}
    (hsize : size ≤ maxFieldBits) (hvalue : value.toNat < 2 ^ size) (h : offset / 8 + 4 ≤ buffer.size) :
    setField value buffer offset size =
      some { buffer with bits := writeBits buffer.bits offset size value.toNat } := by
  rw [setField, getUInt32LE_of_le h]
  simp only [Option.bind_eq_bind, Option.bind_some]
  rw [storeUInt32LE_of_le _ h, Option.some.injEq, ByteBuffer.mk.injEq]
  refine ⟨writeBits_replaceField (by simp only [maxFieldBits] at hsize; omega) fun j hj => ?_, rfl⟩
  rw [testBit_setFieldWord hsize (Nat.mod_lt _ (by decide)) hvalue hj, toNat_ofNat_readBits32 _ _ le_rfl,
    testBit_readBits, decide_eq_true hj, Bool.true_and]

/-! ## Bytes -/

theorem getByte_of_lt {buffer : ByteBuffer} {address : ℕ} (h : address < buffer.size) :
    getByte buffer address = some (UInt8.ofNat (readBits buffer.bits (8 * address) 8)) :=
  if_pos h

/-- A byte whose bits from `lo` are `b` for `n` bits, and the buffer's
elsewhere, stores that run. -/
theorem storeByte_eq_fillBits {buffer : ByteBuffer} {address : ℕ} {byte : UInt8} (lo n : ℕ) {b : Bool}
    (h : address < buffer.size) (hfits : lo + n ≤ 8)
    (hbyte : ∀ j < 8, byte.toNat.testBit j = if lo ≤ j ∧ j < lo + n then b else buffer.bits (8 * address + j)) :
    storeByte buffer address byte = some { buffer with bits := fillBits buffer.bits (8 * address + lo) n b } := by
  rw [storeByte, if_pos h, Option.some.injEq, ByteBuffer.mk.injEq]
  refine ⟨writeBits_eq_of_testBit (fun j hj => ?_) fun bit hbit => ?_, rfl⟩
  · rw [hbyte j hj]
    simp only [fillBits]
    by_cases hrun : lo ≤ j ∧ j < lo + n
    · rw [if_pos hrun, if_pos (by omega)]
    · rw [if_neg hrun, if_neg (by omega)]
  · simp only [fillBits]
    rw [if_neg (by omega)]

/-! ## Runs -/

/-- What `setRun` needs of its byte operations to set a run to `b`: `first`
sets the bits under its mask, `fill` is all `b`, and `last` sets a byte's low
`size` bits. -/
structure RunBytes (first : UInt8 → UInt32 → UInt8) (fill : UInt8) (last : UInt8 → UInt32 → UInt8)
    (b : Bool) : Prop where
  first_testBit : ∀ byte mask, ∀ j < 8,
    (first byte mask).toNat.testBit j = if mask.toNat.testBit j then b else byte.toNat.testBit j
  fill_testBit : ∀ j < 8, fill.toNat.testBit j = b
  last_testBit : ∀ byte, ∀ size ≤ 8, 0 < size → ∀ j < 8,
    (last byte (UInt32.ofNat size)).toNat.testBit j = if j < size then b else byte.toNat.testBit j

section Run

variable {first : UInt8 → UInt32 → UInt8} {fill : UInt8} {last : UInt8 → UInt32 → UInt8} {b : Bool}

/-- The bits of a byte loaded from the buffer. -/
theorem testBit_getByte (memory : ℕ → Bool) (start : ℕ) {j : ℕ} (hj : j < 8) :
    (UInt8.ofNat (readBits memory start 8)).toNat.testBit j = memory (start + j) := by
  rw [UInt8.toNat_ofNat_of_lt' readBits_lt, testBit_readBits, decide_eq_true hj, Bool.true_and]

/-- The loop after the first byte sets the run from `address` on. -/
theorem fillBytes_eq (hrun : RunBytes first fill last b) :
    ∀ size (buffer : ByteBuffer) address, 8 * address + size ≤ 8 * buffer.size →
      fillBytes fill last buffer address size =
        some { buffer with bits := fillBits buffer.bits (8 * address) size b } := by
  intro size
  induction size using Nat.strong_induction_on with
  | _ size ih =>
  intro buffer address hroom
  rw [fillBytes]
  by_cases hbyte : size > 8
  · rw [if_pos hbyte, storeByte_eq_fillBits 0 8 (by omega) le_rfl fun j hj => by
      rw [if_pos (by omega), hrun.fill_testBit j hj]]
    simp only [Option.bind_eq_bind, Option.bind_some]
    rw [ih (size - 8) (by omega) _ (address + 1) (by dsimp only; omega)]
    dsimp only
    rw [show 8 * (address + 1) = 8 * address + 0 + 8 by omega, fillBits_fillBits, Nat.add_zero,
      Nat.add_sub_cancel' (by omega)]
  · rw [if_neg hbyte]
    by_cases hlast : size ≠ 0
    · rw [if_pos hlast, getByte_of_lt (by omega)]
      simp only [Option.bind_eq_bind, Option.bind_some]
      rw [storeByte_eq_fillBits 0 size (b := b) (by omega) (by omega) fun j hj => by
        rw [hrun.last_testBit _ size (by omega) (by omega) j hj, testBit_getByte _ _ hj]
        simp only [Nat.zero_le, true_and, Nat.zero_add], Nat.add_zero]
    · rw [if_neg hlast, show size = 0 by omega, fillBits_zero]

/-- `setRun` sets the run of `size` bits from `offset` to `b`. -/
theorem setRun_eq (hrun : RunBytes first fill last b) {buffer : ByteBuffer} {offset size : ℕ}
    (h : offset + size ≤ 8 * buffer.size) :
    setRun first fill last buffer offset size =
      some { buffer with bits := fillBits buffer.bits offset size b } := by
  have hoffset : 8 * (offset / 8) + offset % 8 = offset := Nat.div_add_mod offset 8
  have hshift : offset % 8 < 8 := Nat.mod_lt _ (by decide)
  rw [setRun]
  by_cases hpos : size > 0
  · rw [if_pos hpos]
    dsimp only
    generalize hcount : (if size + offset % 8 > 8 then 8 - offset % 8 else size) = count
    have hfits : offset % 8 + count ≤ 8 := by split_ifs at hcount <;> omega
    rw [getByte_of_lt (by omega)]
    simp only [Option.bind_eq_bind, Option.bind_some]
    rw [storeByte_eq_fillBits _ _ (by omega) hfits fun j hj => by
      rw [hrun.first_testBit _ _ j hj, testBit_shiftedMask32 (by omega), testBit_getByte _ _ hj]
      by_cases hrun' : offset % 8 ≤ j ∧ j < offset % 8 + count
      · rw [decide_eq_true hrun', if_pos rfl, if_pos hrun']
      · rw [decide_eq_false hrun', if_neg Bool.false_ne_true, if_neg hrun']]
    simp only [Option.bind_some]
    rw [fillBytes_eq hrun _ _ _ (by dsimp only; split_ifs at hcount <;> omega), hoffset]
    dsimp only
    by_cases hspill : size + offset % 8 > 8
    · rw [if_pos hspill] at hcount
      rw [show 8 * (offset / 8 + 1) = offset + count by omega, fillBits_fillBits, Nat.add_sub_cancel' (by omega)]
    · rw [if_neg hspill] at hcount
      rw [← hcount, Nat.sub_self, fillBits_zero]
  · rw [if_neg hpos, show size = 0 by omega, fillBits_zero]

end Run

/-- The low bits of `~(0xFF << size)` are `size` ones. -/
theorem testBit_lastOneMask : ∀ size ≤ 8, 0 < size → ∀ j < 8,
    (~~~((0xFF : UInt32) <<< UInt32.ofNat size)).toUInt8.toNat.testBit j = decide (j < size) := by
  decide

/-- The low bits of `0xFF << size` are `size` zeros. -/
theorem testBit_lastZeroMask : ∀ size ≤ 8, 0 < size → ∀ j < 8,
    ((0xFF : UInt32) <<< UInt32.ofNat size).toUInt8.toNat.testBit j = decide (size ≤ j) := by
  decide

theorem setOne_runBytes :
    RunBytes (fun byte mask => byte ||| mask.toUInt8) 0xFF
      (fun byte size => byte ||| (~~~((0xFF : UInt32) <<< size)).toUInt8) true where
  first_testBit byte mask j hj := by
    rw [UInt8.toNat_or, UInt32.toNat_toUInt8, Nat.testBit_or, Nat.testBit_mod_two_pow, decide_eq_true hj,
      Bool.true_and]
    cases mask.toNat.testBit j <;> simp
  fill_testBit := by decide
  last_testBit byte size hsize hpos j hj := by
    rw [UInt8.toNat_or, Nat.testBit_or, testBit_lastOneMask size hsize hpos j hj]
    by_cases hlow : j < size <;> simp [hlow]

theorem setZero_runBytes :
    RunBytes (fun byte mask => byte &&& (~~~mask).toUInt8) 0
      (fun byte size => byte &&& ((0xFF : UInt32) <<< size).toUInt8) false where
  first_testBit byte mask j hj := by
    rw [UInt8.toNat_and, UInt32.toNat_toUInt8, Nat.testBit_and, Nat.testBit_mod_two_pow, decide_eq_true hj,
      Bool.true_and, testBit_toNat_not32 mask (by omega)]
    cases mask.toNat.testBit j <;> simp
  fill_testBit := by decide
  last_testBit byte size hsize hpos j hj := by
    rw [UInt8.toNat_and, Nat.testBit_and, testBit_lastZeroMask size hsize hpos j hj]
    by_cases hlow : j < size
    · simp [hlow]
    · simp [hlow, show size ≤ j by omega]

/-- The delta memory model's `setOne` is the run of ones. -/
theorem setOne_eq_fillBits (memory : ℕ → Bool) (offset size : ℕ) :
    Uds.setOne memory offset size = fillBits memory offset size true :=
  rfl

/-- `setOne` sets the run, as `Vdo.Uds.setOne` of the delta memory model
does. -/
theorem setOne_eq {buffer : ByteBuffer} {offset size : ℕ} (h : offset + size ≤ 8 * buffer.size) :
    setOne buffer offset size = some { buffer with bits := Uds.setOne buffer.bits offset size } :=
  setRun_eq setOne_runBytes h

/-- `setZero` clears the run. -/
theorem setZero_eq {buffer : ByteBuffer} {offset size : ℕ} (h : offset + size ≤ 8 * buffer.size) :
    setZero buffer offset size = some { buffer with bits := fillBits buffer.bits offset size false } :=
  setRun_eq setZero_runBytes h

end Vdo.Uds.Bits
