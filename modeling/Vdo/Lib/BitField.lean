import Mathlib

/-!
# Bit fields of a memory of bits

A memory is a function from bit positions to bits. A field of `size` bits
from `start` is read as a number least significant bit first (`readBits`),
and written back the same way (`writeBits`). Every fact below is stated
through `Nat.testBit`, so that a word built with shifts and masks can be
compared with a field bit by bit.
-/

namespace BitField

/-- The `size` bits from `start` as a number: bit `start + i` is its bit `i`. -/
def readBits (memory : ℕ → Bool) (start : ℕ) : ℕ → ℕ
  | 0 => 0
  | size + 1 => Nat.bit (memory start) (readBits memory (start + 1) size)

/-- The memory with the `size` bits from `start` replaced by the low bits of
`value`. -/
def writeBits (memory : ℕ → Bool) (start size value : ℕ) : ℕ → Bool :=
  fun bit => if start ≤ bit ∧ bit < start + size then value.testBit (bit - start) else memory bit

variable {memory memory' : ℕ → Bool} {start size : ℕ}

@[simp] theorem testBit_readBits (memory : ℕ → Bool) (start size i : ℕ) :
    (readBits memory start size).testBit i = (decide (i < size) && memory (start + i)) := by
  induction size generalizing start i with
  | zero => simp [readBits]
  | succ size ih =>
    cases i with
    | zero => simp [readBits]
    | succ i =>
      rw [readBits, Nat.testBit_bit_succ, ih, Nat.add_right_comm, Nat.add_assoc start i 1]
      simp

theorem readBits_lt : readBits memory start size < 2 ^ size :=
  Nat.lt_pow_two_of_testBit _ fun i hi => by simp; omega

/-- A number below `2 ^ size` with the field's bits is the field. -/
theorem eq_readBits {value : ℕ} (hlt : value < 2 ^ size)
    (hbits : ∀ i < size, value.testBit i = memory (start + i)) :
    value = readBits memory start size := by
  apply Nat.eq_of_testBit_eq
  intro i
  by_cases hi : i < size
  · simp [hi, hbits i hi]
  · have hbig : value < 2 ^ i := lt_of_lt_of_le hlt (Nat.pow_le_pow_right (by decide) (by omega))
    simp [hi, Nat.testBit_lt_two_pow hbig]

/-- Shifting a field right drops its low bits. -/
theorem readBits_shiftRight (memory : ℕ → Bool) (start size shift : ℕ) :
    readBits memory start size >>> shift = readBits memory (start + shift) (size - shift) := by
  apply Nat.eq_of_testBit_eq
  intro i
  rw [Nat.testBit_shiftRight, testBit_readBits, testBit_readBits, Nat.add_assoc]
  congr 1
  exact decide_eq_decide.mpr (by omega)

/-- Masking a field keeps its low bits. -/
theorem readBits_mod_two_pow (memory : ℕ → Bool) (start size bits : ℕ) :
    readBits memory start size % 2 ^ bits = readBits memory start (min size bits) := by
  apply Nat.eq_of_testBit_eq
  intro i
  rw [Nat.testBit_mod_two_pow, testBit_readBits, testBit_readBits, ← Bool.and_assoc]
  congr 1
  rw [← Bool.decide_and]
  exact decide_eq_decide.mpr (by omega)

/-! ## Replacing a field inside a word

A field written by loading the word around it, clearing the field's bits
with a mask, or-ing the shifted value in and storing the word back. -/

/-- The mask of a field of `size` bits at `shift` fits a word it fits in. -/
theorem fieldMask_lt {width size shift : ℕ} (hfits : shift + size ≤ width) :
    (2 ^ size - 1) <<< shift < 2 ^ width := by
  rw [Nat.shiftLeft_eq]
  calc (2 ^ size - 1) * 2 ^ shift < 2 ^ size * 2 ^ shift :=
        Nat.mul_lt_mul_of_pos_right (by have := Nat.one_le_two_pow (n := size); omega) (Nat.two_pow_pos shift)
    _ = 2 ^ (shift + size) := by rw [Nat.pow_add, Nat.mul_comm]
    _ ≤ 2 ^ width := Nat.pow_le_pow_right (by omega) hfits

/-- The bits of a word of `width` bits with its field of `size` bits at
`shift` cleared by the complement of the mask and replaced by `value`. -/
theorem testBit_replaceField {width size shift data value j : ℕ} (hfits : shift + size ≤ width)
    (hvalue : value < 2 ^ size) (hj : j < width) :
    ((data &&& (2 ^ width - 1 - (2 ^ size - 1) <<< shift)) ||| (value <<< shift % 2 ^ width)).testBit j =
      if shift ≤ j ∧ j < shift + size then value.testBit (j - shift) else data.testBit j := by
  have hmask := fieldMask_lt hfits
  have hnot : (2 ^ width - 1 - (2 ^ size - 1) <<< shift).testBit j = !((2 ^ size - 1) <<< shift).testBit j := by
    rw [show 2 ^ width - 1 - (2 ^ size - 1) <<< shift = 2 ^ width - ((2 ^ size - 1) <<< shift + 1) by omega,
      Nat.testBit_two_pow_sub_succ hmask]
    simp [hj]
  simp only [Nat.testBit_or, Nat.testBit_and, hnot, Nat.testBit_mod_two_pow, Nat.testBit_shiftLeft,
    Nat.testBit_two_pow_sub_one]
  by_cases hfield : shift ≤ j ∧ j < shift + size
  · simp [hfield, hj, show j - shift < size by omega]
  · have hhigh : shift ≤ j → value.testBit (j - shift) = false := fun hle =>
      Nat.testBit_lt_two_pow (lt_of_lt_of_le hvalue (Nat.pow_le_pow_right (by decide) (by omega)))
    by_cases hle : shift ≤ j
    · have hbeyond : shift + size ≤ j := by omega
      simp [hle, hhigh hle, hbeyond, show ¬ j - shift < size by omega]
    · simp [hle]

/-- Storing back the word around a field, with just the field's bits
replaced, writes the field. -/
theorem writeBits_replaceField {memory : ℕ → Bool} {width offset size value word : ℕ}
    (hfits : offset % 8 + size ≤ width)
    (hword : ∀ j < width, word.testBit j =
      if offset % 8 ≤ j ∧ j < offset % 8 + size then value.testBit (j - offset % 8)
      else memory (8 * (offset / 8) + j)) :
    writeBits memory (8 * (offset / 8)) width word = writeBits memory offset size value := by
  have hoffset : 8 * (offset / 8) + offset % 8 = offset := Nat.div_add_mod offset 8
  funext bit
  simp only [writeBits]
  by_cases hword' : 8 * (offset / 8) ≤ bit ∧ bit < 8 * (offset / 8) + width
  · rw [if_pos hword', hword _ (by omega)]
    by_cases hfield : offset ≤ bit ∧ bit < offset + size
    · rw [if_pos (by omega), if_pos hfield]
      congr 1
      omega
    · rw [if_neg (by omega), if_neg hfield]
      congr 1
      omega
  · rw [if_neg hword', if_neg (by omega)]

@[simp] theorem writeBits_zero (memory : ℕ → Bool) (start value : ℕ) :
    writeBits memory start 0 value = memory := by
  funext bit
  simp [writeBits]

/-- A written field holds the value's low bits. -/
theorem writeBits_start_add (memory : ℕ → Bool) (start value : ℕ) {size i : ℕ} (hi : i < size) :
    writeBits memory start size value (start + i) = value.testBit i := by
  simp only [writeBits]
  rw [if_pos (by omega), Nat.add_sub_cancel_left]

/-- A write is any memory with the value's bits inside the field and the old
bits outside it. -/
theorem writeBits_eq_of_testBit {value : ℕ} {new : ℕ → Bool}
    (hinside : ∀ i < size, value.testBit i = new (start + i))
    (houtside : ∀ bit, ¬ (start ≤ bit ∧ bit < start + size) → new bit = memory bit) :
    writeBits memory start size value = new := by
  funext bit
  simp only [writeBits]
  by_cases hfield : start ≤ bit ∧ bit < start + size
  · rw [if_pos hfield, hinside _ (by omega), Nat.add_sub_cancel' hfield.1]
  · rw [if_neg hfield, houtside bit hfield]

/-! ## Runs of one bit -/

/-- The memory with the `size` bits from `start` set to `b`. -/
def fillBits (memory : ℕ → Bool) (start size : ℕ) (b : Bool) : ℕ → Bool :=
  fun bit => if start ≤ bit ∧ bit < start + size then b else memory bit

@[simp] theorem fillBits_zero (memory : ℕ → Bool) (start : ℕ) (b : Bool) :
    fillBits memory start 0 b = memory := by
  funext bit
  simp [fillBits]

/-- Two runs of the same bit, one after the other, are one run. -/
theorem fillBits_fillBits (memory : ℕ → Bool) (start size size' : ℕ) (b : Bool) :
    fillBits (fillBits memory start size b) (start + size) size' b = fillBits memory start (size + size') b := by
  funext bit
  simp only [fillBits]
  by_cases hsecond : start + size ≤ bit ∧ bit < start + size + size'
  · rw [if_pos hsecond, if_pos (by omega)]
  · rw [if_neg hsecond]
    by_cases hfirst : start ≤ bit ∧ bit < start + size
    · rw [if_pos hfirst, if_pos (by omega)]
    · rw [if_neg hfirst, if_neg (by omega)]

/-! ## A field followed by a unary count

The code of `encodeDelta` past its first field: `zeros` zero bits and a one,
so that the whole code is the number `value + 2 ^ (width + zeros)`. -/

theorem testBit_add_two_pow {value width : ℕ} (zeros : ℕ) (hvalue : value < 2 ^ width) (i : ℕ) :
    (value + 2 ^ (width + zeros)).testBit i = if i < width then value.testBit i else decide (i = width + zeros) := by
  have hsmall : ∀ {j}, width ≤ j → value.testBit j = false := fun hj =>
    Nat.testBit_lt_two_pow (lt_of_lt_of_le hvalue (Nat.pow_le_pow_right (by decide) hj))
  rw [Nat.add_comm]
  by_cases hlow : i < width + zeros
  · rw [Nat.testBit_two_pow_add_gt hlow]
    by_cases hi : i < width
    · rw [if_pos hi]
    · rw [if_neg hi, hsmall (by omega), decide_eq_false (by omega)]
  · by_cases hone : i = width + zeros
    · rw [hone, Nat.testBit_two_pow_add_eq, hsmall (by omega), if_neg (by omega)]
      simp
    · have hlt : 2 ^ (width + zeros) + value < 2 ^ i := by
        have hpow : 2 ^ width ≤ 2 ^ (width + zeros) := Nat.pow_le_pow_right (by decide) (by omega)
        calc 2 ^ (width + zeros) + value < 2 ^ (width + zeros) + 2 ^ (width + zeros) := by omega
          _ = 2 ^ (width + zeros + 1) := by rw [Nat.pow_succ]; omega
          _ ≤ 2 ^ i := Nat.pow_le_pow_right (by decide) (by omega)
      rw [Nat.testBit_lt_two_pow hlt, if_neg (by omega), decide_eq_false hone]

/-- A field, a run of zeros after it and a one bit after those are one field. -/
theorem fillBits_writeBits_unary (memory : ℕ → Bool) (start : ℕ) {value width : ℕ} (zeros : ℕ)
    (hvalue : value < 2 ^ width) :
    fillBits (fillBits (writeBits memory start width value) (start + width) zeros false) (start + width + zeros) 1
        true =
      writeBits memory start (width + zeros + 1) (value + 2 ^ (width + zeros)) := by
  symm
  apply writeBits_eq_of_testBit
  · intro i hi
    rw [testBit_add_two_pow zeros hvalue]
    simp only [fillBits, writeBits]
    by_cases hfield : i < width
    · rw [if_pos hfield, if_neg (by omega), if_neg (by omega), if_pos (by omega), Nat.add_sub_cancel_left]
    · by_cases hzero : i < width + zeros
      · rw [if_neg hfield, if_neg (by omega), if_pos (by omega), decide_eq_false (by omega)]
      · rw [if_neg hfield, if_pos (by omega), decide_eq_true (by omega)]
  · intro bit hbit
    simp only [fillBits, writeBits]
    rw [if_neg (by omega), if_neg (by omega), if_neg (by omega)]

end BitField
