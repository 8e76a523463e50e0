import Vdo.Uds.FieldStores

/-!
# The delta code

A delta list stores each key as its distance from the key before it
(`deltaIndex.c`), in the code of `computeCodingConstants` (`deltaMemory.c`):
the `minKeys` smallest deltas take `minBits` bits, and each further run of
`incrKeys` deltas one bit more. A longer code is a `minBits` field holding
`minKeys` plus the delta's place in its run, then one zero bit for each run
passed over, then a one. `encodeDelta` writes the code with `setField`,
`setZero` and `setOne`. `decodeDelta` reads the field from one 32-bit load
and finds the one bit with `ffs`, scanning whole words when the first has
none after the field. `setDelta` computes the code's length in closed form,
in `unsigned int` arithmetic.

The code, as a number of `deltaCodeBits` bits, is `deltaCode`. For the
constants of a mean delta that `invalidParameters` accepts, `encodeDelta`
writes exactly that code and `decodeDelta` reads the delta and the length back
from any memory holding it (`deltaCode_round_trip`). `setDelta` agrees when
`incrKeys - minKeys + delta` does not wrap. It wraps for a delta below
`minKeys - incrKeys`, which is positive exactly when `incrKeys + 1` is a
power of two, as for a mean delta of 10.
-/

namespace Vdo.Uds.Bits

open BitField

/-- `COLLISION_BITS`: the bits of a chunk name of `UDS_CHUNK_NAME_SIZE`
bytes. -/
def collisionBits : ℕ := 16 * 8

/-- The coding constants of a `DeltaMemory`. -/
structure CodingConstants where
  minBits : ℕ
  minKeys : ℕ
  incrKeys : ℕ
  deriving DecidableEq, Repr

/-- `computeCodingConstants`: `incrKeys` the rounded `log(2) * meanDelta`,
`minBits` the bits of `incrKeys + 1`, and `minKeys` the codes of `minBits`
bits left for the shortest deltas. `1 << minBits` exceeds `incrKeys`, so the
subtraction does not wrap. -/
def computeCodingConstants (meanDelta : ℕ) : CodingConstants :=
  let incrKeys := (836158 * meanDelta + 603160) / 1206321
  let minBits := computeBits (incrKeys + 1)
  { minBits, minKeys := 2 ^ minBits - incrKeys, incrKeys }

/-- `invalidParameters`, without its log messages. -/
def invalidParameters (meanDelta numPayloadBits : ℕ) : Bool :=
  let minDelta := 10
  let maxDelta := 2 ^ maxFieldBits
  if meanDelta < minDelta ∨ meanDelta > maxDelta then true
  else if numPayloadBits > maxFieldBits then true
  else false

/-- The fields of a `DeltaIndexEntry` that the coding of its delta reads and
writes, with the start of its list in the zone's memory. -/
structure DeltaIndexEntry where
  listStart : ℕ
  key : ℕ
  isCollision : Bool
  valueBits : ℕ
  entryBits : ℕ
  offset : ℕ
  delta : ℕ
  deriving DecidableEq, Repr

/-- `getDeltaEntryOffset`: the entry's bit offset in the zone's memory. -/
def getDeltaEntryOffset (deltaEntry : DeltaIndexEntry) : ℕ :=
  deltaEntry.listStart + deltaEntry.offset

/-! ## Encoding -/

/-- `encodeDelta`: the code of the entry's delta after its value. -/
def encodeDelta (coding : CodingConstants) (memory : ByteBuffer) (deltaEntry : DeltaIndexEntry) :
    Option ByteBuffer :=
  let offset := getDeltaEntryOffset deltaEntry + deltaEntry.valueBits
  if deltaEntry.delta < coding.minKeys then
    setField (UInt32.ofNat deltaEntry.delta) memory offset coding.minBits
  else do
    let temp := deltaEntry.delta - coding.minKeys
    let t1 := temp % coding.incrKeys + coding.minKeys
    let t2 := temp / coding.incrKeys
    let memory ← setField (UInt32.ofNat t1) memory offset coding.minBits
    let memory ← setZero memory (offset + coding.minBits) t2
    setOne memory (offset + coding.minBits + t2) 1

/-! ## Decoding -/

/-- The loop of `ffs` from bit `i`, for `fuel` more bits. -/
def ffsFrom (data : ℕ) : ℕ → ℕ → ℕ
  | 0, _ => 0
  | fuel + 1, i => if data.testBit i then i + 1 else ffsFrom data fuel (i + 1)

/-- `ffs`: one more than the position of the lowest one bit of a word, and
zero for a zero word. -/
def ffs (data : UInt32) : ℕ := ffsFrom data.toNat 32 0

/-- The `while` loop of `decodeDelta`: the first word from `address` that is
not zero, `keyBits` counting 32 more bits for each zero word passed. -/
def scanZeroWords (memory : ByteBuffer) (address keyBits : ℕ) : Option (UInt32 × ℕ) :=
  match h : getUInt32LE memory address with
  | none => none
  | some data =>
    if data = 0 then scanZeroWords memory (address + 4) (keyBits + 4 * 8) else some (data, keyBits)
termination_by memory.size - address
decreasing_by
  rw [getUInt32LE] at h
  split_ifs at h with hroom
  omega

/-- The branch of `decodeDelta` for a field of at least `minKeys`: the bits
after the field up to the first one bit, in the rest of this word or in a
later word `scanZeroWords` finds, count the runs of `incrKeys` to add. Gives
the delta and `keyBits`. -/
def decodeLongDelta (coding : CodingConstants) (memory : ByteBuffer) (address offset : ℕ) (data : UInt32)
    (delta : ℕ) : Option (ℕ × ℕ) := do
  let data := data >>> UInt32.ofNat coding.minBits
  let (data, keyBits) ←
    (if data = 0 then scanZeroWords memory address (4 * 8 - offset) else some (data, coding.minBits))
  let keyBits := keyBits + ffs data
  pure (((delta + ((keyBits : ℤ) - coding.minBits - 1) * coding.incrKeys) % 2 ^ 32).toNat, keyBits)

/-- The reading part of `decodeDelta`: the delta coded from `deltaOffset`,
and the code's length `keyBits`. -/
def readDelta (coding : CodingConstants) (memory : ByteBuffer) (deltaOffset : ℕ) : Option (ℕ × ℕ) := do
  let addr := deltaOffset / 8
  let offset := deltaOffset % 8
  let data ← getUInt32LE memory addr
  let data := data >>> UInt32.ofNat offset
  let keyBits := coding.minBits
  let delta := (data &&& ((1 <<< UInt32.ofNat keyBits) - 1)).toNat
  if delta ≥ coding.minKeys then decodeLongDelta coding memory (addr + 4) offset data delta
  else pure (delta, keyBits)

/-- `decodeDelta`: the delta after the entry's value, added to the key; a
delta of zero after the start of the list marks a collision, whose name
follows the entry. `entryBits` is an `unsigned short`. -/
def decodeDelta (coding : CodingConstants) (memory : ByteBuffer) (deltaEntry : DeltaIndexEntry) :
    Option DeltaIndexEntry := do
  let (delta, keyBits) ← readDelta coding memory (getDeltaEntryOffset deltaEntry + deltaEntry.valueBits)
  let deltaEntry := { deltaEntry with delta, key := (deltaEntry.key + delta) % 2 ^ 32 }
  if delta = 0 ∧ deltaEntry.offset > 0 then
    pure { deltaEntry with
      isCollision := true
      entryBits := (deltaEntry.valueBits + keyBits + collisionBits) % 2 ^ 16 }
  else
    pure { deltaEntry with isCollision := false, entryBits := (deltaEntry.valueBits + keyBits) % 2 ^ 16 }

/-- `setDelta`: the new delta, and the entry's length from the closed form
`minBits + (incrKeys - minKeys + delta) / incrKeys` of `unsigned int`s, in the
16-bit `entryBits`. -/
def setDelta (coding : CodingConstants) (deltaEntry : DeltaIndexEntry) (delta : ℕ) : DeltaIndexEntry :=
  let keyBits :=
    (coding.minBits + ((coding.incrKeys - coding.minKeys + delta : ℤ) % 2 ^ 32).toNat / coding.incrKeys) % 2 ^ 32
  { deltaEntry with delta, entryBits := (deltaEntry.valueBits + keyBits) % 2 ^ 16 }

/-! ## The code -/

/-- The length of the code of `delta`. -/
def deltaCodeBits (coding : CodingConstants) (delta : ℕ) : ℕ :=
  if delta < coding.minKeys then coding.minBits
  else coding.minBits + (delta - coding.minKeys) / coding.incrKeys + 1

/-- The code of `delta` as a number: the delta in `minBits` bits, or the
field `minKeys + (delta - minKeys) % incrKeys` followed by
`(delta - minKeys) / incrKeys` zeros and a one. -/
def deltaCode (coding : CodingConstants) (delta : ℕ) : ℕ :=
  if delta < coding.minKeys then delta
  else (delta - coding.minKeys) % coding.incrKeys + coding.minKeys +
    2 ^ (coding.minBits + (delta - coding.minKeys) / coding.incrKeys)

/-- What the code needs of its constants: the `minKeys` short codes and the
`incrKeys` codes of each further length fill the `minBits` field, which
`setField` can write. -/
structure CodingConstants.Valid (coding : CodingConstants) : Prop where
  incrKeys_pos : 0 < coding.incrKeys
  minKeys_add_incrKeys : coding.minKeys + coding.incrKeys = 2 ^ coding.minBits
  minBits_le : coding.minBits ≤ maxFieldBits

/-- The loop of `computeBits` counts no more bits than a bound's. -/
theorem computeBitsFrom_le : ∀ (fuel : ℕ) {maxValue width : ℕ}, maxValue < 2 ^ width →
    computeBitsFrom fuel maxValue ≤ width := by
  intro fuel
  induction fuel with
  | zero => intro maxValue width _; exact Nat.zero_le _
  | succ fuel ih =>
    intro maxValue width hlt
    rw [computeBitsFrom]
    split_ifs with hpos
    · obtain ⟨width, rfl⟩ : ∃ w, width = w + 1 :=
        Nat.exists_eq_succ_of_ne_zero fun h => by rw [h, pow_zero] at hlt; omega
      have hhalf : maxValue / 2 < 2 ^ width := by rw [pow_succ] at hlt; omega
      exact Nat.succ_le_succ (ih hhalf)
    · exact Nat.zero_le _

/-- The constants of an accepted mean delta are valid: `incrKeys` is at
least 7, and below `2 ^ 25` with `incrKeys + 1`, whose bits are `minBits`. -/
theorem computeCodingConstants_valid {meanDelta numPayloadBits : ℕ}
    (hparams : invalidParameters meanDelta numPayloadBits = false) :
    (computeCodingConstants meanDelta).Valid := by
  have hmax : maxFieldBits = 25 := rfl
  simp only [invalidParameters, hmax] at hparams
  have hrange : 10 ≤ meanDelta ∧ meanDelta ≤ 2 ^ 25 := by
    by_contra hout
    rw [if_pos (by omega)] at hparams
    exact Bool.noConfusion hparams
  have hincr : (836158 * meanDelta + 603160) / 1206321 + 1 < 2 ^ 25 := by omega
  have hmod : ((836158 * meanDelta + 603160) / 1206321 + 1) % 2 ^ 32 =
      (836158 * meanDelta + 603160) / 1206321 + 1 := Nat.mod_eq_of_lt (by omega)
  have hbits := lt_two_pow_computeBitsFrom 32 ((836158 * meanDelta + 603160) / 1206321 + 1) (by omega)
  have hle := computeBitsFrom_le 32 hincr
  refine ⟨by simp only [computeCodingConstants]; omega, ?_, ?_⟩
  · simp only [computeCodingConstants, computeBits, hmod]
    omega
  · simp only [computeCodingConstants, computeBits, hmod, maxFieldBits]
    omega

/-! ### The code's bits -/

section Code

variable {coding : CodingConstants} {delta : ℕ}

/-- The field of a long code fits its `minBits` bits. -/
theorem longField_lt (hcoding : coding.Valid) (delta : ℕ) :
    (delta - coding.minKeys) % coding.incrKeys + coding.minKeys < 2 ^ coding.minBits := by
  have hrun := Nat.mod_lt (delta - coding.minKeys) hcoding.incrKeys_pos
  have hfill := hcoding.minKeys_add_incrKeys
  omega

/-- The delta is the long code's field plus its runs of `incrKeys`. -/
theorem longField_add_runs (hshort : ¬ delta < coding.minKeys) :
    (delta - coding.minKeys) % coding.incrKeys + coding.minKeys +
        (delta - coding.minKeys) / coding.incrKeys * coding.incrKeys = delta := by
  have hsplit := Nat.mod_add_div (delta - coding.minKeys) coding.incrKeys
  calc (delta - coding.minKeys) % coding.incrKeys + coding.minKeys +
        (delta - coding.minKeys) / coding.incrKeys * coding.incrKeys =
        (delta - coding.minKeys) % coding.incrKeys +
          coding.incrKeys * ((delta - coding.minKeys) / coding.incrKeys) + coding.minKeys := by ring
    _ = delta := by rw [hsplit]; omega

theorem deltaCode_of_lt (hshort : delta < coding.minKeys) : deltaCode coding delta = delta := if_pos hshort

theorem deltaCodeBits_of_lt (hshort : delta < coding.minKeys) : deltaCodeBits coding delta = coding.minBits :=
  if_pos hshort

theorem deltaCode_of_le (hshort : ¬ delta < coding.minKeys) :
    deltaCode coding delta = (delta - coding.minKeys) % coding.incrKeys + coding.minKeys +
      2 ^ (coding.minBits + (delta - coding.minKeys) / coding.incrKeys) :=
  if_neg hshort

theorem deltaCodeBits_of_le (hshort : ¬ delta < coding.minKeys) :
    deltaCodeBits coding delta = coding.minBits + (delta - coding.minKeys) / coding.incrKeys + 1 :=
  if_neg hshort

theorem minBits_le_deltaCodeBits (coding : CodingConstants) (delta : ℕ) :
    coding.minBits ≤ deltaCodeBits coding delta := by
  unfold deltaCodeBits
  split_ifs
  · exact le_rfl
  · exact Nat.le_succ_of_le (Nat.le_add_right _ _)

end Code

/-! ## `encodeDelta` writes the code -/

/-- `encodeDelta` writes the code of the entry's delta, `deltaCodeBits` bits
after the entry's value, and nothing else, for a code followed by the
memory's guard bytes. -/
theorem encodeDelta_eq {coding : CodingConstants} (hcoding : coding.Valid) (memory : ByteBuffer)
    (deltaEntry : DeltaIndexEntry)
    (hroom : getDeltaEntryOffset deltaEntry + deltaEntry.valueBits + deltaCodeBits coding deltaEntry.delta +
      8 * postFieldGuardBytes ≤ 8 * memory.size) :
    encodeDelta coding memory deltaEntry =
      some { memory with
        bits := writeBits memory.bits (getDeltaEntryOffset deltaEntry + deltaEntry.valueBits)
          (deltaCodeBits coding deltaEntry.delta) (deltaCode coding deltaEntry.delta) } := by
  have hbits := hcoding.minBits_le
  have hfill := hcoding.minKeys_add_incrKeys
  have hk := minBits_le_deltaCodeBits coding deltaEntry.delta
  simp only [maxFieldBits, postFieldGuardBytes] at hbits hroom
  have hpow : 2 ^ coding.minBits ≤ 2 ^ 25 := Nat.pow_le_pow_right (by decide) hbits
  rw [encodeDelta]
  generalize getDeltaEntryOffset deltaEntry + deltaEntry.valueBits = pos at hroom ⊢
  by_cases hshort : deltaEntry.delta < coding.minKeys
  · rw [if_pos hshort, deltaCodeBits_of_lt hshort, deltaCode_of_lt hshort]
    have hvalue : (UInt32.ofNat deltaEntry.delta).toNat = deltaEntry.delta :=
      UInt32.toNat_ofNat_of_lt' (by simp only [UInt32.size]; omega)
    rw [setField_of_le (by simp only [maxFieldBits]; omega) (by omega) (by omega), hvalue]
  · rw [if_neg hshort, deltaCodeBits_of_le hshort, deltaCode_of_le hshort]
    rw [deltaCodeBits_of_le hshort] at hroom
    have ht1 := longField_lt hcoding deltaEntry.delta
    dsimp only
    generalize (deltaEntry.delta - coding.minKeys) % coding.incrKeys + coding.minKeys = t1 at ht1 ⊢
    generalize (deltaEntry.delta - coding.minKeys) / coding.incrKeys = t2 at hroom ⊢
    have hvalue : (UInt32.ofNat t1).toNat = t1 := UInt32.toNat_ofNat_of_lt' (by simp only [UInt32.size]; omega)
    rw [setField_of_le (by simp only [maxFieldBits]; omega) (by rw [hvalue]; exact ht1) (by omega)]
    simp only [Option.bind_eq_bind, Option.bind_some]
    rw [setZero_eq (by dsimp only; omega)]
    simp only [Option.bind_some]
    rw [setOne_eq (by dsimp only; omega), setOne_eq_fillBits, hvalue, fillBits_writeBits_unary _ _ _ ht1]

/-! ## `decodeDelta` reads it back -/

/-- The word of a load shifted to a bit below 32: the bits from there to the
word's end. -/
theorem toNat_shiftRight_readBits32 (memory : ℕ → Bool) (start : ℕ) {offset : ℕ} (hoffset : offset < 32) :
    (UInt32.ofNat (readBits memory start 32) >>> UInt32.ofNat offset).toNat =
      readBits memory (start + offset) (32 - offset) := by
  rw [UInt32.toNat_shiftRight, toNat_ofNat_shift32 hoffset, toNat_ofNat_readBits32 _ _ le_rfl,
    readBits_shiftRight]

/-- A word masked with `(1 << size) - 1` keeps its low `size` bits. -/
theorem toNat_and_fieldMask32 (data : UInt32) {size : ℕ} (hsize : size < 32) :
    (data &&& ((1 <<< UInt32.ofNat size) - 1)).toNat = data.toNat % 2 ^ size := by
  rw [UInt32.toNat_and, toNat_fieldMask32 hsize, Nat.and_two_pow_sub_one_eq_mod]

/-- `ffsFrom` finds the first one bit from `i` within its fuel. -/
theorem ffsFrom_eq {data : ℕ} {n : ℕ} (hone : data.testBit n = true) :
    ∀ fuel i, i ≤ n → n < i + fuel → (∀ j, i ≤ j → j < n → data.testBit j = false) →
      ffsFrom data fuel i = n + 1 := by
  intro fuel
  induction fuel with
  | zero => intro i hi hn; omega
  | succ fuel ih =>
    intro i hi hn hzeros
    rw [ffsFrom]
    by_cases hbit : data.testBit i
    · have hin : i = n := by
        by_contra hne
        rw [hzeros i le_rfl (by omega)] at hbit
        exact Bool.false_ne_true hbit
      rw [if_pos hbit, hin]
    · have hin : i ≠ n := fun h => by rw [h, hone] at hbit; exact hbit rfl
      rw [if_neg hbit]
      exact ih (i + 1) (by omega) (by omega) fun j hj hjn => hzeros j (by omega) hjn

/-- `ffs` of a word read from a memory: one more than the zeros before the
first one bit. -/
theorem ffs_eq {data : UInt32} {memory : ℕ → Bool} {start size zeros : ℕ}
    (hdata : data.toNat = readBits memory start size) (hsize : size ≤ 32) (hzeros_lt : zeros < size)
    (hzeros : ∀ i < zeros, memory (start + i) = false) (hone : memory (start + zeros) = true) :
    ffs data = zeros + 1 := by
  apply ffsFrom_eq _ 32 0 (Nat.zero_le _) (by omega)
  · intro j _ hj
    rw [hdata, testBit_readBits, hzeros j hj, Bool.and_false]
  · rw [hdata, testBit_readBits, hone, decide_eq_true hzeros_lt, Bool.true_and]

/-- A word read from a memory is zero when the bits it reads are. -/
theorem eq_zero_of_readBits {data : UInt32} {memory : ℕ → Bool} {start size : ℕ}
    (hdata : data.toNat = readBits memory start size) (hzeros : ∀ i < size, memory (start + i) = false) :
    data = 0 := by
  have hzero : readBits memory start size = 0 :=
    (eq_readBits (Nat.two_pow_pos size) fun i hi => by rw [Nat.zero_testBit, hzeros i hi]).symm
  rw [hzero] at hdata
  exact UInt32.toNat_inj.mp hdata

/-- A word read from a memory is not zero when one bit it reads is set. -/
theorem ne_zero_of_readBits {data : UInt32} {memory : ℕ → Bool} {start size i : ℕ}
    (hdata : data.toNat = readBits memory start size) (hi : i < size) (hone : memory (start + i) = true) :
    data ≠ 0 := by
  intro hzero
  have hbit : data.toNat.testBit i = true := by
    rw [hdata, testBit_readBits, hone, decide_eq_true hi, Bool.true_and]
  rw [hzero, UInt32.toNat_zero, Nat.zero_testBit] at hbit
  exact Bool.false_ne_true hbit

theorem scanZeroWords_of_le {memory : ByteBuffer} {address : ℕ} (keyBits : ℕ) (h : address + 4 ≤ memory.size) :
    scanZeroWords memory address keyBits =
      if UInt32.ofNat (readBits memory.bits (8 * address) 32) = 0 then
        scanZeroWords memory (address + 4) (keyBits + 4 * 8)
      else some (UInt32.ofNat (readBits memory.bits (8 * address) 32), keyBits) := by
  rw [scanZeroWords]
  split
  next hnone => rw [getUInt32LE_of_le h] at hnone; cases hnone
  next data hsome =>
    rw [getUInt32LE_of_le h, Option.some.injEq] at hsome
    rw [hsome]

/-- The scan passes the zero words before the first one bit, and what it
returns locates that bit: `keyBits` and `ffs` of the word found add up to the
zeros passed, plus one. -/
theorem scanZeroWords_spec {memory : ByteBuffer} :
    ∀ zeros address keyBits, (∀ i < zeros, memory.bits (8 * address + i) = false) →
      memory.bits (8 * address + zeros) = true → 8 * address + zeros + 32 ≤ 8 * memory.size →
      ∃ data found, scanZeroWords memory address keyBits = some (data, found) ∧
        found + ffs data = keyBits + zeros + 1 := by
  intro zeros
  induction zeros using Nat.strong_induction_on with
  | _ zeros ih =>
  intro address keyBits hzeros hone hroom
  have hdata := toNat_ofNat_readBits32 memory.bits (8 * address) le_rfl
  rw [scanZeroWords_of_le keyBits (by omega)]
  by_cases hword : zeros < 32
  · rw [if_neg (ne_zero_of_readBits hdata hword hone)]
    exact ⟨_, _, rfl, by rw [ffs_eq hdata le_rfl hword hzeros hone]; omega⟩
  · rw [if_pos (eq_zero_of_readBits hdata fun i hi => hzeros i (by omega))]
    have hnext : 8 * (address + 4) = 8 * address + 32 := by omega
    obtain ⟨data, found, hscan, hfound⟩ := ih (zeros - 32) (by omega) (address + 4) (keyBits + 4 * 8)
      (fun i hi => by rw [hnext, Nat.add_assoc]; exact hzeros _ (by omega))
      (by rw [hnext, Nat.add_assoc, Nat.add_sub_cancel' (by omega)]; exact hone) (by omega)
    exact ⟨data, found, hscan, by omega⟩

/-- The long branch of `decodeDelta`: after the field, `zeros` zero bits and
a one give `keyBits = minBits + zeros + 1` and the field plus `zeros` runs. -/
theorem decodeLongDelta_eq {coding : CodingConstants} (hbits : coding.minBits ≤ maxFieldBits)
    {memory : ByteBuffer} {address offset field zeros : ℕ} {data : UInt32} (hoffset : offset < 8)
    (hdata : data.toNat = readBits memory.bits (8 * address + offset) (32 - offset))
    (hzeros : ∀ i < zeros, memory.bits (8 * address + offset + coding.minBits + i) = false)
    (hone : memory.bits (8 * address + offset + coding.minBits + zeros) = true)
    (hroom : 8 * address + offset + coding.minBits + zeros + 32 ≤ 8 * memory.size) :
    decodeLongDelta coding memory (address + 4) offset data field =
      some ((field + zeros * coding.incrKeys) % 2 ^ 32, coding.minBits + zeros + 1) := by
  simp only [maxFieldBits] at hbits
  have hrest : (data >>> UInt32.ofNat coding.minBits).toNat =
      readBits memory.bits (8 * address + offset + coding.minBits) (32 - offset - coding.minBits) := by
    rw [UInt32.toNat_shiftRight, toNat_ofNat_shift32 (by omega), hdata, readBits_shiftRight, Nat.sub_sub]
  obtain ⟨data', keyBits, hfound, hkeyBits⟩ : ∃ data' keyBits,
      (if data >>> UInt32.ofNat coding.minBits = 0 then scanZeroWords memory (address + 4) (4 * 8 - offset)
        else some (data >>> UInt32.ofNat coding.minBits, coding.minBits)) = some (data', keyBits) ∧
      keyBits + ffs data' = coding.minBits + zeros + 1 := by
    by_cases hword : zeros < 32 - offset - coding.minBits
    · rw [if_neg (ne_zero_of_readBits hrest hword hone)]
      exact ⟨_, _, rfl, by rw [ffs_eq hrest (by omega) hword hzeros hone]; omega⟩
    · rw [if_pos (eq_zero_of_readBits hrest fun i hi => hzeros i (by omega))]
      have hnext : 8 * (address + 4) = 8 * address + offset + coding.minBits + (32 - offset - coding.minBits) := by
        omega
      obtain ⟨data', keyBits, hscan, hfound⟩ := scanZeroWords_spec (zeros - (32 - offset - coding.minBits))
        (address + 4) (4 * 8 - offset) (fun i hi => by rw [hnext, Nat.add_assoc]; exact hzeros _ (by omega))
        (by rw [hnext, Nat.add_assoc, Nat.add_sub_cancel' (by omega)]; exact hone) (by omega)
      exact ⟨data', keyBits, hscan, by omega⟩
  rw [decodeLongDelta]
  dsimp only
  rw [hfound]
  simp only [Option.bind_eq_bind, Option.bind_some, Option.pure_def, Option.some.injEq, Prod.mk.injEq]
  refine ⟨?_, hkeyBits⟩
  have hdelta : (field : ℤ) + ((coding.minBits + zeros + 1 : ℕ) - (coding.minBits : ℤ) - 1) * coding.incrKeys =
      ((field + zeros * coding.incrKeys : ℕ) : ℤ) := by
    push_cast
    ring
  rw [hkeyBits, hdelta]
  omega

/-- `readDelta` reads the delta and the code's length back from any memory
that holds the code from `pos`, whatever follows it. -/
theorem readDelta_eq {coding : CodingConstants} (hcoding : coding.Valid) (memory : ByteBuffer) {pos delta : ℕ}
    (hdelta : delta < 2 ^ 32)
    (hcode : ∀ i < deltaCodeBits coding delta, memory.bits (pos + i) = (deltaCode coding delta).testBit i)
    (hroom : pos + deltaCodeBits coding delta + 8 * postFieldGuardBytes ≤ 8 * memory.size) :
    readDelta coding memory pos = some (delta, deltaCodeBits coding delta) := by
  have hbits := hcoding.minBits_le
  have hfill := hcoding.minKeys_add_incrKeys
  have hk := minBits_le_deltaCodeBits coding delta
  simp only [maxFieldBits, postFieldGuardBytes] at hbits hroom
  have hpos : 8 * (pos / 8) + pos % 8 = pos := Nat.div_add_mod pos 8
  have hoffset : pos % 8 < 8 := Nat.mod_lt _ (by decide)
  rw [readDelta, getUInt32LE_of_le (by omega)]
  simp only [Option.bind_eq_bind, Option.bind_some]
  have hdata := toNat_shiftRight_readBits32 memory.bits (8 * (pos / 8)) (show pos % 8 < 32 by omega)
  rw [toNat_and_fieldMask32 _ (by omega), hdata, readBits_mod_two_pow, min_eq_right (by omega), hpos]
  by_cases hshort : delta < coding.minKeys
  · rw [deltaCodeBits_of_lt hshort, deltaCode_of_lt hshort] at hcode
    have hfield : readBits memory.bits pos coding.minBits = delta :=
      (eq_readBits (by omega) fun i hi => (hcode i hi).symm).symm
    rw [hfield, if_neg (by omega), deltaCodeBits_of_lt hshort]
    rfl
  · rw [deltaCodeBits_of_le hshort, deltaCode_of_le hshort] at hcode
    rw [deltaCodeBits_of_le hshort] at hroom
    rw [deltaCodeBits_of_le hshort]
    have ht1 := longField_lt hcoding delta
    have hbit := testBit_add_two_pow ((delta - coding.minKeys) / coding.incrKeys) ht1
    have hsum := longField_add_runs hshort
    have hge : coding.minKeys ≤ (delta - coding.minKeys) % coding.incrKeys + coding.minKeys := Nat.le_add_left _ _
    generalize (delta - coding.minKeys) % coding.incrKeys + coding.minKeys = t1 at ht1 hbit hsum hge hcode ⊢
    generalize (delta - coding.minKeys) / coding.incrKeys = t2 at hbit hsum hcode hroom ⊢
    have hfield : readBits memory.bits pos coding.minBits = t1 :=
      (eq_readBits ht1 fun i hi => by rw [hcode i (by omega), hbit, if_pos hi]).symm
    rw [hfield, if_pos hge]
    rw [decodeLongDelta_eq hcoding.minBits_le hoffset hdata
      (fun i (hi : i < t2) => by
        rw [hpos, Nat.add_assoc, hcode (coding.minBits + i) (by omega), hbit, if_neg (by omega),
          decide_eq_false (by omega)])
      (by rw [hpos, Nat.add_assoc, hcode (coding.minBits + t2) (by omega), hbit, if_neg (by omega),
        decide_eq_true rfl])
      (by omega), hsum, Nat.mod_eq_of_lt hdelta]

/-- `decodeDelta` on an entry whose delta's code follows its value. -/
theorem decodeDelta_eq {coding : CodingConstants} (hcoding : coding.Valid) (memory : ByteBuffer)
    (deltaEntry : DeltaIndexEntry) {delta : ℕ} (hdelta : delta < 2 ^ 32)
    (hcode : ∀ i < deltaCodeBits coding delta,
      memory.bits (getDeltaEntryOffset deltaEntry + deltaEntry.valueBits + i) = (deltaCode coding delta).testBit i)
    (hroom : getDeltaEntryOffset deltaEntry + deltaEntry.valueBits + deltaCodeBits coding delta +
      8 * postFieldGuardBytes ≤ 8 * memory.size) :
    decodeDelta coding memory deltaEntry =
      some { deltaEntry with
        delta
        key := (deltaEntry.key + delta) % 2 ^ 32
        isCollision := decide (delta = 0 ∧ deltaEntry.offset > 0)
        entryBits := (deltaEntry.valueBits + deltaCodeBits coding delta +
          if delta = 0 ∧ deltaEntry.offset > 0 then collisionBits else 0) % 2 ^ 16 } := by
  rw [decodeDelta, readDelta_eq hcoding memory hdelta hcode hroom]
  simp only [Option.bind_eq_bind, Option.bind_some, Option.pure_def]
  by_cases hcollision : delta = 0 ∧ deltaEntry.offset > 0
  · rw [if_pos hcollision, if_pos hcollision, decide_eq_true hcollision]
  · rw [if_neg hcollision, if_neg hcollision, decide_eq_false hcollision, Nat.add_zero]

/-! ## `setDelta` -/

/-- Where `incrKeys - minKeys + delta` does not wrap, `setDelta` gives the
entry the code's length. -/
theorem setDelta_eq {coding : CodingConstants} (hcoding : coding.Valid) (deltaEntry : DeltaIndexEntry)
    {delta : ℕ} (hrange : 0 ≤ (coding.incrKeys - coding.minKeys + delta : ℤ) ∧
      (coding.incrKeys - coding.minKeys + delta : ℤ) < 2 ^ 32) :
    setDelta coding deltaEntry delta =
      { deltaEntry with delta, entryBits := (deltaEntry.valueBits + deltaCodeBits coding delta) % 2 ^ 16 } := by
  have hincr := hcoding.incrKeys_pos
  have hkeyBits : ((coding.incrKeys - coding.minKeys + delta : ℤ) % 2 ^ 32).toNat / coding.incrKeys =
      deltaCodeBits coding delta - coding.minBits := by
    have hmod : ((coding.incrKeys - coding.minKeys + delta : ℤ) % 2 ^ 32).toNat =
        coding.incrKeys + delta - coding.minKeys := by omega
    rw [hmod]
    unfold deltaCodeBits
    split_ifs with hshort
    · rw [Nat.div_eq_of_lt (by omega), Nat.sub_self]
    · rw [show coding.incrKeys + delta - coding.minKeys = delta - coding.minKeys + coding.incrKeys * 1 by omega,
        Nat.add_mul_div_left _ _ hincr, Nat.add_assoc, Nat.add_sub_cancel_left]
  have hk := minBits_le_deltaCodeBits coding delta
  simp only [setDelta, hkeyBits, DeltaIndexEntry.mk.injEq, true_and, and_true]
  omega

/-! ## The round trip, and where `setDelta` differs -/

/-- For a mean delta `invalidParameters` accepts and any delta of an
`unsigned int`: `encodeDelta` writes the `deltaCodeBits` bits of the code
after the entry's value and nothing else; `decodeDelta` reads the delta and
the code's length back from any memory holding those bits, whatever follows
them; and `setDelta` gives the entry that length wherever
`incrKeys - minKeys + delta` does not wrap. -/
theorem deltaCode_round_trip {meanDelta numPayloadBits : ℕ}
    (hparams : invalidParameters meanDelta numPayloadBits = false) (memory : ByteBuffer)
    (deltaEntry : DeltaIndexEntry) (hdelta : deltaEntry.delta < 2 ^ 32)
    (hroom : getDeltaEntryOffset deltaEntry + deltaEntry.valueBits +
      deltaCodeBits (computeCodingConstants meanDelta) deltaEntry.delta +
        8 * postFieldGuardBytes ≤ 8 * memory.size) :
    encodeDelta (computeCodingConstants meanDelta) memory deltaEntry =
        some { memory with
          bits := writeBits memory.bits (getDeltaEntryOffset deltaEntry + deltaEntry.valueBits)
            (deltaCodeBits (computeCodingConstants meanDelta) deltaEntry.delta)
            (deltaCode (computeCodingConstants meanDelta) deltaEntry.delta) } ∧
      (∀ written : ByteBuffer, written.size = memory.size →
        (∀ i < deltaCodeBits (computeCodingConstants meanDelta) deltaEntry.delta,
          written.bits (getDeltaEntryOffset deltaEntry + deltaEntry.valueBits + i) =
            (deltaCode (computeCodingConstants meanDelta) deltaEntry.delta).testBit i) →
        readDelta (computeCodingConstants meanDelta) written
            (getDeltaEntryOffset deltaEntry + deltaEntry.valueBits) =
          some (deltaEntry.delta, deltaCodeBits (computeCodingConstants meanDelta) deltaEntry.delta)) ∧
      (0 ≤ ((computeCodingConstants meanDelta).incrKeys - (computeCodingConstants meanDelta).minKeys +
          deltaEntry.delta : ℤ) ∧
        ((computeCodingConstants meanDelta).incrKeys - (computeCodingConstants meanDelta).minKeys +
          deltaEntry.delta : ℤ) < 2 ^ 32 →
        (setDelta (computeCodingConstants meanDelta) deltaEntry deltaEntry.delta).entryBits =
          (deltaEntry.valueBits + deltaCodeBits (computeCodingConstants meanDelta) deltaEntry.delta) % 2 ^ 16) := by
  have hcoding := computeCodingConstants_valid hparams
  refine ⟨encodeDelta_eq hcoding memory deltaEntry hroom, fun written hsize hcode => ?_, fun hrange => ?_⟩
  · exact readDelta_eq hcoding written hdelta hcode (by rw [hsize]; exact hroom)
  · rw [setDelta_eq hcoding deltaEntry hrange]

/-- For a mean delta of 10, which `invalidParameters` accepts, the constants
are `minBits = 4`, `minKeys = 9` and `incrKeys = 7`: `incrKeys + 1` is a power
of two, so `minKeys` exceeds `incrKeys`. The delta 0 that a collision entry
gets is coded in 4 bits, written and read back as such, but in `setDelta`
`incrKeys - minKeys + 0` wraps to `2 ^ 32 - 2`, and the entry's length counts
613566760 key bits, 18728 modulo the 16 bits of `entryBits`. -/
theorem setDelta_wraps_below_minKeys :
    invalidParameters 10 0 = false ∧ computeCodingConstants 10 = ⟨4, 9, 7⟩ ∧
      ∀ (memory : ByteBuffer) (deltaEntry : DeltaIndexEntry), deltaEntry.delta = 0 →
        getDeltaEntryOffset deltaEntry + deltaEntry.valueBits + 4 + 8 * postFieldGuardBytes ≤ 8 * memory.size →
        encodeDelta (computeCodingConstants 10) memory deltaEntry =
            some { memory with
              bits := writeBits memory.bits (getDeltaEntryOffset deltaEntry + deltaEntry.valueBits) 4 0 } ∧
          readDelta (computeCodingConstants 10)
              { memory with
                bits := writeBits memory.bits (getDeltaEntryOffset deltaEntry + deltaEntry.valueBits) 4 0 }
              (getDeltaEntryOffset deltaEntry + deltaEntry.valueBits) = some (0, 4) ∧
          (setDelta (computeCodingConstants 10) deltaEntry 0).entryBits =
            (deltaEntry.valueBits + 613566760) % 2 ^ 16 ∧
          (setDelta (computeCodingConstants 10) deltaEntry 0).entryBits ≠ (deltaEntry.valueBits + 4) % 2 ^ 16 := by
  have hparams : invalidParameters 10 0 = false := by decide
  have hconstants : computeCodingConstants 10 = ⟨4, 9, 7⟩ := rfl
  have hcoding := computeCodingConstants_valid hparams
  have hbits : deltaCodeBits (computeCodingConstants 10) 0 = 4 := by rw [hconstants]; rfl
  have hcode : deltaCode (computeCodingConstants 10) 0 = 0 := by rw [hconstants]; rfl
  refine ⟨hparams, hconstants, fun memory deltaEntry hzero hroom => ?_⟩
  generalize hpos : getDeltaEntryOffset deltaEntry + deltaEntry.valueBits = pos at hroom ⊢
  have hencode := encodeDelta_eq hcoding memory deltaEntry (by rw [hzero, hbits, hpos]; exact hroom)
  rw [hzero, hbits, hcode, hpos] at hencode
  have hread : readDelta (computeCodingConstants 10) { memory with bits := writeBits memory.bits pos 4 0 } pos =
      some (0, deltaCodeBits (computeCodingConstants 10) 0) :=
    readDelta_eq hcoding _ (by decide)
      (fun i hi => by
        rw [hbits] at hi
        dsimp only
        rw [writeBits_start_add _ _ _ hi, hcode])
      (by rw [hbits]; exact hroom)
  rw [hbits] at hread
  have hkeyBits : (((7 : ℕ) - (9 : ℕ) + (0 : ℕ) : ℤ) % 2 ^ 32).toNat / 7 = 613566756 := by decide
  have hentryBits : (setDelta (computeCodingConstants 10) deltaEntry 0).entryBits =
      (deltaEntry.valueBits + 613566760) % 2 ^ 16 := by
    rw [hconstants]
    simp only [setDelta, hkeyBits]
    omega
  exact ⟨hencode, hread, hentryBits, by rw [hentryBits]; omega⟩

theorem setDelta_wraps_below_minKeys_first_entry :
    encodeDelta (computeCodingConstants 10) ⟨fun _ => false, 16⟩ ⟨0, 0, false, 0, 0, 0, 0⟩ =
        some ⟨writeBits (fun _ => false) 0 4 0, 16⟩ ∧
      readDelta (computeCodingConstants 10) ⟨writeBits (fun _ => false) 0 4 0, 16⟩ 0 = some (0, 4) ∧
      (setDelta (computeCodingConstants 10) ⟨0, 0, false, 0, 0, 0, 0⟩ 0).entryBits = 613566760 % 2 ^ 16 ∧
      (setDelta (computeCodingConstants 10) ⟨0, 0, false, 0, 0, 0, 0⟩ 0).entryBits ≠ 4 % 2 ^ 16 :=
  setDelta_wraps_below_minKeys.2.2 ⟨fun _ => false, 16⟩ ⟨0, 0, false, 0, 0, 0, 0⟩ rfl (by decide)

end Vdo.Uds.Bits
