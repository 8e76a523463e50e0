import Vdo.Uds.OpenChapterZone

/-!
# The memory of a mutable delta index zone

A `DeltaMemory` (`deltaMemory.c`) keeps the delta lists of one zone as bit
streams in one buffer. The header of list `i` says where its bits start and
how many there are. Lists `1 .. numLists` are the real ones. List 0 is an
empty head guard at offset 0, and list `numLists + 1` is a tail guard of
`GUARD_BITS` ones that ends the memory, so that the bit field code may read
past any list. The memory is modelled by its bits: bit `k` of byte `b` is bit
`8 * b + k`, as the bit field utilities number them. The model is of the
mutable form, whose list headers exist, so `extendDeltaMemory`'s check that
the memory is mutable always passes.

`extendDeltaMemory` lays the lists out afresh. Each list keeps its bit offset
within its byte, the free space is spread evenly between the lists, and
`growingSize` more bytes go before list `growingIndex`.
`rebalanceDeltaMemory` then moves the lists' bytes to the new offsets. It
splits the range of lists in half and moves first the half the middle list
moves away from. `startRestoringDeltaMemory` lays out the sizes a saved index
gives, but it returns `UDS_SUCCESS` even when they do not fit.

This module gives the definitions, what a move or a layout step does to each
bit and offset, and the offsets the layout loop computes.
-/

namespace Vdo.Uds

/-- `POST_FIELD_GUARD_BYTES`. -/
def postFieldGuardBytes : ℕ := 8 - 1

/-- `GUARD_BITS`. -/
def guardBits : ℕ := postFieldGuardBytes * 8

/-- The fields of a `DeltaList` header that the layout code reads: where the
list's bits start in the memory and how many there are, a `uint16_t`. The
search fields `saveOffset` and `saveKey` are modelled with the entries in
`DeltaIndex`. -/
structure DeltaListSpan where
  startOffset : ℕ
  size : ℕ
  size_lt : size < 2 ^ 16

/-- An empty list's size fits its 16-bit field. -/
theorem DeltaListSpan.zero_size_lt : 0 < 2 ^ 16 := Nat.two_pow_pos 16

/-- The fields of a mutable `DeltaMemory` that the layout and the restore read
and write. -/
structure DeltaMemory where
  /-- The bits of `memory`. -/
  memory : ℕ → Bool
  /-- The list headers, `0 .. numLists + 1`. -/
  deltaLists : ℕ → DeltaListSpan
  tempOffsets : ℕ → ℕ
  /-- The transfer flags. -/
  flags : ℕ → Bool
  /-- The size of the memory, in bytes. -/
  size : ℕ
  firstList : ℕ
  numLists : ℕ
  /-- `initializeDeltaMemory` refuses zero lists. -/
  numLists_pos : 0 < numLists
  numTransfers : ℕ

/-! ## List extents -/

/-- `getDeltaListStart`. -/
def getDeltaListStart (deltaList : DeltaListSpan) : ℕ := deltaList.startOffset

/-- `getDeltaListSize`. -/
def getDeltaListSize (deltaList : DeltaListSpan) : ℕ := deltaList.size

/-- `getDeltaListEnd`. -/
def getDeltaListEnd (deltaList : DeltaListSpan) : ℕ := getDeltaListStart deltaList + getDeltaListSize deltaList

/-- `getDeltaListByteStart`. -/
def getDeltaListByteStart (deltaList : DeltaListSpan) : ℕ := getDeltaListStart deltaList / 8

/-- `getDeltaListByteSize`: the bytes the list's bits touch. It is below
`2 ^ 16`, so the `uint16_t` result is exact. -/
def getDeltaListByteSize (deltaList : DeltaListSpan) : ℕ :=
  (getDeltaListStart deltaList % 8 + getDeltaListSize deltaList + 8 - 1) / 8

/-! ## Bit stores -/

/-- `memmove` of `count` bytes from byte `source` to byte `destination`, on
the bits: each destination bit is read from the memory as it was before. -/
def moveBytes (memory : ℕ → Bool) (destination source count : ℕ) : ℕ → Bool :=
  fun bit => if 8 * destination ≤ bit ∧ bit < 8 * (destination + count) then memory (8 * source + (bit - 8 * destination))
    else memory bit

/-- `setOne`: `size` bits from `offset` set to one. -/
def setOne (memory : ℕ → Bool) (offset size : ℕ) : ℕ → Bool :=
  fun bit => if offset ≤ bit ∧ bit < offset + size then true else memory bit

/-! ## Emptying -/

/-- `emptyDeltaLists`: the headers zeroed, the tail guard list at the end of
the memory and its bytes set to ones, and the real lists, all empty, spaced
evenly from half a spacing on. The statistics are not modelled. -/
def emptyDeltaLists (deltaMemory : DeltaMemory) : DeltaMemory :=
  let numBits := deltaMemory.size * 8
  let spacing := (numBits - guardBits) / deltaMemory.numLists
  { deltaMemory with
    deltaLists := fun i =>
      if i = deltaMemory.numLists + 1 then ⟨numBits - guardBits, guardBits, by decide⟩
      else if 1 ≤ i ∧ i ≤ deltaMemory.numLists then
        ⟨spacing / 2 + (i - 1) * spacing, 0, DeltaListSpan.zero_size_lt⟩
      else ⟨0, 0, DeltaListSpan.zero_size_lt⟩
    memory := fun bit =>
      if 8 * (deltaMemory.size - postFieldGuardBytes) ≤ bit ∧ bit < 8 * deltaMemory.size then true
      else deltaMemory.memory bit }

/-! ## Laying the lists out -/

/-- One pass of the loop of `extendDeltaMemory` that computes `tempOffsets`:
entry `i + 1` becomes the byte offset after list `i` and the spacing (half of
it after the head guard, and `growingSize` more before list
`growingIndex`), and entry `i`, a byte offset until now, becomes a bit offset
with list `i`'s offset within its byte. -/
def tempOffsetsStep (deltaLists : ℕ → DeltaListSpan) (spacing growingIndex growingSize : ℕ)
    (tempOffsets : ℕ → ℕ) (i : ℕ) : ℕ → ℕ :=
  let next := tempOffsets i + getDeltaListByteSize (deltaLists i) + spacing
  let next := if i = 0 then next - spacing / 2 else next
  let next := if i + 1 = growingIndex then next + growingSize else next
  Function.update (Function.update tempOffsets (i + 1) next) i
    (tempOffsets i * 8 + getDeltaListStart (deltaLists i) % 8)

/-- The loop over lists `0 .. count - 1`. -/
def computeTempOffsets (deltaLists : ℕ → DeltaListSpan) (spacing growingIndex growingSize : ℕ)
    (tempOffsets : ℕ → ℕ) : ℕ → ℕ → ℕ
  | 0 => tempOffsets
  | count + 1 =>
    tempOffsetsStep deltaLists spacing growingIndex growingSize
      (computeTempOffsets deltaLists spacing growingIndex growingSize tempOffsets count) count

/-- Move list `index` to `tempOffsets[index]`, the case of one list of
`rebalanceDeltaMemory`: its header first, then its bytes, as many as it
touches at its new offset. -/
def moveDeltaList (deltaMemory : DeltaMemory) (index : ℕ) : DeltaMemory :=
  let deltaList := deltaMemory.deltaLists index
  let newStart := deltaMemory.tempOffsets index
  if getDeltaListStart deltaList ≠ newStart then
    let source := getDeltaListByteStart deltaList
    let moved := { deltaList with startOffset := newStart }
    let destination := getDeltaListByteStart moved
    { deltaMemory with
      deltaLists := Function.update deltaMemory.deltaLists index moved
      memory := moveBytes deltaMemory.memory destination source (getDeltaListByteSize moved) }
  else deltaMemory

/-- `rebalanceDeltaMemory` of lists `first .. last`: one list is moved; more
are split at the middle list, and the half that list moves away from goes
first. The source is only called with `first ≤ last`; the model moves list
`first` whenever `last ≤ first`. -/
def rebalanceDeltaMemory (deltaMemory : DeltaMemory) (first last : ℕ) : DeltaMemory :=
  if first < last then
    let middle := (first + last) / 2
    if getDeltaListStart (deltaMemory.deltaLists middle) < deltaMemory.tempOffsets middle then
      rebalanceDeltaMemory (rebalanceDeltaMemory deltaMemory (middle + 1) last) first middle
    else
      rebalanceDeltaMemory (rebalanceDeltaMemory deltaMemory first middle) (middle + 1) last
  else moveDeltaList deltaMemory first
termination_by last - first

/-- The bytes the lists `0 .. numLists + 1` take, the first half of
`extendDeltaMemory`'s `usedSpace`. -/
def listBytes (deltaMemory : DeltaMemory) : ℕ :=
  ((List.range (deltaMemory.numLists + 2)).map fun i => getDeltaListByteSize (deltaMemory.deltaLists i)).sum

/-- The `tempOffsets` `extendDeltaMemory` computes: the loop over lists
`0 .. numLists`, then the tail guard list at the end of the memory. -/
def DeltaMemory.layoutOffsets (deltaMemory : DeltaMemory) (spacing growingIndex growingSize : ℕ) : ℕ → ℕ :=
  Function.update
    (computeTempOffsets deltaMemory.deltaLists spacing growingIndex growingSize
      (Function.update deltaMemory.tempOffsets 0 0) (deltaMemory.numLists + 1))
    (deltaMemory.numLists + 1)
    (deltaMemory.size * 8 - getDeltaListSize (deltaMemory.deltaLists (deltaMemory.numLists + 1)))

/-- `extendDeltaMemory`: `UDS_OVERFLOW` when the lists and the growth do not
fit; otherwise the new offsets, and the lists moved there (`doCopy`) or only
their headers set to them. The time statistics are not modelled. -/
def extendDeltaMemory (deltaMemory : DeltaMemory) (growingIndex growingSize : ℕ) (doCopy : Bool) :
    Except UdsError DeltaMemory :=
  let usedSpace := growingSize + listBytes deltaMemory
  if deltaMemory.size < usedSpace then .error .overflow
  else
    let spacing := (deltaMemory.size - usedSpace) / deltaMemory.numLists
    let laidOut := { deltaMemory with tempOffsets := deltaMemory.layoutOffsets spacing growingIndex growingSize }
    if doCopy then .ok (rebalanceDeltaMemory laidOut 1 (deltaMemory.numLists + 1))
    else
      .ok { laidOut with
        deltaLists := fun i =>
          if 1 ≤ i ∧ i ≤ deltaMemory.numLists + 1 then { deltaMemory.deltaLists i with startOffset := laidOut.tempOffsets i }
          else deltaMemory.deltaLists i }

/-! ## Restoring -/

/-- `flagNonEmptyDeltaLists`, after `clearTransferFlags`: the flag of list
`i + 1` is set when that list is not empty, and `numTransfers` counts them. -/
def flagNonEmptyDeltaLists (deltaMemory : DeltaMemory) : DeltaMemory :=
  { deltaMemory with
    flags := fun i => decide (i < deltaMemory.numLists ∧ 0 < getDeltaListSize (deltaMemory.deltaLists (i + 1)))
    numTransfers :=
      ((List.range deltaMemory.numLists).filter fun i => 0 < getDeltaListSize (deltaMemory.deltaLists (i + 1))).length }

/-- `startRestoringDeltaMemory`: lay out the saved sizes, set the tail guard
list to ones and flag the lists to be read. When the layout overflows, the
source returns `UDS_SUCCESS` with nothing laid out. -/
def startRestoringDeltaMemory (deltaMemory : DeltaMemory) : Except UdsError DeltaMemory :=
  match extendDeltaMemory deltaMemory 0 0 false with
  | .error _ => .ok deltaMemory
  | .ok extended =>
    let tail := extended.deltaLists (extended.numLists + 1)
    .ok (flagNonEmptyDeltaLists
      { extended with memory := setOne extended.memory (getDeltaListStart tail) (getDeltaListSize tail) })

/-! ## The layout invariant -/

/-- The layout a mutable delta memory keeps: the head guard list empty at
offset 0, each list ending before the next starts, and the tail guard list of
`GUARD_BITS` ones ending the memory. -/
structure DeltaMemory.Layout (deltaMemory : DeltaMemory) : Prop where
  head_start : getDeltaListStart (deltaMemory.deltaLists 0) = 0
  head_size : getDeltaListSize (deltaMemory.deltaLists 0) = 0
  ordered : ∀ i ≤ deltaMemory.numLists,
    getDeltaListEnd (deltaMemory.deltaLists i) ≤ getDeltaListStart (deltaMemory.deltaLists (i + 1))
  tail_size : getDeltaListSize (deltaMemory.deltaLists (deltaMemory.numLists + 1)) = guardBits
  tail_end : getDeltaListEnd (deltaMemory.deltaLists (deltaMemory.numLists + 1)) = deltaMemory.size * 8
  guard : ∀ k < guardBits,
    deltaMemory.memory (getDeltaListStart (deltaMemory.deltaLists (deltaMemory.numLists + 1)) + k) = true

/-! ## Moves -/

section Moves

variable {memory : ℕ → Bool} {destination source count bit : ℕ}

theorem moveBytes_of_not_mem (h : bit < 8 * destination ∨ 8 * (destination + count) ≤ bit) :
    moveBytes memory destination source count bit = memory bit := by
  rw [moveBytes, if_neg (by omega)]

theorem moveBytes_add {k : ℕ} (hk : k < 8 * count) :
    moveBytes memory destination source count (8 * destination + k) = memory (8 * source + k) := by
  rw [moveBytes, if_pos (by omega), Nat.add_sub_cancel_left]

end Moves

/-- The bytes a list touches depend only on its offset within its byte and
its size. -/
theorem getDeltaListByteSize_eq {deltaList deltaList' : DeltaListSpan}
    (hbit : getDeltaListStart deltaList' % 8 = getDeltaListStart deltaList % 8)
    (hsize : getDeltaListSize deltaList' = getDeltaListSize deltaList) :
    getDeltaListByteSize deltaList' = getDeltaListByteSize deltaList := by
  rw [getDeltaListByteSize, getDeltaListByteSize, hbit, hsize]

/-- A list's bits lie in the bytes it touches. -/
theorem getDeltaListEnd_le_byteEnd (deltaList : DeltaListSpan) :
    getDeltaListEnd deltaList ≤ 8 * (getDeltaListByteStart deltaList + getDeltaListByteSize deltaList) := by
  simp only [getDeltaListEnd, getDeltaListByteStart, getDeltaListByteSize]
  omega

/-- A list's last touched byte is that of its last bit, or its first byte
when it is empty. -/
theorem byteEnd_le_of_getDeltaListEnd_le {deltaList : DeltaListSpan} {bit : ℕ}
    (h : getDeltaListEnd deltaList ≤ bit) :
    getDeltaListByteStart deltaList + getDeltaListByteSize deltaList ≤ bit / 8 + 1 := by
  simp only [getDeltaListEnd, getDeltaListByteStart, getDeltaListByteSize] at h ⊢
  omega

/-! ## The layout loop -/

/-- The byte offsets the layout loop gives: each list starts `spacing` bytes
after the list before it ends, the first list only half as far, and list
`growingIndex` `growingSize` bytes further. -/
def tempByteOffset (deltaLists : ℕ → DeltaListSpan) (spacing growingIndex growingSize : ℕ) : ℕ → ℕ
  | 0 => 0
  | i + 1 =>
    (if i = 0 then tempByteOffset deltaLists spacing growingIndex growingSize i +
        getDeltaListByteSize (deltaLists i) + spacing - spacing / 2
      else tempByteOffset deltaLists spacing growingIndex growingSize i + getDeltaListByteSize (deltaLists i) + spacing) +
    if i + 1 = growingIndex then growingSize else 0

section LayoutLoop

variable {deltaLists : ℕ → DeltaListSpan} {spacing growingIndex growingSize : ℕ} {tempOffsets : ℕ → ℕ}

/-- After `count` passes the entries before `count` are bit offsets, entry
`count` is the next byte offset, and the entries after it are untouched. -/
theorem computeTempOffsets_eq (hzero : tempOffsets 0 = 0) (count j : ℕ) :
    computeTempOffsets deltaLists spacing growingIndex growingSize tempOffsets count j =
      if j < count then
        tempByteOffset deltaLists spacing growingIndex growingSize j * 8 + getDeltaListStart (deltaLists j) % 8
      else if j = count then tempByteOffset deltaLists spacing growingIndex growingSize j
      else tempOffsets j := by
  induction count generalizing j with
  | zero =>
    rcases Nat.eq_zero_or_pos j with rfl | hj
    · simp [computeTempOffsets, hzero, tempByteOffset]
    · simp [computeTempOffsets, Nat.pos_iff_ne_zero.mp hj]
  | succ count ih =>
    have hcount := ih count
    rw [if_neg (Nat.lt_irrefl count), if_pos rfl] at hcount
    simp only [computeTempOffsets, tempOffsetsStep, hcount]
    by_cases hj : j = count
    · subst hj
      simp
    · by_cases hnext : j = count + 1
      · subst hnext
        simp only [Function.update_of_ne (Nat.succ_ne_self count), Function.update_self, tempByteOffset]
        split_ifs <;> simp_all
      · rw [Function.update_of_ne hj, Function.update_of_ne hnext, ih j]
        split_ifs <;> omega

end LayoutLoop

end Vdo.Uds
