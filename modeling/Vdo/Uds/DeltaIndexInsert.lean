import Vdo.Uds.DeltaMemoryRebalance
import Vdo.Uds.DeltaIndex

/-!
# Failed insertions into a delta list

`putDeltaIndexEntry` (`deltaIndex.c`) checks the entry it was given, may move
the list's saved search point to the insertion point, and only then calls
`insertBits` to open a gap in the list's bits. `insertBits` refuses a list
that would pass `UINT16_MAX` bits before it looks at the memory, and when
neither neighbouring gap is large enough it asks `extendDeltaMemory` for room,
which fails before it moves anything. Nothing can fail once bits have moved.

This module models `insertBits` on the `DeltaMemory` of `DeltaMemory`, and
shows that every failure of `putDeltaIndexEntry`, whether of its own checks or
of `insertBits`, leaves the decoded entries of every list, the record and
collision counts, and the memory with its layout as they were.
-/

namespace Vdo.Uds

/-! ## Moving bits and list ends -/

/-- `moveBits` within one memory: `count` bits from `source` to `destination`,
each destination bit read from the memory as it was before. -/
def moveBits (memory : ℕ → Bool) (source destination count : ℕ) : ℕ → Bool :=
  fun bit => if destination ≤ bit ∧ bit < destination + count then memory (source + (bit - destination))
    else memory bit

/-- `moveDeltaListStart`: the start moved by `increment` bits and the end
kept. The size is a `uint16_t`. -/
def moveDeltaListStart (deltaList : DeltaListSpan) (increment : ℤ) : DeltaListSpan :=
  ⟨(deltaList.startOffset + increment).toNat, ((deltaList.size - increment) % 2 ^ 16).toNat, by omega⟩

/-- `moveDeltaListEnd`: the end moved by `increment` bits. -/
def moveDeltaListEnd (deltaList : DeltaListSpan) (increment : ℤ) : DeltaListSpan :=
  ⟨deltaList.startOffset, ((deltaList.size + increment) % 2 ^ 16).toNat, by omega⟩

/-! ## Inserting bits -/

/-- The side `insertBits` takes the bits from when a neighbouring gap is large
enough: the side with less data to move, or on a tie the larger gap. -/
def insertBeforeFlag (size beforeSize afterSize freeBefore freeAfter : ℕ) : Option Bool :=
  if size ≤ freeBefore ∧ size ≤ freeAfter then
    some (if beforeSize < afterSize then true
      else if afterSize < beforeSize then false
      else freeBefore > freeAfter)
  else if size ≤ freeBefore then some true
  else if size ≤ freeAfter then some false
  else none

/-- The gap of `size` bits opened at `offset` of list `listIndex`, by moving
the list's start down and the `beforeSize` bits before the offset with it, or
its end up and the `afterSize` bits after the offset. -/
def openGap (deltaMemory : DeltaMemory) (listIndex offset size beforeSize afterSize : ℕ) (beforeFlag : Bool) :
    DeltaMemory :=
  let deltaList := deltaMemory.deltaLists listIndex
  if beforeFlag then
    let source := getDeltaListStart deltaList
    { deltaMemory with
      deltaLists := Function.update deltaMemory.deltaLists listIndex (moveDeltaListStart deltaList (-size))
      memory := moveBits deltaMemory.memory source (source - size) beforeSize }
  else
    let moved := moveDeltaListEnd deltaList size
    let source := getDeltaListStart moved + offset
    { deltaMemory with
      deltaLists := Function.update deltaMemory.deltaLists listIndex moved
      memory := moveBits deltaMemory.memory source (source + size) afterSize }

/-- `insertBits` of `size` bits at bit `offset` of the list with header
`listIndex` (`listNumber + 1`). The overflow statistics are not modelled. -/
def insertBits (deltaMemory : DeltaMemory) (listIndex offset size : ℕ) :
    DeltaMemory × Except UdsError Unit :=
  let deltaList := deltaMemory.deltaLists listIndex
  let totalSize := getDeltaListSize deltaList
  let beforeSize := offset
  let afterSize := totalSize - offset
  if totalSize + size > 2 ^ 16 - 1 then (deltaMemory, .error .overflow)
  else
    let freeBefore := getDeltaListStart deltaList - getDeltaListEnd (deltaMemory.deltaLists (listIndex - 1))
    let freeAfter := getDeltaListStart (deltaMemory.deltaLists (listIndex + 1)) - getDeltaListEnd deltaList
    match insertBeforeFlag size beforeSize afterSize freeBefore freeAfter with
    | some beforeFlag => (openGap deltaMemory listIndex offset size beforeSize afterSize beforeFlag, .ok ())
    | none =>
      let beforeFlag := beforeSize < afterSize
      let growingIndex := if beforeFlag then listIndex else listIndex + 1
      match extendDeltaMemory deltaMemory growingIndex ((size + 8 - 1) / 8) true with
      | .error result => (deltaMemory, .error result)
      | .ok extended => (openGap extended listIndex offset size beforeSize afterSize beforeFlag, .ok ())

/-- `extendDeltaMemory` of a mutable memory fails only with `UDS_OVERFLOW`. -/
theorem extendDeltaMemory_error {deltaMemory : DeltaMemory} {growingIndex growingSize : ℕ}
    {doCopy : Bool} {result : UdsError}
    (h : extendDeltaMemory deltaMemory growingIndex growingSize doCopy = .error result) :
    result = .overflow := by
  simp only [extendDeltaMemory] at h
  split_ifs at h with hfit
  exact (Except.error.inj h).symm

/-- A failed `insertBits` returns the memory it was given, and the failure is
`UDS_OVERFLOW`: the list would pass `UINT16_MAX` bits, or the lists and the
growth do not fit the memory. -/
theorem insertBits_error {deltaMemory deltaMemory' : DeltaMemory} {listIndex offset size : ℕ}
    {result : UdsError} (h : insertBits deltaMemory listIndex offset size = (deltaMemory', .error result)) :
    deltaMemory' = deltaMemory ∧ result = .overflow := by
  simp only [insertBits] at h
  split at h
  · simp only [Prod.mk.injEq, Except.error.injEq] at h
    exact ⟨h.1.symm, h.2.symm⟩
  · split at h
    · simp at h
    · split at h
      · rename_i hextend
        simp only [Prod.mk.injEq, Except.error.injEq] at h
        exact ⟨h.1.symm, h.2 ▸ extendDeltaMemory_error hextend⟩
      · simp at h

/-! ## Failures of `putDeltaIndexEntry` -/

variable {Name : Type}

@[simp]
theorem DeltaIndex.setList_deltaLists_self (deltaIndex : DeltaIndex Name) (listNumber : ℕ) :
    deltaIndex.setList listNumber (deltaIndex.deltaLists listNumber) = deltaIndex := by
  simp [DeltaIndex.setList]

/-- What a failed `putDeltaIndexEntry` returns: the index with the entry's list
replaced by one with the same entries, its search point perhaps moved to the
insertion point. -/
theorem putDeltaIndexEntry_error {deltaIndex deltaIndex' : DeltaIndex Name} {deltaEntry : DeltaIndexEntry}
    {key value : ℕ} {name : Option Name} {room : Bool} {result : UdsError}
    (h : putDeltaIndexEntry deltaIndex deltaEntry key value name room = (deltaIndex', .error result)) :
    ∃ deltaList : DeltaList Name,
      deltaList.entries = (deltaIndex.deltaLists deltaEntry.listNumber).entries ∧
        deltaIndex' = deltaIndex.setList deltaEntry.listNumber deltaList := by
  unfold putDeltaIndexEntry at h
  by_cases hcollision : deltaEntry.isCollision
  · rw [if_pos hcollision, Prod.mk.injEq] at h
    exact ⟨_, rfl, by rw [← h.1, DeltaIndex.setList_deltaLists_self]⟩
  · rw [if_neg hcollision] at h
    refine ⟨if deltaEntry.offset < (deltaIndex.deltaLists deltaEntry.listNumber).saveOffset then
        { deltaIndex.deltaLists deltaEntry.listNumber with
          saveKey := deltaEntry.key - deltaEntry.delta, saveOffset := deltaEntry.offset }
      else deltaIndex.deltaLists deltaEntry.listNumber, by split_ifs <;> rfl, ?_⟩
    cases name <;> simp only at h <;>
    generalize (if deltaEntry.offset < (deltaIndex.deltaLists deltaEntry.listNumber).saveOffset then
        { deltaIndex.deltaLists deltaEntry.listNumber with
          saveKey := deltaEntry.key - deltaEntry.delta, saveOffset := deltaEntry.offset }
      else deltaIndex.deltaLists deltaEntry.listNumber) = moved at h ⊢ <;>
    split_ifs at h <;> first | exact (Prod.mk.inj h).1.symm | cases (Prod.mk.inj h).2

/-- The entries of every list, and the counts, of a failed `putDeltaIndexEntry`. -/
theorem putDeltaIndexEntry_error_entries {deltaIndex deltaIndex' : DeltaIndex Name}
    {deltaEntry : DeltaIndexEntry} {key value : ℕ} {name : Option Name} {room : Bool} {result : UdsError}
    (h : putDeltaIndexEntry deltaIndex deltaEntry key value name room = (deltaIndex', .error result)) :
    (∀ listNumber, (deltaIndex'.deltaLists listNumber).entries = (deltaIndex.deltaLists listNumber).entries) ∧
      deltaIndex'.recordCount = deltaIndex.recordCount ∧
        deltaIndex'.collisionCount = deltaIndex.collisionCount := by
  obtain ⟨deltaList, hentries, rfl⟩ := putDeltaIndexEntry_error h
  refine ⟨fun listNumber => ?_, rfl, rfl⟩
  by_cases hlist : listNumber = deltaEntry.listNumber
  · simp [DeltaIndex.setList, hlist, hentries]
  · simp [DeltaIndex.setList, hlist]

/-- `putDeltaIndexEntry` fails with `UDS_OVERFLOW` only when `insertBits`
found no room: its own checks fail with other codes. -/
theorem putDeltaIndexEntry_overflow {deltaIndex : DeltaIndex Name} {deltaEntry : DeltaIndexEntry}
    {key value : ℕ} {name : Option Name} {room : Bool}
    (h : (putDeltaIndexEntry deltaIndex deltaEntry key value name room).2 = .error .overflow) :
    room = false := by
  unfold putDeltaIndexEntry at h
  by_cases hcollision : deltaEntry.isCollision
  · rw [if_pos hcollision] at h
    cases h
  · rw [if_neg hcollision] at h
    cases room
    · rfl
    · cases name <;> simp only [Bool.not_true, Bool.false_eq_true, ↓reduceIte] at h <;>
        split_ifs at h <;> cases h

/-- A failed `putDeltaIndexEntry`, whose new bits `insertBits` places: the
entries of every list and the record and collision counts are as they were,
and when the failure is `insertBits`' `UDS_OVERFLOW` the memory, and with it
its layout, is as it was; every other failure comes before `insertBits`. -/
theorem putDeltaIndexEntry_failure_keeps_lists (deltaIndex : DeltaIndex Name) (deltaMemory : DeltaMemory)
    (deltaEntry : DeltaIndexEntry) (key value : ℕ) (name : Option Name) (bitOffset bits : ℕ)
    (result : UdsError)
    (hresult : (putDeltaIndexEntry deltaIndex deltaEntry key value name
      (insertBits deltaMemory (deltaEntry.listNumber + 1) bitOffset bits).2.isOk).2 = .error result) :
    let deltaIndex' := (putDeltaIndexEntry deltaIndex deltaEntry key value name
      (insertBits deltaMemory (deltaEntry.listNumber + 1) bitOffset bits).2.isOk).1
    (∀ listNumber, (deltaIndex'.deltaLists listNumber).entries = (deltaIndex.deltaLists listNumber).entries) ∧
      deltaIndex'.recordCount = deltaIndex.recordCount ∧
      deltaIndex'.collisionCount = deltaIndex.collisionCount ∧
      (result = .overflow →
        (insertBits deltaMemory (deltaEntry.listNumber + 1) bitOffset bits).1 = deltaMemory) := by
  intro deltaIndex'
  have hput : putDeltaIndexEntry deltaIndex deltaEntry key value name
      (insertBits deltaMemory (deltaEntry.listNumber + 1) bitOffset bits).2.isOk =
        (deltaIndex', .error result) := Prod.ext rfl hresult
  obtain ⟨hentries, hrecords, hcollisions⟩ := putDeltaIndexEntry_error_entries hput
  refine ⟨hentries, hrecords, hcollisions, ?_⟩
  rintro rfl
  have hroom := putDeltaIndexEntry_overflow hresult
  rcases hinsert : insertBits deltaMemory (deltaEntry.listNumber + 1) bitOffset bits with ⟨memory', _ | _⟩
  · exact (insertBits_error hinsert).1
  · rw [hinsert] at hroom
    cases hroom

/-- An entry of 70000 bits overflows a list, empty or not: put at the end of an
empty list, and put before the second of two entries, after the put has moved
the list's search point back to the cursor. The entries stay. -/
theorem putDeltaIndexEntry_failure_keeps_lists_oversized :
    (let deltaIndex : DeltaIndex ℕ := ⟨1, 8, fun _ => DeltaList.empty, 0, 0⟩
    let deltaEntry : DeltaIndexEntry := ⟨0, 0, 0, 0, 0, true, false⟩
    let deltaIndex' := (putDeltaIndexEntry deltaIndex deltaEntry 5 1 none
      (insertBits oneListMemory (deltaEntry.listNumber + 1) 0 70000).2.isOk).1
    (putDeltaIndexEntry deltaIndex deltaEntry 5 1 none
      (insertBits oneListMemory (deltaEntry.listNumber + 1) 0 70000).2.isOk).2 = .error .overflow ∧
    (∀ listNumber, (deltaIndex'.deltaLists listNumber).entries = (deltaIndex.deltaLists listNumber).entries) ∧
      deltaIndex'.recordCount = deltaIndex.recordCount ∧
      deltaIndex'.collisionCount = deltaIndex.collisionCount ∧
      (UdsError.overflow = .overflow →
        (insertBits oneListMemory (deltaEntry.listNumber + 1) 0 70000).1 = oneListMemory)) ∧
    (let deltaIndex : DeltaIndex ℕ := ⟨1, 8, fun _ => ⟨[⟨5, 1, none⟩, ⟨3, 2, none⟩], 8, 2⟩, 2, 0⟩
    let deltaEntry : DeltaIndexEntry := ⟨0, 8, 1, 1, 3, false, false⟩
    let deltaIndex' := (putDeltaIndexEntry deltaIndex deltaEntry 6 1 none
      (insertBits twoListMemory (deltaEntry.listNumber + 1) 5 70000).2.isOk).1
    (putDeltaIndexEntry deltaIndex deltaEntry 6 1 none
      (insertBits twoListMemory (deltaEntry.listNumber + 1) 5 70000).2.isOk).2 = .error .overflow ∧
    (deltaIndex'.deltaLists 0).saveOffset = 1 ∧
    (∀ listNumber, (deltaIndex'.deltaLists listNumber).entries = (deltaIndex.deltaLists listNumber).entries) ∧
      deltaIndex'.recordCount = deltaIndex.recordCount ∧
      deltaIndex'.collisionCount = deltaIndex.collisionCount ∧
      (UdsError.overflow = .overflow →
        (insertBits twoListMemory (deltaEntry.listNumber + 1) 5 70000).1 = twoListMemory)) :=
  ⟨⟨rfl, putDeltaIndexEntry_failure_keeps_lists _ oneListMemory ⟨0, 0, 0, 0, 0, true, false⟩ 5 1 none 0 70000
      .overflow rfl⟩,
    ⟨rfl, rfl, putDeltaIndexEntry_failure_keeps_lists _ twoListMemory ⟨0, 8, 1, 1, 3, false, false⟩ 6 1 none
      5 70000 .overflow rfl⟩⟩

end Vdo.Uds
