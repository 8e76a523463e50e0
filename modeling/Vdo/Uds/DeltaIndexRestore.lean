import Vdo.Uds.MasterIndexRestore
import Vdo.Uds.DeltaMemoryRebalance
import Vdo.Base.SlabJournalCodec

/-!
# Starting the restore of a mutable delta index

`startRestoringDeltaIndex` (`deltaIndex.c`) reads from each saved zone stream a
header (`struct di_header`: a magic number, the zone's number and the number of
zones, the range of delta lists the zone saved, and two statistics). It checks
that the headers form one set whose list ranges follow one another from list 0
and cover the index, empties the index, and reads the 16-bit size of every
saved list into the header of that list in the zone that now holds it. Each
zone then lays the sizes out with `startRestoringDeltaMemory`; the lists' bits
are read afterwards, into that layout.

`startRestoringDeltaMemory` returns `UDS_SUCCESS` also when `extendDeltaMemory`
finds that the sizes do not fit, and then nothing is laid out: the restore
succeeds with lists that overlap one another and the tail guard list.
`startRestoringDeltaMemory_layout` says what a zone is left with when its
sizes fit, and `startRestoringDeltaIndex_accepts_overflowing_sizes` gives a
stream whose one list is too large for its zone.
-/

namespace Vdo.Uds

/-! ## Headers -/

/-- `MAGIC_DI_START`, the bytes of `"DI-00002"`. -/
def magicDiStart : List ℕ := [68, 73, 45, 48, 48, 48, 48, 50]

/-- `struct di_header`. -/
structure DiHeader where
  magic : List ℕ
  zoneNumber : ℕ
  numZones : ℕ
  firstList : ℕ
  numLists : ℕ
  recordCount : ℕ
  collisionCount : ℕ
  deriving DecidableEq, Repr

/-- `sizeof(struct di_header)`. -/
def diHeaderSize : ℕ := magicSize + 4 + 4 + 4 + 4 + 8 + 8

/-- `decodeDeltaIndexHeader`: the fields of a header buffer, in order and
little-endian. The buffer is always read whole, so its length checks pass. -/
def decodeDeltaIndexHeader (buffer : List ℕ) : DiHeader :=
  ⟨buffer.take magicSize, wordLE (bufferByte buffer) 8 4, wordLE (bufferByte buffer) 12 4,
    wordLE (bufferByte buffer) 16 4, wordLE (bufferByte buffer) 20 4,
    wordLE (bufferByte buffer) 24 8, wordLE (bufferByte buffer) 32 8⟩

/-- `readDeltaIndexHeader`: the header at the start of a stream, and the rest
of the stream. -/
def readDeltaIndexHeader (reader : List ℕ) : Except UdsError (DiHeader × List ℕ) :=
  match readFromBufferedReader reader diHeaderSize with
  | .error e => .error e
  | .ok (buffer, rest) => .ok (decodeDeltaIndexHeader buffer, rest)

/-- `MAX_ZONES`. -/
def maxZones : ℕ := 16

/-! ## The index -/

/-- A mutable `DeltaIndex`, by the memories of its zones. -/
structure MutableDeltaIndex where
  deltaZones : ℕ → DeltaMemory
  numZones : ℕ
  numLists : ℕ
  listsPerZone : ℕ

/-- `getDeltaIndexZone`: the zone that holds a list. -/
def getDeltaIndexZone (deltaIndex : MutableDeltaIndex) (listNumber : ℕ) : ℕ :=
  listNumber / deltaIndex.listsPerZone

/-- `emptyDeltaIndex`: every zone's lists emptied. -/
def MutableDeltaIndex.emptyDeltaIndex (deltaIndex : MutableDeltaIndex) : MutableDeltaIndex :=
  { deltaIndex with
    deltaZones := fun z =>
      if z < deltaIndex.numZones then emptyDeltaLists (deltaIndex.deltaZones z) else deltaIndex.deltaZones z }

/-- The store of a saved size into `deltaZone->deltaLists[listNumber -
deltaZone->firstList + 1].size`, in the zone `getDeltaIndexZone` names. The
difference is an `unsigned int` and the size a `uint16_t`. -/
def MutableDeltaIndex.setDeltaListSize (deltaIndex : MutableDeltaIndex) (listNumber deltaListSize : ℕ) :
    MutableDeltaIndex :=
  let zoneNumber := getDeltaIndexZone deltaIndex listNumber
  let deltaZone := deltaIndex.deltaZones zoneNumber
  let index := (listNumber + 2 ^ 32 - deltaZone.firstList) % 2 ^ 32 + 1
  { deltaIndex with
    deltaZones := Function.update deltaIndex.deltaZones zoneNumber
      { deltaZone with
        deltaLists := Function.update deltaZone.deltaLists index
          ⟨(deltaZone.deltaLists index).startOffset, deltaListSize % 2 ^ 16, Nat.mod_lt _ (by decide)⟩ } }

/-! ## The restore -/

/-- What the header loop of `startRestoringDeltaIndex` keeps, by zone number:
the zone's stream, its list range and whether it was read, and the sums of the
statistics, which are `unsigned long`s. -/
structure HeaderScan where
  reader : ℕ → List ℕ
  firstList : ℕ → ℕ
  numLists : ℕ → ℕ
  zoneFlags : ℕ → Bool
  recordCount : ℕ
  collisionCount : ℕ

/-- The scan before the loop: no zone read. -/
def HeaderScan.initial : HeaderScan :=
  ⟨fun _ => [], fun _ => 0, fun _ => 0, fun _ => false, 0, 0⟩

/-- One pass of the header loop: read a stream's header, check it against the
number of streams and the zones read before, and record it under its zone
number. -/
def scanDeltaIndexHeader (numZones : ℕ) (scan : HeaderScan) (bufferedReader : List ℕ) :
    Except UdsError HeaderScan :=
  match readDeltaIndexHeader bufferedReader with
  | .error e => .error e
  | .ok (header, rest) =>
    if header.magic ≠ magicDiStart then .error .corruptComponent
    else if numZones ≠ header.numZones then .error .corruptComponent
    else if numZones ≤ header.zoneNumber then .error .corruptComponent
    else if scan.zoneFlags header.zoneNumber then .error .corruptComponent
    else .ok
      { reader := Function.update scan.reader header.zoneNumber rest
        firstList := Function.update scan.firstList header.zoneNumber header.firstList
        numLists := Function.update scan.numLists header.zoneNumber header.numLists
        zoneFlags := Function.update scan.zoneFlags header.zoneNumber true
        recordCount := (scan.recordCount + header.recordCount) % 2 ^ 64
        collisionCount := (scan.collisionCount + header.collisionCount) % 2 ^ 64 }

/-- The loop that checks the zones' list ranges: zone `z` must start where
zone `z - 1` ended, from list 0 on. It gives the list after the last zone's,
an `unsigned int`. -/
def nextListAfterZones (firstList numLists : ℕ → ℕ) : ℕ → Except UdsError ℕ
  | 0 => .ok 0
  | z + 1 =>
    match nextListAfterZones firstList numLists z with
    | .error e => .error e
    | .ok listNext =>
      if firstList z ≠ listNext then .error .corruptComponent
      else .ok ((listNext + numLists z) % 2 ^ 32)

/-- The inner loop of the size reads: `count` sizes from a stream, for lists
`firstList + i` on. It gives what is left of the stream, or the error; the
sizes read before an error stay stored. -/
def readDeltaListSizes (firstList : ℕ) :
    MutableDeltaIndex → List ℕ → ℕ → ℕ → MutableDeltaIndex × Except UdsError (List ℕ)
  | deltaIndex, reader, _, 0 => (deltaIndex, .ok reader)
  | deltaIndex, reader, i, count + 1 =>
    match readFromBufferedReader reader 2 with
    | .error e => (deltaIndex, .error e)
    | .ok (deltaListSizeData, reader) =>
      readDeltaListSizes firstList
        (deltaIndex.setDeltaListSize ((firstList + i) % 2 ^ 32) (getUInt16LE (bufferByte deltaListSizeData) 0))
        reader (i + 1) count

/-- The outer loop of the size reads, over zones `0 .. count - 1`: each
zone's sizes from its stream. It gives what is left of each stream. -/
def readZoneListSizes (scan : HeaderScan) :
    MutableDeltaIndex → ℕ → MutableDeltaIndex × Except UdsError (ℕ → List ℕ)
  | deltaIndex, 0 => (deltaIndex, .ok scan.reader)
  | deltaIndex, z + 1 =>
    match readZoneListSizes scan deltaIndex z with
    | (deltaIndex, .error e) => (deltaIndex, .error e)
    | (deltaIndex, .ok readers) =>
      match readDeltaListSizes (scan.firstList z) deltaIndex (readers z) 0 (scan.numLists z) with
      | (deltaIndex, .error e) => (deltaIndex, .error e)
      | (deltaIndex, .ok rest) => (deltaIndex, .ok (Function.update readers z rest))

/-- The last loop: zones `0 .. count - 1` of the index each start restoring,
up to the first error. -/
def startRestoringDeltaZones : MutableDeltaIndex → ℕ → MutableDeltaIndex × Except UdsError Unit
  | deltaIndex, 0 => (deltaIndex, .ok ())
  | deltaIndex, z + 1 =>
    match startRestoringDeltaZones deltaIndex z with
    | (deltaIndex, .error e) => (deltaIndex, .error e)
    | (deltaIndex, .ok ()) =>
      match startRestoringDeltaMemory (deltaIndex.deltaZones z) with
      | .error e => (deltaIndex, .error e)
      | .ok deltaZone =>
        ({ deltaIndex with deltaZones := Function.update deltaIndex.deltaZones z deltaZone }, .ok ())

/-- `startRestoringDeltaIndex` of a mutable index from its saved zone streams.
It gives the index, with what the steps before an error changed, and what is
left of each zone's stream, by zone number. The statistics the source keeps in
zone 0 are not modelled. -/
def startRestoringDeltaIndex (deltaIndex : MutableDeltaIndex) (bufferedReaders : List (List ℕ)) :
    MutableDeltaIndex × Except UdsError (ℕ → List ℕ) :=
  let numZones := bufferedReaders.length
  if numZones = 0 then (deltaIndex, .error .invalidArgument)
  else if maxZones < numZones then (deltaIndex, .error .invalidArgument)
  else
    match bufferedReaders.foldlM (scanDeltaIndexHeader numZones) HeaderScan.initial with
    | .error e => (deltaIndex, .error e)
    | .ok scan =>
      match nextListAfterZones scan.firstList scan.numLists numZones with
      | .error e => (deltaIndex, .error e)
      | .ok listNext =>
        if listNext ≠ deltaIndex.numLists then (deltaIndex, .error .corruptComponent)
        else if scan.recordCount < scan.collisionCount then (deltaIndex, .error .corruptComponent)
        else
          match readZoneListSizes scan deltaIndex.emptyDeltaIndex numZones with
          | (deltaIndex, .error e) => (deltaIndex, .error e)
          | (deltaIndex, .ok readers) =>
            match startRestoringDeltaZones deltaIndex deltaIndex.numZones with
            | (deltaIndex, .error e) => (deltaIndex, .error e)
            | (deltaIndex, .ok ()) => (deltaIndex, .ok readers)

/-! ## A zone's restore -/

/-- `startRestoringDeltaMemory` never fails: it returns `UDS_SUCCESS` whether
or not the sizes fit. -/
theorem startRestoringDeltaMemory_ok (deltaMemory : DeltaMemory) :
    ∃ restored, startRestoringDeltaMemory deltaMemory = .ok restored := by
  unfold startRestoringDeltaMemory
  split
  · exact ⟨_, rfl⟩
  · exact ⟨_, rfl⟩

section ZoneRestore

variable {deltaMemory : DeltaMemory} {growingIndex growingSize : ℕ}

/-- When the lists and the growth fit, `extendDeltaMemory` without a copy
gives every list but the head guard list its new offset, and changes no bit. -/
theorem extendDeltaMemory_headers (hfit : growingSize + listBytes deltaMemory ≤ deltaMemory.size) :
    ∃ extended, extendDeltaMemory deltaMemory growingIndex growingSize false = .ok extended ∧
      extended.memory = deltaMemory.memory ∧ extended.numLists = deltaMemory.numLists ∧
      extended.size = deltaMemory.size ∧
      ∀ i, extended.deltaLists i = if 1 ≤ i ∧ i ≤ deltaMemory.numLists + 1 then
        movedList deltaMemory.deltaLists (deltaMemory.layoutOffsets
          ((deltaMemory.size - (growingSize + listBytes deltaMemory)) / deltaMemory.numLists)
          growingIndex growingSize) i
        else deltaMemory.deltaLists i := by
  rw [extendDeltaMemory, if_neg (by omega)]
  exact ⟨_, rfl, rfl, rfl, rfl, fun _ => rfl⟩

/-- When `extendDeltaMemory` lays the sizes out, the restore sets the tail
guard list's bits to ones and flags the non-empty lists. -/
theorem startRestoringDeltaMemory_of_ok {extended : DeltaMemory}
    (h : extendDeltaMemory deltaMemory 0 0 false = .ok extended) :
    startRestoringDeltaMemory deltaMemory = .ok (flagNonEmptyDeltaLists
      { extended with
        memory := setOne extended.memory (getDeltaListStart (extended.deltaLists (extended.numLists + 1)))
          (getDeltaListSize (extended.deltaLists (extended.numLists + 1))) }) := by
  rw [startRestoringDeltaMemory, h]

/-- A zone whose saved sizes fit in its memory, with the head guard list at 0
and the tail guard list `emptyDeltaLists` leaves at the end, starts its restore
laid out, with every size as saved and the flags set on exactly the non-empty
real lists. -/
theorem startRestoringDeltaMemory_layout
    (hhead : getDeltaListStart (deltaMemory.deltaLists 0) = 0 ∧ getDeltaListSize (deltaMemory.deltaLists 0) = 0)
    (hsize : getDeltaListSize (deltaMemory.deltaLists (deltaMemory.numLists + 1)) = guardBits)
    (hend : getDeltaListEnd (deltaMemory.deltaLists (deltaMemory.numLists + 1)) = deltaMemory.size * 8)
    (hfit : listBytes deltaMemory ≤ deltaMemory.size) :
    ∃ restored, startRestoringDeltaMemory deltaMemory = .ok restored ∧ restored.Layout ∧
      (∀ i, getDeltaListSize (restored.deltaLists i) = getDeltaListSize (deltaMemory.deltaLists i)) ∧
      ∀ i, restored.flags i =
        decide (i < deltaMemory.numLists ∧ 0 < getDeltaListSize (deltaMemory.deltaLists (i + 1))) := by
  have hfit' : 0 + listBytes deltaMemory ≤ deltaMemory.size := by omega
  obtain ⟨extended, hextend, -, hnum, hsz, hlists⟩ := @extendDeltaMemory_headers deltaMemory 0 0 hfit'
  have hsizes : ∀ i, getDeltaListSize (extended.deltaLists i) = getDeltaListSize (deltaMemory.deltaLists i) := by
    intro i
    rw [hlists]
    split_ifs <;> rfl
  refine ⟨_, startRestoringDeltaMemory_of_ok hextend, ⟨?_, ?_, ?_, ?_, ?_, ?_⟩, hsizes, fun i => ?_⟩
  · show getDeltaListStart (extended.deltaLists 0) = 0
    rw [hlists, if_neg (by omega)]
    exact hhead.1
  · show getDeltaListSize (extended.deltaLists 0) = 0
    rw [hsizes]
    exact hhead.2
  · intro i hi
    show getDeltaListEnd (extended.deltaLists i) ≤ getDeltaListStart (extended.deltaLists (i + 1))
    change i ≤ extended.numLists at hi
    rw [hnum] at hi
    rcases Nat.eq_zero_or_pos i with rfl | hpos
    · rw [hlists 0, if_neg (by omega), getDeltaListEnd, hhead.1, hhead.2]
      exact Nat.zero_le _
    · have hnew := @layoutOffsets_newOrder deltaMemory 0 0 hsize hend hfit' i hpos (by omega)
      have hbyte := getDeltaListEnd_le_byteEnd (movedList deltaMemory.deltaLists
        (deltaMemory.layoutOffsets ((deltaMemory.size - (0 + listBytes deltaMemory)) / deltaMemory.numLists) 0 0) i)
      rw [hlists i, hlists (i + 1), if_pos (by omega), if_pos (by omega)]
      simp only [getDeltaListByteStart] at hnew hbyte
      omega
  · show getDeltaListSize (extended.deltaLists (extended.numLists + 1)) = guardBits
    rw [hnum, hsizes]
    exact hsize
  · show getDeltaListEnd (extended.deltaLists (extended.numLists + 1)) = extended.size * 8
    rw [hnum, hsz, hlists, if_pos (by omega), getDeltaListEnd, getDeltaListStart_movedList,
      getDeltaListSize_movedList, layoutOffsets_tail]
    simp only [getDeltaListEnd] at hend
    omega
  · intro k hk
    show setOne extended.memory (getDeltaListStart (extended.deltaLists (extended.numLists + 1)))
      (getDeltaListSize (extended.deltaLists (extended.numLists + 1)))
      (getDeltaListStart (extended.deltaLists (extended.numLists + 1)) + k) = true
    rw [setOne, if_pos]
    rw [hnum, hsizes, hsize]
    omega
  · show decide (i < extended.numLists ∧ 0 < getDeltaListSize (extended.deltaLists (i + 1))) = _
    rw [hnum, hsizes]
end ZoneRestore

/-- The last loop restores each of zones `0 .. count - 1` and never stops
early, since no zone's restore fails. -/
theorem startRestoringDeltaZones_spec (deltaIndex : MutableDeltaIndex) (count : ℕ) :
    ∃ restored, startRestoringDeltaZones deltaIndex count = (restored, .ok ()) ∧
      restored.numZones = deltaIndex.numZones ∧
      ∀ z, (z < count → startRestoringDeltaMemory (deltaIndex.deltaZones z) = .ok (restored.deltaZones z)) ∧
        (count ≤ z → restored.deltaZones z = deltaIndex.deltaZones z) := by
  induction count with
  | zero => exact ⟨deltaIndex, rfl, rfl, fun z => ⟨fun h => absurd h (Nat.not_lt_zero z), fun _ => rfl⟩⟩
  | succ count ih =>
    obtain ⟨restored, hrun, hnum, hzones⟩ := ih
    obtain ⟨zone, hzone⟩ := startRestoringDeltaMemory_ok (restored.deltaZones count)
    refine ⟨{ restored with deltaZones := Function.update restored.deltaZones count zone }, ?_, hnum, fun z => ?_⟩
    · rw [startRestoringDeltaZones, hrun]
      dsimp only
      rw [hzone]
    · have hbefore := hzones count
      rcases Nat.lt_trichotomy z count with hlt | rfl | hgt
      · refine ⟨fun _ => ?_, fun h => absurd h (by omega)⟩
        dsimp only
        rw [(hzones z).1 hlt, Function.update_of_ne (show z ≠ count by omega)]
      · refine ⟨fun _ => ?_, fun h => absurd h (by omega)⟩
        dsimp only
        rw [← hbefore.2 le_rfl, hzone, Function.update_self]
      · refine ⟨fun h => absurd h (by omega), fun _ => ?_⟩
        dsimp only
        rw [Function.update_of_ne (show z ≠ count by omega), (hzones z).2 (by omega)]

/-! ## Sizes that do not fit -/

/-- A one-zone index of one list, in a memory of sixteen bytes. -/
def oneListDeltaIndex : MutableDeltaIndex :=
  ⟨fun _ => oneListMemory, 1, 1, 1⟩

/-- A saved stream of zone 0 of 1, of list 0 alone, whose size is 65535 bits. -/
def oversizedListStream : List ℕ :=
  magicDiStart ++ [0, 0, 0, 0, 1, 0, 0, 0, 0, 0, 0, 0, 1, 0, 0, 0] ++ List.replicate 16 0 ++ [255, 255]

/-- The restore of a stream whose one list does not fit in its zone's sixteen
bytes succeeds, and leaves that list running into the tail guard list. -/
theorem startRestoringDeltaIndex_accepts_overflowing_sizes :
    (startRestoringDeltaIndex oneListDeltaIndex [oversizedListStream]).2.toBool = true ∧
      ¬ ((startRestoringDeltaIndex oneListDeltaIndex [oversizedListStream]).1.deltaZones 0).Layout := by
  refine ⟨by decide, fun hlayout => ?_⟩
  have hordered := hlayout.ordered 1 (by decide)
  revert hordered
  decide

end Vdo.Uds
