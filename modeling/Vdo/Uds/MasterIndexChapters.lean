import Vdo.Uds.MasterIndexRestore
import Vdo.Lib.Reachability

/-!
# The chapter ranges of a master index

A `MasterIndex5` (`masterIndex005.c`) maps the address bits of a name to the
chapter its record was last put in. A delta list stores the chapter as its
index, the virtual chapter number modulo `2 ^ chapterBits`, and a zone indexes
the virtual chapters `virtualChapterLow ..= virtualChapterHigh`. When the range
moves forward, the entries of the chapters that leave it are not removed at
once: each list keeps in `flushChapters` the first chapter it may still hold
entries of, and the next `getMasterIndexRecord` on the list removes the entries
of the chapters from there up to `virtualChapterLow` before it searches
(`getMasterIndexEntry`).

Moving the open chapter back removes the newest chapters instead. Above
`chapterMask` this renumbers them as the oldest: every list's flush chapter is
lowered to `vc - (chapterMask + 1)`, whose index is that of `vc`
(`removeNewestChapters`); below it every list is flushed at once.

The model is of a master index of one zone, zone 0, whose delta lists are all
those of the delta index. Names are any type with decidable equality, and
`masterIndexBytes` the bits of a name `extractMasterIndexBytes` reads. The bits a
zone's lists use (`getDeltaIndexZoneDlistBitsUsed`) are an argument of
`setMasterIndexZoneOpenChapter`, as the room for an entry is of
`putDeltaIndexEntry`.
-/

namespace Vdo.Uds

/-- The fixed fields of a `MasterIndex5` that its chapter and record code
read, as `makeMasterIndex005` sets them from its parameters. -/
structure MasterIndex5Layout where
  addressBits : ℕ
  numChapters : ℕ
  /-- `computeMasterIndexParameters005` refuses a volume without chapters. -/
  numChapters_pos : 0 < numChapters
  /-- `numChapters` is an `unsigned int`. -/
  numChapters_lt : numChapters < 2 ^ 32
  maxZoneBits : ℕ
  chapterZoneBits : ℕ

namespace MasterIndex5Layout

/-- `chapterBits`, computed as `computeMasterIndexParameters005` does. -/
def chapterBits (layout : MasterIndex5Layout) : ℕ :=
  computeBits (layout.numChapters - 1)

/-- `chapterMask`: the largest chapter index a list stores. -/
def chapterMask (layout : MasterIndex5Layout) : ℕ :=
  2 ^ layout.chapterBits - 1

end MasterIndex5Layout

/-- `ChapterRange`: the chapter indexes `chapterStart` onwards, `chapterCount`
of them, modulo `2 ^ chapterBits`. -/
structure ChapterRange where
  chapterStart : ℕ
  chapterCount : ℕ
  deriving DecidableEq, Repr

/-- A `MasterIndexRecord`: the name looked for, the delta list entry found or
the place to put one, and the chapter of an entry found. -/
structure MasterIndexRecord (Name : Type) where
  name : Name
  deltaEntry : DeltaIndexEntry
  isFound : Bool
  isCollision : Bool
  virtualChapter : ℕ
  deriving DecidableEq, Repr

variable {Name : Type} (layout : MasterIndex5Layout)

/-! ## Names and chapter numbers -/

/-- `extractAddress`. -/
def extractAddress (masterIndexBytes : Name → ℕ) (name : Name) : ℕ :=
  masterIndexBytes name % 2 ^ layout.addressBits

/-- `extractDListNum`. -/
def extractDListNum (masterIndexBytes : Name → ℕ) (mi5 : MasterIndex5 Name) (name : Name) : ℕ :=
  masterIndexBytes name / 2 ^ layout.addressBits % mi5.numDeltaLists

/-- `(a - b) & chapterMask` in the unsigned arithmetic of the source: how far
chapter index `a` lies after `b`, modulo `2 ^ chapterBits`. -/
def rollingChapter (a b : ℕ) : ℕ :=
  (a + 2 ^ layout.chapterBits - b % 2 ^ layout.chapterBits) % 2 ^ layout.chapterBits

/-- `convertVirtualToIndex`. -/
def convertVirtualToIndex (virtualChapter : ℕ) : ℕ :=
  virtualChapter % 2 ^ layout.chapterBits

/-- `convertIndexToVirtual`: the chapter with that index at or after the
zone's lowest chapter. -/
def convertIndexToVirtual (masterZone : MasterIndexZone) (indexChapter : ℕ) : ℕ :=
  masterZone.virtualChapterLow + rollingChapter layout indexChapter masterZone.virtualChapterLow

/-- `isVirtualChapterIndexed`. -/
def isVirtualChapterIndexed (masterZone : MasterIndexZone) (virtualChapter : ℕ) : Bool :=
  masterZone.virtualChapterLow ≤ virtualChapter && virtualChapter ≤ masterZone.virtualChapterHigh

/-! ## Removing and changing delta list entries -/

/-- The entries of a list once `removeDeltaIndexEntry` has removed the one at
`offset`: a collision entry just goes, and a plain one hands its delta to the
entry after it, which is rewritten as a plain entry. -/
def removeEntryAt (entries : List (DeltaEntry Name)) (offset : ℕ) : List (DeltaEntry Name) :=
  match entries.drop offset with
  | [] => entries
  | removed :: rest =>
    if removed.delta = 0 ∧ 0 < offset then entries.take offset ++ rest
    else
      entries.take offset ++
        (match rest with
          | [] => []
          | next :: rest => { next with delta := removed.delta + next.delta, collisionName := none } :: rest)

/-- The collision entries `removeDeltaIndexEntry` removes or rewrites at `offset`. -/
def removedCollisions (entries : List (DeltaEntry Name)) (offset : ℕ) : ℕ :=
  match entries.drop offset with
  | removed :: rest =>
    if removed.delta = 0 ∧ 0 < offset then 1
    else
      match rest with
      | next :: _ => if next.delta = 0 then 1 else 0
      | [] => 0
  | [] => 0

/-- `removeDeltaIndexEntry` at entry `offset` of list `listNumber`, which exists:
the counts drop, and a search point after the entry is forgotten. -/
def DeltaIndex.removeEntry (deltaIndex : DeltaIndex Name) (listNumber offset : ℕ) : DeltaIndex Name :=
  let deltaList := deltaIndex.deltaLists listNumber
  let deltaList := { deltaList with entries := removeEntryAt deltaList.entries offset }
  let deltaList := if offset < deltaList.saveOffset then { deltaList with saveKey := 0, saveOffset := 0 }
    else deltaList
  { deltaIndex.setList listNumber deltaList with
    recordCount := deltaIndex.recordCount - 1
    collisionCount :=
      deltaIndex.collisionCount - removedCollisions (deltaIndex.deltaLists listNumber).entries offset }

/-- `removeDeltaIndexEntry`: stepping past an entry at the end of its list fails. -/
def removeDeltaIndexEntry (deltaIndex : DeltaIndex Name) (deltaEntry : DeltaIndexEntry) :
    Except UdsError (DeltaIndex Name) :=
  if deltaEntry.atEnd then .error .badState
  else .ok (deltaIndex.removeEntry deltaEntry.listNumber deltaEntry.offset)

/-- `setDeltaEntryValue`: the value must fit in the index's value bits. -/
def setDeltaEntryValue (deltaIndex : DeltaIndex Name) (deltaEntry : DeltaIndexEntry) (value : ℕ) :
    Except UdsError (DeltaIndex Name) :=
  if deltaEntry.atEnd then .error .badState
  else if value % 2 ^ deltaIndex.valueBits ≠ value then .error .invalidArgument
  else
    let deltaList := deltaIndex.deltaLists deltaEntry.listNumber
    .ok (deltaIndex.setList deltaEntry.listNumber
      { deltaList with entries := deltaList.entries.modify deltaEntry.offset fun entry => { entry with value } })

/-! ## Flushing the chapters that left a list's range -/

/-- The `flushInvalidEntries` calls of `getMasterIndexEntry`, which between
them visit every entry of list `listNumber` from `offset` on, for at most `fuel`
entries: an entry whose chapter lies in the flush range is removed, and
`nextChapterToInvalidate` becomes the least distance from the range's start of
the chapter of an entry that stays. -/
def flushDeltaList (flushRange : ChapterRange) (listNumber : ℕ) :
    ℕ → DeltaIndex Name → ℕ → ℕ → DeltaIndex Name × ℕ
  | 0, deltaIndex, _, nextChapterToInvalidate => (deltaIndex, nextChapterToInvalidate)
  | fuel + 1, deltaIndex, offset, nextChapterToInvalidate =>
    match (deltaIndex.deltaLists listNumber).entries[offset]? with
    | none => (deltaIndex, nextChapterToInvalidate)
    | some entry =>
      let relativeChapter := rollingChapter layout entry.value flushRange.chapterStart
      if relativeChapter < flushRange.chapterCount then
        flushDeltaList flushRange listNumber fuel (deltaIndex.removeEntry listNumber offset) offset
          nextChapterToInvalidate
      else
        flushDeltaList flushRange listNumber fuel deltaIndex (offset + 1)
          (min relativeChapter nextChapterToInvalidate)

variable [DecidableEq Name]

/-- `getMasterIndexEntry`: flush the range from the whole list while finding
the entry for `key` and `name`, and return the range that starts at the oldest
chapter left. The source searches as it flushes; the model flushes first and
then searches the flushed list from its start, which finds the same entry and
saves the same search point. -/
def getMasterIndexEntry (mi5 : MasterIndex5 Name) (listNumber key : ℕ) (name : Name)
    (flushRange : ChapterRange) :
    Except UdsError (MasterIndex5 Name × DeltaIndexEntry × ChapterRange) := do
  let _ ← startDeltaIndexSearch mi5.deltaIndex listNumber 0
  let (deltaIndex, nextChapterToInvalidate) :=
    flushDeltaList layout flushRange listNumber
      (mi5.deltaIndex.deltaLists listNumber).entries.length mi5.deltaIndex 0 layout.chapterMask
  let deltaIndex := deltaIndex.setList listNumber
    { deltaIndex.deltaLists listNumber with saveKey := 0, saveOffset := 0 }
  let (deltaIndex, deltaEntry) ← getDeltaIndexEntry deltaIndex listNumber key name
  let chapterStart := (nextChapterToInvalidate + flushRange.chapterStart) % 2 ^ layout.chapterBits
  pure ({ mi5 with deltaIndex := deltaIndex }, deltaEntry, ⟨chapterStart, 0⟩)

/-! ## Records -/

/-- `getMasterIndexRecord_005`: a list whose flush chapter is below the zone's
range is flushed up to it first, and its flush chapter moves to the oldest
chapter left (at most the newest indexed). The chapter of an entry found is
read back as a virtual chapter of the range; it is left at zero otherwise. -/
def getMasterIndexRecord (masterIndexBytes : Name → ℕ) (mi5 : MasterIndex5 Name) (name : Name) :
    Except UdsError (MasterIndex5 Name × MasterIndexRecord Name) := do
  let address := extractAddress layout masterIndexBytes name
  let deltaListNumber := extractDListNum layout masterIndexBytes mi5 name
  let flushChapter := mi5.flushChapters deltaListNumber
  let masterZone := mi5.masterZones 0
  let (mi5, deltaEntry) ←
    if flushChapter < masterZone.virtualChapterLow then do
      let flushCount := masterZone.virtualChapterLow - flushChapter
      let range : ChapterRange := ⟨convertVirtualToIndex layout flushChapter,
        if flushCount > layout.chapterMask then layout.chapterMask + 1 else flushCount⟩
      let (mi5, deltaEntry, range) ← getMasterIndexEntry layout mi5 deltaListNumber address name range
      let flushChapter :=
        min (convertIndexToVirtual layout masterZone range.chapterStart) masterZone.virtualChapterHigh
      pure ({ mi5 with flushChapters := Function.update mi5.flushChapters deltaListNumber flushChapter },
        deltaEntry)
    else do
      let (deltaIndex, deltaEntry) ← getDeltaIndexEntry mi5.deltaIndex deltaListNumber address name
      pure ({ mi5 with deltaIndex := deltaIndex }, deltaEntry)
  let isFound := !deltaEntry.atEnd && deltaEntry.key == address
  let virtualChapter :=
    if isFound then convertIndexToVirtual layout masterZone (getDeltaEntryValue mi5.deltaIndex deltaEntry)
    else 0
  pure (mi5, ⟨name, deltaEntry, isFound, deltaEntry.isCollision, virtualChapter⟩)

/-- `putMasterIndexRecord`: store the chapter's index in a new entry, a
collision entry when the record's name was found; the chapter must be indexed. -/
def putMasterIndexRecord (masterIndexBytes : Name → ℕ) (mi5 : MasterIndex5 Name)
    (record : MasterIndexRecord Name) (virtualChapter : ℕ) (room : Bool) :
    MasterIndex5 Name × Except UdsError (MasterIndexRecord Name) :=
  if !isVirtualChapterIndexed (mi5.masterZones 0) virtualChapter then (mi5, .error .invalidArgument)
  else
    let (deltaIndex, result) := putDeltaIndexEntry mi5.deltaIndex record.deltaEntry
      (extractAddress layout masterIndexBytes record.name) (convertVirtualToIndex layout virtualChapter)
      (if record.isFound then some record.name else none) room
    ({ mi5 with deltaIndex := deltaIndex },
      match result with
      | .ok () => .ok { record with virtualChapter, isCollision := record.isFound, isFound := true }
      | .error e => .error e)

/-- `removeMasterIndexRecord`: only a record that was found. -/
def removeMasterIndexRecord (mi5 : MasterIndex5 Name) (record : MasterIndexRecord Name) :
    Except UdsError (MasterIndex5 Name) :=
  if !record.isFound then .error .badState
  else do
    let deltaIndex ← removeDeltaIndexEntry mi5.deltaIndex record.deltaEntry
    pure { mi5 with deltaIndex := deltaIndex }

/-- `setMasterIndexRecordChapter`: only a record that was found, and an
indexed chapter. -/
def setMasterIndexRecordChapter (mi5 : MasterIndex5 Name) (record : MasterIndexRecord Name)
    (virtualChapter : ℕ) : Except UdsError (MasterIndex5 Name × MasterIndexRecord Name) :=
  if !record.isFound then .error .badState
  else if !isVirtualChapterIndexed (mi5.masterZones 0) virtualChapter then .error .invalidArgument
  else do
    let deltaIndex ←
      setDeltaEntryValue mi5.deltaIndex record.deltaEntry (convertVirtualToIndex layout virtualChapter)
    pure ({ mi5 with deltaIndex := deltaIndex }, { record with virtualChapter })

/-! ## Moving the open chapter -/

/-- `removeNewestChapters`: above `chapterMask`, lower every flush chapter to
`virtualChapter - (chapterMask + 1)`; below it, flush every list, with the
zeroed name (`default`) and the range from `virtualChapter` to the chapter
before the zone's lowest, ignoring the results. -/
def removeNewestChapters [Inhabited Name] (mi5 : MasterIndex5 Name) (virtualChapter : ℕ) :
    MasterIndex5 Name :=
  let numLists := mi5.deltaIndex.numLists
  if virtualChapter > layout.chapterMask then
    let virtualChapter := virtualChapter - (layout.chapterMask + 1)
    { mi5 with
      flushChapters := fun i =>
        if i < numLists ∧ virtualChapter < mi5.flushChapters i then virtualChapter
        else mi5.flushChapters i }
  else
    let range : ChapterRange := ⟨convertVirtualToIndex layout virtualChapter,
      layout.chapterMask + 1 - (virtualChapter - (mi5.masterZones 0).virtualChapterLow)⟩
    (List.range numLists).foldl
      (fun mi5 i =>
        match getMasterIndexEntry layout mi5 i 0 default range with
        | .ok (mi5, _, _) => mi5
        | .error _ => mi5)
      mi5

/-- The chapter range `setMasterIndexZoneOpenChapter_005` gives the zone for
the new open chapter, with the lists of a backward move already changed. -/
def moveOpenChapter [Inhabited Name] (mi5 : MasterIndex5 Name) (virtualChapter : ℕ) :
    MasterIndex5 Name × ℕ × ℕ :=
  let masterZone := mi5.masterZones 0
  let newVirtualLow :=
    if virtualChapter ≥ layout.numChapters then virtualChapter - layout.numChapters + 1 else 0
  if virtualChapter ≤ masterZone.virtualChapterLow then
    ({ mi5 with deltaIndex := emptyDeltaIndex mi5.deltaIndex }, virtualChapter, virtualChapter)
  else if virtualChapter ≤ masterZone.virtualChapterHigh then
    (removeNewestChapters layout mi5 virtualChapter, masterZone.virtualChapterLow, virtualChapter)
  else if newVirtualLow < masterZone.virtualChapterLow then
    (mi5, masterZone.virtualChapterLow, virtualChapter)
  else if newVirtualLow ≤ masterZone.virtualChapterHigh then
    (mi5, newVirtualLow, virtualChapter)
  else (mi5, virtualChapter, virtualChapter)

/-- The early flush of `setMasterIndexZoneOpenChapter_005`: a zone whose lists
use more than `maxZoneBits` expires enough of its oldest chapters to free them,
keeping at least the open chapter. -/
def expireEarly (masterZone : MasterIndexZone) (usedBits : ℕ) : MasterIndexZone :=
  if masterZone.virtualChapterLow < masterZone.virtualChapterHigh ∧ usedBits > layout.maxZoneBits then
    let expireCount := 1 + (usedBits - layout.maxZoneBits) / layout.chapterZoneBits
    if expireCount = 1 then
      { masterZone with
        numEarlyFlushes := masterZone.numEarlyFlushes + 1
        virtualChapterLow := masterZone.virtualChapterLow + 1 }
    else if masterZone.virtualChapterLow + expireCount < masterZone.virtualChapterHigh then
      { masterZone with
        numEarlyFlushes := masterZone.numEarlyFlushes + expireCount
        virtualChapterLow := masterZone.virtualChapterLow + expireCount }
    else
      { masterZone with
        numEarlyFlushes :=
          masterZone.numEarlyFlushes + (masterZone.virtualChapterHigh - masterZone.virtualChapterLow)
        virtualChapterLow := masterZone.virtualChapterHigh }
  else masterZone

/-- `setMasterIndexZoneOpenChapter_005` for the one zone, given the bits its
lists use once the range has moved. -/
def setMasterIndexZoneOpenChapter [Inhabited Name] (mi5 : MasterIndex5 Name)
    (virtualChapter usedBits : ℕ) : MasterIndex5 Name :=
  let (moved, low, high) := moveOpenChapter layout mi5 virtualChapter
  let masterZone : MasterIndexZone :=
    { mi5.masterZones 0 with virtualChapterLow := low, virtualChapterHigh := high }
  { moved with masterZones := Function.update moved.masterZones 0 (expireEarly layout masterZone usedBits) }

/-! ## The master index over time -/

/-- A master index as `makeMasterIndex005` makes it, of one zone: every list
empty, the values `chapterBits` wide, and the flush chapters and the chapter
range zeroed. -/
def MasterIndex5.Initial (mi5 : MasterIndex5 Name) : Prop :=
  (∀ i, mi5.deltaIndex.deltaLists i = DeltaList.empty) ∧
    mi5.deltaIndex.valueBits = layout.chapterBits ∧ mi5.deltaIndex.numLists = mi5.numDeltaLists ∧
    (∀ i, mi5.flushChapters i = 0) ∧ mi5.masterZones 0 = ⟨0, 0, 0⟩

/-- The calls that change a master index: moving the open chapter, and
`getMasterIndexRecord` alone or followed by a put, a change of chapter or a
removal of the record it returned. -/
inductive MasterIndexStep [Inhabited Name] (masterIndexBytes : Name → ℕ) :
    MasterIndex5 Name → MasterIndex5 Name → Prop
  | setOpenChapter (mi5 : MasterIndex5 Name) (virtualChapter usedBits : ℕ) :
      MasterIndexStep masterIndexBytes mi5 (setMasterIndexZoneOpenChapter layout mi5 virtualChapter usedBits)
  | get {mi5 mi5' : MasterIndex5 Name} {record : MasterIndexRecord Name} (name : Name)
      (hget : getMasterIndexRecord layout masterIndexBytes mi5 name = .ok (mi5', record)) :
      MasterIndexStep masterIndexBytes mi5 mi5'
  | put {mi5 mi5' : MasterIndex5 Name} {record : MasterIndexRecord Name} (name : Name)
      (virtualChapter : ℕ) (room : Bool)
      (hget : getMasterIndexRecord layout masterIndexBytes mi5 name = .ok (mi5', record)) :
      MasterIndexStep masterIndexBytes mi5
        (putMasterIndexRecord layout masterIndexBytes mi5' record virtualChapter room).1
  | setChapter {mi5 mi5' mi5'' : MasterIndex5 Name} {record record' : MasterIndexRecord Name}
      (name : Name) (virtualChapter : ℕ)
      (hget : getMasterIndexRecord layout masterIndexBytes mi5 name = .ok (mi5', record))
      (hset : setMasterIndexRecordChapter layout mi5' record virtualChapter = .ok (mi5'', record')) :
      MasterIndexStep masterIndexBytes mi5 mi5''
  | remove {mi5 mi5' mi5'' : MasterIndex5 Name} {record : MasterIndexRecord Name} (name : Name)
      (hget : getMasterIndexRecord layout masterIndexBytes mi5 name = .ok (mi5', record))
      (hremove : removeMasterIndexRecord mi5' record = .ok mi5'') :
      MasterIndexStep masterIndexBytes mi5 mi5''

end Vdo.Uds
