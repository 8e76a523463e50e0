import Vdo.Uds.OpenChapterZone
import Mathlib.Data.List.Basic

/-!
# Delta lists, as their entries decode

A delta index (`deltaIndex.c`) keeps, for each list, the keys of its entries
as the differences between consecutive keys, Huffman-coded in a bit stream,
each followed by its value; a delta of zero after the first entry marks a
collision entry, which also stores the full name it was put with. The model
keeps each list as the sequence of entries `decodeDelta` reads from it, so
offsets count entries instead of bits, and leaves the bit coding and the
placement of the lists in memory out: `insertBits` either finds room for an
entry or fails with `UDS_OVERFLOW`, and whether it does is an argument of
`putDeltaIndexEntry`.

The model is of an index of one zone, as the chapter index is.
-/

namespace Vdo.Uds

/-- An entry of a delta list as `decodeDelta` reads it: the distance of its
key from the key before it, its value, and for a collision entry the name
stored after it. -/
structure DeltaEntry (Name : Type*) where
  delta : ℕ
  value : ℕ
  collisionName : Option Name
  deriving DecidableEq, Repr

/-- A `DeltaList` of a mutable index: its entries, and the search point that
`rememberDeltaIndexOffset` saved, the offset of an entry and the key before
it. -/
structure DeltaList (Name : Type*) where
  entries : List (DeltaEntry Name)
  saveKey : ℕ
  saveOffset : ℕ
  deriving DecidableEq, Repr

/-- The empty list `emptyDeltaLists` makes. -/
def DeltaList.empty {Name : Type*} : DeltaList Name := ⟨[], 0, 0⟩

/-- A mutable `DeltaIndex` of one zone. -/
structure DeltaIndex (Name : Type*) where
  numLists : ℕ
  valueBits : ℕ
  deltaLists : ℕ → DeltaList Name
  recordCount : ℕ
  collisionCount : ℕ

/-- The cursor of a search, a `DeltaIndexEntry`: the key and offset of the
entry it is on, the number of entries that one takes (`entryBits`, zero
before the first is decoded), and its delta. -/
structure DeltaIndexEntry where
  listNumber : ℕ
  key : ℕ
  offset : ℕ
  entryBits : ℕ
  delta : ℕ
  atEnd : Bool
  isCollision : Bool
  deriving DecidableEq, Repr

variable {Name : Type}

/-- `emptyDeltaIndex`: every list empty, and the counts zeroed. -/
def emptyDeltaIndex (deltaIndex : DeltaIndex Name) : DeltaIndex Name :=
  { deltaIndex with
    deltaLists := fun _ => DeltaList.empty
    recordCount := 0
    collisionCount := 0 }

/-- Replace list `listNumber` of the index. -/
def DeltaIndex.setList (deltaIndex : DeltaIndex Name) (listNumber : ℕ) (deltaList : DeltaList Name) :
    DeltaIndex Name :=
  { deltaIndex with deltaLists := Function.update deltaIndex.deltaLists listNumber deltaList }

/-! ## Searching -/

/-- `startDeltaIndexSearch`: a cursor before the first entry, or before the
saved search point when the key lies past it. -/
def startDeltaIndexSearch (deltaIndex : DeltaIndex Name) (listNumber key : ℕ) :
    Except UdsError DeltaIndexEntry :=
  if listNumber < deltaIndex.numLists then
    let deltaList := deltaIndex.deltaLists listNumber
    if key > deltaList.saveKey then
      .ok ⟨listNumber, deltaList.saveKey, deltaList.saveOffset, 0, 0, false, false⟩
    else .ok ⟨listNumber, 0, 0, 0, 0, false, false⟩
  else .error .corruptData

/-- `nextDeltaIndexEntry`: step past the current entry and decode the next;
a delta of zero not at the start of the list is a collision entry. -/
def nextDeltaIndexEntry (deltaList : DeltaList Name) (deltaEntry : DeltaIndexEntry) :
    Except UdsError DeltaIndexEntry :=
  if deltaEntry.atEnd then .error .badState
  else
    let offset := deltaEntry.offset + deltaEntry.entryBits
    match deltaList.entries[offset]? with
    | none =>
      if offset = deltaList.entries.length then
        .ok { deltaEntry with offset := offset, atEnd := true, delta := 0, isCollision := false }
      else .error .corruptData
    | some entry =>
      .ok { deltaEntry with
        offset := offset
        key := deltaEntry.key + entry.delta
        delta := entry.delta
        isCollision := entry.delta == 0 && 0 < offset
        entryBits := 1 }

/-- The `do … while (!atEnd && key > deltaEntry->key)` loop of
`getDeltaIndexEntry`, for at most `fuel` entries. -/
def findDeltaKey (deltaList : DeltaList Name) (key : ℕ) :
    ℕ → DeltaIndexEntry → Except UdsError DeltaIndexEntry
  | 0, deltaEntry => .ok deltaEntry
  | fuel + 1, deltaEntry => do
    let next ← nextDeltaIndexEntry deltaList deltaEntry
    if !next.atEnd && key > next.key then findDeltaKey deltaList key fuel next else .ok next

theorem findDeltaKey_succ (deltaList : DeltaList Name) (key fuel : ℕ) (deltaEntry : DeltaIndexEntry) :
    findDeltaKey deltaList key (fuel + 1) deltaEntry =
      (nextDeltaIndexEntry deltaList deltaEntry >>= fun next =>
        if !next.atEnd && key > next.key then findDeltaKey deltaList key fuel next else .ok next) := rfl

/-- `rememberDeltaIndexOffset`: save the entry as the list's search point. -/
def rememberDeltaIndexOffset (deltaList : DeltaList Name) (deltaEntry : DeltaIndexEntry) :
    Except UdsError (DeltaList Name) :=
  if deltaEntry.isCollision then .error .assertionFailed
  else .ok { deltaList with saveKey := deltaEntry.key - deltaEntry.delta, saveOffset := deltaEntry.offset }

/-- The collision loop of `getDeltaIndexEntry`: walk the collision entries
after `found` for one that stores `name`, for at most `fuel` entries. -/
def findDeltaCollision [DecidableEq Name] (deltaList : DeltaList Name) (name : Name) (found : DeltaIndexEntry) :
    ℕ → DeltaIndexEntry → Except UdsError DeltaIndexEntry
  | 0, _ => .ok found
  | fuel + 1, collisionEntry => do
    let next ← nextDeltaIndexEntry deltaList collisionEntry
    if next.atEnd || !next.isCollision then .ok found
    else if (deltaList.entries[next.offset]?).bind DeltaEntry.collisionName = some name then .ok next
    else findDeltaCollision deltaList name found fuel next

theorem findDeltaCollision_succ [DecidableEq Name] (deltaList : DeltaList Name) (name : Name)
    (found : DeltaIndexEntry) (fuel : ℕ) (collisionEntry : DeltaIndexEntry) :
    findDeltaCollision deltaList name found (fuel + 1) collisionEntry =
      (nextDeltaIndexEntry deltaList collisionEntry >>= fun next =>
        if next.atEnd || !next.isCollision then .ok found
        else if (deltaList.entries[next.offset]?).bind DeltaEntry.collisionName = some name then .ok next
        else findDeltaCollision deltaList name found fuel next) := rfl

/-- `getDeltaIndexEntry`: the first entry whose key is at least `key`, saved as
the search point, or the collision entry after it that stores `name`. -/
def getDeltaIndexEntry [DecidableEq Name] (deltaIndex : DeltaIndex Name) (listNumber key : ℕ) (name : Name) :
    Except UdsError (DeltaIndex Name × DeltaIndexEntry) := do
  let start ← startDeltaIndexSearch deltaIndex listNumber key
  let deltaList := deltaIndex.deltaLists listNumber
  let deltaEntry ← findDeltaKey deltaList key (deltaList.entries.length + 1) start
  let saved ← rememberDeltaIndexOffset deltaList deltaEntry
  let deltaIndex := deltaIndex.setList listNumber saved
  if !deltaEntry.atEnd && key == deltaEntry.key then
    let found ← findDeltaCollision saved name deltaEntry (deltaList.entries.length + 1) deltaEntry
    .ok (deltaIndex, found)
  else .ok (deltaIndex, deltaEntry)

/-- `getDeltaEntryValue`. -/
def getDeltaEntryValue (deltaIndex : DeltaIndex Name) (deltaEntry : DeltaIndexEntry) : ℕ :=
  match (deltaIndex.deltaLists deltaEntry.listNumber).entries[deltaEntry.offset]? with
  | some entry => entry.value
  | none => 0

/-! ## Adding an entry -/

/-- The entries with `inserted` placed at `offset`. -/
def insertEntry (entries : List (DeltaEntry Name)) (offset : ℕ) (inserted : DeltaEntry Name) :
    List (DeltaEntry Name) :=
  entries.take offset ++ inserted :: entries.drop offset

/-- `putDeltaIndexEntry` at the entry a search for `key` found: a collision
entry after it when `name` is given, else a new entry before it (or at the end)
whose key splits its delta. The value is stored in `valueBits` bits. `room`
says whether `insertBits` finds the bits the new entry needs; the saved search
point has moved to the insertion point by then. -/
def putDeltaIndexEntry (deltaIndex : DeltaIndex Name) (deltaEntry : DeltaIndexEntry) (key value : ℕ)
    (name : Option Name) (room : Bool) : DeltaIndex Name × Except UdsError Unit :=
  if deltaEntry.isCollision then (deltaIndex, .error .duplicateName)
  else
    let deltaList := deltaIndex.deltaLists deltaEntry.listNumber
    let deltaList :=
      if deltaEntry.offset < deltaList.saveOffset then
        { deltaList with saveKey := deltaEntry.key - deltaEntry.delta, saveOffset := deltaEntry.offset }
      else deltaList
    let deltaIndex := deltaIndex.setList deltaEntry.listNumber deltaList
    let stored := value % 2 ^ deltaIndex.valueBits
    let inserted (entries : List (DeltaEntry Name)) (collision : Bool) : DeltaIndex Name × Except UdsError Unit :=
      ({ deltaIndex.setList deltaEntry.listNumber { deltaList with entries := entries } with
        recordCount := deltaIndex.recordCount + 1
        collisionCount := deltaIndex.collisionCount + if collision then 1 else 0 }, .ok ())
    match name with
    | some name =>
      if deltaEntry.atEnd then (deltaIndex, .error .badState)
      else if key ≠ deltaEntry.key then (deltaIndex, .error .assertionFailed)
      else if !room then (deltaIndex, .error .overflow)
      else inserted (insertEntry deltaList.entries (deltaEntry.offset + 1) ⟨0, stored, some name⟩) true
    | none =>
      if deltaEntry.atEnd then
        if key < deltaEntry.key then (deltaIndex, .error .assertionFailed)
        else if !room then (deltaIndex, .error .overflow)
        else inserted (insertEntry deltaList.entries deltaEntry.offset ⟨key - deltaEntry.key, stored, none⟩) false
      else if ¬ key < deltaEntry.key then (deltaIndex, .error .assertionFailed)
      else if ¬ deltaEntry.key - deltaEntry.delta ≤ key then (deltaIndex, .error .assertionFailed)
      else if !room then (deltaIndex, .error .overflow)
      else
        let next : DeltaEntry Name :=
          ⟨deltaEntry.key - key, getDeltaEntryValue deltaIndex deltaEntry, none⟩
        inserted (deltaList.entries.take deltaEntry.offset ++
            ⟨key - (deltaEntry.key - deltaEntry.delta), stored, none⟩ :: next ::
              deltaList.entries.drop (deltaEntry.offset + 1)) false

end Vdo.Uds
