import Vdo.Uds.OpenChapterZoneRun
import Vdo.Uds.DeltaIndexRestore

/-!
# Saving and loading the open chapter

`saveOpenChapters` (`openChapter.c`) writes the open chapter of every zone to
one stream: a magic number, a version, the number of records not deleted, and
those records, by record number and in zone order within a record number. The
loop over record numbers stops once it has written that many; it relies on
each zone's `deleted` count matching its deleted flags. `loadOpenChapters`
reads the stream back into reset zones, putting each record into the zone its
name routes to, and stops filling a zone once a put leaves it room for at most
one more record.

A stream is the bytes before the records and the records, each one
`UdsChunkRecord` written and read whole; writes are taken to succeed. A probe
of a zone that does not stop makes a load `none`, as does a save loop that
runs for ever.

`saveOpenChapters_spec` says what a save writes, and
`loadOpenChapters_saveOpenChapters` that a load of it gives back zones that
answer every search as the saved ones did.
-/

namespace Vdo.Uds

open OpenChapterZone

/-- `OPEN_CHAPTER_MAGIC`, the bytes of `"ALBOC"`. -/
def openChapterMagic : List ℕ := [65, 76, 66, 79, 67]

/-- `OPEN_CHAPTER_VERSION`, the bytes of `"02.00"`. -/
def openChapterVersion : List ℕ := [48, 50, 46, 48, 48]

/-- A saved open chapter stream: the bytes before the records, and the
records. -/
structure OpenChapterStream (Name Data : Type*) where
  header : List ℕ
  records : List (Name × Data)

section Save

variable {Name Data : Type*}

/-- Record `recordIndex` of a zone, unless the zone has fewer records or it
was deleted. -/
def savedRecord (openChapter : OpenChapterZone Name Data) (recordIndex : ℕ) : Option (Name × Data) :=
  if openChapter.size < recordIndex then none
  else if (openChapter.slots recordIndex).recordDeleted then none
  else some (openChapter.records recordIndex)

/-- One pass of the save loop: record `recordIndex` of each zone, in zone
order. -/
def saveRound (zones : ℕ → OpenChapterZone Name Data) (zoneCount recordIndex : ℕ) : List (Name × Data) :=
  (List.range zoneCount).filterMap fun i => savedRecord (zones i) recordIndex

/-- The save loop from record number `recordIndex` with `recordsAdded`
records written, for at most `rounds` more passes; `none` when the passes run
out before `totalRecords` records are written. -/
def saveRounds (zones : ℕ → OpenChapterZone Name Data) (zoneCount totalRecords : ℕ) :
    ℕ → ℕ → ℕ → Option (List (Name × Data))
  | recordsAdded, _, 0 => if recordsAdded < totalRecords then none else some []
  | recordsAdded, recordIndex, rounds + 1 =>
    if recordsAdded < totalRecords then
      let round := saveRound zones zoneCount recordIndex
      (saveRounds zones zoneCount totalRecords (recordsAdded + round.length) (recordIndex + 1) rounds).map
        (round ++ ·)
    else some []

/-- `saveOpenChapters`: the magic number, the version, the number of records
not deleted as a little-endian `uint32_t` (`storeUInt32LE`), and the records.
Past the largest zone size no pass of the loop writes a record, so a loop not
done by then runs for ever: the model gives it that many passes and answers
`none` when they do not suffice. -/
def saveOpenChapters (zones : ℕ → OpenChapterZone Name Data) (zoneCount : ℕ) :
    Option (OpenChapterStream Name Data) :=
  let totalRecords := (∑ i ∈ Finset.range zoneCount, openChapterSize (zones i)) % 2 ^ 32
  let maxSize := (Finset.range zoneCount).sup fun i => (zones i).size
  (saveRounds zones zoneCount totalRecords 0 1 maxSize).map fun records =>
    ⟨openChapterMagic ++ openChapterVersion ++ (List.range 4).map (storeLE (fun _ => 0) 0 4 totalRecords),
      records⟩

end Save

/-! ## What a save writes -/

section SaveSpec

variable {Name Data : Type*} {zones : ℕ → OpenChapterZone Name Data} {zoneCount : ℕ}

instance (openChapter : OpenChapterZone Name Data) : DecidablePred openChapter.Live := fun r =>
  inferInstanceAs (Decidable (1 ≤ r ∧ r ≤ openChapter.size ∧ (openChapter.slots r).recordDeleted = false))

/-- A record number from 1 on is saved exactly when its record is live. -/
theorem savedRecord_eq (openChapter : OpenChapterZone Name Data) {recordIndex : ℕ} (hpos : 1 ≤ recordIndex) :
    savedRecord openChapter recordIndex =
      if openChapter.Live recordIndex then some (openChapter.records recordIndex) else none := by
  unfold savedRecord
  by_cases hsize : openChapter.size < recordIndex
  · rw [if_pos hsize, if_neg fun hlive : openChapter.Live recordIndex => by have := hlive.2.1; omega]
  · by_cases hdeleted : (openChapter.slots recordIndex).recordDeleted = true
    · rw [if_neg hsize, if_pos hdeleted,
        if_neg fun hlive : openChapter.Live recordIndex => by rw [hlive.2.2] at hdeleted; cases hdeleted]
    · rw [if_neg hsize, if_neg hdeleted,
        if_pos (show openChapter.Live recordIndex from ⟨hpos, by omega, by simpa using hdeleted⟩)]

/-- The save loop, from record number `recordIndex`, writes the passes it
makes when their records make up the count left. -/
theorem saveRounds_eq (totalRecords : ℕ) (rounds : ℕ) :
    ∀ recordsAdded recordIndex,
      recordsAdded + ((List.range rounds).flatMap fun j => saveRound zones zoneCount (recordIndex + j)).length =
        totalRecords →
      saveRounds zones zoneCount totalRecords recordsAdded recordIndex rounds =
        some ((List.range rounds).flatMap fun j => saveRound zones zoneCount (recordIndex + j)) := by
  induction rounds with
  | zero =>
    intro recordsAdded recordIndex htotal
    simp only [List.range_zero, List.flatMap_nil, List.length_nil, Nat.add_zero] at htotal ⊢
    rw [saveRounds, if_neg (by omega)]
  | succ rounds ih =>
    intro recordsAdded recordIndex htotal
    have hsplit : ((List.range (rounds + 1)).flatMap fun j => saveRound zones zoneCount (recordIndex + j)) =
        saveRound zones zoneCount recordIndex ++
          (List.range rounds).flatMap fun j => saveRound zones zoneCount (recordIndex + 1 + j) := by
      rw [List.range_succ_eq_map, List.flatMap_cons, List.flatMap_map, Nat.add_zero]
      congr 1
      refine List.flatMap_congr fun j _ => ?_
      congr 1
      simp only [Nat.succ_eq_add_one]
      omega
    rw [hsplit, List.length_append] at htotal
    rw [hsplit, saveRounds]
    by_cases hmore : recordsAdded < totalRecords
    · rw [if_pos hmore]
      dsimp only
      rw [ih _ _ (by omega)]
      rfl
    · rw [if_neg hmore]
      have hempty : saveRound zones zoneCount recordIndex = [] ∧
          ((List.range rounds).flatMap fun j => saveRound zones zoneCount (recordIndex + 1 + j)) = [] := by
        rw [← List.length_eq_zero_iff, ← List.length_eq_zero_iff]
        omega
      rw [hempty.1, hempty.2]
      rfl

/-- A `filterMap` over `0 .. n - 1` keeps one element for each index that
maps to one. -/
theorem length_filterMap_range {α : Type*} (f : ℕ → Option α) (n : ℕ) :
    ((List.range n).filterMap f).length = ∑ i ∈ Finset.range n, if (f i).isSome then 1 else 0 := by
  induction n with
  | zero => rfl
  | succ n ih =>
    rw [List.range_succ, List.filterMap_append, List.length_append, ih, Finset.sum_range_succ,
      List.filterMap_cons, List.filterMap_nil]
    cases f n <;> rfl

/-- A pass writes one record for each zone that has its record number live. -/
theorem length_saveRound (zoneCount recordIndex : ℕ) :
    (saveRound zones zoneCount recordIndex).length =
      ∑ z ∈ Finset.range zoneCount, if (savedRecord (zones z) recordIndex).isSome then 1 else 0 :=
  length_filterMap_range _ zoneCount

/-- The passes from record number 1 write the records of each pass. -/
theorem length_saveRounds (count : ℕ) :
    ((List.range count).flatMap fun j => saveRound zones zoneCount (1 + j)).length =
      ∑ j ∈ Finset.range count, (saveRound zones zoneCount (1 + j)).length := by
  induction count with
  | zero => rfl
  | succ count ih =>
    rw [List.range_succ, List.flatMap_append, List.length_append, ih, Finset.sum_range_succ,
      List.flatMap_singleton]

/-- A consistent zone has `openChapterSize` live record numbers among the
first `count`, for any `count` past its size: its `deleted` count is the
number of its deleted flags. -/
theorem sum_savedRecord_isSome {chapterIndexBytes : Name → ℕ} {openChapter : OpenChapterZone Name Data}
    (h : openChapter.Consistent chapterIndexBytes) {count : ℕ} (hcount : openChapter.size ≤ count) :
    (∑ j ∈ Finset.range count, if (savedRecord openChapter (1 + j)).isSome then 1 else 0) =
      openChapterSize openChapter := by
  rw [Finset.sum_boole, Nat.cast_id]
  have hlive : ((Finset.range count).filter fun j => (savedRecord openChapter (1 + j)).isSome = true).card =
      ((Finset.Icc 1 openChapter.size).filter fun i => ¬ (openChapter.slots i).recordDeleted = true).card := by
    refine Finset.card_nbij' (· + 1) (· - 1) (fun j hj => ?_) (fun i hi => ?_) (fun j _ => by simp)
      (fun i hi => ?_)
    · simp only [Finset.coe_filter, Finset.mem_range, Set.mem_ofPred_eq, Finset.mem_Icc] at hj ⊢
      rw [savedRecord_eq openChapter (by omega)] at hj
      split_ifs at hj with hl
      · exact ⟨⟨by omega, by rw [Nat.add_comm]; exact hl.2.1⟩, by rw [Nat.add_comm, hl.2.2]; simp⟩
      · cases hj.2
    · simp only [Finset.coe_filter, Finset.mem_range, Set.mem_ofPred_eq, Finset.mem_Icc] at hi ⊢
      have hback : 1 + (i - 1) = i := by omega
      rw [hback, savedRecord_eq openChapter (by omega), if_pos ⟨by omega, by omega, by simpa using hi.2⟩]
      exact ⟨by omega, rfl⟩
    · simp only [Finset.coe_filter, Finset.mem_Icc, Set.mem_ofPred_eq] at hi
      simp only
      omega
  have hsplit := @IndexCount.countWhere_add_countWhere_not Bool (Finset.Icc 1 openChapter.size) (· = true) _
    fun i => (openChapter.slots i).recordDeleted
  rw [h.deleted_eq, Nat.card_Icc, Nat.add_sub_cancel] at hsplit
  simp only [IndexCount.countWhere] at hsplit
  rw [hlive, openChapterSize]
  omega

/-- The passes over record numbers `1 .. count`, for `count` past every zone's
size, write the records not deleted of every zone. -/
theorem length_saveRounds_eq_sum {chapterIndexBytes : Name → ℕ}
    (hconsistent : ∀ z < zoneCount, (zones z).Consistent chapterIndexBytes) {count : ℕ}
    (hcount : ∀ z < zoneCount, (zones z).size ≤ count) :
    ((List.range count).flatMap fun j => saveRound zones zoneCount (1 + j)).length =
      ∑ z ∈ Finset.range zoneCount, openChapterSize (zones z) := by
  rw [length_saveRounds]
  simp only [length_saveRound]
  rw [Finset.sum_comm]
  refine Finset.sum_congr rfl fun z hz => ?_
  rw [Finset.mem_range] at hz
  exact sum_savedRecord_isSome (hconsistent z hz) (hcount z hz)

/-- A pass past every zone's size writes nothing. -/
theorem saveRound_eq_nil {recordIndex : ℕ} (hpast : ∀ z < zoneCount, (zones z).size < recordIndex) :
    saveRound zones zoneCount recordIndex = [] := by
  rw [saveRound, List.filterMap_eq_nil_iff]
  intro z hz
  rw [savedRecord, if_pos (hpast z (List.mem_range.mp hz))]

/-- More passes past every zone's size write nothing more. -/
theorem saveRounds_of_le {maxSize count : ℕ} (hmax : ∀ z < zoneCount, (zones z).size ≤ maxSize)
    (hcount : maxSize ≤ count) :
    ((List.range count).flatMap fun j => saveRound zones zoneCount (1 + j)) =
      (List.range maxSize).flatMap fun j => saveRound zones zoneCount (1 + j) := by
  obtain ⟨extra, rfl⟩ := Nat.exists_eq_add_of_le hcount
  rw [List.range_add, List.flatMap_append, List.flatMap_map]
  have hnil : ((List.range extra).flatMap fun j => saveRound zones zoneCount (1 + (maxSize + j))) = [] := by
    rw [List.flatMap_eq_nil_iff]
    intro j _
    exact saveRound_eq_nil fun z hz => by have := hmax z hz; omega
  rw [hnil, List.append_nil]

/-- The records not deleted of at most `MAX_ZONES` consistent zones fit in
the `uint32_t` count. -/
theorem sum_openChapterSize_lt {chapterIndexBytes : Name → ℕ}
    (hconsistent : ∀ z < zoneCount, (zones z).Consistent chapterIndexBytes) (hzones : zoneCount ≤ maxZones) :
    ∑ z ∈ Finset.range zoneCount, openChapterSize (zones z) < 2 ^ 32 := by
  have hbound : ∑ z ∈ Finset.range zoneCount, openChapterSize (zones z) ≤
      ∑ _z ∈ Finset.range zoneCount, openChapterMaxRecordNumber := by
    refine Finset.sum_le_sum fun z hz => ?_
    have hz := Finset.mem_range.mp hz
    have hsize := (hconsistent z hz).size_le
    have hcap := (hconsistent z hz).capacity_le_max
    rw [openChapterSize]
    omega
  rw [Finset.sum_const, Finset.card_range, smul_eq_mul] at hbound
  have hmax : zoneCount * openChapterMaxRecordNumber ≤ 16 * (2 ^ 23 - 1) :=
    Nat.mul_le_mul (by simpa [maxZones] using hzones) (by simp [openChapterMaxRecordNumber, openChapterRecordNumberBits])
  omega

/-- `saveOpenChapters` of at most `MAX_ZONES` consistent zones terminates. It
writes the magic number, the version and the count of records not deleted,
and then that many records: for each record number, its record in each zone
that has it live, in zone order. -/
theorem saveOpenChapters_spec {chapterIndexBytes : Name → ℕ}
    (hconsistent : ∀ z < zoneCount, (zones z).Consistent chapterIndexBytes) (hzones : zoneCount ≤ maxZones) :
    ∃ stream, saveOpenChapters zones zoneCount = some stream ∧
      stream.header = openChapterMagic ++ openChapterVersion ++
        (List.range 4).map (storeLE (fun _ => 0) 0 4 (∑ z ∈ Finset.range zoneCount, openChapterSize (zones z))) ∧
      stream.records.length = ∑ z ∈ Finset.range zoneCount, openChapterSize (zones z) ∧
      ∀ count, (∀ z < zoneCount, (zones z).size ≤ count) →
        stream.records = (List.range count).flatMap fun j => saveRound zones zoneCount (1 + j) := by
  have hlt := sum_openChapterSize_lt hconsistent hzones
  have hmax : ∀ z < zoneCount, (zones z).size ≤ (Finset.range zoneCount).sup fun i => (zones i).size :=
    fun z hz => Finset.le_sup (f := fun i => (zones i).size) (Finset.mem_range.mpr hz)
  have hrounds := saveRounds_eq ((∑ z ∈ Finset.range zoneCount, openChapterSize (zones z)) % 2 ^ 32)
    ((Finset.range zoneCount).sup fun i => (zones i).size) 0 1
    (by rw [length_saveRounds_eq_sum hconsistent hmax, Nat.mod_eq_of_lt hlt, Nat.zero_add])
  refine ⟨_, by rw [saveOpenChapters, hrounds]; rfl, ?_, ?_, fun count hcount => ?_⟩
  · rw [Nat.mod_eq_of_lt hlt]
  · exact length_saveRounds_eq_sum hconsistent hmax
  · exact (saveRounds_of_le hmax (Finset.sup_le fun z hz => hcount z (Finset.mem_range.mp hz))).symm

/-- The records of one zone that the passes over record numbers
`1 .. count` write, in record number order. -/
def liveRecords (openChapter : OpenChapterZone Name Data) (count : ℕ) : List (Name × Data) :=
  (List.range count).filterMap fun j => savedRecord openChapter (1 + j)

/-- A record saved from a record number from 1 on is the record of a live
number. -/
theorem live_of_savedRecord {openChapter : OpenChapterZone Name Data} {recordIndex : ℕ} {record : Name × Data}
    (hpos : 1 ≤ recordIndex) (hsaved : savedRecord openChapter recordIndex = some record) :
    openChapter.Live recordIndex ∧ openChapter.records recordIndex = record := by
  rw [savedRecord_eq openChapter hpos] at hsaved
  split_ifs at hsaved with hlive
  exact ⟨hlive, Option.some.inj hsaved⟩

/-- Past its size, a zone's saved records are its live ones. -/
theorem mem_liveRecords {openChapter : OpenChapterZone Name Data} {count : ℕ} (hcount : openChapter.size ≤ count)
    {record : Name × Data} :
    record ∈ liveRecords openChapter count ↔ ∃ r, openChapter.Live r ∧ openChapter.records r = record := by
  rw [liveRecords, List.mem_filterMap]
  constructor
  · rintro ⟨j, -, hsaved⟩
    exact ⟨1 + j, live_of_savedRecord (by omega) hsaved⟩
  · rintro ⟨r, hlive, rfl⟩
    have hback : 1 + (r - 1) = r := by have := hlive.1; omega
    refine ⟨r - 1, List.mem_range.mpr (by have := hlive.2.1; omega), ?_⟩
    rw [hback, savedRecord_eq openChapter hlive.1, if_pos hlive]

/-- A consistent zone saves each name at most once. -/
theorem nodup_liveRecords {chapterIndexBytes : Name → ℕ} {openChapter : OpenChapterZone Name Data}
    (h : openChapter.Consistent chapterIndexBytes) (count : ℕ) :
    ((liveRecords openChapter count).map Prod.fst).Nodup := by
  rw [liveRecords, List.map_filterMap]
  refine List.nodup_range.filterMap fun j j' name hj hj' => ?_
  obtain ⟨record, hrecord, rfl⟩ := Option.mem_map.mp hj
  obtain ⟨record', hrecord', hname⟩ := Option.mem_map.mp hj'
  obtain ⟨hlive, hget⟩ := live_of_savedRecord (by omega) hrecord
  obtain ⟨hlive', hget'⟩ := live_of_savedRecord (by omega) hrecord'
  have := h.unique _ _ hlive hlive' (by rw [hget, hget', hname])
  omega

/-- A consistent zone saves `openChapterSize` records. -/
theorem length_liveRecords {chapterIndexBytes : Name → ℕ} {openChapter : OpenChapterZone Name Data}
    (h : openChapter.Consistent chapterIndexBytes) {count : ℕ} (hcount : openChapter.size ≤ count) :
    (liveRecords openChapter count).length = openChapterSize openChapter := by
  rw [liveRecords, length_filterMap_range]
  exact sum_savedRecord_isSome h hcount

end SaveSpec

section Load

variable {Name Data : Type*} (chapterIndexBytes : Name → ℕ) (routeZone : Name → ℕ)

/-- The zone `loadVersion20` puts a record into: the one `getMasterIndexZone`
routes its name to, or zone 0 when there is one zone. -/
def recordZone (zoneCount : ℕ) (name : Name) : ℕ :=
  if 1 < zoneCount then routeZone name else 0

variable [DecidableEq Name]

/-- The records loop of `loadVersion20`: `numRecords` records, each put into
the zone `getMasterIndexZone` routes its name to (zone 0 when there is one
zone) unless that zone is full; a put that leaves a zone at most one record of
room makes it full. It gives the zones, with the error that stopped it. -/
def loadRecords (zoneCount : ℕ) :
    (ℕ → OpenChapterZone Name Data) → (ℕ → Bool) → List (Name × Data) → ℕ →
      Option ((ℕ → OpenChapterZone Name Data) × Except UdsError Unit)
  | zones, _, _, 0 => some (zones, .ok ())
  | zones, _, [], _ + 1 => some (zones, .error .endOfFile)
  | zones, fullFlags, (name, data) :: records, numRecords + 1 =>
    let zone := recordZone routeZone zoneCount name
    if fullFlags zone then loadRecords zoneCount zones fullFlags records numRecords
    else
      match putOpenChapter chapterIndexBytes (zones zone) name data with
      | none => none
      | some (openChapter, .error e) => some (Function.update zones zone openChapter, .error e)
      | some (openChapter, .ok remaining) =>
        loadRecords zoneCount (Function.update zones zone openChapter)
          (Function.update fullFlags zone (decide (remaining ≤ 1))) records numRecords

/-- `loadOpenChapters`: check the magic number (`verifyBufferedData`, whose
`UDS_CORRUPT_FILE` is `UDS_CORRUPT_COMPONENT`) and the version, read the
record count, and load the records. -/
def loadOpenChapters (zoneCount : ℕ) (zones : ℕ → OpenChapterZone Name Data)
    (stream : OpenChapterStream Name Data) :
    Option ((ℕ → OpenChapterZone Name Data) × Except UdsError Unit) :=
  if stream.header.take openChapterMagic.length ≠ openChapterMagic then some (zones, .error .corruptComponent)
  else
    match readFromBufferedReader (stream.header.drop openChapterMagic.length) openChapterVersion.length with
    | .error e => some (zones, .error e)
    | .ok (version, rest) =>
      if version ≠ openChapterVersion then some (zones, .error .corruptComponent)
      else
        match readFromBufferedReader rest 4 with
        | .error e => some (zones, .error e)
        | .ok (numRecordsData, _) =>
          loadRecords chapterIndexBytes routeZone zoneCount zones (fun _ => false) stream.records
            (wordLE (bufferByte numRecordsData) 0 4)

end Load

/-! ## What a load reads back -/

section LoadSpec

variable {Name Data : Type*}

variable (chapterIndexBytes : Name → ℕ) in
/-- A zone whose live records are exactly the records read into it, none of
them deleted. -/
structure LoadedZone (zone : OpenChapterZone Name Data) (records : List (Name × Data)) : Prop where
  consistent : zone.Consistent chapterIndexBytes
  deleted_eq : zone.deleted = 0
  size_eq : zone.size = records.length
  live_iff : ∀ record, (∃ r, zone.Live r ∧ zone.records r = record) ↔ record ∈ records

variable {chapterIndexBytes : Name → ℕ}

/-- A consistent zone stands for the metadata of the live record of each
name. -/
theorem exists_invariant {zone : OpenChapterZone Name Data} (h : zone.Consistent chapterIndexBytes) :
    ∃ contents, TrackedOpenChapter.Invariant chapterIndexBytes ⟨zone, contents⟩ := by
  classical
  refine ⟨fun name => if hname : ∃ r, zone.Live r ∧ (zone.records r).1 = name then
    some (zone.records hname.choose).2 else none, h, fun name data => ?_⟩
  dsimp only
  constructor
  · intro hdata
    split_ifs at hdata with hname
    cases hdata
    exact ⟨hname.choose, hname.choose_spec.1, Prod.ext hname.choose_spec.2 rfl⟩
  · rintro ⟨r, hlive, hrecord⟩
    have hname : ∃ r, zone.Live r ∧ (zone.records r).1 = name := ⟨r, hlive, by rw [hrecord]⟩
    have hchoose : hname.choose = r :=
      h.unique _ r hname.choose_spec.1 hlive (by rw [hname.choose_spec.2, hrecord])
    rw [dif_pos hname, hchoose, hrecord]

/-- A reset zone has read nothing. -/
theorem LoadedZone.reset [Inhabited Name] [Inhabited Data] {zone : OpenChapterZone Name Data}
    (h : zone.Consistent chapterIndexBytes) : LoadedZone chapterIndexBytes (resetOpenChapter zone) [] := by
  refine ⟨h.resetOpenChapter, resetOpenChapter_deleted zone, resetOpenChapter_size zone, fun record => ?_⟩
  constructor
  · rintro ⟨r, hlive, -⟩
    have := hlive.1
    have := hlive.2.1
    rw [resetOpenChapter_size] at this
    omega
  · intro hmem
    cases hmem

variable (routeZone : Name → ℕ) (zoneCount : ℕ)

/-- The records of a stream that `loadVersion20` routes to zone `z`, in
order. -/
def zoneRecords (z : ℕ) (records : List (Name × Data)) : List (Name × Data) :=
  records.filter fun record => recordZone routeZone zoneCount record.1 = z

theorem zoneRecords_append (z : ℕ) (records records' : List (Name × Data)) :
    zoneRecords routeZone zoneCount z (records ++ records') =
      zoneRecords routeZone zoneCount z records ++ zoneRecords routeZone zoneCount z records' :=
  List.filter_append ..

/-- The records routed to a zone, after one more record. -/
theorem zoneRecords_append_singleton (z : ℕ) (records : List (Name × Data)) (record : Name × Data) :
    zoneRecords routeZone zoneCount z (records ++ [record]) =
      if recordZone routeZone zoneCount record.1 = z then zoneRecords routeZone zoneCount z records ++ [record]
      else zoneRecords routeZone zoneCount z records := by
  rw [zoneRecords_append]
  split_ifs with hzone
  · simp [zoneRecords, hzone]
  · simp [zoneRecords, hzone]

variable (chapterIndexBytes) in
/-- The zones and full flags after the records `done` of the stream `records`
are read: each zone below `zoneCount` holds, of the records read, those routed
to it, keeps its capacity, and is full only once it holds every record of the
stream routed to it. -/
structure LoadProgress (capacity : ℕ → ℕ) (records done : List (Name × Data))
    (zones : ℕ → OpenChapterZone Name Data) (fullFlags : ℕ → Bool) : Prop where
  loaded : ∀ z < zoneCount, LoadedZone chapterIndexBytes (zones z) (zoneRecords routeZone zoneCount z done)
  capacity_eq : ∀ z < zoneCount, (zones z).capacity = capacity z
  full : ∀ z < zoneCount, fullFlags z = true →
    (zoneRecords routeZone zoneCount z done).length = (zoneRecords routeZone zoneCount z records).length

variable {routeZone zoneCount}

/-- Reset zones have read nothing, and none is full. -/
theorem LoadProgress.start [Inhabited Name] [Inhabited Data] {zones : ℕ → OpenChapterZone Name Data}
    (records : List (Name × Data)) (hconsistent : ∀ z < zoneCount, (zones z).Consistent chapterIndexBytes) :
    LoadProgress chapterIndexBytes routeZone zoneCount (fun z => (zones z).capacity) records []
      (fun z => resetOpenChapter (zones z)) fun _ => false :=
  ⟨fun z hz => LoadedZone.reset (hconsistent z hz), fun z _ => resetOpenChapter_capacity (zones z),
    fun _ _ hfull => absurd hfull Bool.false_ne_true⟩

variable [DecidableEq Name]

/-- Two consistent zones with the same live records answer every search
alike. -/
theorem searchOpenChapter_eq_of_live_iff {zone other : OpenChapterZone Name Data}
    (hzone : zone.Consistent chapterIndexBytes) (hother : other.Consistent chapterIndexBytes)
    (hlive : ∀ record, (∃ r, zone.Live r ∧ zone.records r = record) ↔
      ∃ r, other.Live r ∧ other.records r = record) (name : Name) :
    searchOpenChapter chapterIndexBytes zone name = searchOpenChapter chapterIndexBytes other name := by
  obtain ⟨contents, hinv⟩ := exists_invariant hzone
  have hinv' : TrackedOpenChapter.Invariant chapterIndexBytes ⟨other, contents⟩ :=
    ⟨hother, fun name data => (hinv.contents_eq name data).trans (hlive (name, data))⟩
  exact (hinv.searchOpenChapter_eq name).trans (hinv'.searchOpenChapter_eq name).symm

/-- A put of a record whose name the zone has not read, into a zone with room
for it, adds it. -/
theorem LoadedZone.put {zone : OpenChapterZone Name Data} {records : List (Name × Data)}
    (h : LoadedZone chapterIndexBytes zone records) {name : Name} (data : Data)
    (hfresh : name ∉ records.map Prod.fst) (hroom : records.length < zone.capacity) :
    ∃ zone', putOpenChapter chapterIndexBytes zone name data =
        some (zone', .ok (zone.capacity - (records.length + 1))) ∧
      LoadedZone chapterIndexBytes zone' (records ++ [(name, data)]) ∧ zone'.capacity = zone.capacity := by
  obtain ⟨contents, hinv⟩ := exists_invariant h.consistent
  have habsent : contents name = none :=
    (hinv.contents_eq_none name).mpr fun r hlive hname =>
      hfresh (List.mem_map.mpr ⟨_, (h.live_iff _).mp ⟨r, hlive, rfl⟩, hname⟩)
  obtain ⟨j, hfirst, hfree, hput⟩ := hinv.putOpenChapter_of_absent habsent data
  have hadded := hinv.addRecord hfirst hfree (by dsimp only; have := h.size_eq; omega) habsent data
  dsimp only at hput
  rw [if_neg (by rw [h.size_eq]; omega), h.size_eq] at hput
  refine ⟨_, hput, ⟨hadded.consistent, ?_, ?_, fun record => ?_⟩, addRecord_capacity ..⟩
  · rw [addRecord_deleted, h.deleted_eq]
  · rw [addRecord_size, h.size_eq, List.length_append, List.length_singleton]
  · obtain ⟨other, otherData⟩ := record
    have hold := hinv.contents_eq other otherData
    have hnew := hadded.contents_eq other otherData
    dsimp only at hold hnew
    rw [← hnew, List.mem_append, List.mem_singleton, ← h.live_iff, ← hold]
    by_cases hother : other = name
    · subst hother
      simp [habsent, eq_comm]
    · simp [hother]

section Stream

variable {capacity : ℕ → ℕ} {records : List (Name × Data)}
  (hroute : ∀ record ∈ records, recordZone routeZone zoneCount record.1 < zoneCount)
  (hnodup : ∀ z < zoneCount, ((zoneRecords routeZone zoneCount z records).map Prod.fst).Nodup)
  (hroom : ∀ z < zoneCount, (zoneRecords routeZone zoneCount z records).length < capacity z)
include hroute hnodup hroom

/-- One record of the stream read: its zone is not full while the stream has
records for it, and has room for it, so the put adds it. -/
theorem LoadProgress.step {done rest : List (Name × Data)} {zones : ℕ → OpenChapterZone Name Data}
    {fullFlags : ℕ → Bool}
    (h : LoadProgress chapterIndexBytes routeZone zoneCount capacity records done zones fullFlags)
    {name : Name} {data : Data} (hsplit : done ++ (name, data) :: rest = records) (numRecords : ℕ) :
    ∃ zones' fullFlags', loadRecords chapterIndexBytes routeZone zoneCount zones fullFlags ((name, data) :: rest)
        (numRecords + 1) = loadRecords chapterIndexBytes routeZone zoneCount zones' fullFlags' rest numRecords ∧
      LoadProgress chapterIndexBytes routeZone zoneCount capacity records (done ++ [(name, data)]) zones'
        fullFlags' := by
  obtain ⟨zone, hzone_def⟩ : ∃ zone, recordZone routeZone zoneCount name = zone := ⟨_, rfl⟩
  have hzone : zone < zoneCount := by
    rw [← hzone_def]
    exact hroute (name, data) (by rw [← hsplit]; simp)
  have hrecords : zoneRecords routeZone zoneCount zone records =
      zoneRecords routeZone zoneCount zone done ++ (name, data) :: zoneRecords routeZone zoneCount zone rest := by
    rw [← hsplit, zoneRecords_append]
    simp [zoneRecords, hzone_def]
  have hlength := congrArg List.length hrecords
  rw [List.length_append, List.length_cons] at hlength
  have hflag : fullFlags zone = false := by
    by_contra hfull
    have := h.full zone hzone (by simpa using hfull)
    omega
  have hfresh : name ∉ (zoneRecords routeZone zoneCount zone done).map Prod.fst := by
    have hdistinct := hnodup zone hzone
    rw [hrecords, List.map_append, List.nodup_append] at hdistinct
    exact fun hmem => hdistinct.2.2 name hmem name List.mem_cons_self rfl
  have hcapacity := h.capacity_eq zone hzone
  have hbound := hroom zone hzone
  obtain ⟨zone', hput, hloaded, hcapacity'⟩ := (h.loaded zone hzone).put data hfresh (by omega)
  refine ⟨Function.update zones zone zone', Function.update fullFlags zone
    (decide ((zones zone).capacity - ((zoneRecords routeZone zoneCount zone done).length + 1) ≤ 1)), ?_,
    ⟨fun z hz => ?_, fun z hz => ?_, fun z hz hfull => ?_⟩⟩
  · rw [loadRecords.eq_3]
    rw [hzone_def, hflag, if_neg Bool.false_ne_true, hput]
  · rw [zoneRecords_append_singleton, hzone_def]
    by_cases hz' : z = zone
    · subst hz'
      rw [if_pos rfl, Function.update_self]
      exact hloaded
    · rw [if_neg (Ne.symm hz'), Function.update_of_ne hz']
      exact h.loaded z hz
  · by_cases hz' : z = zone
    · subst hz'
      rw [Function.update_self, hcapacity', hcapacity]
    · rw [Function.update_of_ne hz']
      exact h.capacity_eq z hz
  · rw [zoneRecords_append_singleton, hzone_def]
    by_cases hz' : z = zone
    · subst hz'
      rw [Function.update_self, decide_eq_true_iff] at hfull
      rw [if_pos rfl, List.length_append, List.length_singleton]
      omega
    · rw [Function.update_of_ne hz'] at hfull
      rw [if_neg (Ne.symm hz')]
      exact h.full z hz hfull

/-- The records loop, from any point of the stream and with the count of the
records left, reads them all. -/
theorem LoadProgress.run (rest : List (Name × Data)) :
    ∀ {done zones fullFlags}, done ++ rest = records →
      LoadProgress chapterIndexBytes routeZone zoneCount capacity records done zones fullFlags →
      ∃ zones' fullFlags', loadRecords chapterIndexBytes routeZone zoneCount zones fullFlags rest rest.length =
          some (zones', .ok ()) ∧
        LoadProgress chapterIndexBytes routeZone zoneCount capacity records records zones' fullFlags' := by
  induction rest with
  | nil =>
    intro done zones fullFlags hsplit h
    rw [List.append_nil] at hsplit
    subst hsplit
    exact ⟨zones, fullFlags, rfl, h⟩
  | cons record rest ih =>
    intro done zones fullFlags hsplit h
    obtain ⟨zones', fullFlags', hloop, h'⟩ := h.step hroute hnodup hroom hsplit rest.length
    rw [List.length_cons, hloop]
    exact ih (by rw [List.append_assoc]; exact hsplit) h'

end Stream

end LoadSpec

/-! ## The round trip -/

section RoundTrip

variable {Name Data : Type*} {routeZone : Name → ℕ} {zones : ℕ → OpenChapterZone Name Data} {zoneCount : ℕ}

/-- The count bytes of a save read back as the count. -/
theorem wordLE_countBytes {totalRecords : ℕ} (htotal : totalRecords < 2 ^ 32) :
    wordLE (bufferByte ((List.range 4).map (storeLE (fun _ => 0) 0 4 totalRecords))) 0 4 = totalRecords := by
  have hbytes : ∀ index, 0 ≤ index → index < 0 + 4 →
      bufferByte ((List.range 4).map (storeLE (fun _ => 0) 0 4 totalRecords)) index =
        storeLE (fun _ => 0) 0 4 totalRecords index := by
    intro index _ hlt
    simp [bufferByte, hlt]
  rw [wordLE_congr hbytes, wordLE_storeLE, Nat.mod_eq_of_lt (lt_of_lt_of_eq htotal (by norm_num))]

/-- A saved record of a zone whose live names are routed to it is routed to
it. -/
theorem recordZone_of_savedRecord
    (hrouted : ∀ z < zoneCount, ∀ r, (zones z).Live r → routeZone ((zones z).records r).1 = z)
    {z recordIndex : ℕ} {record : Name × Data} (hz : z < zoneCount) (hpos : 1 ≤ recordIndex)
    (hsaved : savedRecord (zones z) recordIndex = some record) :
    recordZone routeZone zoneCount record.1 = z := by
  obtain ⟨hlive, rfl⟩ := live_of_savedRecord hpos hsaved
  unfold recordZone
  split_ifs with hmany
  · exact hrouted z hz recordIndex hlive
  · omega

section Routed

variable (hrouted : ∀ z < zoneCount, ∀ r, (zones z).Live r → routeZone ((zones z).records r).1 = z)
include hrouted

/-- Of the records of one pass, only the zone's own is routed to it. -/
theorem zoneRecords_saveRound {z recordIndex : ℕ} (hz : z < zoneCount) (hpos : 1 ≤ recordIndex) :
    zoneRecords routeZone zoneCount z (saveRound zones zoneCount recordIndex) =
      (savedRecord (zones z) recordIndex).toList := by
  have hround : ∀ z' ∈ List.range zoneCount,
      (savedRecord (zones z') recordIndex).filter
          (fun record => decide (recordZone routeZone zoneCount record.1 = z)) =
        if decide (z' = z) = true then savedRecord (zones z') recordIndex else none := by
    intro z' hz'
    cases hsaved : savedRecord (zones z') recordIndex with
    | none => simp
    | some record =>
      rw [Option.filter_some, recordZone_of_savedRecord hrouted (List.mem_range.mp hz') hpos hsaved]
  rw [zoneRecords, saveRound, List.filter_filterMap, List.filterMap_congr hround, ← List.filterMap_filter,
    List.filter_eq, List.count_eq_one_of_mem List.nodup_range (List.mem_range.mpr hz), List.replicate_one,
    List.filterMap_cons, List.filterMap_nil]
  cases savedRecord (zones z) recordIndex <;> rfl

/-- The records of a save routed to a zone are that zone's live records. -/
theorem zoneRecords_saveRounds {z : ℕ} (hz : z < zoneCount) (count : ℕ) :
    zoneRecords routeZone zoneCount z ((List.range count).flatMap fun j => saveRound zones zoneCount (1 + j)) =
      liveRecords (zones z) count := by
  rw [zoneRecords, List.filter_flatMap, liveRecords, List.filterMap_eq_flatMap_toList]
  exact List.flatMap_congr fun j _ => zoneRecords_saveRound hrouted hz (by omega)

/-- Every record of a save is routed to one of the zones. -/
theorem recordZone_lt_of_mem_saveRounds {count : ℕ} {record : Name × Data}
    (hmem : record ∈ (List.range count).flatMap fun j => saveRound zones zoneCount (1 + j)) :
    recordZone routeZone zoneCount record.1 < zoneCount := by
  obtain ⟨j, -, hround⟩ := List.mem_flatMap.mp hmem
  obtain ⟨z, hz, hsaved⟩ := List.mem_filterMap.mp hround
  rw [recordZone_of_savedRecord hrouted (List.mem_range.mp hz) (by omega) hsaved]
  exact List.mem_range.mp hz

end Routed

variable [DecidableEq Name] (chapterIndexBytes : Name → ℕ)

/-- A load of a stream whose header a save wrote checks the magic number and
the version, reads the count, and loads that many records. -/
theorem loadOpenChapters_of_header (loaded : ℕ → OpenChapterZone Name Data)
    {stream : OpenChapterStream Name Data} {totalRecords : ℕ}
    (hheader : stream.header = openChapterMagic ++ openChapterVersion ++
      (List.range 4).map (storeLE (fun _ => 0) 0 4 totalRecords)) (htotal : totalRecords < 2 ^ 32) :
    loadOpenChapters chapterIndexBytes routeZone zoneCount loaded stream =
      loadRecords chapterIndexBytes routeZone zoneCount loaded (fun _ => false) stream.records totalRecords := by
  have hcount : readFromBufferedReader ((List.range 4).map (storeLE (fun _ => 0) 0 4 totalRecords)) 4 =
      .ok ((List.range 4).map (storeLE (fun _ => 0) 0 4 totalRecords), []) := by
    simpa using readFromBufferedReader_append ((List.range 4).map (storeLE (fun _ => 0) 0 4 totalRecords)) []
  rw [loadOpenChapters, hheader, List.append_assoc, List.take_left, if_neg (fun hne => hne rfl), List.drop_left,
    readFromBufferedReader_append]
  dsimp only
  rw [if_neg (fun hne => hne rfl), hcount]
  dsimp only
  rw [wordLE_countBytes htotal]

/-- Saving the open chapters of at most `MAX_ZONES` consistent zones, each
with room for one more record and holding only names `getMasterIndexZone`
routes to it, terminates; it writes the magic number, the version and the
count of records not deleted, and then those records, by record number and in
zone order within a record number. Loading the stream into the zones reset
succeeds and gives zones with no deleted record that answer every search as
the saved ones did. -/
theorem loadOpenChapters_saveOpenChapters [Inhabited Name] [Inhabited Data] (hzones : zoneCount ≤ maxZones)
    (hconsistent : ∀ z < zoneCount, (zones z).Consistent chapterIndexBytes)
    (hroom : ∀ z < zoneCount, (zones z).size < (zones z).capacity)
    (hrouted : ∀ z < zoneCount, ∀ r, (zones z).Live r → routeZone ((zones z).records r).1 = z) :
    ∃ stream, saveOpenChapters zones zoneCount = some stream ∧
      stream.header = openChapterMagic ++ openChapterVersion ++
        (List.range 4).map (storeLE (fun _ => 0) 0 4 (∑ z ∈ Finset.range zoneCount, openChapterSize (zones z))) ∧
      stream.records.length = ∑ z ∈ Finset.range zoneCount, openChapterSize (zones z) ∧
      (∀ count, (∀ z < zoneCount, (zones z).size ≤ count) →
        stream.records = (List.range count).flatMap fun j => saveRound zones zoneCount (1 + j)) ∧
      ∃ loaded, loadOpenChapters chapterIndexBytes routeZone zoneCount (fun z => resetOpenChapter (zones z))
          stream = some (loaded, .ok ()) ∧
        ∀ z < zoneCount, (loaded z).deleted = 0 ∧
          ∀ name, searchOpenChapter chapterIndexBytes (loaded z) name =
            searchOpenChapter chapterIndexBytes (zones z) name := by
  obtain ⟨stream, hsave, hheader, hlength, hrecords⟩ := saveOpenChapters_spec hconsistent hzones
  obtain ⟨count, hcount⟩ : ∃ count, ∀ z < zoneCount, (zones z).size ≤ count :=
    ⟨_, fun z hz => Finset.le_sup (f := fun z => (zones z).size) (Finset.mem_range.mpr hz)⟩
  have hstream := hrecords count hcount
  have hzoneRecords : ∀ z < zoneCount, zoneRecords routeZone zoneCount z stream.records =
      liveRecords (zones z) count := fun z hz => by
    rw [hstream]
    exact zoneRecords_saveRounds hrouted hz count
  obtain ⟨loaded, fullFlags, hloop, hprogress⟩ := LoadProgress.run
    (fun record hmem => recordZone_lt_of_mem_saveRounds hrouted (hstream ▸ hmem))
    (fun z hz => by
      rw [hzoneRecords z hz]
      exact nodup_liveRecords (hconsistent z hz) count)
    (fun z hz => by
      rw [hzoneRecords z hz, length_liveRecords (hconsistent z hz) (hcount z hz), openChapterSize]
      have := hroom z hz
      omega)
    stream.records (List.nil_append _) (LoadProgress.start stream.records hconsistent)
  refine ⟨stream, hsave, hheader, hlength, hrecords, loaded, ?_,
    fun z hz => ⟨(hprogress.loaded z hz).deleted_eq, ?_⟩⟩
  · rw [loadOpenChapters_of_header _ _ hheader (sum_openChapterSize_lt hconsistent hzones), ← hlength]
    exact hloop
  · exact searchOpenChapter_eq_of_live_iff (hprogress.loaded z hz).consistent (hconsistent z hz) fun record =>
      ((hprogress.loaded z hz).live_iff record).trans (by rw [hzoneRecords z hz]; exact mem_liveRecords (hcount z hz))

end RoundTrip

/-- Two zones of four records over tables of eight slots, each holding one
record put into it: name 4 in zone 0 and name 5 in zone 1, routed by parity. -/
def twoOpenChapters (z : ℕ) : OpenChapterZone ℕ ℕ :=
  if z = 0 then TrackedOpenChapter.freshOpenChapter.zone.addRecord 4 4 9
  else TrackedOpenChapter.freshOpenChapter.zone.addRecord 5 5 7

/-- A zone one put makes from the fresh zone is consistent. -/
theorem consistent_of_put_fresh {name metadata : ℕ} {zone : OpenChapterZone ℕ ℕ} {result : Except UdsError ℕ}
    (hput : putOpenChapter id TrackedOpenChapter.freshOpenChapter.zone name metadata = some (zone, result)) :
    zone.Consistent id :=
  ((TrackedOpenChapter.Invariant.of_start TrackedOpenChapter.freshOpenChapter_start).step
    (.put _ name metadata hput)).consistent

theorem twoOpenChapters_consistent : ∀ z < 2, (twoOpenChapters z).Consistent id := by
  intro z hz
  unfold twoOpenChapters
  split_ifs
  · exact @consistent_of_put_fresh 4 9 _ (.ok 3) rfl
  · exact @consistent_of_put_fresh 5 7 _ (.ok 3) rfl

theorem loadOpenChapters_saveOpenChapters_two_zones :
    (∀ z < 2, (twoOpenChapters z).Consistent id) ∧
    ∃ stream, saveOpenChapters twoOpenChapters 2 = some stream ∧
      stream.header = openChapterMagic ++ openChapterVersion ++
        (List.range 4).map (storeLE (fun _ => 0) 0 4 (∑ z ∈ Finset.range 2, openChapterSize (twoOpenChapters z))) ∧
      stream.records.length = ∑ z ∈ Finset.range 2, openChapterSize (twoOpenChapters z) ∧
      (∀ count, (∀ z < 2, (twoOpenChapters z).size ≤ count) →
        stream.records = (List.range count).flatMap fun j => saveRound twoOpenChapters 2 (1 + j)) ∧
      ∃ loaded, loadOpenChapters id (· % 2) 2 (fun z => resetOpenChapter (twoOpenChapters z)) stream =
          some (loaded, .ok ()) ∧
        ∀ z < 2, (loaded z).deleted = 0 ∧
          ∀ name, searchOpenChapter id (loaded z) name = searchOpenChapter id (twoOpenChapters z) name := by
  refine ⟨twoOpenChapters_consistent, loadOpenChapters_saveOpenChapters id (by decide) twoOpenChapters_consistent
    (fun z hz => ?_) (fun z hz r hlive => ?_)⟩
  · obtain rfl | rfl : z = 0 ∨ z = 1 := by omega
    · decide
    · decide
  · have hr : r = 1 := by
      have := hlive.1
      have := hlive.2.1
      obtain rfl | rfl : z = 0 ∨ z = 1 := by omega
      · change r ≤ 1 at this
        omega
      · change r ≤ 1 at this
        omega
    subst hr
    obtain rfl | rfl : z = 0 ∨ z = 1 := by omega
    · rfl
    · rfl

end Vdo.Uds
