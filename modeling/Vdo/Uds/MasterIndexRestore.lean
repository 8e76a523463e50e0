import Vdo.Uds.DeltaIndex
import Vdo.Base.RefCountsSearch

/-!
# Restoring a master index from its zone streams

`startRestoringMasterIndex_005` (`masterIndex005.c`) reads, from each zone's
saved stream, a header (`struct mi005_data`: a magic number, the volume nonce,
the zone's chapter range and the range `firstList .. firstList + numLists` of
the delta lists the zone saved), checks the magic number, the nonce and the
chapter range against the streams read before, and then reads the flush
chapter of each of those lists into `flushChapters[firstList ..]`. The delta
lists themselves are restored afterwards by `startRestoringDeltaIndex`, from
what is left of each stream; the model takes that restore as an argument.

A stream is the list of bytes left in it. Nothing in the restore compares a
header's list range with `numDeltaLists`: the writes go wherever the header
says, and `flushChapters` is modelled as a function on every index, the memory
past the array included. `restoreZoneStream_state` says what one pass can do,
`restoreZoneStreams_frame` carries the lists no header names across the loop,
and `startRestoringMasterIndex005_flushChapters_of_le` is what holds when the
headers keep to the index's lists; `startRestoringMasterIndex005_one_stream`
shows the store happening whatever the range.
-/

namespace Vdo.Uds

variable {Name : Type}

/-- `MasterIndexZone`. -/
structure MasterIndexZone where
  /-- The lowest virtual chapter indexed. -/
  virtualChapterLow : ℕ
  /-- The highest virtual chapter indexed. -/
  virtualChapterHigh : ℕ
  /-- The number of early flushes. -/
  numEarlyFlushes : ℕ
  deriving DecidableEq, Repr

/-- The fields of a `MasterIndex5` its restore reads and writes. -/
structure MasterIndex5 (Name : Type) where
  deltaIndex : DeltaIndex Name
  /-- The first chapter to be flushed, per delta list. -/
  flushChapters : ℕ → ℕ
  masterZones : ℕ → MasterIndexZone
  volumeNonce : ℕ
  numDeltaLists : ℕ
  numZones : ℕ

/-- `MAGIC_SIZE`. -/
def magicSize : ℕ := 8

/-- `MAGIC_MI_START`, the bytes of `"MI5-0005"`. -/
def magicMiStart : List ℕ := [77, 73, 53, 45, 48, 48, 48, 53]

/-- `struct mi005_data`: the header of a zone's saved master index. -/
structure Mi005Data where
  magic : List ℕ
  volumeNonce : ℕ
  virtualChapterLow : ℕ
  virtualChapterHigh : ℕ
  firstList : ℕ
  numLists : ℕ
  deriving DecidableEq, Repr

/-- `sizeof(struct mi005_data)`. -/
def mi005DataSize : ℕ := magicSize + 8 + 8 + 8 + 4 + 4

/-- `readFromBufferedReader` on the bytes left in a stream: exactly `length`
bytes and the rest, or `UDS_END_OF_FILE` when no byte is left and
`UDS_SHORT_READ` when some are, but fewer than `length`. -/
def readFromBufferedReader (reader : List ℕ) (length : ℕ) : Except UdsError (List ℕ × List ℕ) :=
  if length ≤ reader.length then .ok (reader.take length, reader.drop length)
  else if reader = [] then .error .endOfFile
  else .error .shortRead

/-- The byte at `index` of a buffer. -/
def bufferByte (buffer : List ℕ) (index : ℕ) : ℕ := buffer.getD index 0

/-- `decodeMasterIndexHeader`: the fields of a header buffer, in order and
little-endian. The buffer is always read whole, so its length check passes. -/
def decodeMasterIndexHeader (buffer : List ℕ) : Mi005Data :=
  ⟨buffer.take magicSize, wordLE (bufferByte buffer) 8 8, wordLE (bufferByte buffer) 16 8,
    wordLE (bufferByte buffer) 24 8, wordLE (bufferByte buffer) 32 4, wordLE (bufferByte buffer) 36 4⟩

/-- `getUInt64LEsFromBuffer`: value `k` is the little-endian word at `8 * k`. -/
def getUInt64LEsFromBuffer (buffer : List ℕ) (k : ℕ) : ℕ := wordLE (bufferByte buffer) (8 * k) 8

/-- The copy of `getUInt64LEsFromBuffer` into `&flushChapters[firstList]`:
`numLists` values from `firstList` on. -/
def storeFlushChapters (flushChapters : ℕ → ℕ) (firstList numLists : ℕ) (values : ℕ → ℕ) : ℕ → ℕ :=
  fun index => if firstList ≤ index ∧ index < firstList + numLists then values (index - firstList)
    else flushChapters index

/-- The nonce check of a pass: the first stream read gives the index its
nonce (when it has none), and every later stream must carry the same. -/
def checkVolumeNonce (mi5 : MasterIndex5 Name) (header : Mi005Data) :
    Except UdsError (MasterIndex5 Name) :=
  if mi5.volumeNonce = 0 then .ok { mi5 with volumeNonce := header.volumeNonce }
  else if header.volumeNonce ≠ mi5.volumeNonce then .error .corruptComponent
  else .ok mi5

/-- The chapter range check of pass `i`: the first stream gives the range;
every later one must end at the same chapter, and the range starts at the
latest start read. -/
def checkChapterRange (low high i : ℕ) (header : Mi005Data) : Except UdsError (ℕ × ℕ) :=
  if i = 0 then .ok (header.virtualChapterLow, header.virtualChapterHigh)
  else if high ≠ header.virtualChapterHigh then .error .corruptComponent
  else if low < header.virtualChapterLow then .ok (header.virtualChapterLow, high)
  else .ok (low, high)

/-- One pass of the loop of `startRestoringMasterIndex_005`, over zone stream
`i`: read and check its header, then read its lists' flush chapters. It
returns the chapter range so far and what is left of the stream, or the error;
what the pass changed before an error stays. -/
def restoreZoneStream (mi5 : MasterIndex5 Name) (low high i : ℕ) (reader : List ℕ) :
    MasterIndex5 Name × Except UdsError (ℕ × ℕ × List ℕ) :=
  match readFromBufferedReader reader mi005DataSize with
  | .error e => (mi5, .error e)
  | .ok (buffer, reader) =>
    let header := decodeMasterIndexHeader buffer
    if header.magic ≠ magicMiStart then (mi5, .error .corruptComponent)
    else
      match checkVolumeNonce mi5 header with
      | .error e => (mi5, .error e)
      | .ok mi5 =>
        match checkChapterRange low high i header with
        | .error e => (mi5, .error e)
        | .ok (low, high) =>
          match readFromBufferedReader reader (header.numLists * 8) with
          | .error e => (mi5, .error e)
          | .ok (buffer, reader) =>
            ({ mi5 with
                flushChapters := storeFlushChapters mi5.flushChapters header.firstList header.numLists
                  (getUInt64LEsFromBuffer buffer) },
              .ok (low, high, reader))

/-- The loop of `startRestoringMasterIndex_005` over the zone streams from
stream `i` on, stopping at the first error. -/
def restoreZoneStreams (mi5 : MasterIndex5 Name) (low high i : ℕ) :
    List (List ℕ) → MasterIndex5 Name × Except UdsError (ℕ × ℕ × List (List ℕ))
  | [] => (mi5, .ok (low, high, []))
  | reader :: readers =>
    match restoreZoneStream mi5 low high i reader with
    | (mi5, .error e) => (mi5, .error e)
    | (mi5, .ok (low, high, rest)) =>
      match restoreZoneStreams mi5 low high (i + 1) readers with
      | (mi5, .error e) => (mi5, .error e)
      | (mi5, .ok (low, high, rests)) => (mi5, .ok (low, high, rest :: rests))

/-- `startRestoringMasterIndex_005`: empty the delta index, read every zone
stream's header and flush chapters, give every zone the chapter range read,
and restore the delta index from the rest of the streams. -/
def startRestoringMasterIndex005
    (startRestoringDeltaIndex : DeltaIndex Name → List (List ℕ) → DeltaIndex Name × Except UdsError Unit)
    (mi5 : MasterIndex5 Name) (bufferedReaders : List (List ℕ)) : MasterIndex5 Name × Except UdsError Unit :=
  let mi5 := { mi5 with deltaIndex := emptyDeltaIndex mi5.deltaIndex }
  match restoreZoneStreams mi5 0 0 0 bufferedReaders with
  | (mi5, .error e) => (mi5, .error e)
  | (mi5, .ok (low, high, rests)) =>
    let mi5 := { mi5 with
      masterZones := fun z => if z < mi5.numZones then ⟨low, high, 0⟩ else mi5.masterZones z }
    let restored := startRestoringDeltaIndex mi5.deltaIndex rests
    ({ mi5 with deltaIndex := restored.1 }, restored.2)

/-! ## Reading a stream -/

/-- A read that succeeds returns the first `length` bytes and the rest. -/
theorem readFromBufferedReader_eq_ok {reader buffer rest : List ℕ} {length : ℕ}
    (h : readFromBufferedReader reader length = .ok (buffer, rest)) :
    buffer = reader.take length ∧ rest = reader.drop length := by
  unfold readFromBufferedReader at h
  split_ifs at h
  cases h
  exact ⟨rfl, rfl⟩

/-- Reading the bytes a stream starts with. -/
theorem readFromBufferedReader_append (bytes rest : List ℕ) :
    readFromBufferedReader (bytes ++ rest) bytes.length = .ok (bytes, rest) := by
  simp [readFromBufferedReader]

/-- The header at the start of a zone stream, as its pass decodes it. -/
def zoneStreamHeader (reader : List ℕ) : Mi005Data :=
  decodeMasterIndexHeader (reader.take mi005DataSize)

/-- Whether `index` is one of the lists a header says its zone saved. -/
def Mi005Data.covers (header : Mi005Data) (index : ℕ) : Prop :=
  header.firstList ≤ index ∧ index < header.firstList + header.numLists

instance (header : Mi005Data) (index : ℕ) : Decidable (header.covers index) :=
  inferInstanceAs (Decidable (_ ∧ _))

/-- The store of flush chapters leaves the lists outside its range. -/
theorem storeFlushChapters_of_not_covers {flushChapters values : ℕ → ℕ} {header : Mi005Data}
    {index : ℕ} (h : ¬ header.covers index) :
    storeFlushChapters flushChapters header.firstList header.numLists values index = flushChapters index :=
  if_neg h

/-! ## One zone stream -/

/-- The nonce check changes nothing but the nonce. -/
theorem checkVolumeNonce_eq_ok {mi5 mi5' : MasterIndex5 Name} {header : Mi005Data}
    (h : checkVolumeNonce mi5 header = .ok mi5') : mi5' = { mi5 with volumeNonce := mi5'.volumeNonce } := by
  unfold checkVolumeNonce at h
  split_ifs at h <;> cases h <;> rfl

/-- What a pass can do to the index: set its nonce, and store flush chapters
over the range its header names. -/
theorem restoreZoneStream_state (mi5 : MasterIndex5 Name) (low high i : ℕ) (reader : List ℕ) :
    ∃ nonce, (restoreZoneStream mi5 low high i reader).1 = { mi5 with volumeNonce := nonce } ∨
      ∃ values, (restoreZoneStream mi5 low high i reader).1 =
        { mi5 with
          volumeNonce := nonce
          flushChapters := storeFlushChapters mi5.flushChapters (zoneStreamHeader reader).firstList
            (zoneStreamHeader reader).numLists values } := by
  unfold restoreZoneStream
  split
  · exact ⟨mi5.volumeNonce, Or.inl rfl⟩
  · rename_i buffer rest hread
    obtain ⟨rfl, -⟩ := readFromBufferedReader_eq_ok hread
    dsimp only
    split_ifs
    · exact ⟨mi5.volumeNonce, Or.inl rfl⟩
    split
    · exact ⟨mi5.volumeNonce, Or.inl rfl⟩
    rename_i nonced hnonce
    rw [checkVolumeNonce_eq_ok hnonce]
    split
    · exact ⟨nonced.volumeNonce, Or.inl rfl⟩
    split
    · exact ⟨nonced.volumeNonce, Or.inl rfl⟩
    · exact ⟨nonced.volumeNonce, Or.inr ⟨_, rfl⟩⟩

/-- A pass leaves the number of delta lists, and the flush chapters of every
list outside its header's range. -/
theorem restoreZoneStream_frame (mi5 : MasterIndex5 Name) (low high i : ℕ) {reader : List ℕ}
    {index : ℕ} (hcover : ¬ (zoneStreamHeader reader).covers index) :
    (restoreZoneStream mi5 low high i reader).1.flushChapters index = mi5.flushChapters index ∧
      (restoreZoneStream mi5 low high i reader).1.numDeltaLists = mi5.numDeltaLists := by
  obtain ⟨nonce, hstate | ⟨values, hstate⟩⟩ := restoreZoneStream_state mi5 low high i reader
  · rw [hstate]
    exact ⟨rfl, rfl⟩
  · rw [hstate]
    exact ⟨storeFlushChapters_of_not_covers hcover, rfl⟩

/-- A pass over a stream that starts with a header passing the checks and the
flush chapters of its lists stores them over the header's range. -/
theorem restoreZoneStream_of_stream {mi5 checked : MasterIndex5 Name} {low high i low' high' : ℕ}
    {headerBytes flushBytes : List ℕ} (rest : List ℕ) (hheader : headerBytes.length = mi005DataSize)
    (hmagic : (decodeMasterIndexHeader headerBytes).magic = magicMiStart)
    (hnonce : checkVolumeNonce mi5 (decodeMasterIndexHeader headerBytes) = .ok checked)
    (hchapters : checkChapterRange low high i (decodeMasterIndexHeader headerBytes) = .ok (low', high'))
    (hflush : flushBytes.length = (decodeMasterIndexHeader headerBytes).numLists * 8) :
    restoreZoneStream mi5 low high i (headerBytes ++ flushBytes ++ rest) =
      ({ checked with
          flushChapters := storeFlushChapters checked.flushChapters
            (decodeMasterIndexHeader headerBytes).firstList (decodeMasterIndexHeader headerBytes).numLists
            (getUInt64LEsFromBuffer flushBytes) },
        .ok (low', high', rest)) := by
  unfold restoreZoneStream
  rw [List.append_assoc, ← hheader, readFromBufferedReader_append]
  simp only [hmagic, ne_eq, not_true_eq_false, if_false, hnonce, hchapters]
  rw [← hflush, readFromBufferedReader_append]

/-! ## The loop over the zone streams -/

/-- The loop leaves the number of delta lists, and the flush chapters of every
list that no stream's header names. -/
theorem restoreZoneStreams_frame {index : ℕ} (readers : List (List ℕ)) :
    ∀ (mi5 : MasterIndex5 Name) (low high i : ℕ),
      (∀ reader ∈ readers, ¬ (zoneStreamHeader reader).covers index) →
      (restoreZoneStreams mi5 low high i readers).1.flushChapters index = mi5.flushChapters index ∧
        (restoreZoneStreams mi5 low high i readers).1.numDeltaLists = mi5.numDeltaLists := by
  induction readers with
  | nil => exact fun _ _ _ _ _ => ⟨rfl, rfl⟩
  | cons reader readers ih =>
    intro mi5 low high i hcover
    have hpass := restoreZoneStream_frame mi5 low high i (hcover reader List.mem_cons_self)
    have hrest : ∀ reader ∈ readers, ¬ (zoneStreamHeader reader).covers index :=
      fun other hother => hcover other (List.mem_cons_of_mem _ hother)
    unfold restoreZoneStreams
    split
    · rename_i passed e heq
      rw [heq] at hpass
      exact hpass
    · rename_i passed low' high' rest heq
      rw [heq] at hpass
      have hloop := ih passed low' high' (i + 1) hrest
      split <;> rename_i heq' <;> rw [heq'] at hloop <;> exact ⟨hloop.1.trans hpass.1, hloop.2.trans hpass.2⟩

/-! ## The restore -/

section Restore

variable (startRestoringDeltaIndex :
  DeltaIndex Name → List (List ℕ) → DeltaIndex Name × Except UdsError Unit)

/-- The restore leaves the number of delta lists, and the flush chapters of
every list that no stream's header names, whatever the delta index restore
does. -/
theorem startRestoringMasterIndex005_frame (mi5 : MasterIndex5 Name) {readers : List (List ℕ)}
    {index : ℕ} (hcover : ∀ reader ∈ readers, ¬ (zoneStreamHeader reader).covers index) :
    (startRestoringMasterIndex005 startRestoringDeltaIndex mi5 readers).1.flushChapters index =
        mi5.flushChapters index ∧
      (startRestoringMasterIndex005 startRestoringDeltaIndex mi5 readers).1.numDeltaLists =
        mi5.numDeltaLists := by
  have hloop := restoreZoneStreams_frame readers { mi5 with deltaIndex := emptyDeltaIndex mi5.deltaIndex }
    0 0 0 hcover
  unfold startRestoringMasterIndex005
  dsimp only
  split <;> rename_i heq <;> rw [heq] at hloop <;> exact hloop

/-- Streams whose headers keep to the index's delta lists leave every flush
chapter past them. -/
theorem startRestoringMasterIndex005_flushChapters_of_le (mi5 : MasterIndex5 Name)
    {readers : List (List ℕ)}
    (hrange : ∀ reader ∈ readers,
      (zoneStreamHeader reader).firstList + (zoneStreamHeader reader).numLists ≤ mi5.numDeltaLists)
    {index : ℕ} (hindex : mi5.numDeltaLists ≤ index) :
    (startRestoringMasterIndex005 startRestoringDeltaIndex mi5 readers).1.flushChapters index =
      mi5.flushChapters index :=
  (startRestoringMasterIndex005_frame startRestoringDeltaIndex mi5 fun reader hreader hcover =>
    absurd hcover.2 (by have := hrange reader hreader; omega)).1

/-- A restore of one stream, into an index without a nonce, from a header
with the magic number followed by its lists' flush chapters: the flush
chapters are stored over the header's range, whatever the range, and the
restore returns what the delta index restore does. -/
theorem startRestoringMasterIndex005_one_stream (mi5 : MasterIndex5 Name) {headerBytes flushBytes : List ℕ}
    (rest : List ℕ) (hheader : headerBytes.length = mi005DataSize)
    (hmagic : (decodeMasterIndexHeader headerBytes).magic = magicMiStart) (hnonce : mi5.volumeNonce = 0)
    (hflush : flushBytes.length = (decodeMasterIndexHeader headerBytes).numLists * 8) :
    (startRestoringMasterIndex005 startRestoringDeltaIndex mi5 [headerBytes ++ flushBytes ++ rest]).1.flushChapters =
        storeFlushChapters mi5.flushChapters (decodeMasterIndexHeader headerBytes).firstList
          (decodeMasterIndexHeader headerBytes).numLists (getUInt64LEsFromBuffer flushBytes) ∧
      (startRestoringMasterIndex005 startRestoringDeltaIndex mi5 [headerBytes ++ flushBytes ++ rest]).2 =
        (startRestoringDeltaIndex (emptyDeltaIndex mi5.deltaIndex) [rest]).2 := by
  have hchecked : checkVolumeNonce { mi5 with deltaIndex := emptyDeltaIndex mi5.deltaIndex }
      (decodeMasterIndexHeader headerBytes) =
      .ok { mi5 with
        deltaIndex := emptyDeltaIndex mi5.deltaIndex
        volumeNonce := (decodeMasterIndexHeader headerBytes).volumeNonce } := by
    simp [checkVolumeNonce, hnonce]
  have hpass := restoreZoneStream_of_stream rest hheader hmagic hchecked
    (show checkChapterRange 0 0 0 (decodeMasterIndexHeader headerBytes) = .ok (_, _) from rfl) hflush
  simp only [startRestoringMasterIndex005, restoreZoneStreams, hpass, and_self]

end Restore

/-- An index of four delta lists and one zone, without a nonce yet. -/
def fourListMasterIndex : MasterIndex5 ℕ :=
  ⟨⟨4, 8, fun _ => DeltaList.empty, 0, 0⟩, fun _ => 0, fun _ => ⟨0, 0, 0⟩, 0, 4, 1⟩

/-- A zone header with the magic number and nonce 1 that names lists 3 and 4. -/
def overrunMasterIndexHeader : List ℕ :=
  magicMiStart ++ [1, 0, 0, 0, 0, 0, 0, 0] ++ List.replicate 16 0 ++ [3, 0, 0, 0] ++ [2, 0, 0, 0]

/-- The flush chapters 7 and 9 of the two lists. -/
def overrunFlushChapters : List ℕ := [7, 0, 0, 0, 0, 0, 0, 0] ++ [9, 0, 0, 0, 0, 0, 0, 0]

theorem startRestoringMasterIndex005_writes_past_delta_lists
    (startRestoringDeltaIndex : DeltaIndex ℕ → List (List ℕ) → DeltaIndex ℕ × Except UdsError Unit) :
    fourListMasterIndex.numDeltaLists <
        (zoneStreamHeader (overrunMasterIndexHeader ++ overrunFlushChapters)).firstList +
          (zoneStreamHeader (overrunMasterIndexHeader ++ overrunFlushChapters)).numLists ∧
      (startRestoringMasterIndex005 startRestoringDeltaIndex fourListMasterIndex
        [overrunMasterIndexHeader ++ overrunFlushChapters]).1.flushChapters 4 = 9 ∧
      (startRestoringMasterIndex005 startRestoringDeltaIndex fourListMasterIndex
        [overrunMasterIndexHeader ++ overrunFlushChapters]).2 =
        (startRestoringDeltaIndex (emptyDeltaIndex fourListMasterIndex.deltaIndex) [[]]).2 := by
  obtain ⟨hflush, hresult⟩ := startRestoringMasterIndex005_one_stream startRestoringDeltaIndex
    fourListMasterIndex [] (show overrunMasterIndexHeader.length = mi005DataSize by decide) (by decide) rfl
    (show overrunFlushChapters.length = (decodeMasterIndexHeader overrunMasterIndexHeader).numLists * 8 by
      decide)
  rw [List.append_nil] at hflush hresult
  refine ⟨by decide, ?_, hresult⟩
  rw [hflush]
  decide

end Vdo.Uds
