import Vdo.Uds.MasterIndexSavePoints

/-!
# The sparse master index and its triage lookup

A `MasterIndex6` (`masterIndex006.c`) wraps two `MasterIndex5`s: the hook
index holds the names sampled for the sparse chapters, those whose sampling
bytes are a multiple of `sparseSampleRate`, and the other index holds the rest.
`lookupMasterIndexName_006` is the read-only triage of `triageIndexRequest`: for
a hook name it searches the hook index with `lookupMasterIndexSampledName_005`,
reads the chapter of the entry found back into the zone's range and refuses one
above the zone's highest chapter.

The lookup does not flush the chapters that left the range, as
`getMasterIndexRecord` does first. In every reachable index the search points
of the hook lists are sound, so a search finds an entry the list's entries
alone decide; on a list whose pending flush would remove nothing, the two calls
then find the same entry and read the same chapter, the lookup refusing one
above the zone's highest (`lookupMasterIndexName_agrees`). Both limits are
reached (`lookupMasterIndexName_disagrees_on_expired_entries`): a flush that
removes an expired entry leaves `getMasterIndexRecord` without the entry the
lookup reads as a chapter of the range, and an entry put below its list's
flush chapter, once expired, reads as a chapter above the highest, which
`getMasterIndexRecord` reports found and the lookup refuses.

Like the rest of the master index model, the index is of one zone. The triage's
`virtualChapter` is left at zero when no entry is found, where the source leaves
it unset.
-/

namespace Vdo.Uds

open Reachability

variable {Name : Type}

/-- `MasterIndexTriage`. -/
structure MasterIndexTriage where
  virtualChapter : ℕ
  zone : ℕ
  isSample : Bool
  inSampledChapter : Bool
  deriving DecidableEq, Repr

/-- `getMasterIndexZone_005`: the zone of the name's delta list, which is zone
0 of a one-zone index. -/
def getMasterIndexZone (_mi5 : MasterIndex5 Name) (_name : Name) : ℕ := 0

section Lookup

variable (layout : MasterIndex5Layout) [DecidableEq Name]

/-- `lookupMasterIndexSampledName_005`: search the name's list without
flushing it, read the chapter of the entry found back into the triage zone's
range, and refuse a chapter above its highest. -/
def lookupMasterIndexSampledName (masterIndexBytes : Name → ℕ) (mi5 : MasterIndex5 Name) (name : Name)
    (triage : MasterIndexTriage) : Except UdsError MasterIndexTriage := do
  let address := extractAddress layout masterIndexBytes name
  let deltaListNumber := extractDListNum layout masterIndexBytes mi5 name
  let (_, deltaEntry) ← getDeltaIndexEntry mi5.deltaIndex deltaListNumber address name
  if !deltaEntry.atEnd && deltaEntry.key == address then
    let masterZone := mi5.masterZones triage.zone
    let indexChapter := getDeltaEntryValue mi5.deltaIndex deltaEntry
    let virtualChapter :=
      masterZone.virtualChapterLow + rollingChapter layout indexChapter masterZone.virtualChapterLow
    pure { triage with
      virtualChapter
      inSampledChapter := decide (virtualChapter ≤ masterZone.virtualChapterHigh) }
  else pure { triage with inSampledChapter := false }

end Lookup

/-! ## `MasterIndex6` -/

/-- The layouts of the two sub-indexes of a `MasterIndex6`, as
`splitConfiguration006` splits the configuration. -/
structure MasterIndex6Layout where
  nonHook : MasterIndex5Layout
  hook : MasterIndex5Layout

/-- A `MasterIndex6` of one zone: its sample rate and its two sub-indexes. -/
structure MasterIndex6 (Name : Type) where
  sparseSampleRate : ℕ
  miNonHook : MasterIndex5 Name
  miHook : MasterIndex5 Name

section MasterIndex6

variable (samplingBytes : Name → ℕ)

/-- `isMasterIndexSample_006`: `extractSamplingBytes` of a hook name is a
multiple of the sample rate. -/
def isMasterIndexSample (mi6 : MasterIndex6 Name) (name : Name) : Bool :=
  samplingBytes name % mi6.sparseSampleRate == 0

/-- `getSubIndex`. -/
def getSubIndex (mi6 : MasterIndex6 Name) (name : Name) : MasterIndex5 Name :=
  if isMasterIndexSample samplingBytes mi6 name then mi6.miHook else mi6.miNonHook

/-- `getMasterIndexZone_006`. -/
def getMasterIndexZone6 (mi6 : MasterIndex6 Name) (name : Name) : ℕ :=
  getMasterIndexZone (getSubIndex samplingBytes mi6 name) name

variable (layout6 : MasterIndex6Layout) (masterIndexBytes : Name → ℕ) [DecidableEq Name]

/-- `lookupMasterIndexName_006`: only a hook name is looked for, in the hook
index. -/
def lookupMasterIndexName (mi6 : MasterIndex6 Name) (name : Name) : Except UdsError MasterIndexTriage :=
  let triage : MasterIndexTriage :=
    ⟨0, getMasterIndexZone6 samplingBytes mi6 name, isMasterIndexSample samplingBytes mi6 name, false⟩
  if triage.isSample then lookupMasterIndexSampledName layout6.hook masterIndexBytes mi6.miHook name triage
  else .ok triage

/-- `getMasterIndexRecord_006`: the record of a hook name is in the hook index,
that of any other name in the other index. -/
def getMasterIndexRecord6 (mi6 : MasterIndex6 Name) (name : Name) :
    Except UdsError (MasterIndex6 Name × MasterIndexRecord Name) :=
  if isMasterIndexSample samplingBytes mi6 name then do
    let (miHook, record) ← getMasterIndexRecord layout6.hook masterIndexBytes mi6.miHook name
    pure ({ mi6 with miHook }, record)
  else do
    let (miNonHook, record) ← getMasterIndexRecord layout6.nonHook masterIndexBytes mi6.miNonHook name
    pure ({ mi6 with miNonHook }, record)

/-- `setMasterIndexZoneOpenChapter_006` for the one zone, and so
`setMasterIndexOpenChapter_006`: both sub-indexes move, each given the bits its
lists use. -/
def setMasterIndexZoneOpenChapter6 [Inhabited Name] (mi6 : MasterIndex6 Name)
    (virtualChapter nonHookBits hookBits : ℕ) : MasterIndex6 Name :=
  { mi6 with
    miNonHook := setMasterIndexZoneOpenChapter layout6.nonHook mi6.miNonHook virtualChapter nonHookBits
    miHook := setMasterIndexZoneOpenChapter layout6.hook mi6.miHook virtualChapter hookBits }

end MasterIndex6

/-- The record calls on one name of a `MasterIndex5`: `getMasterIndexRecord`
alone or followed by a put, a change of chapter or a removal of the record it
returned, which act on the sub-index the record came from. -/
inductive MasterIndexRecordStep [DecidableEq Name] (layout : MasterIndex5Layout) (masterIndexBytes : Name → ℕ)
    (name : Name) : MasterIndex5 Name → MasterIndex5 Name → Prop
  | get {mi5 mi5' : MasterIndex5 Name} {record : MasterIndexRecord Name}
      (hget : getMasterIndexRecord layout masterIndexBytes mi5 name = .ok (mi5', record)) :
      MasterIndexRecordStep layout masterIndexBytes name mi5 mi5'
  | put {mi5 mi5' : MasterIndex5 Name} {record : MasterIndexRecord Name} (virtualChapter : ℕ) (room : Bool)
      (hget : getMasterIndexRecord layout masterIndexBytes mi5 name = .ok (mi5', record)) :
      MasterIndexRecordStep layout masterIndexBytes name mi5
        (putMasterIndexRecord layout masterIndexBytes mi5' record virtualChapter room).1
  | setChapter {mi5 mi5' mi5'' : MasterIndex5 Name} {record record' : MasterIndexRecord Name}
      (virtualChapter : ℕ)
      (hget : getMasterIndexRecord layout masterIndexBytes mi5 name = .ok (mi5', record))
      (hset : setMasterIndexRecordChapter layout mi5' record virtualChapter = .ok (mi5'', record')) :
      MasterIndexRecordStep layout masterIndexBytes name mi5 mi5''
  | remove {mi5 mi5' mi5'' : MasterIndex5 Name} {record : MasterIndexRecord Name}
      (hget : getMasterIndexRecord layout masterIndexBytes mi5 name = .ok (mi5', record))
      (hremove : removeMasterIndexRecord mi5' record = .ok mi5'') :
      MasterIndexRecordStep layout masterIndexBytes name mi5 mi5''

/-- A `MasterIndex6` as `makeMasterIndex006` makes it: a positive sample rate
and two fresh sub-indexes. -/
def MasterIndex6.Initial (layout6 : MasterIndex6Layout) (mi6 : MasterIndex6 Name) : Prop :=
  0 < mi6.sparseSampleRate ∧ MasterIndex5.Initial layout6.nonHook mi6.miNonHook ∧
    MasterIndex5.Initial layout6.hook mi6.miHook

/-- The calls that change a `MasterIndex6`: moving the open chapter, and the
record calls on a name, routed to its sub-index. -/
inductive MasterIndex6Step [DecidableEq Name] [Inhabited Name] (samplingBytes : Name → ℕ)
    (layout6 : MasterIndex6Layout) (masterIndexBytes : Name → ℕ) : MasterIndex6 Name → MasterIndex6 Name → Prop
  | setOpenChapter (mi6 : MasterIndex6 Name) (virtualChapter nonHookBits hookBits : ℕ) :
      MasterIndex6Step samplingBytes layout6 masterIndexBytes mi6
        (setMasterIndexZoneOpenChapter6 layout6 mi6 virtualChapter nonHookBits hookBits)
  | hook {mi6 : MasterIndex6 Name} {miHook : MasterIndex5 Name} (name : Name)
      (hsample : isMasterIndexSample samplingBytes mi6 name = true)
      (hstep : MasterIndexRecordStep layout6.hook masterIndexBytes name mi6.miHook miHook) :
      MasterIndex6Step samplingBytes layout6 masterIndexBytes mi6 { mi6 with miHook }
  | nonHook {mi6 : MasterIndex6 Name} {miNonHook : MasterIndex5 Name} (name : Name)
      (hsample : isMasterIndexSample samplingBytes mi6 name = false)
      (hstep : MasterIndexRecordStep layout6.nonHook masterIndexBytes name mi6.miNonHook miNonHook) :
      MasterIndex6Step samplingBytes layout6 masterIndexBytes mi6 { mi6 with miNonHook }

/-- A record step of a sub-index is a step of it as a master index. -/
theorem MasterIndexRecordStep.masterIndexStep [DecidableEq Name] [Inhabited Name] {layout : MasterIndex5Layout}
    {masterIndexBytes : Name → ℕ} {name : Name} {mi5 mi5' : MasterIndex5 Name}
    (h : MasterIndexRecordStep layout masterIndexBytes name mi5 mi5') : MasterIndexStep layout masterIndexBytes mi5 mi5' := by
  cases h with
  | get hget => exact .get name hget
  | put virtualChapter room hget => exact .put name virtualChapter room hget
  | setChapter virtualChapter hget hset => exact .setChapter name virtualChapter hget hset
  | remove hget hremove => exact .remove name hget hremove

/-- The hook index of a reachable sparse index is a reachable master index: a
step of the sparse index moves it by one step or leaves it. -/
theorem miHook_reachable [DecidableEq Name] [Inhabited Name] {samplingBytes : Name → ℕ}
    {layout6 : MasterIndex6Layout} {masterIndexBytes : Name → ℕ} {mi6 : MasterIndex6 Name}
    (h : Reachable (MasterIndex6.Initial layout6) (MasterIndex6Step samplingBytes layout6 masterIndexBytes) mi6) :
    Reachable (MasterIndex5.Initial layout6.hook) (MasterIndexStep layout6.hook masterIndexBytes) mi6.miHook := by
  refine h.map MasterIndex6.miHook (fun _ hs => hs.2.2) ?_
  intro s t hstep
  cases hstep with
  | setOpenChapter virtualChapter nonHookBits hookBits =>
    exact .single (.setOpenChapter _ virtualChapter hookBits)
  | hook name hsample hstep => exact .single hstep.masterIndexStep
  | nonHook name hsample hstep => exact .refl

/-! ## The search both calls make -/

section Search

theorem getDeltaEntryValue_congr {deltaIndex deltaIndex' : DeltaIndex Name}
    (h : ∀ listNumber, (deltaIndex'.deltaLists listNumber).entries = (deltaIndex.deltaLists listNumber).entries)
    (deltaEntry : DeltaIndexEntry) :
    getDeltaEntryValue deltaIndex' deltaEntry = getDeltaEntryValue deltaIndex deltaEntry := by
  simp [getDeltaEntryValue, h]

variable [DecidableEq Name]

/-- `getDeltaIndexEntry` saves a search point and leaves the entries of every
list as they were. -/
theorem getDeltaIndexEntry_entries {deltaIndex deltaIndex' : DeltaIndex Name} {listNumber key : ℕ} {name : Name}
    {deltaEntry : DeltaIndexEntry}
    (h : getDeltaIndexEntry deltaIndex listNumber key name = .ok (deltaIndex', deltaEntry)) (listNumber' : ℕ) :
    (deltaIndex'.deltaLists listNumber').entries = (deltaIndex.deltaLists listNumber').entries := by
  obtain ⟨start, -, hrest⟩ := ExceptFold.bind_eq_ok.mp h
  obtain ⟨found, -, hrest⟩ := ExceptFold.bind_eq_ok.mp hrest
  obtain ⟨saved, hsaved, hrest⟩ := ExceptFold.bind_eq_ok.mp hrest
  have hindex : deltaIndex' = deltaIndex.setList listNumber saved := by
    split_ifs at hrest
    · obtain ⟨collision, -, hpure⟩ := ExceptFold.bind_eq_ok.mp hrest
      cases hpure
      rfl
    · cases hrest
      rfl
  have hentries : saved.entries = (deltaIndex.deltaLists listNumber).entries := by
    simp only [rememberDeltaIndexOffset] at hsaved
    split_ifs at hsaved
    cases hsaved
    rfl
  subst hindex
  exact DeltaIndex.setList_entries hentries listNumber'

variable (layout : MasterIndex5Layout) {masterIndexBytes : Name → ℕ} {mi5 : MasterIndex5 Name} {name : Name}

/-- The lookup reads the entry its search finds. -/
theorem lookupMasterIndexSampledName_of_ok {deltaIndex : DeltaIndex Name} {deltaEntry : DeltaIndexEntry}
    (triage : MasterIndexTriage)
    (h : getDeltaIndexEntry mi5.deltaIndex (extractDListNum layout masterIndexBytes mi5 name)
      (extractAddress layout masterIndexBytes name) name = .ok (deltaIndex, deltaEntry)) :
    lookupMasterIndexSampledName layout masterIndexBytes mi5 name triage =
      .ok (if !deltaEntry.atEnd && deltaEntry.key == extractAddress layout masterIndexBytes name then
          { triage with
            virtualChapter := (mi5.masterZones triage.zone).virtualChapterLow +
              rollingChapter layout (getDeltaEntryValue mi5.deltaIndex deltaEntry)
                (mi5.masterZones triage.zone).virtualChapterLow
            inSampledChapter := decide ((mi5.masterZones triage.zone).virtualChapterLow +
              rollingChapter layout (getDeltaEntryValue mi5.deltaIndex deltaEntry)
                (mi5.masterZones triage.zone).virtualChapterLow ≤ (mi5.masterZones triage.zone).virtualChapterHigh) }
        else { triage with inSampledChapter := false }) := by
  simp only [lookupMasterIndexSampledName, h, ExceptFold.ok_bind]
  split_ifs <;> rfl

theorem lookupMasterIndexSampledName_of_error {error : UdsError} (triage : MasterIndexTriage)
    (h : getDeltaIndexEntry mi5.deltaIndex (extractDListNum layout masterIndexBytes mi5 name)
      (extractAddress layout masterIndexBytes name) name = .error error) :
    lookupMasterIndexSampledName layout masterIndexBytes mi5 name triage = .error error := by
  simp only [lookupMasterIndexSampledName, h, ExceptFold.error_bind]

/-- With no flush due on the list, `getMasterIndexRecord` reads the entry its
search finds, as the lookup does. -/
theorem getMasterIndexRecord_of_search {deltaIndex : DeltaIndex Name} {deltaEntry : DeltaIndexEntry}
    (hflush : ¬ mi5.flushChapters (extractDListNum layout masterIndexBytes mi5 name) <
      (mi5.masterZones 0).virtualChapterLow)
    (h : getDeltaIndexEntry mi5.deltaIndex (extractDListNum layout masterIndexBytes mi5 name)
      (extractAddress layout masterIndexBytes name) name = .ok (deltaIndex, deltaEntry)) :
    getMasterIndexRecord layout masterIndexBytes mi5 name =
      .ok ({ mi5 with deltaIndex },
        ⟨name, deltaEntry, !deltaEntry.atEnd && deltaEntry.key == extractAddress layout masterIndexBytes name,
          deltaEntry.isCollision,
          if !deltaEntry.atEnd && deltaEntry.key == extractAddress layout masterIndexBytes name then
            convertIndexToVirtual layout (mi5.masterZones 0) (getDeltaEntryValue deltaIndex deltaEntry)
          else 0⟩) := by
  simp only [getMasterIndexRecord, if_neg hflush, h, ExceptFold.ok_bind]
  rfl

/-- The entries of list `listNumber` that `getMasterIndexRecord` flushes
before it searches: when the list's flush chapter is below the zone's lowest,
those whose chapter index lies in the range from the one up to the other. -/
def MasterIndex5.pendingFlushEntries (mi5 : MasterIndex5 Name) (listNumber : ℕ) : List (DeltaEntry Name) :=
  let flushChapter := mi5.flushChapters listNumber
  let masterZone := mi5.masterZones 0
  if flushChapter < masterZone.virtualChapterLow then
    let flushCount := masterZone.virtualChapterLow - flushChapter
    let range : ChapterRange := ⟨convertVirtualToIndex layout flushChapter,
      if flushCount > layout.chapterMask then layout.chapterMask + 1 else flushCount⟩
    (mi5.deltaIndex.deltaLists listNumber).entries.filter fun entry =>
      rollingChapter layout entry.value range.chapterStart < range.chapterCount
  else []

/-- With sound search points and nothing to flush from the name's list,
`getMasterIndexRecord` leaves the entries of every list as they were and
searches them as the lookup does: it ends on the entry the lookup's search
ends on, or both end past the end of the list. -/
theorem getMasterIndexRecord_of_nothing_to_flush {deltaIndex : DeltaIndex Name} {deltaEntry : DeltaIndexEntry}
    (hsave : mi5.deltaIndex.SavePoints)
    (hnil : mi5.pendingFlushEntries layout (extractDListNum layout masterIndexBytes mi5 name) = [])
    (h : getDeltaIndexEntry mi5.deltaIndex (extractDListNum layout masterIndexBytes mi5 name)
      (extractAddress layout masterIndexBytes name) name = .ok (deltaIndex, deltaEntry)) :
    ∃ searched found flushChapters, getMasterIndexRecord layout masterIndexBytes mi5 name =
        .ok ({ mi5 with deltaIndex := searched, flushChapters },
          ⟨name, found, !found.atEnd && found.key == extractAddress layout masterIndexBytes name, found.isCollision,
            if !found.atEnd && found.key == extractAddress layout masterIndexBytes name then
              convertIndexToVirtual layout (mi5.masterZones 0) (getDeltaEntryValue searched found)
            else 0⟩) ∧
      (∀ listNumber, (searched.deltaLists listNumber).entries = (mi5.deltaIndex.deltaLists listNumber).entries) ∧
      (deltaEntry = found ∨ deltaEntry.atEnd = true ∧ found.atEnd = true) := by
  by_cases hflush : mi5.flushChapters (extractDListNum layout masterIndexBytes mi5 name) <
      (mi5.masterZones 0).virtualChapterLow
  · set listNumber := extractDListNum layout masterIndexBytes mi5 name with hlistNumber
    have hlist := lt_numLists_of_getDeltaIndexEntry h
    -- the range `getMasterIndexRecord` flushes, none of whose entries are in the list
    set range : ChapterRange := ⟨convertVirtualToIndex layout (mi5.flushChapters listNumber),
      if (mi5.masterZones 0).virtualChapterLow - mi5.flushChapters listNumber > layout.chapterMask
      then layout.chapterMask + 1
      else (mi5.masterZones 0).virtualChapterLow - mi5.flushChapters listNumber⟩ with hrange
    have hkept : ∀ entry ∈ (mi5.deltaIndex.deltaLists listNumber).entries.drop 0,
        range.chapterCount ≤ rollingChapter layout entry.value range.chapterStart := by
      intro entry hentry
      rw [MasterIndex5.pendingFlushEntries] at hnil
      dsimp only at hnil
      rw [if_pos hflush, List.filter_eq_nil_iff] at hnil
      simpa using hnil entry (by simpa using hentry)
    set reset := mi5.deltaIndex.setList listNumber
      { mi5.deltaIndex.deltaLists listNumber with saveKey := 0, saveOffset := 0 } with hreset
    have hresetEntries : ∀ listNumber', (reset.deltaLists listNumber').entries =
        (mi5.deltaIndex.deltaLists listNumber').entries :=
      DeltaIndex.setList_entries rfl
    have hresetSave : (reset.deltaLists listNumber).SavePoint := by
      simpa [reset, DeltaIndex.setList] using DeltaList.savePoint_reset (mi5.deltaIndex.deltaLists listNumber).entries
    obtain ⟨-, found, hsearch, -⟩ := @getDeltaIndexEntry_spec _ _ reset listNumber
      (extractAddress layout masterIndexBytes name) name hlist hresetSave
    exact ⟨_, found, _,
      by
        simp only [getMasterIndexRecord, if_pos hflush, ← hlistNumber,
          getMasterIndexEntry_of_lt layout _ _ name hlist, ← hrange,
          flushDeltaList_of_forall_kept layout range listNumber _ _ hkept,
          ← hreset, hsearch, ExceptFold.ok_bind]
        rfl,
      fun listNumber' => (getDeltaIndexEntry_entries hsearch listNumber').trans (hresetEntries listNumber'),
      getDeltaIndexEntry_eq_or_atEnd (hresetEntries listNumber) (hsave listNumber) hresetSave h hsearch⟩
  · exact ⟨deltaIndex, deltaEntry, mi5.flushChapters, getMasterIndexRecord_of_search layout hflush h,
      getDeltaIndexEntry_entries h, Or.inl rfl⟩

end Search

/-! ## The lookup against `getMasterIndexRecord` -/

/-- Every triage the lookup returns carries the name's sample flag and zone. -/
theorem lookupMasterIndexName_triage [DecidableEq Name] {samplingBytes : Name → ℕ} {layout6 : MasterIndex6Layout}
    {masterIndexBytes : Name → ℕ} {mi6 : MasterIndex6 Name} (name : Name) (triage : MasterIndexTriage)
    (hlookup : lookupMasterIndexName samplingBytes layout6 masterIndexBytes mi6 name = .ok triage) :
    triage.isSample = (samplingBytes name % mi6.sparseSampleRate == 0) ∧
      triage.zone = getMasterIndexZone6 samplingBytes mi6 name := by
  simp only [lookupMasterIndexName] at hlookup
  split_ifs at hlookup with hsample
  · rcases hsearch : getDeltaIndexEntry mi6.miHook.deltaIndex
        (extractDListNum layout6.hook masterIndexBytes mi6.miHook name)
        (extractAddress layout6.hook masterIndexBytes name) name with error | ⟨deltaIndex, deltaEntry⟩
    · rw [lookupMasterIndexSampledName_of_error layout6.hook _ hsearch] at hlookup
      cases hlookup
    · -- found or not, the hook lookup keeps the triage it was given
      rw [lookupMasterIndexSampledName_of_ok layout6.hook _ hsearch] at hlookup
      cases hlookup
      split_ifs <;> exact ⟨rfl, rfl⟩
  · cases hlookup
    exact ⟨rfl, rfl⟩

/-- The triage lookup agrees with the hook index in every reachable sparse
index. It sets the sample flag and the zone of the name, and leaves a name
that is not a hook unfound. For a hook name whose list has nothing to flush it
succeeds when `getMasterIndexRecord` does, and reports the chapter that
`getMasterIndexRecord` reports, refusing one above the zone's highest. -/
theorem lookupMasterIndexName_agrees [DecidableEq Name] [Inhabited Name] {samplingBytes : Name → ℕ}
    {layout6 : MasterIndex6Layout} {masterIndexBytes : Name → ℕ} {mi6 : MasterIndex6 Name}
    (hreach : Reachable (MasterIndex6.Initial layout6) (MasterIndex6Step samplingBytes layout6 masterIndexBytes) mi6)
    (name : Name) :
    (∀ triage, lookupMasterIndexName samplingBytes layout6 masterIndexBytes mi6 name = .ok triage →
      triage.isSample = (samplingBytes name % mi6.sparseSampleRate == 0) ∧
        triage.zone = getMasterIndexZone6 samplingBytes mi6 name) ∧
    (isMasterIndexSample samplingBytes mi6 name = false →
      lookupMasterIndexName samplingBytes layout6 masterIndexBytes mi6 name =
        .ok ⟨0, getMasterIndexZone6 samplingBytes mi6 name, false, false⟩) ∧
    (isMasterIndexSample samplingBytes mi6 name = true →
      mi6.miHook.pendingFlushEntries layout6.hook (extractDListNum layout6.hook masterIndexBytes mi6.miHook name) =
        [] →
      ((∃ triage, lookupMasterIndexName samplingBytes layout6 masterIndexBytes mi6 name = .ok triage) ↔
        ∃ result, getMasterIndexRecord6 samplingBytes layout6 masterIndexBytes mi6 name = .ok result) ∧
      ∀ triage mi6' record, lookupMasterIndexName samplingBytes layout6 masterIndexBytes mi6 name = .ok triage →
        getMasterIndexRecord6 samplingBytes layout6 masterIndexBytes mi6 name = .ok (mi6', record) →
        ∀ virtualChapter, (triage.inSampledChapter = true ∧ triage.virtualChapter = virtualChapter ↔
          record.isFound = true ∧ record.virtualChapter = virtualChapter ∧
            virtualChapter ≤ (mi6.miHook.masterZones 0).virtualChapterHigh)) := by
  refine ⟨fun triage => lookupMasterIndexName_triage name triage, ?_, ?_⟩
  · intro hsample
    simp [lookupMasterIndexName, hsample]
  · intro hsample hnil
    have hsave := savePoints_of_reachable layout6.hook (miHook_reachable hreach)
    have hlookup : lookupMasterIndexName samplingBytes layout6 masterIndexBytes mi6 name =
        lookupMasterIndexSampledName layout6.hook masterIndexBytes mi6.miHook name
          ⟨0, 0, true, false⟩ := by
      simp only [lookupMasterIndexName, hsample]
      rfl
    have hget : getMasterIndexRecord6 samplingBytes layout6 masterIndexBytes mi6 name =
        (getMasterIndexRecord layout6.hook masterIndexBytes mi6.miHook name >>= fun result =>
          pure ({ mi6 with miHook := result.1 }, result.2)) := by
      simp only [getMasterIndexRecord6, hsample, if_true]
    rw [hlookup, hget]
    by_cases hlist : extractDListNum layout6.hook masterIndexBytes mi6.miHook name < mi6.miHook.deltaIndex.numLists
    · obtain ⟨-, deltaEntry, hsearch, -⟩ := @getDeltaIndexEntry_spec _ _ mi6.miHook.deltaIndex _
        (extractAddress layout6.hook masterIndexBytes name) name hlist (hsave _)
      obtain ⟨searched, found, flushChapters, hrecord, hentries, hsame⟩ :=
        getMasterIndexRecord_of_nothing_to_flush layout6.hook hsave hnil hsearch
      rw [lookupMasterIndexSampledName_of_ok layout6.hook _ hsearch, hrecord, ExceptFold.ok_bind]
      refine ⟨⟨fun _ => ⟨_, rfl⟩, fun _ => ⟨_, rfl⟩⟩, ?_⟩
      intro triage mi6' record hlookup' hget' virtualChapter
      cases hlookup'
      cases hget'
      dsimp only
      rw [convertIndexToVirtual, getDeltaEntryValue_congr hentries]
      rcases hsame with rfl | ⟨hat, hat'⟩
      · split_ifs with hfound
        · simp only [hfound, decide_eq_true_eq, true_and]
          exact ⟨fun ⟨hhigh, hchapter⟩ => ⟨hchapter, hchapter ▸ hhigh⟩,
            fun ⟨hchapter, hhigh⟩ => ⟨hchapter ▸ hhigh, hchapter⟩⟩
        · simp [hfound]
      · simp [hat, hat']
    · have hsearch : getDeltaIndexEntry mi6.miHook.deltaIndex
          (extractDListNum layout6.hook masterIndexBytes mi6.miHook name)
          (extractAddress layout6.hook masterIndexBytes name) name = .error .corruptData := by
        simp [getDeltaIndexEntry, startDeltaIndexSearch, hlist]
      rw [lookupMasterIndexSampledName_of_error layout6.hook _ hsearch,
        getMasterIndexRecord_of_not_lt layout6.hook hlist, ExceptFold.error_bind]
      refine ⟨by simp, ?_⟩
      intro triage mi6' record h
      cases h

/-- A sparse index of two chapters in each sub-index, with sample rate 1, so
that every name is a hook. -/
def twoChapterSparseLayout : MasterIndex6Layout := ⟨twoChapterLayout, twoChapterLayout⟩

/-- The sparse index of two fresh one-list sub-indexes. -/
def oneListSparseIndex : MasterIndex6 ℕ := ⟨1, oneListMasterIndex, oneListMasterIndex⟩

theorem oneListSparseIndex_initial : MasterIndex6.Initial twoChapterSparseLayout oneListSparseIndex :=
  ⟨by decide, oneListMasterIndex_initial, oneListMasterIndex_initial⟩

/-- Name 0 is put in chapter 1, and the open chapter moves to 2, so the hook
list has a flush pending, of chapter index 0, and nothing to flush: the lookup
and `getMasterIndexRecord` both report chapter 1. -/
theorem lookupMasterIndexName_agrees_nothing_to_flush :
    ∃ mi6 : MasterIndex6 ℕ,
      Reachable (MasterIndex6.Initial twoChapterSparseLayout) (MasterIndex6Step id twoChapterSparseLayout id) mi6 ∧
      mi6.miHook.flushChapters 0 < (mi6.miHook.masterZones 0).virtualChapterLow ∧
      mi6.miHook.pendingFlushEntries twoChapterLayout 0 = [] ∧
      (lookupMasterIndexName id twoChapterSparseLayout id mi6 0).toOption = some ⟨1, 0, true, true⟩ ∧
      (getMasterIndexRecord6 id twoChapterSparseLayout id mi6 0).toOption.map
        (fun result => (result.2.isFound, result.2.virtualChapter)) = some (true, 1) ∧
      ((∀ triage, lookupMasterIndexName id twoChapterSparseLayout id mi6 0 = .ok triage →
        triage.isSample = (id 0 % mi6.sparseSampleRate == 0) ∧
          triage.zone = getMasterIndexZone6 id mi6 0) ∧
      (isMasterIndexSample id mi6 0 = false →
        lookupMasterIndexName id twoChapterSparseLayout id mi6 0 = .ok ⟨0, getMasterIndexZone6 id mi6 0, false, false⟩) ∧
      (isMasterIndexSample id mi6 0 = true →
        mi6.miHook.pendingFlushEntries twoChapterSparseLayout.hook
          (extractDListNum twoChapterSparseLayout.hook id mi6.miHook 0) = [] →
        ((∃ triage, lookupMasterIndexName id twoChapterSparseLayout id mi6 0 = .ok triage) ↔
          ∃ result, getMasterIndexRecord6 id twoChapterSparseLayout id mi6 0 = .ok result) ∧
        ∀ triage mi6' record, lookupMasterIndexName id twoChapterSparseLayout id mi6 0 = .ok triage →
          getMasterIndexRecord6 id twoChapterSparseLayout id mi6 0 = .ok (mi6', record) →
          ∀ virtualChapter, (triage.inSampledChapter = true ∧ triage.virtualChapter = virtualChapter ↔
            record.isFound = true ∧ record.virtualChapter = virtualChapter ∧
              virtualChapter ≤ (mi6.miHook.masterZones 0).virtualChapterHigh))) := by
  have hinit : Reachable (MasterIndex6.Initial twoChapterSparseLayout)
      (MasterIndex6Step id twoChapterSparseLayout id) oneListSparseIndex :=
    Reachable.init oneListSparseIndex_initial
  have hput := (hinit.tail (MasterIndex6Step.setOpenChapter _ 1 0 0)).tail
      (MasterIndex6Step.hook 0 (by decide) (MasterIndexRecordStep.put 1 true rfl))
  have hmoved := hput.tail (MasterIndex6Step.setOpenChapter _ 2 0 0)
  exact ⟨_, hmoved, by decide, by decide, by decide, by decide, lookupMasterIndexName_agrees hmoved 0⟩

/-- A volume of four chapters, so two bits of chapter index, whose names are
their own master index bytes with no address bits, and whose zone expires one
chapter early when its lists use more than no bits. -/
def fourChapterLayout : MasterIndex5Layout where
  addressBits := 0
  numChapters := 4
  numChapters_pos := by decide
  numChapters_lt := by decide
  maxZoneBits := 0
  chapterZoneBits := 2

/-- A master index of one delta list and four chapters as `makeMasterIndex005`
leaves it. -/
def fourChapterMasterIndex : MasterIndex5 ℕ :=
  { oneListMasterIndex with deltaIndex := ⟨1, 2, fun _ => DeltaList.empty, 0, 0⟩ }

def fourChapterSparseLayout : MasterIndex6Layout := ⟨fourChapterLayout, fourChapterLayout⟩

def fourChapterSparseIndex : MasterIndex6 ℕ := ⟨1, fourChapterMasterIndex, fourChapterMasterIndex⟩

theorem fourChapterSparseIndex_initial : MasterIndex6.Initial fourChapterSparseLayout fourChapterSparseIndex :=
  ⟨by decide, ⟨fun _ => rfl, by decide, rfl, fun _ => rfl, rfl⟩, ⟨fun _ => rfl, by decide, rfl, fun _ => rfl, rfl⟩⟩

/-- The lookup and `getMasterIndexRecord` disagree on expired entries, with a
flush pending and without. With two chapters, name 0 is put in chapter 1 while
the hook list's flush chapter is 0, and the open chapter then moves to 2 and 3:
the list has a flush pending that removes the entry, the lookup reads its index
1 as chapter 3, and `getMasterIndexRecord` flushes it and reports the name not
found. With four chapters, name 0 is put in chapter 3 and, once the zone
indexes chapters 1 to 4, name 1 in chapter 2, after the flush of
`getMasterIndexRecord` has moved the list's flush chapter to 3; the open
chapter then moves to 5 with one chapter expired early, so the zone indexes
chapters 3 to 5 with no flush pending. Name 1's entry, of the expired chapter
2, reads as chapter 6: `getMasterIndexRecord` reports it found there, and the
lookup refuses it. -/
theorem lookupMasterIndexName_disagrees_on_expired_entries :
    (∃ mi6 : MasterIndex6 ℕ,
      Reachable (MasterIndex6.Initial twoChapterSparseLayout) (MasterIndex6Step id twoChapterSparseLayout id) mi6 ∧
      (mi6.miHook.masterZones 0).virtualChapterLow = 2 ∧ mi6.miHook.flushChapters 0 = 0 ∧
      mi6.miHook.pendingFlushEntries twoChapterLayout 0 ≠ [] ∧
      (lookupMasterIndexName id twoChapterSparseLayout id mi6 0).toOption = some ⟨3, 0, true, true⟩ ∧
      (getMasterIndexRecord6 id twoChapterSparseLayout id mi6 0).toOption.map (fun result => result.2.isFound) =
        some false) ∧
    ∃ mi6 : MasterIndex6 ℕ,
      Reachable (MasterIndex6.Initial fourChapterSparseLayout) (MasterIndex6Step id fourChapterSparseLayout id) mi6 ∧
      (mi6.miHook.masterZones 0).virtualChapterLow = 3 ∧ (mi6.miHook.masterZones 0).virtualChapterHigh = 5 ∧
      mi6.miHook.flushChapters 0 = 3 ∧ mi6.miHook.pendingFlushEntries fourChapterLayout 0 = [] ∧
      (lookupMasterIndexName id fourChapterSparseLayout id mi6 1).toOption = some ⟨6, 0, true, false⟩ ∧
      (getMasterIndexRecord6 id fourChapterSparseLayout id mi6 1).toOption.map
        (fun result => (result.2.isFound, result.2.virtualChapter)) = some (true, 6) := by
  refine ⟨?_, ?_⟩
  · have hinit : Reachable (MasterIndex6.Initial twoChapterSparseLayout)
        (MasterIndex6Step id twoChapterSparseLayout id) oneListSparseIndex :=
      Reachable.init oneListSparseIndex_initial
    have hput := (hinit.tail (MasterIndex6Step.setOpenChapter _ 1 0 0)).tail
        (MasterIndex6Step.hook 0 (by decide) (MasterIndexRecordStep.put 1 true rfl))
    have hmoved := (hput.tail (MasterIndex6Step.setOpenChapter _ 2 0 0)).tail
      (MasterIndex6Step.setOpenChapter _ 3 0 0)
    exact ⟨_, hmoved, by decide, by decide, by decide, by decide, by decide⟩
  · have hinit : Reachable (MasterIndex6.Initial fourChapterSparseLayout)
        (MasterIndex6Step id fourChapterSparseLayout id) fourChapterSparseIndex :=
      Reachable.init fourChapterSparseIndex_initial
    have hfirst := (hinit.tail (MasterIndex6Step.setOpenChapter _ 3 0 0)).tail
        (MasterIndex6Step.hook 0 (by decide) (MasterIndexRecordStep.put 3 true rfl))
    have hsecond := (hfirst.tail (MasterIndex6Step.setOpenChapter _ 4 0 0)).tail
        (MasterIndex6Step.hook 1 (by decide) (MasterIndexRecordStep.put 2 true rfl))
    have hmoved := hsecond.tail (MasterIndex6Step.setOpenChapter _ 5 0 1)
    exact ⟨_, hmoved, by decide, by decide, by decide, by decide, by decide, by decide⟩

end Vdo.Uds
