import Vdo.Uds.MasterIndexFlush
import Vdo.Lib.Reachability

/-!
# Moving the open chapter back

When the open chapter moves back to `vc` within the zone's range and above
`chapterMask`, `removeNewestChapters` does not visit the lists: it lowers each
flush chapter to `vc - (chapterMask + 1)`, the chapter `2 ^ chapterBits` before
`vc`, whose index is that of `vc`. The next `getMasterIndexRecord` on a list
then flushes the chapters from there to the zone's lowest, which are those of
the slow path's range read modulo `2 ^ chapterBits`: the range starting at `vc`
with `chapterMask + 1 - (vc - low)` chapters. So on a list whose pending flush
is no older than `vc - (chapterMask + 1)`, the lazy flush leaves exactly what
the slow path would, the entries whose chapter reads as one of `low ..< vc`.

A list with an older pending flush keeps its older flush chapter, and its next
flush removes more than the slow path: `removeNewestChapters_lazy_flush_differs`
is a reachable index on which the two differ.

The span of the zone, fewer chapters than the volume has, holds in every
reachable state (`spanBelowVolume_of_reachable`); it is what keeps the
distance from `low` to `vc` below `2 ^ chapterBits`.
-/

namespace Vdo.Uds

open ModDist Reachability

variable {Name : Type} (layout : MasterIndex5Layout)

/-! ## What the record calls change -/

/-- `setMasterIndexRecordChapter` changes only the delta index. -/
theorem setMasterIndexRecordChapter_frame {mi5 mi5' : MasterIndex5 Name} {record record' : MasterIndexRecord Name}
    {virtualChapter : ℕ} (h : setMasterIndexRecordChapter layout mi5 record virtualChapter = .ok (mi5', record')) :
    ∃ deltaIndex, mi5' = { mi5 with deltaIndex } := by
  simp only [setMasterIndexRecordChapter] at h
  split_ifs at h
  obtain ⟨deltaIndex, -, hpure⟩ := ExceptFold.bind_eq_ok.mp h
  cases hpure
  exact ⟨deltaIndex, rfl⟩

/-- `removeMasterIndexRecord` changes only the delta index. -/
theorem removeMasterIndexRecord_frame {mi5 mi5' : MasterIndex5 Name} {record : MasterIndexRecord Name}
    (h : removeMasterIndexRecord mi5 record = .ok mi5') : ∃ deltaIndex, mi5' = { mi5 with deltaIndex } := by
  simp only [removeMasterIndexRecord] at h
  split_ifs at h
  obtain ⟨deltaIndex, -, hpure⟩ := ExceptFold.bind_eq_ok.mp h
  cases hpure
  exact ⟨deltaIndex, rfl⟩

/-- `putMasterIndexRecord` changes only the delta index. -/
theorem putMasterIndexRecord_frame (masterIndexBytes : Name → ℕ) (mi5 : MasterIndex5 Name)
    (record : MasterIndexRecord Name) (virtualChapter : ℕ) (room : Bool) :
    ∃ deltaIndex, (putMasterIndexRecord layout masterIndexBytes mi5 record virtualChapter room).1 =
      { mi5 with deltaIndex } := by
  simp only [putMasterIndexRecord]
  split_ifs <;> exact ⟨_, rfl⟩

variable [DecidableEq Name]

/-- `getMasterIndexRecord` on a list whose flush chapter is below the zone:
the flush of `getMasterIndexEntry`, then the new flush chapter. -/
theorem getMasterIndexRecord_of_flush {masterIndexBytes : Name → ℕ} {mi5 mi5' : MasterIndex5 Name}
    {name : Name} {deltaEntry : DeltaIndexEntry} {chapterRange : ChapterRange}
    (hflush : mi5.flushChapters (extractDListNum layout masterIndexBytes mi5 name) <
      (mi5.masterZones 0).virtualChapterLow)
    (hentry : getMasterIndexEntry layout mi5 (extractDListNum layout masterIndexBytes mi5 name)
      (extractAddress layout masterIndexBytes name) name
      ⟨convertVirtualToIndex layout (mi5.flushChapters (extractDListNum layout masterIndexBytes mi5 name)),
        if (mi5.masterZones 0).virtualChapterLow -
            mi5.flushChapters (extractDListNum layout masterIndexBytes mi5 name) > layout.chapterMask
          then layout.chapterMask + 1
          else (mi5.masterZones 0).virtualChapterLow -
            mi5.flushChapters (extractDListNum layout masterIndexBytes mi5 name)⟩ =
      .ok (mi5', deltaEntry, chapterRange)) :
    ∃ record, getMasterIndexRecord layout masterIndexBytes mi5 name =
      .ok ({ mi5' with
        flushChapters := Function.update mi5'.flushChapters (extractDListNum layout masterIndexBytes mi5 name)
          (min (convertIndexToVirtual layout (mi5.masterZones 0) chapterRange.chapterStart)
            (mi5.masterZones 0).virtualChapterHigh) }, record) := by
  simp only [getMasterIndexRecord, if_pos hflush, hentry, ExceptFold.ok_bind]
  exact ⟨_, rfl⟩

/-- `getMasterIndexRecord` fails on a name whose list is not one of the index. -/
theorem getMasterIndexRecord_of_not_lt {masterIndexBytes : Name → ℕ} {mi5 : MasterIndex5 Name} {name : Name}
    (hlist : ¬ extractDListNum layout masterIndexBytes mi5 name < mi5.deltaIndex.numLists) :
    getMasterIndexRecord layout masterIndexBytes mi5 name = .error .corruptData := by
  by_cases hflush : mi5.flushChapters (extractDListNum layout masterIndexBytes mi5 name) <
      (mi5.masterZones 0).virtualChapterLow
  · simp only [getMasterIndexRecord, if_pos hflush]
    rw [getMasterIndexEntry_of_not_lt layout _ _ _ hlist, ExceptFold.error_bind]
  · simp [getMasterIndexRecord, if_neg hflush, getDeltaIndexEntry, startDeltaIndexSearch, hlist]

/-- `getMasterIndexRecord` changes only the delta index and the flush chapters. -/
theorem getMasterIndexRecord_frame {masterIndexBytes : Name → ℕ} {mi5 mi5' : MasterIndex5 Name} {name : Name}
    {record : MasterIndexRecord Name}
    (h : getMasterIndexRecord layout masterIndexBytes mi5 name = .ok (mi5', record)) :
    ∃ deltaIndex flushChapters, mi5' = { mi5 with deltaIndex, flushChapters } := by
  dsimp only [getMasterIndexRecord] at h
  by_cases hflush : mi5.flushChapters (extractDListNum layout masterIndexBytes mi5 name) <
      (mi5.masterZones 0).virtualChapterLow
  · rw [if_pos hflush] at h
    obtain ⟨⟨flushed, found, chapterRange⟩, hentry, hrest⟩ := ExceptFold.bind_eq_ok.mp h
    obtain ⟨deltaIndex, rfl⟩ := getMasterIndexEntry_frame layout hentry
    cases hrest
    exact ⟨deltaIndex, _, rfl⟩
  · rw [if_neg hflush] at h
    obtain ⟨⟨deltaIndex, found⟩, -, hrest⟩ := ExceptFold.bind_eq_ok.mp h
    cases hrest
    exact ⟨deltaIndex, mi5.flushChapters, rfl⟩

/-! ## The span of the zone -/

/-- The zone indexes fewer chapters than the volume has. -/
def MasterIndex5.SpanBelowVolume (mi5 : MasterIndex5 Name) : Prop :=
  (mi5.masterZones 0).virtualChapterHigh - (mi5.masterZones 0).virtualChapterLow < layout.numChapters

/-- Every branch of `setMasterIndexZoneOpenChapter_005` keeps the span below
the volume: a forward move keeps at most `numChapters - 1` chapters before the
new one, and a backward one only shortens the range. -/
theorem moveOpenChapter_span [Inhabited Name] (mi5 : MasterIndex5 Name) (virtualChapter : ℕ)
    (hspan : mi5.SpanBelowVolume layout) :
    (moveOpenChapter layout mi5 virtualChapter).2.2 - (moveOpenChapter layout mi5 virtualChapter).2.1 <
      layout.numChapters := by
  have hpos := layout.numChapters_pos
  rw [MasterIndex5.SpanBelowVolume] at hspan
  simp only [moveOpenChapter]
  split_ifs <;> dsimp only <;> omega

theorem expireEarly_virtualChapterHigh (masterZone : MasterIndexZone) (usedBits : ℕ) :
    (expireEarly layout masterZone usedBits).virtualChapterHigh = masterZone.virtualChapterHigh := by
  simp only [expireEarly]
  split_ifs <;> rfl

theorem le_expireEarly_virtualChapterLow (masterZone : MasterIndexZone) (usedBits : ℕ) :
    masterZone.virtualChapterLow ≤ (expireEarly layout masterZone usedBits).virtualChapterLow := by
  simp only [expireEarly]
  split_ifs with hexpire
  · exact Nat.le_succ _
  · exact Nat.le_add_right _ _
  · exact hexpire.1.le
  · exact le_rfl

theorem setMasterIndexZoneOpenChapter_zone [Inhabited Name] (mi5 : MasterIndex5 Name) (virtualChapter usedBits : ℕ) :
    (setMasterIndexZoneOpenChapter layout mi5 virtualChapter usedBits).masterZones 0 =
      expireEarly layout { mi5.masterZones 0 with
        virtualChapterLow := (moveOpenChapter layout mi5 virtualChapter).2.1
        virtualChapterHigh := (moveOpenChapter layout mi5 virtualChapter).2.2 } usedBits := by
  rcases hmove : moveOpenChapter layout mi5 virtualChapter with ⟨moved, low, high⟩
  simp [setMasterIndexZoneOpenChapter, hmove]

/-! ## The fast path and the lazy flush -/

/-- A backward move within the range and above `chapterMask`, with no early
flush due, lowers the flush chapters of the lists and brings the zone's highest
chapter down to `vc`; the lists themselves are left alone. -/
theorem setMasterIndexZoneOpenChapter_of_fast_path [Inhabited Name] {mi5 : MasterIndex5 Name}
    {virtualChapter usedBits : ℕ} (hlow : (mi5.masterZones 0).virtualChapterLow < virtualChapter)
    (hhigh : virtualChapter ≤ (mi5.masterZones 0).virtualChapterHigh)
    (hmask : layout.chapterMask < virtualChapter) (hbits : usedBits ≤ layout.maxZoneBits) :
    setMasterIndexZoneOpenChapter layout mi5 virtualChapter usedBits =
      { mi5 with
        flushChapters := fun i =>
          if i < mi5.deltaIndex.numLists ∧ virtualChapter - (layout.chapterMask + 1) < mi5.flushChapters i
          then virtualChapter - (layout.chapterMask + 1) else mi5.flushChapters i
        masterZones :=
          Function.update mi5.masterZones 0 { mi5.masterZones 0 with virtualChapterHigh := virtualChapter } } := by
  have hmove : moveOpenChapter layout mi5 virtualChapter =
      (removeNewestChapters layout mi5 virtualChapter, (mi5.masterZones 0).virtualChapterLow, virtualChapter) := by
    simp only [moveOpenChapter, if_neg (Nat.not_le.mpr hlow), if_pos hhigh]
  have hexpire : expireEarly layout { mi5.masterZones 0 with virtualChapterHigh := virtualChapter } usedBits =
      { mi5.masterZones 0 with virtualChapterHigh := virtualChapter } := by
    rw [expireEarly, if_neg (by omega)]
  simp only [setMasterIndexZoneOpenChapter, hmove, removeNewestChapters, if_pos hmask]
  rw [hexpire]

/-- The slow path's range keeps the chapter indexes that read as a chapter of
`low ..< vc`: moving the origin of the distance from `low` to `vc` wraps exactly
those round past the range's count. -/
theorem slowRange_keeps_iff {low virtualChapter : ℕ} (hlow : low < virtualChapter)
    (hwithin : virtualChapter - low ≤ 2 ^ layout.chapterBits) (indexChapter : ℕ) :
    layout.chapterMask + 1 - (virtualChapter - low) ≤
        rollingChapter layout indexChapter (convertVirtualToIndex layout virtualChapter) ↔
      rollingChapter layout indexChapter low < virtualChapter - low := by
  have hvc : virtualChapter = low + (virtualChapter - low) := by omega
  rw [layout.chapterMask_add_one, rollingChapter_eq_modDist, rollingChapter_eq_modDist, convertVirtualToIndex,
    modDist_mod_right, hvc, Nat.add_sub_cancel_left]
  exact sub_le_modDist_add_iff hwithin (Nat.two_pow_pos _)

section Reachable

variable [Inhabited Name] {masterIndexBytes : Name → ℕ}

/-- The step lemma of the span: moving the open chapter keeps it, and the
record calls leave the zone alone. -/
theorem MasterIndex5.SpanBelowVolume.step {mi5 mi5' : MasterIndex5 Name} (hspan : mi5.SpanBelowVolume layout)
    (hstep : MasterIndexStep layout masterIndexBytes mi5 mi5') : mi5'.SpanBelowVolume layout := by
  cases hstep with
  | setOpenChapter virtualChapter usedBits =>
    have hmove := moveOpenChapter_span layout mi5 virtualChapter hspan
    have hlow := le_expireEarly_virtualChapterLow layout { mi5.masterZones 0 with
      virtualChapterLow := (moveOpenChapter layout mi5 virtualChapter).2.1
      virtualChapterHigh := (moveOpenChapter layout mi5 virtualChapter).2.2 } usedBits
    rw [MasterIndex5.SpanBelowVolume, setMasterIndexZoneOpenChapter_zone, expireEarly_virtualChapterHigh]
    dsimp only at hlow ⊢
    omega
  | get name hget =>
    obtain ⟨deltaIndex, flushChapters, rfl⟩ := getMasterIndexRecord_frame layout hget
    exact hspan
  | put name virtualChapter room hget =>
    obtain ⟨deltaIndex, flushChapters, rfl⟩ := getMasterIndexRecord_frame layout hget
    obtain ⟨deltaIndex', hput⟩ := putMasterIndexRecord_frame layout masterIndexBytes
      { mi5 with deltaIndex, flushChapters } _ virtualChapter room
    rw [hput]
    exact hspan
  | setChapter name virtualChapter hget hset =>
    obtain ⟨deltaIndex, flushChapters, rfl⟩ := getMasterIndexRecord_frame layout hget
    obtain ⟨deltaIndex', rfl⟩ := setMasterIndexRecordChapter_frame layout hset
    exact hspan
  | remove name hget hremove =>
    obtain ⟨deltaIndex, flushChapters, rfl⟩ := getMasterIndexRecord_frame layout hget
    obtain ⟨deltaIndex', rfl⟩ := removeMasterIndexRecord_frame hremove
    exact hspan

theorem spanBelowVolume_of_reachable {mi5 : MasterIndex5 Name}
    (hreach : Reachable (MasterIndex5.Initial layout) (MasterIndexStep layout masterIndexBytes) mi5) :
    mi5.SpanBelowVolume layout :=
  hreach.invariant
    (fun s hs => by
      rw [MasterIndex5.SpanBelowVolume, hs.2.2.2.2]
      exact layout.numChapters_pos)
    (fun _ _ hspan hstep => hspan.step layout hstep)

/-- After the fast path, on a list whose pending flush is no older than
`vc - (chapterMask + 1)`, the next `getMasterIndexRecord` flushes the list of
the very range the slow path gives `getMasterIndexEntry`, and both leave the
entries whose chapter reads as one of `low ..< vc`. -/
theorem removeNewestChapters_lazy_flush (masterIndexBytes : Name → ℕ) {mi5 : MasterIndex5 Name}
    {virtualChapter usedBits : ℕ} (name : Name)
    (hreach : Reachable (MasterIndex5.Initial layout) (MasterIndexStep layout masterIndexBytes) mi5)
    (hlow : (mi5.masterZones 0).virtualChapterLow < virtualChapter)
    (hhigh : virtualChapter ≤ (mi5.masterZones 0).virtualChapterHigh)
    (hmask : layout.chapterMask < virtualChapter) (hbits : usedBits ≤ layout.maxZoneBits)
    (hpending : virtualChapter - (layout.chapterMask + 1) ≤
      mi5.flushChapters (extractDListNum layout masterIndexBytes mi5 name)) :
    (getMasterIndexRecord layout masterIndexBytes (setMasterIndexZoneOpenChapter layout mi5 virtualChapter usedBits)
        name).toOption.map
        (fun result => (result.1.deltaIndex.deltaLists (extractDListNum layout masterIndexBytes mi5 name)).entries) =
      (getMasterIndexEntry layout mi5 (extractDListNum layout masterIndexBytes mi5 name) 0 default
          ⟨convertVirtualToIndex layout virtualChapter,
            layout.chapterMask + 1 - (virtualChapter - (mi5.masterZones 0).virtualChapterLow)⟩).toOption.map
        (fun result => (result.1.deltaIndex.deltaLists (extractDListNum layout masterIndexBytes mi5 name)).entries) ∧
    ∀ fast record, getMasterIndexRecord layout masterIndexBytes
        (setMasterIndexZoneOpenChapter layout mi5 virtualChapter usedBits) name = .ok (fast, record) →
      keyedValues 0 (fast.deltaIndex.deltaLists (extractDListNum layout masterIndexBytes mi5 name)).entries =
        (keyedValues 0 (mi5.deltaIndex.deltaLists (extractDListNum layout masterIndexBytes mi5 name)).entries).filter
          fun pair => rollingChapter layout pair.2 (mi5.masterZones 0).virtualChapterLow <
            virtualChapter - (mi5.masterZones 0).virtualChapterLow := by
  have hspan := spanBelowVolume_of_reachable layout hreach
  rw [MasterIndex5.SpanBelowVolume] at hspan
  have hvolume := layout.numChapters_le_two_pow_chapterBits
  have hmaskOne := layout.chapterMask_add_one
  have hwithin : virtualChapter - (mi5.masterZones 0).virtualChapterLow ≤ 2 ^ layout.chapterBits := by omega
  obtain ⟨moved, hmoved⟩ : ∃ moved, setMasterIndexZoneOpenChapter layout mi5 virtualChapter usedBits = moved :=
    ⟨_, rfl⟩
  have hfastPath := setMasterIndexZoneOpenChapter_of_fast_path layout hlow hhigh hmask hbits
  rw [hmoved] at hfastPath
  rw [hmoved]
  have hnum : extractDListNum layout masterIndexBytes moved name = extractDListNum layout masterIndexBytes mi5 name :=
    by rw [hfastPath]; rfl
  by_cases hlist : extractDListNum layout masterIndexBytes mi5 name < mi5.deltaIndex.numLists
  · have hflushChapter : moved.flushChapters (extractDListNum layout masterIndexBytes moved name) =
        virtualChapter - (layout.chapterMask + 1) := by
      rw [hnum, hfastPath]
      dsimp only
      split_ifs with hlower
      · rfl
      · omega
    have hmovedLow : (moved.masterZones 0).virtualChapterLow = (mi5.masterZones 0).virtualChapterLow := by
      rw [hfastPath]
      simp
    have hrange : (⟨convertVirtualToIndex layout (virtualChapter - (layout.chapterMask + 1)),
        if (mi5.masterZones 0).virtualChapterLow - (virtualChapter - (layout.chapterMask + 1)) > layout.chapterMask
          then layout.chapterMask + 1
          else (mi5.masterZones 0).virtualChapterLow - (virtualChapter - (layout.chapterMask + 1))⟩ :
          ChapterRange) =
        ⟨convertVirtualToIndex layout virtualChapter,
          layout.chapterMask + 1 - (virtualChapter - (mi5.masterZones 0).virtualChapterLow)⟩ := by
      rw [if_neg (by omega), convertVirtualToIndex, convertVirtualToIndex, ← hmaskOne,
        ← Nat.mod_eq_sub_mod (by omega)]
      congr 1
      omega
    obtain ⟨fastIndex, fastEntry, fastRange, hfastEntry, hfastEntries⟩ :=
      @getMasterIndexEntry_ok _ _ layout moved _ (extractAddress layout masterIndexBytes name) name
        ⟨convertVirtualToIndex layout virtualChapter,
          layout.chapterMask + 1 - (virtualChapter - (mi5.masterZones 0).virtualChapterLow)⟩
        (by rw [hfastPath]; exact hlist)
    obtain ⟨record, hrecord⟩ := @getMasterIndexRecord_of_flush _ layout _ masterIndexBytes moved _ name _ _
      (by rw [hflushChapter, hmovedLow]; omega)
      (by rw [hflushChapter, hmovedLow, hrange, hnum]; exact hfastEntry)
    obtain ⟨slowIndex, slowEntry, slowRange, hslowEntry, hslowEntries⟩ :=
      getMasterIndexEntry_ok layout (0 : ℕ) (default : Name)
        ⟨convertVirtualToIndex layout virtualChapter,
          layout.chapterMask + 1 - (virtualChapter - (mi5.masterZones 0).virtualChapterLow)⟩ hlist
    have hdelta : moved.deltaIndex = mi5.deltaIndex := by rw [hfastPath]
    rw [hdelta] at hfastEntries
    refine ⟨?_, ?_⟩
    · rw [hrecord, hslowEntry]
      exact congrArg some (hfastEntries.trans hslowEntries.symm)
    · intro fast record' hfast
      rw [hrecord] at hfast
      cases hfast
      show keyedValues 0 (fastIndex.deltaLists (extractDListNum layout masterIndexBytes mi5 name)).entries = _
      rw [hfastEntries, keyedValues_flushDeltaList layout _ _ _ _ 0 _ (by omega), List.take_zero,
        List.drop_zero, List.nil_append]
      exact List.filter_congr fun pair _ =>
        decide_eq_decide.mpr (slowRange_keeps_iff layout hlow hwithin pair.2)
  · rw [getMasterIndexRecord_of_not_lt layout (by rw [hnum, hfastPath]; exact hlist),
      getMasterIndexEntry_of_not_lt layout _ _ _ hlist]
    refine ⟨rfl, ?_⟩
    intro fast record hfast
    cases hfast

end Reachable

/-! ## A master index of two chapters -/

/-- A volume of two chapters, so one bit of chapter index, whose names are
their own master index bytes with no address bits. -/
def twoChapterLayout : MasterIndex5Layout where
  addressBits := 0
  numChapters := 2
  numChapters_pos := by decide
  numChapters_lt := by decide
  maxZoneBits := 0
  chapterZoneBits := 1

/-- A master index of one delta list as `makeMasterIndex005` leaves it. -/
def oneListMasterIndex : MasterIndex5 ℕ where
  deltaIndex := ⟨1, 1, fun _ => DeltaList.empty, 0, 0⟩
  flushChapters := fun _ => 0
  masterZones := fun _ => ⟨0, 0, 0⟩
  volumeNonce := 0
  numDeltaLists := 1
  numZones := 1

theorem oneListMasterIndex_initial : MasterIndex5.Initial twoChapterLayout oneListMasterIndex :=
  ⟨fun _ => rfl, by decide, rfl, fun _ => rfl, rfl⟩

/-- Name 0 is put in chapter 1 and name 5, colliding with it, in chapter 2.
Moving the open chapter back to 2 drops chapter 2's entry from the list and
keeps chapter 1's. -/
theorem removeNewestChapters_lazy_flush_two_entries :
    ∃ mi5 : MasterIndex5 ℕ,
      Reachable (MasterIndex5.Initial twoChapterLayout) (MasterIndexStep twoChapterLayout id) mi5 ∧
      (mi5.deltaIndex.deltaLists 0).entries = [⟨0, 1, none⟩, ⟨0, 0, some 5⟩] ∧
      (mi5.masterZones 0).virtualChapterLow < 2 ∧ 2 ≤ (mi5.masterZones 0).virtualChapterHigh ∧
      twoChapterLayout.chapterMask < 2 ∧ 0 ≤ twoChapterLayout.maxZoneBits ∧
      2 - (twoChapterLayout.chapterMask + 1) ≤ mi5.flushChapters (extractDListNum twoChapterLayout id mi5 0) ∧
      ((getMasterIndexRecord twoChapterLayout id (setMasterIndexZoneOpenChapter twoChapterLayout mi5 2 0)
          0).toOption.map
          (fun result => (result.1.deltaIndex.deltaLists (extractDListNum twoChapterLayout id mi5 0)).entries) =
        (getMasterIndexEntry twoChapterLayout mi5 (extractDListNum twoChapterLayout id mi5 0) 0
            default ⟨convertVirtualToIndex twoChapterLayout 2,
              twoChapterLayout.chapterMask + 1 - (2 - (mi5.masterZones 0).virtualChapterLow)⟩).toOption.map
          (fun result => (result.1.deltaIndex.deltaLists (extractDListNum twoChapterLayout id mi5 0)).entries) ∧
      ∀ fast record, getMasterIndexRecord twoChapterLayout id
          (setMasterIndexZoneOpenChapter twoChapterLayout mi5 2 0) 0 = .ok (fast, record) →
        keyedValues 0 (fast.deltaIndex.deltaLists (extractDListNum twoChapterLayout id mi5 0)).entries =
          (keyedValues 0 (mi5.deltaIndex.deltaLists (extractDListNum twoChapterLayout id mi5 0)).entries).filter
            fun pair => rollingChapter twoChapterLayout pair.2 (mi5.masterZones 0).virtualChapterLow <
              2 - (mi5.masterZones 0).virtualChapterLow) := by
  have hfirst := ((@Reachable.init _ _ (MasterIndexStep twoChapterLayout id) _ oneListMasterIndex_initial).tail
    (MasterIndexStep.setOpenChapter _ 1 0)).tail (MasterIndexStep.put 0 1 true rfl)
  have hreach := (hfirst.tail (MasterIndexStep.setOpenChapter _ 2 0)).tail (MasterIndexStep.put 5 2 true rfl)
  exact ⟨_, hreach, by decide, by decide, by decide, by decide, Nat.zero_le _, by decide,
    removeNewestChapters_lazy_flush twoChapterLayout id 0 hreach (by decide) (by decide) (by decide)
      (Nat.zero_le _) (by decide)⟩

/-- A list with an older pending flush: chapter 1's entry is put while the flush
chapter is 0, and the zone moves on to chapters 3 and 4 without a search of the
list. Moving the open chapter back to 4 leaves the flush chapter at 0, below
`4 - (chapterMask + 1) = 2`, so the next `getMasterIndexRecord` flushes both
chapter indexes and empties the list, while the slow path's range, index 0
alone, keeps the entry, whose index 1 reads as chapter 3. -/
theorem removeNewestChapters_lazy_flush_differs :
    ∃ mi5 : MasterIndex5 ℕ, Reachable (MasterIndex5.Initial twoChapterLayout) (MasterIndexStep twoChapterLayout id) mi5 ∧
      (mi5.masterZones 0).virtualChapterLow < 4 ∧ 4 ≤ (mi5.masterZones 0).virtualChapterHigh ∧
      twoChapterLayout.chapterMask < 4 ∧ mi5.flushChapters 0 < 4 - (twoChapterLayout.chapterMask + 1) ∧
      (getMasterIndexRecord twoChapterLayout id (setMasterIndexZoneOpenChapter twoChapterLayout mi5 4 0) 0).toOption.map
          (fun result => (result.1.deltaIndex.deltaLists (extractDListNum twoChapterLayout id mi5 0)).entries) =
        some [] ∧
      (getMasterIndexEntry twoChapterLayout mi5 (extractDListNum twoChapterLayout id mi5 0) 0 default
          ⟨convertVirtualToIndex twoChapterLayout 4,
            twoChapterLayout.chapterMask + 1 - (4 - (mi5.masterZones 0).virtualChapterLow)⟩).toOption.map
          (fun result => (result.1.deltaIndex.deltaLists (extractDListNum twoChapterLayout id mi5 0)).entries) =
        some [⟨0, 1, none⟩] := by
  have hput := ((@Reachable.init _ _ (MasterIndexStep twoChapterLayout id) _ oneListMasterIndex_initial).tail
    (MasterIndexStep.setOpenChapter _ 1 0)).tail (MasterIndexStep.put 0 1 true rfl)
  have hmoved := ((hput.tail (MasterIndexStep.setOpenChapter _ 2 0)).tail
    (MasterIndexStep.setOpenChapter _ 3 0)).tail (MasterIndexStep.setOpenChapter _ 4 0)
  exact ⟨_, hmoved, by decide, by decide, by decide, by decide, by decide, by decide⟩

end Vdo.Uds
