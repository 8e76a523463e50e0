import Vdo.Uds.MasterIndexBackwards

/-!
# Sound search points in every reachable master index

`getDeltaIndexEntry` starts at a list's saved search point when the key sought
lies past it, so it finds the right entry only when the point is sound: an
offset of the list, saved with the key before it (`DeltaList.SavePoint`).
Every call that changes a master index keeps every list's point sound
(`savePoints_of_reachable`): a search saves the point it stopped at, a removal
before the point forgets it, and an insertion or a change of value at or after
it leaves the keys before it alone.

With sound points the entry a search finds depends only on the entries of the
list (`getDeltaIndexEntry_eq_or_atEnd`), and a flush that removes nothing
leaves the index as it was (`flushDeltaList_of_forall_kept`).
-/

namespace Vdo.Uds

open Reachability

variable {Name : Type}

/-! ## Keys before an offset -/

theorem keyBefore_eq_sum (entries : List (DeltaEntry Name)) (offset : ℕ) :
    keyBefore entries offset = ((entries.take offset).map DeltaEntry.delta).sum := by
  induction entries generalizing offset with
  | nil => cases offset <;> rfl
  | cons entry rest ih =>
    cases offset with
    | zero => rfl
    | succ offset => simp [ih]

theorem take_eq_of_take_eq {entries entries' : List (DeltaEntry Name)} {length offset : ℕ}
    (htake : entries'.take length = entries.take length) (hoffset : offset ≤ length) :
    entries'.take offset = entries.take offset :=
  calc entries'.take offset = (entries'.take length).take offset := by
        rw [List.take_take, Nat.min_eq_left hoffset]
    _ = (entries.take length).take offset := by rw [htake]
    _ = entries.take offset := by rw [List.take_take, Nat.min_eq_left hoffset]

/-- Lists that agree up to `length` have the same key before every offset up to
it. -/
theorem keyBefore_of_take_eq {entries entries' : List (DeltaEntry Name)} {length offset : ℕ}
    (htake : entries'.take length = entries.take length) (hoffset : offset ≤ length) :
    keyBefore entries' offset = keyBefore entries offset := by
  rw [keyBefore_eq_sum, keyBefore_eq_sum, take_eq_of_take_eq htake hoffset]

/-- A change of values leaves every key alone. -/
theorem keyBefore_modify {f : DeltaEntry Name → DeltaEntry Name} (hf : ∀ entry, (f entry).delta = entry.delta)
    (entries : List (DeltaEntry Name)) (index offset : ℕ) :
    keyBefore (entries.modify index f) offset = keyBefore entries offset := by
  induction entries generalizing index offset with
  | nil => simp
  | cons entry rest ih =>
    cases offset with
    | zero => simp
    | succ offset =>
      cases index with
      | zero => simp [hf]
      | succ index => simp [ih]

theorem keyIndex_le_length (key start : ℕ) (entries : List (DeltaEntry Name)) :
    keyIndex key start entries ≤ entries.length := by
  induction entries generalizing start with
  | nil => exact Nat.zero_le _
  | cons entry rest ih =>
    rw [keyIndex]
    split_ifs
    · exact Nat.zero_le _
    · exact Nat.succ_le_succ (ih _)

/-! ## Sound search points -/

/-- A list whose search point, and the key before that offset, are unchanged,
and which is still long enough, keeps the point sound. -/
theorem DeltaList.SavePoint.of_keyBefore_eq {deltaList deltaList' : DeltaList Name} (hsave : deltaList.SavePoint)
    (hkey : deltaList'.saveKey = deltaList.saveKey) (hoffset : deltaList'.saveOffset = deltaList.saveOffset)
    (hkeys : keyBefore deltaList'.entries deltaList.saveOffset = keyBefore deltaList.entries deltaList.saveOffset)
    (hlength : deltaList.saveOffset ≤ deltaList'.entries.length) : deltaList'.SavePoint :=
  ⟨hoffset ▸ hlength, by rw [hkey, hoffset, hkeys, hsave.saveKey_eq]⟩

theorem DeltaList.savePoint_empty : (DeltaList.empty : DeltaList Name).SavePoint :=
  ⟨le_rfl, rfl⟩

theorem DeltaList.savePoint_saveAt (deltaList : DeltaList Name) {offset : ℕ}
    (h : offset ≤ deltaList.entries.length) : (deltaList.saveAt offset).SavePoint :=
  ⟨h, rfl⟩

theorem DeltaList.savePoint_reset (entries : List (DeltaEntry Name)) :
    (⟨entries, 0, 0⟩ : DeltaList Name).SavePoint :=
  ⟨Nat.zero_le _, (keyBefore_zero _).symm⟩

/-- Every list of the index has a sound search point. -/
def DeltaIndex.SavePoints (deltaIndex : DeltaIndex Name) : Prop :=
  ∀ listNumber, (deltaIndex.deltaLists listNumber).SavePoint

theorem DeltaIndex.SavePoints.setList {deltaIndex : DeltaIndex Name} (h : deltaIndex.SavePoints)
    {listNumber : ℕ} {deltaList : DeltaList Name} (hlist : deltaList.SavePoint) :
    (deltaIndex.setList listNumber deltaList).SavePoints := by
  intro listNumber'
  by_cases hsame : listNumber' = listNumber
  · subst hsame
    simpa [DeltaIndex.setList] using hlist
  · simpa [DeltaIndex.setList, hsame] using h listNumber'

/-- Replacing a list by one of the same entries leaves the entries of every
list as they were. -/
theorem DeltaIndex.setList_entries {deltaIndex : DeltaIndex Name} {listNumber : ℕ} {deltaList : DeltaList Name}
    (h : deltaList.entries = (deltaIndex.deltaLists listNumber).entries) (listNumber' : ℕ) :
    ((deltaIndex.setList listNumber deltaList).deltaLists listNumber').entries =
      (deltaIndex.deltaLists listNumber').entries := by
  by_cases hsame : listNumber' = listNumber
  · subst hsame
    simpa [DeltaIndex.setList] using h
  · simp [DeltaIndex.setList, hsame]

/-! ## Cursors -/

/-- A cursor on an entry of a list, or past its end: its offset is one of the
list's, and its key is the key before that offset plus its delta. -/
structure DeltaIndexEntry.On (entries : List (DeltaEntry Name)) (deltaEntry : DeltaIndexEntry) : Prop where
  offset_le : deltaEntry.offset ≤ entries.length
  key_eq : deltaEntry.key = keyBefore entries deltaEntry.offset + deltaEntry.delta

theorem DeltaIndexEntry.on_decoded {entries : List (DeltaEntry Name)} {listNumber offset : ℕ}
    {entry : DeltaEntry Name} (h : entries[offset]? = some entry) :
    (DeltaIndexEntry.decoded entries listNumber offset entry).On entries :=
  ⟨(List.getElem?_eq_some_iff.mp h).1.le, rfl⟩

theorem DeltaIndexEntry.AtEnd.on {entries : List (DeltaEntry Name)} {listNumber : ℕ}
    {deltaEntry : DeltaIndexEntry} (h : deltaEntry.AtEnd entries listNumber) : deltaEntry.On entries :=
  ⟨h.offset_eq.le, by rw [h.key_eq, h.offset_eq, h.delta_eq, Nat.add_zero]⟩

theorem SearchedTo.on {entries : List (DeltaEntry Name)} {listNumber offset : ℕ} {deltaEntry : DeltaIndexEntry}
    (h : SearchedTo entries listNumber offset deltaEntry) :
    deltaEntry.listNumber = listNumber ∧ deltaEntry.On entries := by
  rcases h with ⟨entry, hentry, rfl⟩ | ⟨-, hat⟩
  · exact ⟨rfl, DeltaIndexEntry.on_decoded hentry⟩
  · exact ⟨hat.listNumber_eq, hat.on⟩

/-- Two searches of the same entries stop on the same cursor, or both past the
end. -/
theorem SearchedTo.eq_or_atEnd {entries : List (DeltaEntry Name)} {listNumber offset : ℕ}
    {first second : DeltaIndexEntry} (hfirst : SearchedTo entries listNumber offset first)
    (hsecond : SearchedTo entries listNumber offset second) :
    first = second ∨ first.atEnd = true ∧ second.atEnd = true := by
  rcases hfirst with ⟨entry, hentry, rfl⟩ | ⟨hend, hat⟩
  · rcases hsecond with ⟨entry', hentry', rfl⟩ | ⟨hend', -⟩
    · rw [hentry] at hentry'
      cases hentry'
      exact Or.inl rfl
    · have hlt := (List.getElem?_eq_some_iff.mp hentry).1
      omega
  · rcases hsecond with ⟨entry', hentry', rfl⟩ | ⟨-, hat'⟩
    · have hlt := (List.getElem?_eq_some_iff.mp hentry').1
      omega
    · exact Or.inr ⟨hat.atEnd_eq, hat'.atEnd_eq⟩

section Collision

variable [DecidableEq Name]

theorem CollisionResult.on {entries : List (DeltaEntry Name)} {listNumber offset : ℕ} {name : Name}
    {found result : DeltaIndexEntry} (h : CollisionResult entries listNumber offset name found result)
    (hfound : found.listNumber = listNumber ∧ found.On entries) :
    result.listNumber = listNumber ∧ result.On entries := by
  rcases h with ⟨-, rfl⟩ | ⟨index, entry, -, hentry, rfl⟩
  · exact hfound
  · exact ⟨rfl, DeltaIndexEntry.on_decoded hentry⟩

theorem CollisionResult.unique {entries : List (DeltaEntry Name)} {listNumber offset : ℕ} {name : Name}
    {found first second : DeltaIndexEntry} (hfirst : CollisionResult entries listNumber offset name found first)
    (hsecond : CollisionResult entries listNumber offset name found second) : first = second := by
  rcases hfirst with ⟨hnone, rfl⟩ | ⟨index, entry, hindex, hentry, rfl⟩
  · rcases hsecond with ⟨-, rfl⟩ | ⟨index', entry', hindex', -, -⟩
    · rfl
    · rw [hnone] at hindex'
      cases hindex'
  · rcases hsecond with ⟨hnone', -⟩ | ⟨index', entry', hindex', hentry', rfl⟩
    · rw [hnone'] at hindex
      cases hindex
    · rw [hindex] at hindex'
      cases hindex'
      rw [hentry] at hentry'
      cases hentry'
      rfl

end Collision

/-! ## Searching -/

section Search

variable [DecidableEq Name]

theorem lt_numLists_of_getDeltaIndexEntry {deltaIndex deltaIndex' : DeltaIndex Name} {listNumber key : ℕ}
    {name : Name} {deltaEntry : DeltaIndexEntry}
    (h : getDeltaIndexEntry deltaIndex listNumber key name = .ok (deltaIndex', deltaEntry)) :
    listNumber < deltaIndex.numLists := by
  by_contra hlist
  simp [getDeltaIndexEntry, startDeltaIndexSearch, hlist] at h

/-- A search leaves every point sound and ends on a cursor of the list it
searched. -/
theorem DeltaIndex.SavePoints.getDeltaIndexEntry {deltaIndex deltaIndex' : DeltaIndex Name}
    {listNumber key : ℕ} {name : Name} {deltaEntry : DeltaIndexEntry} (hsave : deltaIndex.SavePoints)
    (h : Vdo.Uds.getDeltaIndexEntry deltaIndex listNumber key name = .ok (deltaIndex', deltaEntry)) :
    deltaIndex'.SavePoints ∧ deltaEntry.listNumber = listNumber ∧
      deltaEntry.On (deltaIndex'.deltaLists listNumber).entries := by
  obtain ⟨keyEntry, result, hget, hsearched, hresult⟩ :=
    getDeltaIndexEntry_spec (lt_numLists_of_getDeltaIndexEntry h) (hsave listNumber)
  rw [hget, Except.ok.injEq, Prod.mk.injEq] at h
  obtain ⟨rfl, rfl⟩ := h
  have hon : result.listNumber = listNumber ∧ result.On (deltaIndex.deltaLists listNumber).entries := by
    split_ifs at hresult
    · exact hresult.on hsearched.on
    · rw [hresult]
      exact hsearched.on
  refine ⟨hsave.setList (DeltaList.savePoint_saveAt _ (keyIndex_le_length _ _ _)), hon.1, ?_⟩
  simpa [DeltaIndex.setList] using hon.2

/-- Searches of two indexes whose list holds the same entries, each list with a
sound point, end on the same cursor, or both past the end of the list. -/
theorem getDeltaIndexEntry_eq_or_atEnd {first second first' second' : DeltaIndex Name} {listNumber key : ℕ}
    {name : Name} {firstEntry secondEntry : DeltaIndexEntry}
    (hentries : (second.deltaLists listNumber).entries = (first.deltaLists listNumber).entries)
    (hfirstSave : (first.deltaLists listNumber).SavePoint) (hsecondSave : (second.deltaLists listNumber).SavePoint)
    (hfirst : getDeltaIndexEntry first listNumber key name = .ok (first', firstEntry))
    (hsecond : getDeltaIndexEntry second listNumber key name = .ok (second', secondEntry)) :
    firstEntry = secondEntry ∨ firstEntry.atEnd = true ∧ secondEntry.atEnd = true := by
  obtain ⟨keyEntry, result, hget, hsearched, hresult⟩ :=
    getDeltaIndexEntry_spec (lt_numLists_of_getDeltaIndexEntry hfirst) hfirstSave
  obtain ⟨keyEntry', result', hget', hsearched', hresult'⟩ :=
    getDeltaIndexEntry_spec (lt_numLists_of_getDeltaIndexEntry hsecond) hsecondSave
  rw [hget, Except.ok.injEq, Prod.mk.injEq] at hfirst
  rw [hget', Except.ok.injEq, Prod.mk.injEq] at hsecond
  obtain ⟨-, rfl⟩ := hfirst
  obtain ⟨-, rfl⟩ := hsecond
  rw [hentries] at hsearched' hresult'
  rcases hsearched.eq_or_atEnd hsearched' with rfl | ⟨hat, hat'⟩
  · split_ifs at hresult hresult'
    · exact Or.inl (hresult.unique hresult')
    · exact Or.inl (hresult.trans hresult'.symm)
  · rw [if_neg (by simp [hat])] at hresult
    rw [if_neg (by simp [hat'])] at hresult'
    exact Or.inr ⟨hresult ▸ hat, hresult' ▸ hat'⟩

end Search

/-! ## What the record calls do to the points -/

/-- A removal keeps the entries before the one removed, and the list stays at
least that long. -/
theorem removeEntryAt_prefix (entries : List (DeltaEntry Name)) {offset : ℕ} (h : offset ≤ entries.length) :
    (removeEntryAt entries offset).take offset = entries.take offset ∧
      offset ≤ (removeEntryAt entries offset).length := by
  have hlength : (entries.take offset).length = offset := by
    rw [List.length_take]
    omega
  unfold removeEntryAt
  split
  · exact ⟨rfl, h⟩
  · split_ifs <;> exact ⟨List.take_left' hlength, by rw [List.length_append, hlength]; omega⟩

theorem removeEntryAt_of_length_le {entries : List (DeltaEntry Name)} {offset : ℕ} (h : entries.length ≤ offset) :
    removeEntryAt entries offset = entries := by
  rw [removeEntryAt, List.drop_eq_nil_of_le h]

theorem DeltaIndex.SavePoints.removeEntry {deltaIndex : DeltaIndex Name} (h : deltaIndex.SavePoints)
    (listNumber offset : ℕ) : (deltaIndex.removeEntry listNumber offset).SavePoints := by
  have hsave := h listNumber
  unfold DeltaIndex.removeEntry
  dsimp only
  split_ifs with hbefore
  · exact h.setList (DeltaList.savePoint_reset _)
  · refine h.setList ?_
    by_cases hlength : offset ≤ (deltaIndex.deltaLists listNumber).entries.length
    · obtain ⟨htake, hlonger⟩ := removeEntryAt_prefix _ hlength
      exact hsave.of_keyBefore_eq rfl rfl (keyBefore_of_take_eq htake (by simpa using hbefore))
        (by simp only at hbefore ⊢; omega)
    · rw [removeEntryAt_of_length_le (by omega)]
      exact hsave

theorem take_insertEntry {entries : List (DeltaEntry Name)} {offset index : ℕ} (inserted : DeltaEntry Name)
    (hindex : offset ≤ index) (hlength : offset ≤ entries.length) :
    (insertEntry entries index inserted).take offset = entries.take offset := by
  rw [insertEntry, List.take_append_of_le_length (by rw [List.length_take]; omega), List.take_take,
    Nat.min_eq_left hindex]

theorem length_insertEntry (entries : List (DeltaEntry Name)) (index : ℕ) (inserted : DeltaEntry Name) :
    (insertEntry entries index inserted).length = entries.length + 1 := by
  rw [insertEntry, List.length_append, List.length_cons, ← Nat.add_assoc, ← List.length_append,
    List.take_append_drop]

/-- `putDeltaIndexEntry` at a cursor of its list keeps every point sound: the
point is at or before the cursor, and the entry goes in at or after it. -/
theorem DeltaIndex.SavePoints.putDeltaIndexEntry {deltaIndex : DeltaIndex Name} {deltaEntry : DeltaIndexEntry}
    (h : deltaIndex.SavePoints) (hon : deltaEntry.On (deltaIndex.deltaLists deltaEntry.listNumber).entries)
    (key value : ℕ) (name : Option Name) (room : Bool) :
    (Vdo.Uds.putDeltaIndexEntry deltaIndex deltaEntry key value name room).1.SavePoints := by
  have hmoved : ∀ moved : DeltaList Name, moved = (if deltaEntry.offset <
        (deltaIndex.deltaLists deltaEntry.listNumber).saveOffset then
      { deltaIndex.deltaLists deltaEntry.listNumber with
        saveKey := deltaEntry.key - deltaEntry.delta, saveOffset := deltaEntry.offset }
      else deltaIndex.deltaLists deltaEntry.listNumber) →
      moved.SavePoint ∧ moved.saveOffset ≤ deltaEntry.offset ∧
        moved.entries = (deltaIndex.deltaLists deltaEntry.listNumber).entries := by
    rintro moved rfl
    split_ifs with hbefore
    · exact ⟨⟨hon.offset_le, by simp [hon.key_eq]⟩, le_rfl, rfl⟩
    · exact ⟨h _, by omega, rfl⟩
  unfold Vdo.Uds.putDeltaIndexEntry
  by_cases hcollision : deltaEntry.isCollision
  · rw [if_pos hcollision]
    exact h
  rw [if_neg hcollision]
  obtain ⟨hsave, hle, hentries⟩ := hmoved _ rfl
  dsimp only
  generalize (if deltaEntry.offset < (deltaIndex.deltaLists deltaEntry.listNumber).saveOffset then
      { deltaIndex.deltaLists deltaEntry.listNumber with
        saveKey := deltaEntry.key - deltaEntry.delta, saveOffset := deltaEntry.offset }
    else deltaIndex.deltaLists deltaEntry.listNumber) = moved at hsave hle hentries ⊢
  rw [← hentries] at hon
  -- a failure keeps the moved point; an insertion keeps the entries before the cursor, so the
  -- point, at or before the cursor, stays sound
  have hkept : ∀ entries : List (DeltaEntry Name), entries.take deltaEntry.offset =
      moved.entries.take deltaEntry.offset → deltaEntry.offset ≤ entries.length →
      ((deltaIndex.setList deltaEntry.listNumber moved).setList deltaEntry.listNumber
        { moved with entries := entries }).SavePoints := fun entries htake hlength =>
    (h.setList hsave).setList (hsave.of_keyBefore_eq rfl rfl (keyBefore_of_take_eq htake hle) (hle.trans hlength))
  have hinsertEntry : ∀ index (inserted : DeltaEntry Name), deltaEntry.offset ≤ index →
      ((deltaIndex.setList deltaEntry.listNumber moved).setList deltaEntry.listNumber
        { moved with entries := insertEntry moved.entries index inserted }).SavePoints :=
    fun index inserted hindex => hkept _ (take_insertEntry _ hindex hon.offset_le)
      (by rw [length_insertEntry]; exact hon.offset_le.trans (Nat.le_succ _))
  have hprefix : (moved.entries.take deltaEntry.offset).length = deltaEntry.offset := by
    rw [List.length_take]
    exact Nat.min_eq_left hon.offset_le
  have hsplit : ∀ rest : List (DeltaEntry Name),
      (moved.entries.take deltaEntry.offset ++ rest).take deltaEntry.offset = moved.entries.take deltaEntry.offset :=
    fun rest => List.take_left' hprefix
  -- each branch splits once more on the collision count, which the points do not read
  cases name with
  | some name =>
    dsimp only
    split_ifs
    any_goals exact h.setList hsave
    -- a collision entry goes in after the cursor
    all_goals exact hinsertEntry _ _ (Nat.le_succ _)
  | none =>
    dsimp only
    split_ifs
    any_goals exact h.setList hsave
    -- at the end of the list the new entry goes in at the cursor
    any_goals exact hinsertEntry _ _ le_rfl
    -- before an entry, the new entry and the entry it splits replace it at the cursor
    all_goals exact hkept _ (hsplit _) (by rw [List.length_append, hprefix]; omega)

theorem DeltaIndex.SavePoints.setDeltaEntryValue {deltaIndex deltaIndex' : DeltaIndex Name}
    {deltaEntry : DeltaIndexEntry} {value : ℕ} (h : deltaIndex.SavePoints)
    (hset : Vdo.Uds.setDeltaEntryValue deltaIndex deltaEntry value = .ok deltaIndex') : deltaIndex'.SavePoints := by
  unfold Vdo.Uds.setDeltaEntryValue at hset
  split_ifs at hset
  cases hset
  have hsave := h deltaEntry.listNumber
  refine h.setList (hsave.of_keyBefore_eq rfl rfl (keyBefore_modify (f := fun entry => { entry with value }) (fun _ => rfl) _ _ _) ?_)
  rw [List.length_modify]
  exact hsave.saveOffset_le

/-! ## What the master index calls do to the points -/

section MasterIndex

variable (layout : MasterIndex5Layout) (flushRange : ChapterRange) (listNumber : ℕ)

theorem flushDeltaList_savePoints (fuel : ℕ) {deltaIndex : DeltaIndex Name} (h : deltaIndex.SavePoints)
    (offset next : ℕ) : (flushDeltaList layout flushRange listNumber fuel deltaIndex offset next).1.SavePoints := by
  induction fuel generalizing deltaIndex offset next with
  | zero => exact h
  | succ fuel ih =>
    rw [flushDeltaList]
    split
    · exact h
    · dsimp only
      split_ifs
      · exact ih (h.removeEntry _ _) _ _
      · exact ih h _ _

/-- A flush that finds no entry of the range from `offset` on leaves the index
as it was. -/
theorem flushDeltaList_of_forall_kept (fuel : ℕ) {deltaIndex : DeltaIndex Name} {offset : ℕ} (next : ℕ)
    (hkept : ∀ entry ∈ (deltaIndex.deltaLists listNumber).entries.drop offset,
      flushRange.chapterCount ≤ rollingChapter layout entry.value flushRange.chapterStart) :
    (flushDeltaList layout flushRange listNumber fuel deltaIndex offset next).1 = deltaIndex := by
  induction fuel generalizing offset next with
  | zero => rfl
  | succ fuel ih =>
    rw [flushDeltaList]
    split
    · rfl
    · rename_i entry hentry
      have hmem : entry ∈ (deltaIndex.deltaLists listNumber).entries.drop offset := by
        rw [List.drop_eq_getElem_cons (List.getElem?_eq_some_iff.mp hentry).1]
        simp [(List.getElem?_eq_some_iff.mp hentry).2]
      dsimp only
      rw [if_neg (Nat.not_lt.mpr (hkept entry hmem))]
      refine ih _ fun entry' hentry' => hkept entry' ?_
      rw [← List.drop_drop] at hentry'
      exact List.mem_of_mem_drop hentry'

theorem putMasterIndexRecord_savePoints (masterIndexBytes : Name → ℕ) {mi5 : MasterIndex5 Name}
    {record : MasterIndexRecord Name} (hsave : mi5.deltaIndex.SavePoints)
    (hon : record.deltaEntry.On (mi5.deltaIndex.deltaLists record.deltaEntry.listNumber).entries)
    (virtualChapter : ℕ) (room : Bool) :
    (putMasterIndexRecord layout masterIndexBytes mi5 record virtualChapter room).1.deltaIndex.SavePoints := by
  unfold putMasterIndexRecord
  by_cases hindexed : (!isVirtualChapterIndexed (mi5.masterZones 0) virtualChapter) = true
  · rw [if_pos hindexed]
    exact hsave
  · rw [if_neg hindexed]
    exact hsave.putDeltaIndexEntry hon _ _ _ _

theorem setMasterIndexRecordChapter_savePoints {mi5 mi5' : MasterIndex5 Name}
    {record record' : MasterIndexRecord Name} {virtualChapter : ℕ} (hsave : mi5.deltaIndex.SavePoints)
    (h : setMasterIndexRecordChapter layout mi5 record virtualChapter = .ok (mi5', record')) :
    mi5'.deltaIndex.SavePoints := by
  unfold setMasterIndexRecordChapter at h
  split_ifs at h
  obtain ⟨deltaIndex, hset, hpure⟩ := ExceptFold.bind_eq_ok.mp h
  cases hpure
  exact hsave.setDeltaEntryValue hset

theorem removeMasterIndexRecord_savePoints {mi5 mi5' : MasterIndex5 Name} {record : MasterIndexRecord Name}
    (hsave : mi5.deltaIndex.SavePoints) (h : removeMasterIndexRecord mi5 record = .ok mi5') :
    mi5'.deltaIndex.SavePoints := by
  unfold removeMasterIndexRecord at h
  split_ifs at h
  obtain ⟨deltaIndex, hremove, hpure⟩ := ExceptFold.bind_eq_ok.mp h
  cases hpure
  unfold removeDeltaIndexEntry at hremove
  split_ifs at hremove
  cases hremove
  exact hsave.removeEntry _ _

variable [DecidableEq Name]

/-- `getMasterIndexEntry` on a list of the index: the flush, a reset search
point, and a search of the flushed list. -/
theorem getMasterIndexEntry_of_lt {mi5 : MasterIndex5 Name} {listNumber : ℕ} (key : ℕ) (name : Name)
    (hlist : listNumber < mi5.deltaIndex.numLists) :
    getMasterIndexEntry layout mi5 listNumber key name flushRange =
      (getDeltaIndexEntry
          ((flushDeltaList layout flushRange listNumber (mi5.deltaIndex.deltaLists listNumber).entries.length
            mi5.deltaIndex 0 layout.chapterMask).1.setList listNumber
            { (flushDeltaList layout flushRange listNumber (mi5.deltaIndex.deltaLists listNumber).entries.length
                mi5.deltaIndex 0 layout.chapterMask).1.deltaLists listNumber with saveKey := 0, saveOffset := 0 })
          listNumber key name >>= fun result =>
        .ok ({ mi5 with deltaIndex := result.1 }, result.2,
          ⟨((flushDeltaList layout flushRange listNumber (mi5.deltaIndex.deltaLists listNumber).entries.length
            mi5.deltaIndex 0 layout.chapterMask).2 + flushRange.chapterStart) % 2 ^ layout.chapterBits, 0⟩)) := by
  have hstart : startDeltaIndexSearch mi5.deltaIndex listNumber 0 =
      .ok ⟨listNumber, 0, 0, 0, 0, false, false⟩ := by
    simp [startDeltaIndexSearch, hlist]
  simp only [getMasterIndexEntry, hstart, ExceptFold.ok_bind]
  rfl

theorem getMasterIndexEntry_savePoints {mi5 mi5' : MasterIndex5 Name} {listNumber key : ℕ} {name : Name}
    {deltaEntry : DeltaIndexEntry} {chapterRange : ChapterRange} (hsave : mi5.deltaIndex.SavePoints)
    (h : getMasterIndexEntry layout mi5 listNumber key name flushRange = .ok (mi5', deltaEntry, chapterRange)) :
    mi5'.deltaIndex.SavePoints ∧ deltaEntry.listNumber = listNumber ∧
      deltaEntry.On (mi5'.deltaIndex.deltaLists listNumber).entries := by
  by_cases hlist : listNumber < mi5.deltaIndex.numLists
  · rw [getMasterIndexEntry_of_lt layout flushRange key name hlist] at h
    obtain ⟨⟨deltaIndex, found⟩, hget, hpure⟩ := ExceptFold.bind_eq_ok.mp h
    rw [Except.ok.injEq, Prod.mk.injEq, Prod.mk.injEq] at hpure
    obtain ⟨rfl, rfl, -⟩ := hpure
    exact ((flushDeltaList_savePoints layout flushRange listNumber _ hsave 0 _).setList
      (DeltaList.savePoint_reset _)).getDeltaIndexEntry hget
  · rw [getMasterIndexEntry_of_not_lt layout key name flushRange hlist] at h
    cases h

theorem getMasterIndexRecord_savePoints {masterIndexBytes : Name → ℕ} {mi5 mi5' : MasterIndex5 Name}
    {name : Name} {record : MasterIndexRecord Name} (hsave : mi5.deltaIndex.SavePoints)
    (h : getMasterIndexRecord layout masterIndexBytes mi5 name = .ok (mi5', record)) :
    mi5'.deltaIndex.SavePoints ∧
      record.deltaEntry.On (mi5'.deltaIndex.deltaLists record.deltaEntry.listNumber).entries := by
  dsimp only [getMasterIndexRecord] at h
  by_cases hflush : mi5.flushChapters (extractDListNum layout masterIndexBytes mi5 name) <
      (mi5.masterZones 0).virtualChapterLow
  · rw [if_pos hflush] at h
    obtain ⟨⟨flushed, found, chapterRange⟩, hentry, hrest⟩ := ExceptFold.bind_eq_ok.mp h
    cases hrest
    obtain ⟨hflushed, hnumber, hon⟩ := getMasterIndexEntry_savePoints layout _ hsave hentry
    exact ⟨hflushed, hnumber ▸ hon⟩
  · rw [if_neg hflush] at h
    obtain ⟨⟨deltaIndex, found⟩, hget, hrest⟩ := ExceptFold.bind_eq_ok.mp h
    cases hrest
    obtain ⟨hsearched, hnumber, hon⟩ := hsave.getDeltaIndexEntry hget
    exact ⟨hsearched, hnumber ▸ hon⟩

theorem setMasterIndexZoneOpenChapter_savePoints [Inhabited Name] {mi5 : MasterIndex5 Name}
    (hsave : mi5.deltaIndex.SavePoints) (virtualChapter usedBits : ℕ) :
    (setMasterIndexZoneOpenChapter layout mi5 virtualChapter usedBits).deltaIndex.SavePoints := by
  unfold setMasterIndexZoneOpenChapter moveOpenChapter removeNewestChapters
  dsimp only
  split_ifs
  · exact fun _ => DeltaList.savePoint_empty
  · exact hsave
  · -- `removeNewestChapters` flushes the lists one after the other, each flush keeping the points sound
    refine List.foldlRecOn (motive := fun s : MasterIndex5 Name => s.deltaIndex.SavePoints) _ _ hsave ?_
    intro s hs listNumber _
    split
    · exact (getMasterIndexEntry_savePoints layout _ hs (by assumption)).1
    · exact hs
  all_goals exact hsave

/-- The run lemma: every list of every reachable master index has a sound
search point. -/
theorem savePoints_of_reachable [Inhabited Name] {masterIndexBytes : Name → ℕ} {mi5 : MasterIndex5 Name}
    (hreach : Reachable (MasterIndex5.Initial layout) (MasterIndexStep layout masterIndexBytes) mi5) :
    mi5.deltaIndex.SavePoints := by
  refine hreach.invariant (fun s hs listNumber => hs.1 listNumber ▸ DeltaList.savePoint_empty) ?_
  intro s t hsave hstep
  cases hstep with
  | setOpenChapter virtualChapter usedBits =>
    exact setMasterIndexZoneOpenChapter_savePoints layout hsave virtualChapter usedBits
  | get name hget => exact (getMasterIndexRecord_savePoints layout hsave hget).1
  | put name virtualChapter room hget =>
    obtain ⟨hsearched, hon⟩ := getMasterIndexRecord_savePoints layout hsave hget
    exact putMasterIndexRecord_savePoints layout masterIndexBytes hsearched hon virtualChapter room
  | setChapter name virtualChapter hget hset =>
    exact setMasterIndexRecordChapter_savePoints layout (getMasterIndexRecord_savePoints layout hsave hget).1 hset
  | remove name hget hremove =>
    exact removeMasterIndexRecord_savePoints (getMasterIndexRecord_savePoints layout hsave hget).1 hremove

end MasterIndex

end Vdo.Uds
