import Vdo.Uds.DeltaIndex
import Vdo.Lib.ExceptFold

/-!
# What a delta list search finds

The key of an entry is the sum of the deltas up to it. `getDeltaIndexEntry`
walks from the start, or from the saved search point when the key lies past
it, to the first entry whose key is at least the one sought (`keyIndex`
counts the entries it passes), and then through the collision entries that
follow for one with the name (`collisionIndex`). Both walks are stated once,
for a cursor standing before any offset, by induction on their fuel.
-/

namespace Vdo.Uds

variable {Name : Type}

/-! ## Keys and search positions -/

/-- The key before offset `offset`: the sum of the deltas before it. -/
def keyBefore : List (DeltaEntry Name) → ℕ → ℕ
  | _, 0 => 0
  | [], _ + 1 => 0
  | entry :: rest, offset + 1 => entry.delta + keyBefore rest offset

@[simp] theorem keyBefore_zero (entries : List (DeltaEntry Name)) : keyBefore entries 0 = 0 := by
  cases entries <;> rfl

@[simp] theorem keyBefore_cons_succ (entry : DeltaEntry Name) (rest : List (DeltaEntry Name)) (offset : ℕ) :
    keyBefore (entry :: rest) (offset + 1) = entry.delta + keyBefore rest offset := rfl

theorem keyBefore_succ {entries : List (DeltaEntry Name)} {offset : ℕ} {entry : DeltaEntry Name}
    (h : entries[offset]? = some entry) :
    keyBefore entries (offset + 1) = keyBefore entries offset + entry.delta := by
  induction entries generalizing offset with
  | nil => simp at h
  | cons head rest ih =>
    cases offset with
    | zero =>
      obtain rfl : head = entry := by simpa using h
      simp [keyBefore]
    | succ offset =>
      rw [keyBefore_cons_succ, keyBefore_cons_succ, ih (by simpa using h)]
      omega

/-- How many entries, keyed from `start` on, a search for `key` passes: those
whose key is below it. -/
def keyIndex (key : ℕ) : ℕ → List (DeltaEntry Name) → ℕ
  | _, [] => 0
  | start, entry :: rest =>
    if key ≤ start + entry.delta then 0 else keyIndex key (start + entry.delta) rest + 1

/-- A search that starts past entries whose keys are all below the key passes
them too. -/
theorem keyIndex_eq_add_drop {key : ℕ} {entries : List (DeltaEntry Name)} {offset start : ℕ}
    (hoffset : offset ≤ entries.length) (hbelow : start + keyBefore entries offset < key) :
    keyIndex key start entries = offset + keyIndex key (start + keyBefore entries offset) (entries.drop offset) := by
  induction entries generalizing offset start with
  | nil =>
    obtain rfl : offset = 0 := by simpa using hoffset
    rfl
  | cons entry rest ih =>
    cases offset with
    | zero => simp
    | succ offset =>
      rw [keyBefore_cons_succ] at hbelow
      have hpast : ¬ key ≤ start + entry.delta := by omega
      have hrest := @ih offset (start + entry.delta) (by simpa using hoffset) (by omega)
      rw [keyIndex, if_neg hpast, hrest, keyBefore_cons_succ, List.drop_succ_cons]
      rw [show start + entry.delta + keyBefore rest offset = start + (entry.delta + keyBefore rest offset) by omega]
      omega

/-- The entry a search stops on has a key at least the one sought. -/
theorem le_key_of_keyIndex {key start : ℕ} {entries : List (DeltaEntry Name)} {entry : DeltaEntry Name}
    (h : entries[keyIndex key start entries]? = some entry) :
    key ≤ start + keyBefore entries (keyIndex key start entries) + entry.delta := by
  induction entries generalizing start with
  | nil => simp at h
  | cons head rest ih =>
    by_cases hstop : key ≤ start + head.delta
    · rw [keyIndex, if_pos hstop] at h ⊢
      obtain rfl : head = entry := by simpa using h
      simpa using hstop
    · rw [keyIndex, if_neg hstop] at h ⊢
      have := @ih (start + head.delta) (by simpa using h)
      rw [keyBefore_cons_succ]
      omega

/-- Every entry a search passes has a key below the one sought. -/
theorem keyBefore_keyIndex_lt {key start : ℕ} {entries : List (DeltaEntry Name)}
    (hpos : 0 < keyIndex key start entries) : start + keyBefore entries (keyIndex key start entries) < key := by
  induction entries generalizing start with
  | nil => simp [keyIndex] at hpos
  | cons head rest ih =>
    by_cases hstop : key ≤ start + head.delta
    · rw [keyIndex, if_pos hstop] at hpos
      omega
    · rw [keyIndex, if_neg hstop] at hpos ⊢
      rw [keyBefore_cons_succ]
      by_cases hrest : 0 < keyIndex key (start + head.delta) rest
      · have := ih hrest
        omega
      · rw [Nat.eq_zero_of_not_pos hrest]
        simp only [keyBefore_zero]
        omega

/-- The offset within a run of collision entries of the first that stores
`name`; the run ends at the first entry with a non-zero delta. -/
def collisionIndex [DecidableEq Name] (name : Name) : List (DeltaEntry Name) → Option ℕ
  | [] => none
  | entry :: rest =>
    if entry.delta = 0 then
      if entry.collisionName = some name then some 0 else (collisionIndex name rest).map (· + 1)
    else none

/-! ## Cursors -/

/-- A cursor whose next step decodes the entry at `offset`. -/
structure DeltaIndexEntry.Before (entries : List (DeltaEntry Name)) (offset : ℕ)
    (deltaEntry : DeltaIndexEntry) : Prop where
  atEnd_eq : deltaEntry.atEnd = false
  offset_eq : deltaEntry.offset + deltaEntry.entryBits = offset
  key_eq : deltaEntry.key = keyBefore entries offset

/-- The cursor `nextDeltaIndexEntry` leaves on the entry at `offset`. -/
def DeltaIndexEntry.decoded (entries : List (DeltaEntry Name)) (listNumber offset : ℕ)
    (entry : DeltaEntry Name) : DeltaIndexEntry :=
  ⟨listNumber, keyBefore entries offset + entry.delta, offset, 1, entry.delta, false,
    entry.delta == 0 && 0 < offset⟩

/-- A cursor past the last entry, as `nextDeltaIndexEntry` leaves it. -/
structure DeltaIndexEntry.AtEnd (entries : List (DeltaEntry Name)) (listNumber : ℕ)
    (deltaEntry : DeltaIndexEntry) : Prop where
  listNumber_eq : deltaEntry.listNumber = listNumber
  atEnd_eq : deltaEntry.atEnd = true
  offset_eq : deltaEntry.offset = entries.length
  key_eq : deltaEntry.key = keyBefore entries entries.length
  delta_eq : deltaEntry.delta = 0
  isCollision_eq : deltaEntry.isCollision = false

/-- A search of list `listNumber` stopped at offset `offset`: on the entry
there, or past the end. -/
def SearchedTo (entries : List (DeltaEntry Name)) (listNumber offset : ℕ) (deltaEntry : DeltaIndexEntry) : Prop :=
  (∃ entry, entries[offset]? = some entry ∧ deltaEntry = DeltaIndexEntry.decoded entries listNumber offset entry) ∨
    (offset = entries.length ∧ deltaEntry.AtEnd entries listNumber)

theorem DeltaIndexEntry.before_decoded {entries : List (DeltaEntry Name)} {listNumber offset : ℕ}
    {entry : DeltaEntry Name} (h : entries[offset]? = some entry) :
    (DeltaIndexEntry.decoded entries listNumber offset entry).Before entries (offset + 1) :=
  ⟨rfl, rfl, (keyBefore_succ h).symm⟩

theorem nextDeltaIndexEntry_of_entry {deltaList : DeltaList Name} {offset : ℕ} {deltaEntry : DeltaIndexEntry}
    {entry : DeltaEntry Name} (hbefore : deltaEntry.Before deltaList.entries offset)
    (h : deltaList.entries[offset]? = some entry) :
    nextDeltaIndexEntry deltaList deltaEntry =
      .ok (DeltaIndexEntry.decoded deltaList.entries deltaEntry.listNumber offset entry) := by
  obtain ⟨hend, hoffset, hkey⟩ := hbefore
  obtain ⟨listNumber, key, cursor, entryBits, delta, atEnd, isCollision⟩ := deltaEntry
  simp only at hend hoffset hkey
  subst hend hoffset hkey
  simp [nextDeltaIndexEntry, h, DeltaIndexEntry.decoded]

theorem nextDeltaIndexEntry_of_end {deltaList : DeltaList Name} {offset : ℕ} {deltaEntry : DeltaIndexEntry}
    (hbefore : deltaEntry.Before deltaList.entries offset) (hend : offset = deltaList.entries.length) :
    ∃ next, nextDeltaIndexEntry deltaList deltaEntry = .ok next ∧
      next.AtEnd deltaList.entries deltaEntry.listNumber := by
  obtain ⟨hatEnd, hoffset, hkey⟩ := hbefore
  obtain ⟨listNumber, key, cursor, entryBits, delta, atEnd, isCollision⟩ := deltaEntry
  simp only at hatEnd hoffset hkey
  subst hatEnd hoffset hkey
  refine ⟨⟨listNumber, keyBefore deltaList.entries (cursor + entryBits), cursor + entryBits, entryBits, 0,
    true, false⟩, by simp [nextDeltaIndexEntry, hend], ?_⟩
  exact ⟨rfl, rfl, hend, congrArg _ hend, rfl, rfl⟩

/-! ## The two walks -/

/-- The key loop of `getDeltaIndexEntry`, from a cursor before `offset`, stops
on the first entry from there whose key is at least `key`. -/
theorem findDeltaKey_spec {deltaList : DeltaList Name} {key offset fuel : ℕ} {deltaEntry : DeltaIndexEntry}
    (hbefore : deltaEntry.Before deltaList.entries offset) (hoffset : offset ≤ deltaList.entries.length)
    (hfuel : deltaList.entries.length - offset < fuel) :
    ∃ found, findDeltaKey deltaList key fuel deltaEntry = .ok found ∧
      SearchedTo deltaList.entries deltaEntry.listNumber
        (offset + keyIndex key (keyBefore deltaList.entries offset) (deltaList.entries.drop offset)) found := by
  induction fuel generalizing offset deltaEntry with
  | zero => omega
  | succ fuel ih =>
    cases hentry : deltaList.entries[offset]? with
    | none =>
      have hend : offset = deltaList.entries.length :=
        le_antisymm hoffset (List.getElem?_eq_none_iff.mp hentry)
      obtain ⟨next, hnext, hat⟩ := nextDeltaIndexEntry_of_end hbefore hend
      have hdrop : deltaList.entries.drop offset = [] := List.drop_eq_nil_of_le hend.ge
      refine ⟨next, ?_, Or.inr ⟨by rw [hdrop, keyIndex]; omega, hat⟩⟩
      rw [findDeltaKey_succ, hnext, ExceptFold.ok_bind, hat.atEnd_eq]
      rfl
    | some entry =>
      have hnext := nextDeltaIndexEntry_of_entry hbefore hentry
      have hdrop : deltaList.entries.drop offset = entry :: deltaList.entries.drop (offset + 1) := by
        obtain ⟨hlt, hget⟩ := List.getElem?_eq_some_iff.mp hentry
        rw [List.drop_eq_getElem_cons hlt, hget]
      have hlt : offset < deltaList.entries.length := (List.getElem?_eq_some_iff.mp hentry).1
      have hkey : offset + 1 + keyIndex key (keyBefore deltaList.entries (offset + 1))
            (deltaList.entries.drop (offset + 1)) =
          offset + keyIndex key (keyBefore deltaList.entries offset) (deltaList.entries.drop offset) ↔
          ¬ key ≤ keyBefore deltaList.entries offset + entry.delta := by
        rw [hdrop, keyIndex, keyBefore_succ hentry]
        split <;> omega
      rw [findDeltaKey_succ, hnext, ExceptFold.ok_bind]
      by_cases hpast : key > keyBefore deltaList.entries offset + entry.delta
      · obtain ⟨found, hfound, hsearched⟩ :=
          ih (DeltaIndexEntry.before_decoded hentry) hlt (by omega)
        refine ⟨found, ?_, ?_⟩
        · simpa [DeltaIndexEntry.decoded, hpast] using hfound
        · rw [← hkey.mpr (by omega)]
          exact hsearched
      · have hstop : keyIndex key (keyBefore deltaList.entries offset) (deltaList.entries.drop offset) = 0 := by
          rw [hdrop, keyIndex, if_pos (by omega)]
        rw [hstop, Nat.add_zero]
        exact ⟨_, by simp [DeltaIndexEntry.decoded, hpast], Or.inl ⟨entry, hentry, rfl⟩⟩

/-- What the collision loop of `getDeltaIndexEntry` ends on: the first
collision entry from `offset` on that stores the name, or the entry found. -/
def CollisionResult [DecidableEq Name] (entries : List (DeltaEntry Name)) (listNumber offset : ℕ) (name : Name)
    (found result : DeltaIndexEntry) : Prop :=
  (collisionIndex name (entries.drop offset) = none ∧ result = found) ∨
    ∃ index entry, collisionIndex name (entries.drop offset) = some index ∧
      entries[offset + index]? = some entry ∧ result = DeltaIndexEntry.decoded entries listNumber (offset + index) entry

/-- The collision loop of `getDeltaIndexEntry`, from a cursor before an
offset past the start of the list, finds the first collision entry from there
that stores the name. -/
theorem findDeltaCollision_spec [DecidableEq Name] {deltaList : DeltaList Name} {name : Name}
    {found : DeltaIndexEntry} {offset fuel : ℕ} {collisionEntry : DeltaIndexEntry}
    (hbefore : collisionEntry.Before deltaList.entries offset) (hpos : 0 < offset)
    (hoffset : offset ≤ deltaList.entries.length) (hfuel : deltaList.entries.length - offset < fuel) :
    ∃ result, findDeltaCollision deltaList name found fuel collisionEntry = .ok result ∧
      CollisionResult deltaList.entries collisionEntry.listNumber offset name found result := by
  induction fuel generalizing offset collisionEntry with
  | zero => omega
  | succ fuel ih =>
    rw [findDeltaCollision_succ]
    cases hentry : deltaList.entries[offset]? with
    | none =>
      have hend : offset = deltaList.entries.length :=
        le_antisymm hoffset (List.getElem?_eq_none_iff.mp hentry)
      obtain ⟨next, hnext, hat⟩ := nextDeltaIndexEntry_of_end hbefore hend
      have hdrop : deltaList.entries.drop offset = [] := List.drop_eq_nil_of_le hend.ge
      refine ⟨found, by rw [hnext, ExceptFold.ok_bind, hat.atEnd_eq]; rfl, Or.inl ⟨?_, rfl⟩⟩
      rw [hdrop]
      rfl
    | some entry =>
      have hdrop : deltaList.entries.drop offset = entry :: deltaList.entries.drop (offset + 1) := by
        obtain ⟨hlt, hget⟩ := List.getElem?_eq_some_iff.mp hentry
        rw [List.drop_eq_getElem_cons hlt, hget]
      have hlt : offset < deltaList.entries.length := (List.getElem?_eq_some_iff.mp hentry).1
      rw [nextDeltaIndexEntry_of_entry hbefore hentry, ExceptFold.ok_bind]
      by_cases hdelta : entry.delta = 0
      · by_cases hname : entry.collisionName = some name
        · refine ⟨_, by simp [DeltaIndexEntry.decoded, hdelta, hpos, hentry, hname], Or.inr ⟨0, entry, ?_, hentry, rfl⟩⟩
          rw [hdrop, collisionIndex, if_pos hdelta, if_pos hname]
        · obtain ⟨result, hresult, hcases⟩ :=
            ih (DeltaIndexEntry.before_decoded hentry) (by omega) hlt (by omega)
          have hindex : collisionIndex name (deltaList.entries.drop offset) =
              (collisionIndex name (deltaList.entries.drop (offset + 1))).map (· + 1) := by
            rw [hdrop, collisionIndex, if_pos hdelta, if_neg hname]
          refine ⟨result, by simpa [DeltaIndexEntry.decoded, hdelta, hpos, hentry, hname] using hresult, ?_⟩
          rcases hcases with ⟨hnone, rfl⟩ | ⟨index, found', hsome, hget, rfl⟩
          · exact Or.inl ⟨by rw [hindex, hnone]; rfl, rfl⟩
          · refine Or.inr ⟨index + 1, found', by rw [hindex, hsome]; rfl, ?_, ?_⟩
            · rwa [← Nat.add_assoc, Nat.add_right_comm]
            · rw [← Nat.add_assoc, Nat.add_right_comm]
              rfl
      · refine ⟨found, by simp [DeltaIndexEntry.decoded, hdelta], Or.inl ⟨?_, rfl⟩⟩
        rw [hdrop, collisionIndex, if_neg hdelta]

/-! ## `getDeltaIndexEntry` -/

/-- The saved search point of a list is an offset of it, with the key before
that offset. -/
structure DeltaList.SavePoint (deltaList : DeltaList Name) : Prop where
  saveOffset_le : deltaList.saveOffset ≤ deltaList.entries.length
  saveKey_eq : deltaList.saveKey = keyBefore deltaList.entries deltaList.saveOffset

/-- The list with its search point saved at `offset`. -/
def DeltaList.saveAt (deltaList : DeltaList Name) (offset : ℕ) : DeltaList Name :=
  { deltaList with saveKey := keyBefore deltaList.entries offset, saveOffset := offset }

@[simp] theorem DeltaList.saveAt_entries (deltaList : DeltaList Name) (offset : ℕ) :
    (deltaList.saveAt offset).entries = deltaList.entries := rfl

/-- A search starts before the saved point or before the first entry, and
either way reaches the first entry whose key is at least the one sought. -/
theorem startDeltaIndexSearch_spec {deltaIndex : DeltaIndex Name} {listNumber key : ℕ}
    (hlist : listNumber < deltaIndex.numLists) (hsave : (deltaIndex.deltaLists listNumber).SavePoint) :
    ∃ start offset, startDeltaIndexSearch deltaIndex listNumber key = .ok start ∧
      start.Before (deltaIndex.deltaLists listNumber).entries offset ∧
      offset ≤ (deltaIndex.deltaLists listNumber).entries.length ∧ start.listNumber = listNumber ∧
      offset + keyIndex key (keyBefore (deltaIndex.deltaLists listNumber).entries offset)
          ((deltaIndex.deltaLists listNumber).entries.drop offset) =
        keyIndex key 0 (deltaIndex.deltaLists listNumber).entries := by
  by_cases hpast : key > (deltaIndex.deltaLists listNumber).saveKey
  · refine ⟨⟨listNumber, (deltaIndex.deltaLists listNumber).saveKey, (deltaIndex.deltaLists listNumber).saveOffset,
      0, 0, false, false⟩, (deltaIndex.deltaLists listNumber).saveOffset,
      by simp [startDeltaIndexSearch, hlist, hpast], ⟨rfl, Nat.add_zero _, hsave.saveKey_eq⟩,
      hsave.saveOffset_le, rfl, ?_⟩
    have hsplit := @keyIndex_eq_add_drop _ key _ _ 0 hsave.saveOffset_le
      (by rw [Nat.zero_add, ← hsave.saveKey_eq]; exact hpast)
    rw [Nat.zero_add] at hsplit
    exact hsplit.symm
  · refine ⟨⟨listNumber, 0, 0, 0, 0, false, false⟩, 0, by simp [startDeltaIndexSearch, hlist, hpast],
      ⟨rfl, rfl, by simp⟩, Nat.zero_le _, rfl, ?_⟩
    simp

/-- The entry the key loop stops on is never a collision entry: its key is
above the one before it. -/
theorem SearchedTo.isCollision_eq_false {entries : List (DeltaEntry Name)} {listNumber key : ℕ}
    {deltaEntry : DeltaIndexEntry} (h : SearchedTo entries listNumber (keyIndex key 0 entries) deltaEntry) :
    deltaEntry.isCollision = false := by
  rcases h with ⟨entry, hentry, rfl⟩ | ⟨-, hat⟩
  · have hle := le_key_of_keyIndex hentry
    by_cases hpos : 0 < keyIndex key 0 entries
    · have hlt := keyBefore_keyIndex_lt hpos
      have hdelta : entry.delta ≠ 0 := by omega
      simp [DeltaIndexEntry.decoded, hdelta]
    · simp [DeltaIndexEntry.decoded, Nat.eq_zero_of_not_pos hpos]
  · exact hat.isCollision_eq

/-- Saving the entry the key loop stopped on saves its offset. -/
theorem rememberDeltaIndexOffset_of_searched {deltaList : DeltaList Name} {listNumber key : ℕ}
    {deltaEntry : DeltaIndexEntry}
    (h : SearchedTo deltaList.entries listNumber (keyIndex key 0 deltaList.entries) deltaEntry) :
    rememberDeltaIndexOffset deltaList deltaEntry = .ok (deltaList.saveAt (keyIndex key 0 deltaList.entries)) := by
  rw [rememberDeltaIndexOffset, if_neg (by simp [h.isCollision_eq_false]), DeltaList.saveAt]
  rcases h with ⟨entry, -, rfl⟩ | ⟨hend, hat⟩
  · simp [DeltaIndexEntry.decoded]
  · rw [hat.key_eq, hat.delta_eq, hat.offset_eq, ← hend, Nat.sub_zero]

/-- `getDeltaIndexEntry` on a list whose saved point is sound: the list is
saved at the first entry whose key is at least `key`, and the search ends on
that entry, or on the collision entry after it that stores `name`. -/
theorem getDeltaIndexEntry_spec [DecidableEq Name] {deltaIndex : DeltaIndex Name} {listNumber key : ℕ}
    {name : Name} (hlist : listNumber < deltaIndex.numLists)
    (hsave : (deltaIndex.deltaLists listNumber).SavePoint) :
    ∃ deltaEntry result, getDeltaIndexEntry deltaIndex listNumber key name =
        .ok (deltaIndex.setList listNumber
          ((deltaIndex.deltaLists listNumber).saveAt (keyIndex key 0 (deltaIndex.deltaLists listNumber).entries)),
          result) ∧
      SearchedTo (deltaIndex.deltaLists listNumber).entries listNumber
        (keyIndex key 0 (deltaIndex.deltaLists listNumber).entries) deltaEntry ∧
      if !deltaEntry.atEnd && key == deltaEntry.key then
        CollisionResult (deltaIndex.deltaLists listNumber).entries listNumber
          (keyIndex key 0 (deltaIndex.deltaLists listNumber).entries + 1) name deltaEntry result
      else result = deltaEntry := by
  obtain ⟨start, offset, hstart, hbefore, hoffset, hnumber, hindex⟩ := @startDeltaIndexSearch_spec _ _ _ key hlist hsave
  obtain ⟨deltaEntry, hfind, hsearched⟩ := @findDeltaKey_spec _ _ key _ ((deltaIndex.deltaLists listNumber).entries.length + 1) _
    hbefore hoffset (by omega)
  rw [hindex, hnumber] at hsearched
  have hremember := rememberDeltaIndexOffset_of_searched hsearched
  have hrun : getDeltaIndexEntry deltaIndex listNumber key name =
      if (!deltaEntry.atEnd && key == deltaEntry.key) = true then
        findDeltaCollision ((deltaIndex.deltaLists listNumber).saveAt
            (keyIndex key 0 (deltaIndex.deltaLists listNumber).entries)) name deltaEntry
            ((deltaIndex.deltaLists listNumber).entries.length + 1) deltaEntry >>= fun found =>
          .ok (deltaIndex.setList listNumber ((deltaIndex.deltaLists listNumber).saveAt
            (keyIndex key 0 (deltaIndex.deltaLists listNumber).entries)), found)
      else .ok (deltaIndex.setList listNumber ((deltaIndex.deltaLists listNumber).saveAt
        (keyIndex key 0 (deltaIndex.deltaLists listNumber).entries)), deltaEntry) := by
    simp only [getDeltaIndexEntry, hstart, ExceptFold.ok_bind, hfind, hremember]
  rw [hrun]
  by_cases hfound : (!deltaEntry.atEnd && key == deltaEntry.key) = true
  · obtain ⟨entry, hentry, rfl⟩ : ∃ entry, (deltaIndex.deltaLists listNumber).entries[keyIndex key 0
        (deltaIndex.deltaLists listNumber).entries]? = some entry ∧
        deltaEntry = DeltaIndexEntry.decoded (deltaIndex.deltaLists listNumber).entries listNumber
          (keyIndex key 0 (deltaIndex.deltaLists listNumber).entries) entry := by
      rcases hsearched with hentry | ⟨-, hat⟩
      · exact hentry
      · simp [hat.atEnd_eq] at hfound
    have hlt := (List.getElem?_eq_some_iff.mp hentry).1
    have hspec : ∃ result, findDeltaCollision ((deltaIndex.deltaLists listNumber).saveAt
          (keyIndex key 0 (deltaIndex.deltaLists listNumber).entries)) name
          (DeltaIndexEntry.decoded (deltaIndex.deltaLists listNumber).entries listNumber
            (keyIndex key 0 (deltaIndex.deltaLists listNumber).entries) entry)
          ((deltaIndex.deltaLists listNumber).entries.length + 1)
          (DeltaIndexEntry.decoded (deltaIndex.deltaLists listNumber).entries listNumber
            (keyIndex key 0 (deltaIndex.deltaLists listNumber).entries) entry) = .ok result ∧
        CollisionResult (deltaIndex.deltaLists listNumber).entries listNumber
          (keyIndex key 0 (deltaIndex.deltaLists listNumber).entries + 1) name
          (DeltaIndexEntry.decoded (deltaIndex.deltaLists listNumber).entries listNumber
            (keyIndex key 0 (deltaIndex.deltaLists listNumber).entries) entry) result :=
      findDeltaCollision_spec (DeltaIndexEntry.before_decoded hentry) (Nat.succ_pos _) hlt
        (by rw [DeltaList.saveAt_entries]; omega)
    obtain ⟨result, hresult, hcases⟩ := hspec
    refine ⟨_, result, ?_, Or.inl ⟨entry, hentry, rfl⟩, by rw [if_pos hfound]; exact hcases⟩
    rw [if_pos hfound, hresult, ExceptFold.ok_bind]
  · exact ⟨deltaEntry, deltaEntry, by rw [if_neg hfound], hsearched, by rw [if_neg hfound]⟩

end Vdo.Uds
