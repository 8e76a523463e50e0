import Vdo.Uds.MasterIndexChapters
import Vdo.Uds.DeltaIndexSearch
import Vdo.Lib.ModularDistance

/-!
# What a flush removes from a delta list

`flushDeltaList` visits the entries of a list in order and removes those whose
chapter index lies in the flush range. Removing an entry hands its delta on to
the entry after it, so the keys of the others stay as they were: read as its
(key, value) pairs (`keyedValues`), a flushed list is the list filtered. A
chapter index lies in a range exactly when its distance after the range's
start, `rollingChapter`, a `modDist` modulo `2 ^ chapterBits`, is below the
range's count.

`getMasterIndexEntry` succeeds on every list of the index and leaves the list
flushed so, whatever key and name it then looks for.
-/

namespace Vdo.Uds

open ModDist

variable {Name : Type}

namespace MasterIndex5Layout

variable (layout : MasterIndex5Layout)

theorem chapterMask_add_one : layout.chapterMask + 1 = 2 ^ layout.chapterBits := by
  have := Nat.two_pow_pos layout.chapterBits
  rw [chapterMask]
  omega

/-- `chapterBits` has room for every chapter of the volume. -/
theorem numChapters_le_two_pow_chapterBits : layout.numChapters ≤ 2 ^ layout.chapterBits := by
  have hlt : layout.numChapters - 1 < 2 ^ 32 := by
    have := layout.numChapters_lt
    omega
  have hbits := lt_two_pow_computeBitsFrom 32 _ hlt
  rw [chapterBits, computeBits, Nat.mod_eq_of_lt hlt]
  have := layout.numChapters_pos
  omega

end MasterIndex5Layout

theorem rollingChapter_eq_modDist (layout : MasterIndex5Layout) (a b : ℕ) :
    rollingChapter layout a b = modDist (2 ^ layout.chapterBits) a b := rfl

/-! ## The entries of a list as keys and values -/

/-- The entries of a list as (key, value) pairs, the keys counted from `key`. -/
def keyedValues : ℕ → List (DeltaEntry Name) → List (ℕ × ℕ)
  | _, [] => []
  | key, entry :: rest => (key + entry.delta, entry.value) :: keyedValues (key + entry.delta) rest

@[simp]
theorem keyedValues_nil (key : ℕ) : keyedValues key ([] : List (DeltaEntry Name)) = [] := rfl

@[simp]
theorem keyedValues_cons (key : ℕ) (entry : DeltaEntry Name) (rest : List (DeltaEntry Name)) :
    keyedValues key (entry :: rest) = (key + entry.delta, entry.value) :: keyedValues (key + entry.delta) rest :=
  rfl

@[simp]
theorem length_keyedValues (key : ℕ) (entries : List (DeltaEntry Name)) :
    (keyedValues key entries).length = entries.length := by
  induction entries generalizing key with
  | nil => rfl
  | cons entry rest ih => simp [ih]

theorem map_snd_keyedValues (key : ℕ) (entries : List (DeltaEntry Name)) :
    (keyedValues key entries).map Prod.snd = entries.map DeltaEntry.value := by
  induction entries generalizing key with
  | nil => rfl
  | cons entry rest ih => simp [ih]

theorem keyedValues_append (key : ℕ) (front back : List (DeltaEntry Name)) :
    keyedValues key (front ++ back) =
      keyedValues key front ++ keyedValues (key + (front.map DeltaEntry.delta).sum) back := by
  induction front generalizing key with
  | nil => simp
  | cons entry rest ih => simp [ih, Nat.add_assoc]

/-- The pair at an entry's offset carries the entry's value. -/
theorem keyedValues_drop {key offset : ℕ} {entries : List (DeltaEntry Name)} {entry : DeltaEntry Name}
    (h : entries[offset]? = some entry) :
    ∃ entryKey, (keyedValues key entries).drop offset =
      (entryKey, entry.value) :: (keyedValues key entries).drop (offset + 1) := by
  have hlt : offset < (keyedValues key entries).length := by
    simpa using (List.getElem?_eq_some_iff.mp h).1
  have hvalue : ((keyedValues key entries).map Prod.snd)[offset]? = some entry.value := by
    rw [map_snd_keyedValues, List.getElem?_map, h, Option.map_some]
  rw [List.getElem?_map, List.getElem?_eq_getElem hlt, Option.map_some, Option.some_inj] at hvalue
  exact ⟨(keyedValues key entries)[offset].1, by rw [List.drop_eq_getElem_cons hlt, ← hvalue]⟩

/-- `removeDeltaIndexEntry` takes the pair at `offset` out and leaves the keys
of the others: a collision entry has no delta, and a plain one hands its delta
to the entry after it. -/
theorem keyedValues_removeEntryAt (key : ℕ) {entries : List (DeltaEntry Name)} {offset : ℕ}
    (h : offset < entries.length) :
    keyedValues key (removeEntryAt entries offset) = (keyedValues key entries).eraseIdx offset := by
  obtain ⟨removed, rest, hdrop⟩ : ∃ removed rest, entries.drop offset = removed :: rest :=
    ⟨_, _, List.drop_eq_getElem_cons h⟩
  have hsplit : entries = entries.take offset ++ removed :: rest := by
    rw [← hdrop, List.take_append_drop]
  have hfront : (keyedValues key (entries.take offset)).length = offset := by
    simp only [length_keyedValues, List.length_take]
    omega
  have herase : ∀ (back : List (ℕ × ℕ)),
      (keyedValues key (entries.take offset) ++ back).eraseIdx offset =
        keyedValues key (entries.take offset) ++ back.eraseIdx 0 := by
    intro back
    rw [List.eraseIdx_append_of_length_le hfront.le, hfront, Nat.sub_self]
  rw [removeEntryAt, hdrop]
  conv_rhs => rw [hsplit, keyedValues_append, herase]
  dsimp only
  split_ifs with hcollision
  · rw [keyedValues_append, keyedValues_cons, hcollision.1, Nat.add_zero]
    rfl
  · cases rest with
    | nil => simp
    | cons next rest => simp [keyedValues_append, Nat.add_assoc]

/-! ## Removing an entry -/

@[simp]
theorem DeltaIndex.removeEntry_numLists (deltaIndex : DeltaIndex Name) (listNumber offset : ℕ) :
    (deltaIndex.removeEntry listNumber offset).numLists = deltaIndex.numLists := rfl

@[simp]
theorem DeltaIndex.removeEntry_entries (deltaIndex : DeltaIndex Name) (listNumber offset : ℕ) :
    ((deltaIndex.removeEntry listNumber offset).deltaLists listNumber).entries =
      removeEntryAt (deltaIndex.deltaLists listNumber).entries offset := by
  simp only [DeltaIndex.removeEntry, DeltaIndex.setList, Function.update_self]
  split_ifs <;> rfl

theorem length_removeEntryAt {entries : List (DeltaEntry Name)} {offset : ℕ} (h : offset < entries.length) :
    (removeEntryAt entries offset).length + 1 = entries.length := by
  have hkeyed := congrArg List.length (keyedValues_removeEntryAt 0 h)
  rw [length_keyedValues, List.length_eraseIdx_of_lt (by simpa using h), length_keyedValues] at hkeyed
  omega

/-! ## Flushing a list -/

section Flush

variable (layout : MasterIndex5Layout) (flushRange : ChapterRange) (listNumber : ℕ)

@[simp]
theorem flushDeltaList_numLists (fuel : ℕ) (deltaIndex : DeltaIndex Name) (offset next : ℕ) :
    (flushDeltaList layout flushRange listNumber fuel deltaIndex offset next).1.numLists =
      deltaIndex.numLists := by
  induction fuel generalizing deltaIndex offset next with
  | zero => rfl
  | succ fuel ih =>
    rw [flushDeltaList]
    split
    · rfl
    · dsimp only
      split_ifs
      · rw [ih, DeltaIndex.removeEntry_numLists]
      · rw [ih]

/-- A flush from `offset` on, with fuel for every entry left, keeps the pairs
before `offset` and those after it whose chapter lies outside the range. The
induction is on the fuel: a removed entry leaves the offset where it is and the
list one shorter, a kept one moves the offset on. -/
theorem keyedValues_flushDeltaList (fuel : ℕ) (deltaIndex : DeltaIndex Name) (offset next : ℕ)
    (hfuel : (deltaIndex.deltaLists listNumber).entries.length ≤ offset + fuel) :
    keyedValues 0 ((flushDeltaList layout flushRange listNumber fuel deltaIndex offset next).1.deltaLists
        listNumber).entries =
      (keyedValues 0 (deltaIndex.deltaLists listNumber).entries).take offset ++
        ((keyedValues 0 (deltaIndex.deltaLists listNumber).entries).drop offset).filter
          fun pair => flushRange.chapterCount ≤ rollingChapter layout pair.2 flushRange.chapterStart := by
  induction fuel generalizing deltaIndex offset next with
  | zero =>
    have hlen : (keyedValues 0 (deltaIndex.deltaLists listNumber).entries).length ≤ offset := by
      simpa using hfuel
    rw [flushDeltaList, List.take_of_length_le hlen, List.drop_of_length_le hlen, List.filter_nil,
      List.append_nil]
  | succ fuel ih =>
    rw [flushDeltaList]
    cases hentry : (deltaIndex.deltaLists listNumber).entries[offset]? with
    | none =>
      have hlen : (keyedValues 0 (deltaIndex.deltaLists listNumber).entries).length ≤ offset := by
        simpa using hentry
      dsimp only
      rw [List.take_of_length_le hlen, List.drop_of_length_le hlen, List.filter_nil, List.append_nil]
    | some entry =>
      have hlt : offset < (deltaIndex.deltaLists listNumber).entries.length :=
        (List.getElem?_eq_some_iff.mp hentry).1
      obtain ⟨entryKey, hdrop⟩ := @keyedValues_drop _ 0 _ _ _ hentry
      dsimp only
      split_ifs with hremoved
      · have hshorter := length_removeEntryAt hlt
        have hfront : ((keyedValues 0 (deltaIndex.deltaLists listNumber).entries).take offset).length = offset := by
          simp only [List.length_take, length_keyedValues]
          omega
        rw [ih _ _ _ (by rw [DeltaIndex.removeEntry_entries]; omega), DeltaIndex.removeEntry_entries,
          keyedValues_removeEntryAt 0 hlt, List.eraseIdx_eq_take_drop_succ, hdrop,
          List.filter_cons_of_neg (by simpa using hremoved), List.take_left' hfront, List.drop_left' hfront]
      · have hat : (keyedValues 0 (deltaIndex.deltaLists listNumber).entries)[offset]? =
            some (entryKey, entry.value) := by
          rw [← List.head?_drop, hdrop, List.head?_cons]
        rw [ih _ _ _ (by omega), List.take_add_one, hat, hdrop, List.filter_cons_of_pos (by simpa using hremoved),
          Option.toList_some, List.append_assoc, List.singleton_append]

end Flush

/-! ## `getMasterIndexEntry` -/

variable [DecidableEq Name] (layout : MasterIndex5Layout)

/-- On a list of the index, `getMasterIndexEntry` succeeds, changes only the
delta index, and leaves the list flushed of the range: the search that follows
the flush reads the list and saves a search point, nothing more. -/
theorem getMasterIndexEntry_ok {mi5 : MasterIndex5 Name} {listNumber : ℕ} (key : ℕ) (name : Name)
    (flushRange : ChapterRange) (hlist : listNumber < mi5.deltaIndex.numLists) :
    ∃ deltaIndex deltaEntry chapterRange,
      getMasterIndexEntry layout mi5 listNumber key name flushRange =
        .ok ({ mi5 with deltaIndex }, deltaEntry, chapterRange) ∧
      (deltaIndex.deltaLists listNumber).entries =
        ((flushDeltaList layout flushRange listNumber (mi5.deltaIndex.deltaLists listNumber).entries.length
          mi5.deltaIndex 0 layout.chapterMask).1.deltaLists listNumber).entries := by
  have hstart : startDeltaIndexSearch mi5.deltaIndex listNumber 0 =
      .ok ⟨listNumber, 0, 0, 0, 0, false, false⟩ := by
    simp [startDeltaIndexSearch, hlist]
  have hnumLists := flushDeltaList_numLists layout flushRange listNumber
    (mi5.deltaIndex.deltaLists listNumber).entries.length mi5.deltaIndex 0 layout.chapterMask
  rcases hflush : flushDeltaList layout flushRange listNumber (mi5.deltaIndex.deltaLists listNumber).entries.length
    mi5.deltaIndex 0 layout.chapterMask with ⟨flushed, next⟩
  rw [hflush] at hnumLists
  dsimp only at hnumLists
  set reset := flushed.setList listNumber
    { flushed.deltaLists listNumber with saveKey := 0, saveOffset := 0 } with hreset
  have hsave : (reset.deltaLists listNumber).SavePoint := by
    constructor <;> simp [reset, DeltaIndex.setList]
  have hnum : listNumber < reset.numLists := by
    simpa [reset, DeltaIndex.setList, hnumLists] using hlist
  obtain ⟨-, result, hget, -⟩ := @getDeltaIndexEntry_spec _ _ _ _ key name hnum hsave
  refine ⟨reset.setList listNumber ((reset.deltaLists listNumber).saveAt
      (keyIndex key 0 (reset.deltaLists listNumber).entries)), result,
    ⟨(next + flushRange.chapterStart) % 2 ^ layout.chapterBits, 0⟩, ?_, ?_⟩
  · simp only [getMasterIndexEntry, hstart, ExceptFold.ok_bind, hflush, ← hreset, hget]
    rfl
  · simp [reset, DeltaIndex.setList]

theorem getMasterIndexEntry_of_not_lt {mi5 : MasterIndex5 Name} {listNumber : ℕ} (key : ℕ) (name : Name)
    (flushRange : ChapterRange) (hlist : ¬ listNumber < mi5.deltaIndex.numLists) :
    getMasterIndexEntry layout mi5 listNumber key name flushRange = .error .corruptData := by
  simp [getMasterIndexEntry, startDeltaIndexSearch, hlist]

/-- `getMasterIndexEntry` changes only the delta index. -/
theorem getMasterIndexEntry_frame {mi5 mi5' : MasterIndex5 Name} {listNumber key : ℕ} {name : Name}
    {flushRange chapterRange : ChapterRange} {deltaEntry : DeltaIndexEntry}
    (h : getMasterIndexEntry layout mi5 listNumber key name flushRange = .ok (mi5', deltaEntry, chapterRange)) :
    ∃ deltaIndex, mi5' = { mi5 with deltaIndex } := by
  by_cases hlist : listNumber < mi5.deltaIndex.numLists
  · obtain ⟨deltaIndex, _, _, hok, -⟩ := getMasterIndexEntry_ok layout key name flushRange hlist
    rw [hok] at h
    cases h
    exact ⟨deltaIndex, rfl⟩
  · rw [getMasterIndexEntry_of_not_lt layout key name flushRange hlist] at h
    cases h

end Vdo.Uds
