import Vdo.Base.RefCountsSearch
import Vdo.Base.RefCountsInvariant

/-!
# Allocating a free counter

`findFreeBlock` reads the counters eight at a time as little-endian words and
tests the bytes of each word from the lowest. On counters that fit a byte this
is the linear scan `firstZero` over the search range: the words that run past
the end of the range only find zeros the final bound check discards. The cursor
of a consistent `RefCounts` ends at the last counter of its block, so a counter
found is a free counter of the slab, and `allocateUnreferencedBlock` keeps the
bookkeeping invariant whether or not it finds one.
-/

namespace Vdo

open IndexCount

/-! ## The linear scan -/

/-- The first zero among `count` counters from `index`. -/
def firstZero (counters : ℕ → ℕ) (index : ℕ) : ℕ → Option ℕ
  | 0 => none
  | count + 1 => if counters index = 0 then some index else firstZero counters (index + 1) count

theorem firstZero_zero (counters : ℕ → ℕ) (index : ℕ) : firstZero counters index 0 = none := rfl

theorem firstZero_succ (counters : ℕ → ℕ) (index count : ℕ) :
    firstZero counters index (count + 1) =
      if counters index = 0 then some index else firstZero counters (index + 1) count := rfl

section FirstZero

variable {counters : ℕ → ℕ}

/-- The scan finds nothing exactly when every counter of the range is non-zero. -/
theorem firstZero_eq_none {index count : ℕ} :
    firstZero counters index count = none ↔
      ∀ j, index ≤ j → j < index + count → counters j ≠ 0 := by
  induction count generalizing index with
  | zero =>
    simp only [firstZero_zero, true_iff]
    intro j hle hlt
    omega
  | succ count ih =>
    simp only [firstZero_succ]
    split_ifs with hzero
    · simp only [false_iff, not_forall, not_not]
      exact ⟨index, le_rfl, by omega, hzero⟩
    · rw [ih]
      constructor
      · intro hrest j hle hlt
        rcases Nat.eq_or_lt_of_le hle with heq | hgt
        · rw [← heq]
          exact hzero
        · exact hrest j hgt (by omega)
      · intro hall j hle hlt
        exact hall j (by omega) (by omega)

/-- The scan finds a counter exactly when it is the first zero of the range. -/
theorem firstZero_eq_some {index count found : ℕ} :
    firstZero counters index count = some found ↔
      index ≤ found ∧ found < index + count ∧ counters found = 0 ∧
        ∀ j, index ≤ j → j < found → counters j ≠ 0 := by
  induction count generalizing index with
  | zero =>
    simp only [firstZero_zero, reduceCtorEq, false_iff]
    omega
  | succ count ih =>
    simp only [firstZero_succ]
    split_ifs with hzero
    · simp only [Option.some.injEq]
      constructor
      · rintro rfl
        exact ⟨le_rfl, by omega, hzero, fun j hle hlt => by omega⟩
      · rintro ⟨hle, -, hfound, hbefore⟩
        by_contra hne
        exact hbefore index le_rfl (by omega) hzero
    · rw [ih]
      constructor
      · rintro ⟨hle, hlt, hfound, hbefore⟩
        refine ⟨by omega, by omega, hfound, fun j hj hjlt => ?_⟩
        rcases Nat.eq_or_lt_of_le hj with heq | hgt
        · rw [← heq]
          exact hzero
        · exact hbefore j hgt hjlt
      · rintro ⟨hle, hlt, hfound, hbefore⟩
        have hne : found ≠ index := fun heq => hzero (heq ▸ hfound)
        exact ⟨by omega, by omega, hfound, fun j hj hjlt => hbefore j (by omega) hjlt⟩

/-- A zero found lies in the range and is zero. -/
theorem firstZero_spec {index count found : ℕ} (h : firstZero counters index count = some found) :
    index ≤ found ∧ found < index + count ∧ counters found = 0 := by
  obtain ⟨hle, hlt, hfound, -⟩ := firstZero_eq_some.mp h
  exact ⟨hle, hlt, hfound⟩

/-- A scan splits at any point of its range. -/
theorem firstZero_add (index m n : ℕ) :
    firstZero counters index (m + n) =
      (firstZero counters index m).or (firstZero counters (index + m) n) := by
  induction m generalizing index with
  | zero => simp [firstZero_zero]
  | succ m ih =>
    rw [show m + 1 + n = (m + n) + 1 by omega]
    simp only [firstZero_succ]
    split_ifs with hzero
    · rfl
    · rw [ih, show index + 1 + m = index + (m + 1) by omega]

/-- The first zero of a longer scan is found by any scan that reaches it. -/
theorem firstZero_of_lt {index m n found : ℕ} (h : firstZero counters index m = some found)
    (hfound : found < index + n) : firstZero counters index n = some found := by
  obtain ⟨hle, -, hzero, hbefore⟩ := firstZero_eq_some.mp h
  exact firstZero_eq_some.mpr ⟨hle, hfound, hzero, hbefore⟩

/-- A scan that stops before the first zero of a longer scan finds nothing. -/
theorem firstZero_eq_none_of_le {index m n found : ℕ} (h : firstZero counters index m = some found)
    (hfound : index + n ≤ found) : firstZero counters index n = none := by
  obtain ⟨-, -, -, hbefore⟩ := firstZero_eq_some.mp h
  exact firstZero_eq_none.mpr fun j hle hlt => hbefore j hle (by omega)

/-- A shorter scan of a range without zeros finds nothing. -/
theorem firstZero_eq_none_of_none {index m n : ℕ} (h : firstZero counters index m = none)
    (hnm : n ≤ m) : firstZero counters index n = none :=
  firstZero_eq_none.mpr fun j hle hlt => firstZero_eq_none.mp h j hle (by omega)

end FirstZero

/-! ## The word-wise search is the linear scan -/

section WordSearch

variable {counters : ℕ → ℕ}

/-- Testing the bytes of a little-endian word from the lowest is the linear
scan of the bytes it was read from. -/
theorem findZeroByte_wordLE (hbytes : ∀ i, counters i ≤ provisionalReferenceCount)
    (failIndex width offset : ℕ) :
    findZeroByte (wordLE counters offset width) offset failIndex width =
      (firstZero counters offset width).getD failIndex := by
  induction width generalizing offset with
  | zero => rfl
  | succ width ih =>
    have hbyte : counters offset < 256 := Nat.lt_succ_of_le (hbytes offset)
    have hlow : wordLE counters offset (width + 1) % 256 = counters offset := by
      simp only [wordLE]
      omega
    have hhigh : wordLE counters offset (width + 1) / 256 = wordLE counters (offset + 1) width := by
      simp only [wordLE]
      omega
    simp only [findZeroByte, firstZero_succ, hlow, hhigh]
    split_ifs
    · rfl
    · exact ih (offset + 1)

/-- One word of the search: a zero of the word before `endIndex`, or the rest
of the range after the word. -/
theorem firstZero_wordStep (next endIndex : ℕ) :
    (if (firstZero counters next 8).getD endIndex < endIndex then
        some ((firstZero counters next 8).getD endIndex)
      else firstZero counters (next + 8) (endIndex - (next + 8))) =
      firstZero counters next (endIndex - next) := by
  cases hword : firstZero counters next 8 with
  | some found =>
    obtain ⟨hle, hlt, -⟩ := firstZero_spec hword
    simp only [Option.getD_some]
    split_ifs with hend
    · exact (firstZero_of_lt hword (by omega)).symm
    · rw [show endIndex - (next + 8) = 0 by omega, firstZero_zero,
        firstZero_eq_none_of_le hword (by omega)]
  | none =>
    simp only [Option.getD_none, lt_irrefl, if_false]
    by_cases hfull : 8 ≤ endIndex - next
    · rw [show endIndex - next = 8 + (endIndex - next - 8) by omega, firstZero_add, hword,
        Option.none_or, show endIndex - next - 8 = endIndex - (next + 8) by omega]
    · rw [show endIndex - (next + 8) = 0 by omega, firstZero_zero,
        firstZero_eq_none_of_none hword (by omega)]

/-- The loop of `findFreeBlock` is the linear scan of the rest of the range. -/
theorem findFreeBlockFrom_eq (hbytes : ∀ i, counters i ≤ provisionalReferenceCount)
    (endIndex nextIndex : ℕ) :
    findFreeBlockFrom counters endIndex nextIndex =
      firstZero counters nextIndex (endIndex - nextIndex) := by
  induction nextIndex using findFreeBlockFrom.induct counters endIndex with
  | case1 next hnext zeroIndex hfound =>
    rw [findFreeBlockFrom, if_pos hnext, ← firstZero_wordStep]
    simp only [zeroIndex, findZeroByteInWord, getUInt64LE, findZeroByte_wordLE hbytes] at hfound ⊢
    rw [if_pos hfound, if_pos hfound]
  | case2 next hnext zeroIndex hpast ih =>
    rw [findFreeBlockFrom, if_pos hnext, ← firstZero_wordStep, ih]
    simp only [zeroIndex, findZeroByteInWord, getUInt64LE, findZeroByte_wordLE hbytes] at hpast ⊢
  | case3 next hend =>
    rw [findFreeBlockFrom, if_neg hend, show endIndex - next = 0 by omega, firstZero_zero]

/-- `findFreeBlock` finds exactly the first zero counter of
`[startIndex, endIndex)`. -/
theorem findFreeBlock_eq (hbytes : ∀ i, counters i ≤ provisionalReferenceCount)
    (startIndex endIndex : ℕ) :
    findFreeBlock counters startIndex endIndex =
      firstZero counters startIndex (endIndex - startIndex) := by
  rw [findFreeBlock, ← firstZero_wordStep, ← findFreeBlockFrom_eq hbytes]
  simp only [findZeroByteInWord, getUInt64LE, findZeroByte_wordLE hbytes]

end WordSearch

/-! ## Searching the reference blocks -/

section Search

variable {refCounts : RefCounts}

/-- The cursor's end is a counter bound of the slab. -/
theorem RefCounts.Consistent.endIndex_le (h : refCounts.Consistent) :
    refCounts.searchCursor.endIndex ≤ refCounts.blockCount := by
  have hend := h.endIndex_eq
  have hblock := refCounts.searchCursor_block_le
  split_ifs at hend with hlast
  · exact hend.le
  · have hreference := h.referenceBlockCount_eq
    have hpos : 0 < refCounts.blockCount := by
      by_contra hzero
      rw [Nat.eq_zero_of_not_pos hzero, getSavedReferenceCountSize_eq] at hreference
      simp only [RefCounts.lastBlock] at hlast
      omega
    have hfull := lastBlock_counters_lt hpos
    rw [← hreference] at hfull
    simp only [RefCounts.lastBlock] at hlast
    rw [hend, countsPerBlock_eq] at *
    have hlt : refCounts.searchCursor.block + 1 ≤ refCounts.referenceBlockCount - 1 := by omega
    have hmul := Nat.mul_le_mul_right 4032 hlt
    omega

/-- A counter found in the cursor's block is a free counter of the slab. -/
theorem RefCounts.Consistent.searchCurrentReferenceBlock_spec (h : refCounts.Consistent)
    {found : ℕ} (hfound : refCounts.searchCurrentReferenceBlock = some found) :
    found < refCounts.blockCount ∧ refCounts.counters found = emptyReferenceCount := by
  unfold RefCounts.searchCurrentReferenceBlock at hfound
  dsimp only at hfound
  split_ifs at hfound
  rw [findFreeBlock_eq h.counter_le] at hfound
  obtain ⟨hge, hlt, hzero⟩ := firstZero_spec hfound
  have hend := h.endIndex_le
  exact ⟨by omega, hzero⟩

/-- Moving the cursor changes no counter and no total. -/
theorem RefCounts.sameCounts_advanceSearchCursor (refCounts : RefCounts) :
    refCounts.SameCounts refCounts.advanceSearchCursor.1 := by
  unfold RefCounts.advanceSearchCursor
  split
  · exact ⟨rfl, rfl, fun _ => rfl, rfl, rfl⟩
  · exact ⟨rfl, rfl, fun _ => rfl, rfl, rfl⟩

/-- Moving the cursor keeps the invariant: the next block ends one block
further, or at the slab's end when it is the last. -/
theorem RefCounts.Consistent.advanceSearchCursor (h : refCounts.Consistent) :
    refCounts.advanceSearchCursor.1.Consistent := by
  unfold RefCounts.advanceSearchCursor
  split
  · exact h.resetSearchCursor
  · rename_i hlast
    have hend := h.endIndex_eq
    rw [if_neg hlast] at hend
    exact
      { counter_le := h.counter_le
        padding_eq := h.padding_eq
        freeBlocks_eq := h.freeBlocks_eq
        allocatedCount_eq := h.allocatedCount_eq
        referenceBlockCount_eq := h.referenceBlockCount_eq
        endIndex_eq := by
          show (if refCounts.searchCursor.block + 1 = refCounts.lastBlock then refCounts.blockCount
              else refCounts.searchCursor.endIndex + countsPerBlock) =
            if refCounts.searchCursor.block + 1 = refCounts.lastBlock then refCounts.blockCount
            else (refCounts.searchCursor.block + 1 + 1) * countsPerBlock
          by_cases hnext : refCounts.searchCursor.block + 1 = refCounts.lastBlock
          · rw [if_pos hnext, if_pos hnext]
          · rw [if_neg hnext, if_neg hnext, hend, countsPerBlock_eq]
            omega }

/-- The later blocks' search changes no counter and no total. -/
theorem RefCounts.sameCounts_searchLaterReferenceBlocks (refCounts : RefCounts) :
    refCounts.SameCounts refCounts.searchLaterReferenceBlocks.1 := by
  induction refCounts using RefCounts.searchLaterReferenceBlocks.induct with
  | case1 refCounts advanced hmore freeIndex hfound =>
    simp only [advanced] at hmore hfound
    rw [RefCounts.searchLaterReferenceBlocks, dif_pos hmore]
    simp only [hfound]
    exact refCounts.sameCounts_advanceSearchCursor
  | case2 refCounts advanced hmore hnone ih =>
    simp only [advanced] at hmore hnone
    rw [RefCounts.searchLaterReferenceBlocks, dif_pos hmore]
    simp only [hnone]
    exact refCounts.sameCounts_advanceSearchCursor.trans ih
  | case3 refCounts advanced hmore =>
    rw [RefCounts.searchLaterReferenceBlocks, dif_neg hmore]
    exact refCounts.sameCounts_advanceSearchCursor

/-- The later blocks' search keeps the invariant and finds only free counters. -/
theorem RefCounts.Consistent.searchLaterReferenceBlocks (h : refCounts.Consistent) :
    refCounts.searchLaterReferenceBlocks.1.Consistent ∧
      ∀ found, refCounts.searchLaterReferenceBlocks.2 = some found →
        found < refCounts.searchLaterReferenceBlocks.1.blockCount ∧
          refCounts.searchLaterReferenceBlocks.1.counters found = emptyReferenceCount := by
  induction refCounts using RefCounts.searchLaterReferenceBlocks.induct with
  | case1 refCounts advanced hmore freeIndex hfound =>
    simp only [advanced] at hmore hfound
    rw [RefCounts.searchLaterReferenceBlocks, dif_pos hmore]
    simp only [hfound, Option.some.injEq]
    refine ⟨h.advanceSearchCursor, ?_⟩
    rintro found rfl
    exact h.advanceSearchCursor.searchCurrentReferenceBlock_spec hfound
  | case2 refCounts advanced hmore hnone ih =>
    simp only [advanced] at hmore hnone
    rw [RefCounts.searchLaterReferenceBlocks, dif_pos hmore]
    simp only [hnone]
    exact ih h.advanceSearchCursor
  | case3 refCounts advanced hmore =>
    rw [RefCounts.searchLaterReferenceBlocks, dif_neg hmore]
    exact ⟨h.advanceSearchCursor, fun found hfound => by cases hfound⟩

/-- The whole search changes no counter and no total. -/
theorem RefCounts.sameCounts_searchReferenceBlocks (refCounts : RefCounts) :
    refCounts.SameCounts refCounts.searchReferenceBlocks.1 := by
  rw [RefCounts.searchReferenceBlocks_eq]
  split
  · exact RefCounts.SameCounts.refl _
  · exact refCounts.sameCounts_searchLaterReferenceBlocks

/-- The whole search keeps the invariant and finds only free counters. -/
theorem RefCounts.Consistent.searchReferenceBlocks (h : refCounts.Consistent) :
    refCounts.searchReferenceBlocks.1.Consistent ∧
      ∀ found, refCounts.searchReferenceBlocks.2 = some found →
        found < refCounts.searchReferenceBlocks.1.blockCount ∧
          refCounts.searchReferenceBlocks.1.counters found = emptyReferenceCount := by
  rw [RefCounts.searchReferenceBlocks_eq]
  split
  · rename_i freeIndex hfound
    refine ⟨h, ?_⟩
    rintro found hsome
    cases hsome
    exact h.searchCurrentReferenceBlock_spec hfound
  · exact h.searchLaterReferenceBlocks

end Search

/-! ## Allocation -/

section Allocate

variable {refCounts : RefCounts}

/-- `allocateUnreferencedBlock` keeps the invariant, whether or not it finds a
free counter. -/
theorem RefCounts.Consistent.allocateUnreferencedBlock (h : refCounts.Consistent)
    (slabOpen : Bool) : (allocateUnreferencedBlock slabOpen refCounts).1.Consistent := by
  cases slabOpen with
  | false => exact h
  | true =>
    rw [allocateUnreferencedBlock_true]
    obtain ⟨hsearched, hfound⟩ := h.searchReferenceBlocks
    split
    · rename_i searched hsearch
      rw [hsearch] at hsearched
      exact hsearched
    · rename_i searched freeIndex hsearch
      rw [hsearch] at hsearched hfound
      obtain ⟨hindex, hfree⟩ := hfound freeIndex rfl
      have hallocated := hsearched.makeProvisionalReference hindex hfree
      exact hallocated.of_sameBookkeeping ⟨⟨rfl, rfl, fun _ => rfl, rfl, rfl⟩, rfl, rfl⟩

/-- An allocation keeps the slab's size. -/
theorem allocateUnreferencedBlock_blockCount (slabOpen : Bool) (refCounts : RefCounts) :
    (allocateUnreferencedBlock slabOpen refCounts).1.blockCount = refCounts.blockCount := by
  cases slabOpen with
  | false => rfl
  | true =>
    rw [allocateUnreferencedBlock_true]
    have hsame := refCounts.sameCounts_searchReferenceBlocks
    split
    · rename_i searched hsearch
      rw [hsearch] at hsame
      exact hsame.blockCount_eq
    · rename_i searched freeIndex hsearch
      rw [hsearch] at hsame
      exact hsame.blockCount_eq

/-- An allocation that fails changes no counter and no total. -/
theorem allocateUnreferencedBlock_error_sameCounts (slabOpen : Bool) (refCounts : RefCounts)
    {e : VdoError} (herror : (allocateUnreferencedBlock slabOpen refCounts).2 = .error e) :
    refCounts.SameCounts (allocateUnreferencedBlock slabOpen refCounts).1 := by
  cases slabOpen with
  | false => exact RefCounts.SameCounts.refl _
  | true =>
    rw [allocateUnreferencedBlock_true] at herror ⊢
    split at herror
    · rename_i searched hsearch
      have hsame := refCounts.sameCounts_searchReferenceBlocks
      rw [hsearch] at hsame
      exact hsame
    · cases herror

end Allocate

end Vdo
