import Vdo.Uds.SparseCache

/-!
# The search lists stay permutations that agree on their live entries

`rotateSearchList` within the live prefix and `purgeSearchList` both permute
a search list, and only the first changes the list of one zone between
updates, leaving its set of live entries as it was. `SparseCache.Wf` says
that every zone's list is a permutation of the cache entries and that all
zones have the same live entries; every step of the zone threads keeps it,
so every zone answers `sparseCacheContains` alike.
-/

namespace Vdo.Uds

/-! ## `rotateSearchList` -/

/-- A rotation within the list: the entry moved to the front, the entries
before it, and the rest. -/
theorem rotateSearchList_eq (searchList : SearchList) {prefixLength : ℕ}
    (hpos : 1 ≤ prefixLength) (hle : prefixLength ≤ searchList.entries.length) :
    ∃ front mostRecent back, searchList.entries = front ++ mostRecent :: back ∧
      front.length + 1 = prefixLength ∧
      (rotateSearchList searchList prefixLength).1.entries = mostRecent :: (front ++ back) ∧
      (rotateSearchList searchList prefixLength).2 = mostRecent := by
  have hlt : prefixLength - 1 < searchList.entries.length := by omega
  refine ⟨searchList.entries.take (prefixLength - 1), searchList.entries[prefixLength - 1],
    searchList.entries.drop prefixLength, ?_, ?_, ?_, ?_⟩
  · have hsplit := List.take_append_drop (prefixLength - 1) searchList.entries
    rw [List.drop_eq_getElem_cons hlt, show prefixLength - 1 + 1 = prefixLength by omega] at hsplit
    exact hsplit.symm
  · rw [List.length_take]
    omega
  · by_cases hmore : prefixLength > 1
    · simp [rotateSearchList, hmore, List.getElem?_eq_getElem hlt]
    · have hone : prefixLength = 1 := by omega
      subst hone
      obtain ⟨first, rest, hfirst⟩ := List.exists_cons_of_length_pos (by omega : 0 < searchList.entries.length)
      simp [rotateSearchList, hfirst]
  · simp [rotateSearchList, List.getElem?_eq_getElem hlt]

/-- A rotation of no prefix leaves the list as it is. -/
@[simp] theorem rotateSearchList_zero (searchList : SearchList) :
    (rotateSearchList searchList 0).1 = searchList := by
  simp [rotateSearchList]

theorem rotateSearchList_perm (searchList : SearchList) {prefixLength : ℕ}
    (hpos : 1 ≤ prefixLength) (hle : prefixLength ≤ searchList.entries.length) :
    (rotateSearchList searchList prefixLength).1.entries.Perm searchList.entries := by
  obtain ⟨front, mostRecent, back, hentries, -, hrotated, -⟩ := rotateSearchList_eq searchList hpos hle
  rw [hrotated, hentries]
  exact List.perm_middle.symm

/-- A rotation within the live prefix keeps the live entries and their
number. -/
theorem rotateSearchList_live (searchList : SearchList) {prefixLength : ℕ}
    (hinside : prefixLength ≤ searchList.firstDeadEntry)
    (hdead : searchList.firstDeadEntry ≤ searchList.entries.length) :
    (rotateSearchList searchList prefixLength).1.firstDeadEntry = searchList.firstDeadEntry ∧
      ((rotateSearchList searchList prefixLength).1.entries.take searchList.firstDeadEntry).Perm
        (searchList.entries.take searchList.firstDeadEntry) := by
  rcases Nat.eq_zero_or_pos prefixLength with rfl | hpos
  · simp
  obtain ⟨front, mostRecent, back, hentries, hlength, hrotated, -⟩ :=
    rotateSearchList_eq searchList hpos (by omega)
  refine ⟨by simp [rotateSearchList]; omega, ?_⟩
  have hold : searchList.entries.take searchList.firstDeadEntry =
      front ++ mostRecent :: back.take (searchList.firstDeadEntry - prefixLength) := by
    rw [hentries, List.take_append, List.take_of_length_le (by omega),
      show searchList.firstDeadEntry - front.length = searchList.firstDeadEntry - prefixLength + 1 by omega,
      List.take_succ_cons]
  have hnew : (mostRecent :: (front ++ back)).take searchList.firstDeadEntry =
      mostRecent :: (front ++ back.take (searchList.firstDeadEntry - prefixLength)) := by
    rw [show searchList.firstDeadEntry = (searchList.firstDeadEntry - 1) + 1 by omega,
      List.take_succ_cons, List.take_append, List.take_of_length_le (by omega)]
    congr 3
    omega
  rw [hrotated, hnew, hold]
  exact List.perm_middle.symm

theorem rotateSearchList_firstDeadEntry_le (searchList : SearchList) (prefixLength : ℕ)
    (hdead : searchList.firstDeadEntry ≤ prefixLength) :
    (rotateSearchList searchList prefixLength).1.firstDeadEntry ≤ prefixLength := by
  simp only [rotateSearchList]
  split_ifs <;> omega

/-! ## `purgeSearchList` -/

section Purge

variable (chapters : ℕ → CachedChapterIndex) (oldestVirtualChapter : ℕ)

/-- The entries of one group, in order. -/
def purgeFilter (group : PurgeGroup) (entries : List ℕ) : List ℕ :=
  entries.filter fun entry => purgeGroup chapters oldestVirtualChapter entry = group

/-- The loop of `purgeSearchList` appends each entry to its group's list. -/
theorem partitionEntries_eq (entries : List ℕ) :
    partitionEntries chapters oldestVirtualChapter entries =
      (purgeFilter chapters oldestVirtualChapter .alive entries,
        purgeFilter chapters oldestVirtualChapter .skipped entries,
        purgeFilter chapters oldestVirtualChapter .dead entries) := by
  have hloop : ∀ (alive skipped dead : List ℕ),
      entries.foldl (purgeStep chapters oldestVirtualChapter) (alive, skipped, dead) =
        (alive ++ purgeFilter chapters oldestVirtualChapter .alive entries,
          skipped ++ purgeFilter chapters oldestVirtualChapter .skipped entries,
          dead ++ purgeFilter chapters oldestVirtualChapter .dead entries) := by
    induction entries with
    | nil => simp [purgeFilter]
    | cons entry entries ih =>
      intro alive skipped dead
      rw [List.foldl_cons]
      cases hgroup : purgeGroup chapters oldestVirtualChapter entry <;>
        simp [purgeStep, hgroup, ih, purgeFilter]
  simpa [partitionEntries] using hloop [] [] []

/-- The three groups together are the entries, in another order. -/
theorem purgeFilter_perm (entries : List ℕ) :
    (purgeFilter chapters oldestVirtualChapter .alive entries ++
      purgeFilter chapters oldestVirtualChapter .skipped entries ++
      purgeFilter chapters oldestVirtualChapter .dead entries).Perm entries := by
  induction entries with
  | nil => simp [purgeFilter]
  | cons entry entries ih =>
    cases hgroup : purgeGroup chapters oldestVirtualChapter entry
    · simpa [purgeFilter, List.filter_cons, hgroup] using ih
    · simp [purgeFilter, hgroup] at ih ⊢
      exact List.perm_middle.trans (List.Perm.cons entry (by simpa using ih))
    · simp [purgeFilter, hgroup] at ih ⊢
      rw [← List.append_assoc]
      exact List.perm_middle.trans (List.Perm.cons entry (by simpa using ih))

/-- `purgeSearchList` is a stable partition of the live entries into the
alive, the skipped and the dead, before the old dead suffix. -/
theorem purgeSearchList_eq (searchList : SearchList) :
    purgeSearchList searchList chapters oldestVirtualChapter =
      { searchList with
        entries :=
          purgeFilter chapters oldestVirtualChapter .alive
              (searchList.entries.take searchList.firstDeadEntry) ++
            purgeFilter chapters oldestVirtualChapter .skipped
              (searchList.entries.take searchList.firstDeadEntry) ++
            purgeFilter chapters oldestVirtualChapter .dead
              (searchList.entries.take searchList.firstDeadEntry) ++
            searchList.entries.drop searchList.firstDeadEntry
        firstDeadEntry :=
          (purgeFilter chapters oldestVirtualChapter .alive
              (searchList.entries.take searchList.firstDeadEntry)).length +
            (purgeFilter chapters oldestVirtualChapter .skipped
              (searchList.entries.take searchList.firstDeadEntry)).length } := by
  by_cases hempty : searchList.firstDeadEntry = 0
  · obtain ⟨capacity, firstDeadEntry, entries⟩ := searchList
    dsimp only at hempty
    subst hempty
    simp [purgeSearchList, purgeFilter]
  · simp only [purgeSearchList, if_neg hempty, partitionEntries_eq]

theorem purgeSearchList_perm (searchList : SearchList) :
    (purgeSearchList searchList chapters oldestVirtualChapter).entries.Perm searchList.entries := by
  rw [purgeSearchList_eq]
  have hsplit := List.take_append_drop searchList.firstDeadEntry searchList.entries
  conv_rhs => rw [← hsplit]
  exact (purgeFilter_perm chapters oldestVirtualChapter _).append_right _

theorem purgeSearchList_firstDeadEntry_le (searchList : SearchList) :
    (purgeSearchList searchList chapters oldestVirtualChapter).firstDeadEntry ≤
      searchList.firstDeadEntry := by
  rw [purgeSearchList_eq]
  have hperm := purgeFilter_perm chapters oldestVirtualChapter
    (searchList.entries.take searchList.firstDeadEntry)
  have hlength := hperm.length_eq
  simp only [List.length_append, List.length_take] at hlength
  dsimp only
  omega

end Purge

/-! ## The invariant of one list -/

/-- A search list of `capacity` entries: a permutation of them, with its
live prefix inside it. -/
structure SearchList.Wf (capacity : ℕ) (searchList : SearchList) : Prop where
  perm : searchList.entries.Perm (List.range capacity)
  firstDeadEntry_le : searchList.firstDeadEntry ≤ capacity

namespace SearchList.Wf

variable {capacity : ℕ} {searchList : SearchList}

theorem length_entries (hwf : searchList.Wf capacity) : searchList.entries.length = capacity := by
  rw [hwf.perm.length_eq, List.length_range]

theorem length_live (hwf : searchList.Wf capacity) :
    (searchList.entries.take searchList.firstDeadEntry).length = searchList.firstDeadEntry := by
  have hle := hwf.firstDeadEntry_le
  rw [List.length_take, hwf.length_entries]
  omega

theorem rotate (hwf : searchList.Wf capacity) {prefixLength : ℕ} (hpos : 1 ≤ prefixLength)
    (hle : prefixLength ≤ capacity) : (rotateSearchList searchList prefixLength).1.Wf capacity := by
  have hlength := hwf.length_entries
  refine ⟨(rotateSearchList_perm searchList hpos (by omega)).trans hwf.perm, ?_⟩
  by_cases hdead : searchList.firstDeadEntry ≤ prefixLength
  · exact (rotateSearchList_firstDeadEntry_le searchList prefixLength hdead).trans hle
  · have hinside : prefixLength ≤ searchList.firstDeadEntry := by omega
    have hwithin := hwf.firstDeadEntry_le
    rw [(rotateSearchList_live searchList hinside (by omega)).1]
    exact hwf.firstDeadEntry_le

theorem purge (hwf : searchList.Wf capacity) (chapters : ℕ → CachedChapterIndex)
    (oldestVirtualChapter : ℕ) :
    (purgeSearchList searchList chapters oldestVirtualChapter).Wf capacity :=
  ⟨(purgeSearchList_perm chapters oldestVirtualChapter searchList).trans hwf.perm,
    (purgeSearchList_firstDeadEntry_le chapters oldestVirtualChapter searchList).trans
      hwf.firstDeadEntry_le⟩

/-- The entry an update replaces: the rotation at the capacity takes the last
entry, which is live only when no entry is dead. -/
theorem rotate_capacity_victim (hwf : searchList.Wf capacity) (hpos : 1 ≤ capacity) :
    searchList.entries.getLast? = some (rotateSearchList searchList capacity).2 ∧
      ((rotateSearchList searchList capacity).2 ∈ searchList.entries.take searchList.firstDeadEntry ↔
        searchList.firstDeadEntry = capacity) := by
  have hlength := hwf.length_entries
  have hdead := hwf.firstDeadEntry_le
  obtain ⟨front, mostRecent, back, hentries, hfront, -, hvictim⟩ :=
    rotateSearchList_eq searchList hpos hlength.ge
  have hback : back = [] := by
    have hsum := congrArg List.length hentries
    simp only [List.length_append, List.length_cons] at hsum
    exact List.eq_nil_of_length_eq_zero (by omega)
  subst hback
  have hnodup : (front ++ [mostRecent]).Nodup := hentries ▸ hwf.perm.nodup_iff.mpr List.nodup_range
  rw [hvictim, hentries]
  refine ⟨by simp, fun hmem => ?_, fun hall => ?_⟩
  · by_contra hshort
    rw [List.take_append_of_le_length (by omega)] at hmem
    exact (List.nodup_append.mp hnodup).2.2 _ (List.mem_of_mem_take hmem) _
      (List.mem_singleton_self _) rfl
  · have hwhole : searchList.firstDeadEntry = (front ++ [mostRecent]).length := by
      simp only [List.length_append, List.length_singleton]
      omega
    rw [hwhole, List.take_length]
    simp

end SearchList.Wf

/-! ## The invariant of the zone threads -/

namespace SparseCache

variable (cache : SparseCache)

@[simp] theorem setChapter_searchLists (entry : ℕ) (chapter : CachedChapterIndex) :
    (cache.setChapter entry chapter).searchLists = cache.searchLists := rfl

@[simp] theorem setChapter_capacity (entry : ℕ) (chapter : CachedChapterIndex) :
    (cache.setChapter entry chapter).capacity = cache.capacity := rfl

@[simp] theorem setChapter_zoneCount (entry : ℕ) (chapter : CachedChapterIndex) :
    (cache.setChapter entry chapter).zoneCount = cache.zoneCount := rfl

@[simp] theorem setChapter_liveEntries (entry : ℕ) (chapter : CachedChapterIndex) :
    (cache.setChapter entry chapter).liveEntries = cache.liveEntries := rfl

@[simp] theorem setSearchList_searchLists (zoneNumber : ℕ) (searchList : SearchList) :
    (cache.setSearchList zoneNumber searchList).searchLists =
      Function.update cache.searchLists zoneNumber searchList := rfl

@[simp] theorem setSearchList_capacity (zoneNumber : ℕ) (searchList : SearchList) :
    (cache.setSearchList zoneNumber searchList).capacity = cache.capacity := rfl

@[simp] theorem setSearchList_zoneCount (zoneNumber : ℕ) (searchList : SearchList) :
    (cache.setSearchList zoneNumber searchList).zoneCount = cache.zoneCount := rfl

theorem setSearchList_liveEntries (zoneNumber : ℕ) (searchList : SearchList) (zone : ℕ) :
    (cache.setSearchList zoneNumber searchList).liveEntries zone =
      if zone = zoneNumber then searchList.entries.take searchList.firstDeadEntry
      else cache.liveEntries zone := by
  by_cases hzone : zone = zoneNumber
  · subst hzone
    simp [liveEntries, setSearchList]
  · simp [liveEntries, setSearchList, hzone]

/-- The invariant of a cache of `capacity` entries shared by `zoneCount`
zone threads: each zone's list is a permutation of the entries with its live
prefix inside it, and every two zones have the same live entries. -/
structure Wf (capacity zoneCount : ℕ) : Prop where
  capacity_eq : cache.capacity = capacity
  zoneCount_eq : cache.zoneCount = zoneCount
  capacity_pos : 1 ≤ capacity
  searchList_wf : ∀ zoneNumber < zoneCount, (cache.searchLists zoneNumber).Wf capacity
  live_perm : ∀ zoneNumber < zoneCount, ∀ otherZone < zoneCount,
    (cache.liveEntries zoneNumber).Perm (cache.liveEntries otherZone)

variable {cache} {capacity zoneCount : ℕ}

theorem Wf.length_liveEntries (hwf : cache.Wf capacity zoneCount) {zoneNumber : ℕ}
    (hzone : zoneNumber < zoneCount) :
    (cache.liveEntries zoneNumber).length = (cache.searchLists zoneNumber).firstDeadEntry :=
  (hwf.searchList_wf zoneNumber hzone).length_live

/-- The invariant does not read the chapters. -/
theorem Wf.setChapter (hwf : cache.Wf capacity zoneCount) (entry : ℕ)
    (chapter : CachedChapterIndex) : (cache.setChapter entry chapter).Wf capacity zoneCount :=
  ⟨hwf.capacity_eq, hwf.zoneCount_eq, hwf.capacity_pos, hwf.searchList_wf, hwf.live_perm⟩

/-- A zone's list replaced by one whose live prefix holds the zone's live
entries. -/
theorem Wf.setSearchList (hwf : cache.Wf capacity zoneCount) {zoneNumber : ℕ}
    {searchList : SearchList} (hlist : searchList.Wf capacity)
    (hlive : (searchList.entries.take searchList.firstDeadEntry).Perm (cache.liveEntries zoneNumber)) :
    (cache.setSearchList zoneNumber searchList).Wf capacity zoneCount := by
  refine ⟨hwf.capacity_eq, hwf.zoneCount_eq, hwf.capacity_pos, ?_, ?_⟩
  · intro zone hzone
    by_cases hsame : zone = zoneNumber
    · simpa [hsame] using hlist
    · simpa [hsame] using hwf.searchList_wf zone hzone
  · have hzone : ∀ zone < zoneCount, ∀ otherZone < zoneCount,
        ((cache.setSearchList zoneNumber searchList).liveEntries zone).Perm
          (cache.liveEntries otherZone) := by
      intro zone hzone otherZone hother
      rw [setSearchList_liveEntries]
      split_ifs with hsame
      · subst hsame
        exact hlive.trans (hwf.live_perm zone hzone otherZone hother)
      · exact hwf.live_perm zone hzone otherZone hother
    intro zone hzone' otherZone hother
    refine (hzone zone hzone' zone hzone').trans ?_
    exact (hwf.live_perm zone hzone' otherZone hother).trans (hzone otherZone hother otherZone hother).symm

/-- A zone's list rotated within its live prefix, as a hit does. -/
theorem Wf.rotate (hwf : cache.Wf capacity zoneCount) {zoneNumber prefixLength : ℕ}
    (hzone : zoneNumber < zoneCount) (hpos : 1 ≤ prefixLength)
    (hinside : prefixLength ≤ (cache.searchLists zoneNumber).firstDeadEntry) :
    (cache.setSearchList zoneNumber
      (rotateSearchList (cache.searchLists zoneNumber) prefixLength).1).Wf capacity zoneCount := by
  have hlist := hwf.searchList_wf zoneNumber hzone
  have hlength := hlist.length_entries
  have hdead := hlist.firstDeadEntry_le
  obtain ⟨hfirst, hlive⟩ := rotateSearchList_live (cache.searchLists zoneNumber) hinside (by omega)
  exact hwf.setSearchList (hlist.rotate hpos (by omega)) (by rw [hfirst]; exact hlive)

end SparseCache

open SparseCache

/-! ## Every step of the zone threads keeps the invariant -/

section Steps

variable {cache : SparseCache} {capacity zoneCount : ℕ}

theorem makeSparseCache_wf (hmade : makeSparseCache capacity zoneCount = .ok cache) :
    cache.Wf capacity zoneCount := by
  unfold makeSparseCache makeSearchList at hmade
  split_ifs at hmade with hzero hlarge
  · cases hmade
  · cases hmade
  simp only [bind, Except.bind, pure, Except.pure, Except.ok.injEq] at hmade
  subst hmade
  refine ⟨rfl, rfl, by omega, fun _ _ => ⟨List.Perm.refl _, by simp⟩,
    fun _ _ _ _ => by simp [liveEntries]⟩

/-- The position `findIdx?` finds in a zone's live entries is within them. -/
theorem SparseCache.Wf.sparseCacheContains (hwf : cache.Wf capacity zoneCount) {zoneNumber : ℕ}
    (hzone : zoneNumber < zoneCount) (virtualChapter : ℕ) :
    (sparseCacheContains cache virtualChapter zoneNumber).1.Wf capacity zoneCount := by
  unfold Vdo.Uds.sparseCacheContains
  split
  · exact hwf
  · rename_i position hfound
    obtain ⟨hposition, -⟩ := List.findIdx?_eq_some_iff_getElem.mp hfound
    rw [hwf.length_liveEntries hzone] at hposition
    split_ifs
    · exact (hwf.setChapter _ _).rotate hzone (by omega) hposition
    · exact hwf.rotate hzone (by omega) hposition

/-- The loop of `searchSparseCache` keeps the invariant: it only scores
chapters, until a hit rotates the zone's list within its live prefix. -/
theorem SparseCache.Wf.searchSparseCacheFrom {zoneNumber oldestVirtualChapter virtualChapter : ℕ}
    {searchChapter : ℕ → Except UdsError (Option ℕ)} (hzone : zoneNumber < zoneCount)
    (rest : List ℕ) : ∀ (cache : SparseCache) (position : ℕ), cache.Wf capacity zoneCount →
      position + rest.length ≤ (cache.searchLists zoneNumber).firstDeadEntry →
      (Vdo.Uds.searchSparseCacheFrom zoneNumber oldestVirtualChapter virtualChapter searchChapter
        cache position rest).1.Wf capacity zoneCount := by
  induction rest with
  | nil => exact fun cache _ hwf _ => hwf
  | cons entry rest ih =>
    intro cache position hwf hinside
    simp only [List.length_cons] at hinside
    have hscored : ∀ chapter : CachedChapterIndex,
        (if zoneNumber = zoneZero then cache.setChapter entry chapter else cache).Wf
          capacity zoneCount ∧
        (if zoneNumber = zoneZero then cache.setChapter entry chapter else cache).searchLists =
          cache.searchLists := by
      intro chapter
      split_ifs
      · exact ⟨hwf.setChapter _ _, rfl⟩
      · exact ⟨hwf, rfl⟩
    unfold Vdo.Uds.searchSparseCacheFrom
    dsimp only
    by_cases hskip : shouldSkipChapterIndex oldestVirtualChapter (cache.chapters entry) virtualChapter
    · rw [if_pos hskip]
      exact ih cache (position + 1) hwf (by omega)
    rw [if_neg hskip]
    split
    · exact hwf
    · obtain ⟨hwf', hlists⟩ := hscored (scoreSearchHit (cache.chapters entry))
      exact hwf'.rotate hzone (Nat.le_add_left 1 position) (by rw [hlists]; omega)
    · obtain ⟨hwf', hlists⟩ := hscored (scoreSearchMiss cache.skipSearchThreshold (cache.chapters entry))
      by_cases hgiven : virtualChapter ≠ unusedVirtualChapter
      · rw [if_pos hgiven]
        exact hwf'
      · rw [if_neg hgiven]
        exact ih _ (position + 1) hwf' (by rw [hlists]; omega)

theorem SparseCache.Wf.searchSparseCache (hwf : cache.Wf capacity zoneCount) {zoneNumber : ℕ}
    (hzone : zoneNumber < zoneCount) (oldestVirtualChapter virtualChapter : ℕ)
    (searchChapter : ℕ → Except UdsError (Option ℕ)) :
    (Vdo.Uds.searchSparseCache cache zoneNumber oldestVirtualChapter virtualChapter
      searchChapter).1.Wf capacity zoneCount :=
  Wf.searchSparseCacheFrom hzone _ cache 0 hwf (by rw [hwf.length_liveEntries hzone, zero_add])

/-- The captain's update leaves the sizes and gives each zone the list of
zone zero, purged and, when the chapter is still in the volume, rotated at
the capacity. -/
theorem updateSparseCacheCaptain_fields (cache : SparseCache)
    (zoneOldestVirtualChapter indexOldestVirtualChapter virtualChapter : ℕ)
    (readResult : Except UdsError Unit) :
    (updateSparseCacheCaptain cache zoneOldestVirtualChapter indexOldestVirtualChapter
        virtualChapter readResult).1.capacity = cache.capacity ∧
      (updateSparseCacheCaptain cache zoneOldestVirtualChapter indexOldestVirtualChapter
        virtualChapter readResult).1.zoneCount = cache.zoneCount ∧
      (updateSparseCacheCaptain cache zoneOldestVirtualChapter indexOldestVirtualChapter
        virtualChapter readResult).1.searchLists = fun zone =>
        if zone < cache.zoneCount then
          if virtualChapter ≥ indexOldestVirtualChapter then
            (rotateSearchList (purgeSearchList (cache.searchLists zoneZero) cache.chapters
              zoneOldestVirtualChapter) cache.capacity).1
          else purgeSearchList (cache.searchLists zoneZero) cache.chapters zoneOldestVirtualChapter
        else cache.searchLists zone := by
  by_cases hin : virtualChapter ≥ indexOldestVirtualChapter
  · simp [updateSparseCacheCaptain, hin, SparseCache.setChapter]
  · simp [updateSparseCacheCaptain, hin]

/-- Between the barriers every zone gets the captain's list, so all zones
have the same live entries again. -/
theorem SparseCache.Wf.updateSparseCacheCaptain (hwf : cache.Wf capacity zoneCount)
    (zoneOldestVirtualChapter indexOldestVirtualChapter virtualChapter : ℕ)
    (readResult : Except UdsError Unit) :
    (Vdo.Uds.updateSparseCacheCaptain cache zoneOldestVirtualChapter indexOldestVirtualChapter
      virtualChapter readResult).1.Wf capacity zoneCount := by
  obtain ⟨hcapacity, hzoneCount, hlists⟩ := updateSparseCacheCaptain_fields cache
    zoneOldestVirtualChapter indexOldestVirtualChapter virtualChapter readResult
  have hcaptain : 0 < zoneCount →
      (if virtualChapter ≥ indexOldestVirtualChapter then
          (rotateSearchList (purgeSearchList (cache.searchLists zoneZero) cache.chapters
            zoneOldestVirtualChapter) cache.capacity).1
        else purgeSearchList (cache.searchLists zoneZero) cache.chapters
          zoneOldestVirtualChapter).Wf capacity := by
    intro hzone
    have hpurged := (hwf.searchList_wf zoneZero hzone).purge cache.chapters zoneOldestVirtualChapter
    split_ifs
    · rw [hwf.capacity_eq]
      exact hpurged.rotate hwf.capacity_pos le_rfl
    · exact hpurged
  refine ⟨hcapacity.trans hwf.capacity_eq, hzoneCount.trans hwf.zoneCount_eq, hwf.capacity_pos,
    ?_, ?_⟩
  · intro zone hzone
    simp only [hlists, hwf.zoneCount_eq, hzone, if_true]
    exact hcaptain (by omega)
  · intro zone hzone otherZone hother
    simp only [liveEntries, hlists, hwf.zoneCount_eq, hzone, hother, if_true]
    exact List.Perm.refl _

/-- `sparseCacheContains` answers whether a live entry of the zone's list
holds the chapter. -/
theorem sparseCacheContains_snd (cache : SparseCache) (virtualChapter zoneNumber : ℕ) :
    (sparseCacheContains cache virtualChapter zoneNumber).2 =
      (cache.liveEntries zoneNumber).any fun entry =>
        (cache.chapters entry).virtualChapter = virtualChapter := by
  rw [← List.findIdx?_isSome]
  unfold sparseCacheContains
  split <;> simp_all

/-- Zones with the same live entries give the same answer. -/
theorem SparseCache.Wf.sparseCacheContains_agree (hwf : cache.Wf capacity zoneCount)
    {zoneNumber otherZone : ℕ} (hzone : zoneNumber < zoneCount) (hother : otherZone < zoneCount)
    (virtualChapter : ℕ) :
    (Vdo.Uds.sparseCacheContains cache virtualChapter zoneNumber).2 =
      (Vdo.Uds.sparseCacheContains cache virtualChapter otherZone).2 := by
  rw [sparseCacheContains_snd, sparseCacheContains_snd]
  exact (hwf.live_perm zoneNumber hzone otherZone hother).any_eq

/-- Every state of the zone threads keeps the invariant. -/
theorem SparseCacheReachable.wf (hreach : SparseCacheReachable capacity zoneCount cache) :
    cache.Wf capacity zoneCount := by
  refine @Reachability.Reachable.invariant _ _ _ (fun cache => cache.Wf capacity zoneCount)
    (fun _ hmade => makeSparseCache_wf hmade) ?_ cache hreach
  intro cache next hwf hstep
  cases hstep with
  | contains zoneNumber virtualChapter hzone =>
    exact hwf.sparseCacheContains (hwf.zoneCount_eq ▸ hzone) virtualChapter
  | search zoneNumber oldestVirtualChapter virtualChapter searchChapter hzone =>
    exact hwf.searchSparseCache (hwf.zoneCount_eq ▸ hzone) oldestVirtualChapter virtualChapter
      searchChapter
  | update zoneOldestVirtualChapter indexOldestVirtualChapter virtualChapter readResult =>
    exact hwf.updateSparseCacheCaptain zoneOldestVirtualChapter indexOldestVirtualChapter
      virtualChapter readResult

end Steps

/-! ## The search lists under every interleaving -/

/-- Under every interleaving of the zone threads, each zone's list stays a
permutation of the cache entries with its live prefix inside it; a rotation
within the live prefix keeps the live entries, and the purge sorts them
stably into the alive, the skipped and the dead; every two zones hold the
same live entries and so answer `sparseCacheContains` alike; and the entry
the captain replaces is the last of its purged list, live only when no entry
is dead. -/
theorem sparseCacheReachable_searchLists_consistent {capacity zoneCount : ℕ}
    {cache : SparseCache} (hreach : SparseCacheReachable capacity zoneCount cache) :
    (∀ zoneNumber < zoneCount,
      (cache.searchLists zoneNumber).entries.Perm (List.range capacity) ∧
        (cache.searchLists zoneNumber).firstDeadEntry ≤ capacity) ∧
    (∀ zoneNumber < zoneCount, ∀ prefixLength ≤ (cache.searchLists zoneNumber).firstDeadEntry,
      (rotateSearchList (cache.searchLists zoneNumber) prefixLength).1.firstDeadEntry =
          (cache.searchLists zoneNumber).firstDeadEntry ∧
        ((rotateSearchList (cache.searchLists zoneNumber) prefixLength).1.entries.take
          (cache.searchLists zoneNumber).firstDeadEntry).Perm (cache.liveEntries zoneNumber)) ∧
    (∀ zoneNumber < zoneCount, ∀ oldestVirtualChapter : ℕ,
      purgeSearchList (cache.searchLists zoneNumber) cache.chapters oldestVirtualChapter =
        { cache.searchLists zoneNumber with
          entries :=
            purgeFilter cache.chapters oldestVirtualChapter .alive (cache.liveEntries zoneNumber) ++
              purgeFilter cache.chapters oldestVirtualChapter .skipped (cache.liveEntries zoneNumber) ++
              purgeFilter cache.chapters oldestVirtualChapter .dead (cache.liveEntries zoneNumber) ++
              (cache.searchLists zoneNumber).entries.drop (cache.searchLists zoneNumber).firstDeadEntry
          firstDeadEntry :=
            (purgeFilter cache.chapters oldestVirtualChapter .alive (cache.liveEntries zoneNumber)).length +
              (purgeFilter cache.chapters oldestVirtualChapter .skipped
                (cache.liveEntries zoneNumber)).length }) ∧
    (∀ zoneNumber < zoneCount, ∀ otherZone < zoneCount,
      (cache.liveEntries zoneNumber).Perm (cache.liveEntries otherZone) ∧
        ∀ virtualChapter : ℕ, (sparseCacheContains cache virtualChapter zoneNumber).2 =
          (sparseCacheContains cache virtualChapter otherZone).2) ∧
    (0 < zoneCount → ∀ zoneOldestVirtualChapter : ℕ,
      (purgeSearchList (cache.searchLists zoneZero) cache.chapters
          zoneOldestVirtualChapter).entries.getLast? =
        some (rotateSearchList (purgeSearchList (cache.searchLists zoneZero) cache.chapters
          zoneOldestVirtualChapter) cache.capacity).2 ∧
      ((rotateSearchList (purgeSearchList (cache.searchLists zoneZero) cache.chapters
          zoneOldestVirtualChapter) cache.capacity).2 ∈
          (purgeSearchList (cache.searchLists zoneZero) cache.chapters
            zoneOldestVirtualChapter).entries.take
            (purgeSearchList (cache.searchLists zoneZero) cache.chapters
              zoneOldestVirtualChapter).firstDeadEntry ↔
        (purgeSearchList (cache.searchLists zoneZero) cache.chapters
          zoneOldestVirtualChapter).firstDeadEntry = cache.capacity)) := by
  have hwf := hreach.wf
  refine ⟨fun zoneNumber hzone => ?_, fun zoneNumber hzone prefixLength hinside => ?_,
    fun zoneNumber _ oldestVirtualChapter => ?_, fun zoneNumber hzone otherZone hother => ?_,
    fun hzone zoneOldestVirtualChapter => ?_⟩
  · have hlist := hwf.searchList_wf zoneNumber hzone
    exact ⟨hlist.perm, hlist.firstDeadEntry_le⟩
  · have hlist := hwf.searchList_wf zoneNumber hzone
    have hdead := hlist.firstDeadEntry_le
    exact rotateSearchList_live _ hinside (by rw [hlist.length_entries]; exact hdead)
  · exact purgeSearchList_eq cache.chapters oldestVirtualChapter _
  · exact ⟨hwf.live_perm zoneNumber hzone otherZone hother,
      hwf.sparseCacheContains_agree hzone hother⟩
  · have hpurged := (hwf.searchList_wf zoneZero hzone).purge cache.chapters zoneOldestVirtualChapter
    rw [hwf.capacity_eq]
    exact hpurged.rotate_capacity_victim hwf.capacity_pos

/-- A cache of two entries shared by two zones, after the captain zone 0 adds
chapter 7 and zone 1 then finds it. -/
theorem sparseCacheReachable_searchLists_consistent_shared :
    ∃ cache, SparseCacheReachable 2 2 cache ∧ (sparseCacheContains cache 7 1).2 = true ∧
    (∀ zoneNumber < 2,
      (cache.searchLists zoneNumber).entries.Perm (List.range 2) ∧
        (cache.searchLists zoneNumber).firstDeadEntry ≤ 2) ∧
    (∀ zoneNumber < 2, ∀ prefixLength ≤ (cache.searchLists zoneNumber).firstDeadEntry,
      (rotateSearchList (cache.searchLists zoneNumber) prefixLength).1.firstDeadEntry =
          (cache.searchLists zoneNumber).firstDeadEntry ∧
        ((rotateSearchList (cache.searchLists zoneNumber) prefixLength).1.entries.take
          (cache.searchLists zoneNumber).firstDeadEntry).Perm (cache.liveEntries zoneNumber)) ∧
    (∀ zoneNumber < 2, ∀ oldestVirtualChapter : ℕ,
      purgeSearchList (cache.searchLists zoneNumber) cache.chapters oldestVirtualChapter =
        { cache.searchLists zoneNumber with
          entries :=
            purgeFilter cache.chapters oldestVirtualChapter .alive (cache.liveEntries zoneNumber) ++
              purgeFilter cache.chapters oldestVirtualChapter .skipped (cache.liveEntries zoneNumber) ++
              purgeFilter cache.chapters oldestVirtualChapter .dead (cache.liveEntries zoneNumber) ++
              (cache.searchLists zoneNumber).entries.drop (cache.searchLists zoneNumber).firstDeadEntry
          firstDeadEntry :=
            (purgeFilter cache.chapters oldestVirtualChapter .alive (cache.liveEntries zoneNumber)).length +
              (purgeFilter cache.chapters oldestVirtualChapter .skipped
                (cache.liveEntries zoneNumber)).length }) ∧
    (∀ zoneNumber < 2, ∀ otherZone < 2,
      (cache.liveEntries zoneNumber).Perm (cache.liveEntries otherZone) ∧
        ∀ virtualChapter : ℕ, (sparseCacheContains cache virtualChapter zoneNumber).2 =
          (sparseCacheContains cache virtualChapter otherZone).2) ∧
    (0 < 2 → ∀ zoneOldestVirtualChapter : ℕ,
      (purgeSearchList (cache.searchLists zoneZero) cache.chapters
          zoneOldestVirtualChapter).entries.getLast? =
        some (rotateSearchList (purgeSearchList (cache.searchLists zoneZero) cache.chapters
          zoneOldestVirtualChapter) cache.capacity).2 ∧
      ((rotateSearchList (purgeSearchList (cache.searchLists zoneZero) cache.chapters
          zoneOldestVirtualChapter) cache.capacity).2 ∈
          (purgeSearchList (cache.searchLists zoneZero) cache.chapters
            zoneOldestVirtualChapter).entries.take
            (purgeSearchList (cache.searchLists zoneZero) cache.chapters
              zoneOldestVirtualChapter).firstDeadEntry ↔
        (purgeSearchList (cache.searchLists zoneZero) cache.chapters
          zoneOldestVirtualChapter).firstDeadEntry = cache.capacity)) := by
  have r0 : SparseCacheReachable 2 2 _ := Reachability.Reachable.init rfl
  have r1 := r0.step (SparseCacheStep.update 0 0 7 (.ok ()) (by decide))
  have r2 := r1.step (SparseCacheStep.contains 1 7 (by decide))
  exact ⟨_, r2, by decide, sparseCacheReachable_searchLists_consistent r2⟩

end Vdo.Uds
