import Vdo.Uds.OpenChapterZone
import Vdo.Lib.Reachability

/-!
# The sparse chapter index cache and its search lists

The sparse cache (`sparseCache.c`) holds `capacity` cached chapter indexes.
Each zone thread keeps its own `SearchList` (`searchList.c`), a permutation
of the cache entries from most to least recently used whose prefix
`entries[0..firstDeadEntry)` are the live entries; the rest are dead and are
the first to be replaced. A zone's search moves the entry it hits to the
front of its own list. The set of live entries changes only in
`updateSparseCache`, where zone zero, as captain, purges its list, replaces
its last entry with the chapter asked for, and copies its list to every other
zone, while the other zone threads wait at a barrier.

Entries are `uint8_t` indexes into the `chapters` array; the lists are
modelled as lists of naturals, and the three scratch arrays `purgeSearchList`
lays out after the entries as the three lists its loop builds.
-/

namespace Vdo.Uds

/-- `UINT64_MAX`, the virtual chapter of a cache entry that is unused. -/
def unusedVirtualChapter : ℕ := 2 ^ 64 - 1

/-- A `SearchList`. -/
structure SearchList where
  capacity : ℕ
  firstDeadEntry : ℕ
  entries : List ℕ
  deriving DecidableEq, Repr

/-- `makeSearchList`: every entry, in order, all of them dead. -/
def makeSearchList (capacity : ℕ) : Except UdsError SearchList :=
  if capacity = 0 then .error .invalidArgument
  else if capacity > 255 then .error .invalidArgument
  else .ok ⟨capacity, 0, List.range capacity⟩

/-- `rotateSearchList`: the entry at `prefixLength - 1` moved to the front,
the entries before it pushed down by one; the entry is returned. -/
def rotateSearchList (searchList : SearchList) (prefixLength : ℕ) : SearchList × ℕ :=
  let mostRecent := searchList.entries.getD (prefixLength - 1) 0
  let entries :=
    if prefixLength > 1 then
      mostRecent :: (searchList.entries.take (prefixLength - 1) ++ searchList.entries.drop prefixLength)
    else searchList.entries
  let firstDeadEntry :=
    if searchList.firstDeadEntry < prefixLength then searchList.firstDeadEntry + 1
    else searchList.firstDeadEntry
  ({ searchList with entries := entries, firstDeadEntry := firstDeadEntry }, mostRecent)

/-- A `CachedChapterIndex`: the fields the cache's bookkeeping reads. -/
structure CachedChapterIndex where
  virtualChapter : ℕ
  skipSearch : Bool
  consecutiveMisses : ℕ
  deriving DecidableEq, Repr

/-- Where `purgeSearchList` puts a live entry. -/
inductive PurgeGroup
  | alive
  | skipped
  | dead
  deriving DecidableEq, Repr

/-- The test of `purgeSearchList`'s loop: an entry whose chapter fell off the
volume or is unused is dead; one marked `skipSearch` is skipped. -/
def purgeGroup (chapters : ℕ → CachedChapterIndex) (oldestVirtualChapter entry : ℕ) :
    PurgeGroup :=
  let chapter := chapters entry
  if chapter.virtualChapter < oldestVirtualChapter ∨ chapter.virtualChapter = unusedVirtualChapter then
    .dead
  else if chapter.skipSearch then .skipped
  else .alive

/-- One turn of `purgeSearchList`'s loop: the entry appended to the
`alive`, `skipped` or `dead` temporary list. -/
def purgeStep (chapters : ℕ → CachedChapterIndex) (oldestVirtualChapter : ℕ) :
    List ℕ × List ℕ × List ℕ → ℕ → List ℕ × List ℕ × List ℕ
  | (alive, skipped, dead), entry =>
    match purgeGroup chapters oldestVirtualChapter entry with
    | .dead => (alive, skipped, dead ++ [entry])
    | .skipped => (alive, skipped ++ [entry], dead)
    | .alive => (alive ++ [entry], skipped, dead)

/-- The loop of `purgeSearchList` over the live entries. -/
def partitionEntries (chapters : ℕ → CachedChapterIndex) (oldestVirtualChapter : ℕ)
    (entries : List ℕ) : List ℕ × List ℕ × List ℕ :=
  entries.foldl (purgeStep chapters oldestVirtualChapter) ([], [], [])

/-- `purgeSearchList`: the live entries sorted, stably, into the alive, the
skipped and the newly dead; the old dead suffix is left where it is. -/
def purgeSearchList (searchList : SearchList) (chapters : ℕ → CachedChapterIndex)
    (oldestVirtualChapter : ℕ) : SearchList :=
  if searchList.firstDeadEntry = 0 then searchList
  else
    let (alive, skipped, dead) := partitionEntries chapters oldestVirtualChapter
      (searchList.entries.take searchList.firstDeadEntry)
    { searchList with
      entries := alive ++ skipped ++ dead ++ searchList.entries.drop searchList.firstDeadEntry
      firstDeadEntry := alive.length + skipped.length }

/-- The fields of a `SparseCache` its operations read and write; the
statistics counters are left out. -/
structure SparseCache where
  capacity : ℕ
  zoneCount : ℕ
  skipSearchThreshold : ℕ
  searchLists : ℕ → SearchList
  chapters : ℕ → CachedChapterIndex

/-- `SKIP_SEARCH_THRESHOLD`. -/
def skipSearchThresholdDefault : ℕ := 20000

/-- `makeSparseCache`: every entry unused, every zone's list as made. -/
def makeSparseCache (capacity zoneCount : ℕ) : Except UdsError SparseCache := do
  let searchList ← makeSearchList capacity
  pure { capacity := capacity
         zoneCount := zoneCount
         skipSearchThreshold := skipSearchThresholdDefault / zoneCount
         searchLists := fun _ => searchList
         chapters := fun _ => ⟨unusedVirtualChapter, false, 0⟩ }

namespace SparseCache

/-- A zone's list replaced. -/
def setSearchList (cache : SparseCache) (zoneNumber : ℕ) (searchList : SearchList) : SparseCache :=
  { cache with searchLists := Function.update cache.searchLists zoneNumber searchList }

/-- A cache entry replaced. -/
def setChapter (cache : SparseCache) (entry : ℕ) (chapter : CachedChapterIndex) : SparseCache :=
  { cache with chapters := Function.update cache.chapters entry chapter }

/-- The live entries of a zone's list, in its search order. -/
def liveEntries (cache : SparseCache) (zoneNumber : ℕ) : List ℕ :=
  (cache.searchLists zoneNumber).entries.take (cache.searchLists zoneNumber).firstDeadEntry

end SparseCache

/-- `scoreChapterHit`: the chapter's `skipSearch` cleared. -/
def scoreChapterHit (chapter : CachedChapterIndex) : CachedChapterIndex :=
  { chapter with skipSearch := false }

/-- `scoreSearchHit`. -/
def scoreSearchHit (chapter : CachedChapterIndex) : CachedChapterIndex :=
  { chapter with consecutiveMisses := 0, skipSearch := false }

/-- `scoreSearchMiss`: past the threshold of consecutive misses the chapter
is skipped by searches of the whole cache. -/
def scoreSearchMiss (skipSearchThreshold : ℕ) (chapter : CachedChapterIndex) : CachedChapterIndex :=
  let consecutiveMisses := chapter.consecutiveMisses + 1
  { chapter with
    consecutiveMisses := consecutiveMisses
    skipSearch := if consecutiveMisses > skipSearchThreshold then true else chapter.skipSearch }

/-- `ZONE_ZERO`. -/
def zoneZero : ℕ := 0

/-- `sparseCacheContains`: whether a live entry of the zone's list holds the
chapter; a hit moves the entry to the front of that list. -/
def sparseCacheContains (cache : SparseCache) (virtualChapter zoneNumber : ℕ) : SparseCache × Bool :=
  let searchList := cache.searchLists zoneNumber
  match (cache.liveEntries zoneNumber).findIdx? fun entry =>
      (cache.chapters entry).virtualChapter = virtualChapter with
  | none => (cache, false)
  | some position =>
    let entry := searchList.entries.getD position 0
    let cache :=
      if zoneNumber = zoneZero then cache.setChapter entry (scoreChapterHit (cache.chapters entry))
      else cache
    (cache.setSearchList zoneNumber (rotateSearchList searchList (position + 1)).1, true)

/-- `shouldSkipChapterIndex`. -/
def shouldSkipChapterIndex (oldestVirtualChapter : ℕ) (chapter : CachedChapterIndex)
    (virtualChapter : ℕ) : Bool :=
  if chapter.virtualChapter = unusedVirtualChapter ∨ chapter.virtualChapter < oldestVirtualChapter then
    true
  else if virtualChapter ≠ unusedVirtualChapter then virtualChapter ≠ chapter.virtualChapter
  else chapter.skipSearch

/-- The loop of `searchSparseCache` from the live entry at `position`:
`searchChapter entry` searches the chapter index held by a cache entry for
the name, giving the record page it names if any. The result is the cache
and, unless a search failed, the chapter and record page found. -/
def searchSparseCacheFrom (zoneNumber oldestVirtualChapter virtualChapter : ℕ)
    (searchChapter : ℕ → Except UdsError (Option ℕ)) (cache : SparseCache) :
    ℕ → List ℕ → SparseCache × Except UdsError (ℕ × Option ℕ)
  | _, [] => (cache, .ok (virtualChapter, none))
  | position, entry :: rest =>
    let chapter := cache.chapters entry
    if shouldSkipChapterIndex oldestVirtualChapter chapter virtualChapter then
      searchSparseCacheFrom zoneNumber oldestVirtualChapter virtualChapter searchChapter cache
        (position + 1) rest
    else
      match searchChapter entry with
      | .error result => (cache, .error result)
      | .ok (some recordPage) =>
        let cache :=
          if zoneNumber = zoneZero then cache.setChapter entry (scoreSearchHit chapter) else cache
        let searchList := cache.searchLists zoneNumber
        (cache.setSearchList zoneNumber (rotateSearchList searchList (position + 1)).1,
          .ok (chapter.virtualChapter, some recordPage))
      | .ok none =>
        let cache :=
          if zoneNumber = zoneZero then
            cache.setChapter entry (scoreSearchMiss cache.skipSearchThreshold chapter)
          else cache
        if virtualChapter ≠ unusedVirtualChapter then (cache, .ok (virtualChapter, none))
        else
          searchSparseCacheFrom zoneNumber oldestVirtualChapter virtualChapter searchChapter cache
            (position + 1) rest

/-- `searchSparseCache`: the live entries of the zone's list searched in its
order, or only the given chapter's. -/
def searchSparseCache (cache : SparseCache) (zoneNumber oldestVirtualChapter virtualChapter : ℕ)
    (searchChapter : ℕ → Except UdsError (Option ℕ)) :
    SparseCache × Except UdsError (ℕ × Option ℕ) :=
  searchSparseCacheFrom zoneNumber oldestVirtualChapter virtualChapter searchChapter cache 0
    (cache.liveEntries zoneNumber)

/-- `cacheChapterIndex`: the entry marked unused, then, if the chapter index
reads from the volume, holding the chapter. -/
def cacheChapterIndex (chapter : CachedChapterIndex) (virtualChapter : ℕ)
    (readResult : Except UdsError Unit) : CachedChapterIndex × Except UdsError Unit :=
  let chapter := { chapter with virtualChapter := unusedVirtualChapter }
  match readResult with
  | .error result => (chapter, .error result)
  | .ok () =>
    let chapter := { chapter with
      consecutiveMisses := 0
      virtualChapter := virtualChapter
      skipSearch := false }
    (chapter, .ok ())

/-- The critical section of `updateSparseCache`, run by the zone zero thread
while every other zone waits between the barriers, once every zone has found
the chapter missing: zone zero's list purged, its last entry replaced by the
chapter if the chapter is still in the volume, and the list copied to every
other zone. -/
def updateSparseCacheCaptain (cache : SparseCache) (zoneOldestVirtualChapter indexOldestVirtualChapter
    virtualChapter : ℕ) (readResult : Except UdsError Unit) : SparseCache × Except UdsError Unit :=
  let zoneZeroList := purgeSearchList (cache.searchLists zoneZero) cache.chapters zoneOldestVirtualChapter
  let (zoneZeroList, cache, result) :=
    if virtualChapter ≥ indexOldestVirtualChapter then
      let (zoneZeroList, victim) := rotateSearchList zoneZeroList cache.capacity
      let (chapter, result) := cacheChapterIndex (cache.chapters victim) virtualChapter readResult
      (zoneZeroList, cache.setChapter victim chapter, result)
    else (zoneZeroList, cache, .ok ())
  let searchLists := fun zone => if zone < cache.zoneCount then zoneZeroList else cache.searchLists zone
  ({ cache with searchLists := searchLists }, result)

/-- `updateSparseCache` called by a zone: a chapter already cached is moved to
the front of the zone's list; otherwise the zone waits for the captain. -/
def updateSparseCacheHit (cache : SparseCache) (zoneNumber virtualChapter : ℕ) : Option SparseCache :=
  match sparseCacheContains cache virtualChapter zoneNumber with
  | (cache, true) => some cache
  | (_, false) => none

/-- One step of the zone threads on the cache: a zone's query or search of
its own list, or the critical section of an update, once every zone has
found the chapter missing and waits at the barrier. -/
inductive SparseCacheStep : SparseCache → SparseCache → Prop
  | contains {cache : SparseCache} (zoneNumber virtualChapter : ℕ)
      (hzone : zoneNumber < cache.zoneCount) :
      SparseCacheStep cache (sparseCacheContains cache virtualChapter zoneNumber).1
  | search {cache : SparseCache} (zoneNumber oldestVirtualChapter virtualChapter : ℕ)
      (searchChapter : ℕ → Except UdsError (Option ℕ)) (hzone : zoneNumber < cache.zoneCount) :
      SparseCacheStep cache
        (searchSparseCache cache zoneNumber oldestVirtualChapter virtualChapter searchChapter).1
  | update {cache : SparseCache} (zoneOldestVirtualChapter indexOldestVirtualChapter virtualChapter : ℕ)
      (readResult : Except UdsError Unit)
      (hmissing : ∀ zoneNumber < cache.zoneCount,
        (sparseCacheContains cache virtualChapter zoneNumber).2 = false) :
      SparseCacheStep cache (updateSparseCacheCaptain cache zoneOldestVirtualChapter
        indexOldestVirtualChapter virtualChapter readResult).1

/-- The states of a cache made by `makeSparseCache` under every interleaving
of its zone threads. -/
def SparseCacheReachable (capacity zoneCount : ℕ) : SparseCache → Prop :=
  Reachability.Reachable (fun cache => makeSparseCache capacity zoneCount = .ok cache) SparseCacheStep

end Vdo.Uds
