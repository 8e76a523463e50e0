import Vdo.Uds.OpenChapterZone
import Mathlib

/-!
# Integer maps

An `IntMap` (`intMap.c`) maps 64-bit keys to values by hopscotch hashing:
every entry lies within `NEIGHBORHOOD` buckets of the bucket its key hashes to,
and the buckets of one neighborhood are chained by biased hop offsets, sorted.
A new entry takes the nearest empty bucket, moved into the neighborhood by
hops if it lies beyond; when none can be found or moved, `resizeBuckets` makes
a map `capacity / 2 * 3` neighborhoods wide and puts every entry again.

The bucket array is a function of the index. A `NULL` value is `none`.
`intMapPut` and `resizeBuckets` call each other; `fuel` bounds how many
resizes may nest or repeat, and a run out of fuel gives `none`. The other
loops are bounded as the source's are: a hop list has at most `NEIGHBORHOOD`
entries, and each move brings the hole strictly nearer to the start.
-/

namespace Vdo

open Uds (UdsError)

namespace IntMap

/-- `DEFAULT_CAPACITY`. -/
def defaultCapacity : ℕ := 16

/-- `NEIGHBORHOOD`: the buckets of each neighborhood. -/
def neighborhood : ℕ := 255

/-- `MAX_PROBES`. -/
def maxProbes : ℕ := 1024

/-- `NULL_HOP_OFFSET`. -/
def nullHopOffset : ℕ := 0

/-- `DEFAULT_LOAD`. -/
def defaultLoad : ℕ := 75

/-- A `Bucket`: the biased offset of the first entry of the neighborhood
that starts here, the biased offset of the next entry of the neighborhood this
entry is in, and the entry. -/
@[ext]
structure Bucket (V : Type) where
  firstHop : ℕ
  nextHop : ℕ
  key : UInt64
  value : Option V

/-- A bucket as `ALLOCATE` leaves it: zeroed. -/
def Bucket.empty {V : Type} : Bucket V := ⟨0, 0, 0, none⟩

end IntMap

/-- An `IntMap`: `capacity` neighborhoods, and `NEIGHBORHOOD - 1` more
buckets so that the last neighborhood need not wrap around. -/
structure IntMap (V : Type) where
  size : ℕ
  capacity : ℕ
  bucketCount : ℕ
  buckets : ℕ → IntMap.Bucket V

namespace IntMap

variable {V : Type}

/-- `mix`: CityHash's 16-byte mixing function. -/
def mix (input1 input2 : UInt64) : UInt64 :=
  let cityMultiplier : UInt64 := 0x9ddfea08eb382d69
  let hash := (input1 ^^^ input2) * cityMultiplier
  let hash := hash ^^^ (hash >>> 47)
  let hash := hash ^^^ input2
  let hash := hash * cityMultiplier
  let hash := hash ^^^ (hash >>> 47)
  hash * cityMultiplier

/-- `hashKey`: the key's two 32-bit halves, the low one first as on a
little-endian machine, mixed. -/
def hashKey (key : UInt64) : UInt64 :=
  mix ((8 : UInt64) + ((key &&& 0xFFFFFFFF) <<< 3)) (key >>> 32)

/-- `allocateBuckets`: an empty map of `capacity` neighborhoods. -/
def allocateBuckets (capacity : ℕ) : IntMap V :=
  ⟨0, capacity, capacity + (IntMap.neighborhood - 1), fun _ => Bucket.empty⟩

/-- `makeIntMap`, with the default capacity for `0` and the default load for
`0`; a load above 100 is refused. -/
def makeIntMap (initialCapacity initialLoad : ℕ) : Except UdsError (IntMap V) :=
  let initialLoad := if initialLoad = 0 then IntMap.defaultLoad else initialLoad
  if initialLoad > 100 then .error .invalidArgument
  else
    let capacity := if initialCapacity > 0 then initialCapacity else IntMap.defaultCapacity
    .ok (allocateBuckets (capacity * 100 / initialLoad))

/-- `intMapSize`. -/
def intMapSize (map : IntMap V) : ℕ := map.size

/-- `dereferenceHop`: the bucket a biased hop offset names. -/
def dereferenceHop (neighborhood hopOffset : ℕ) : Option ℕ :=
  if hopOffset = IntMap.nullHopOffset then none else some (neighborhood + hopOffset - 1)

/-- The search loop of `insertInHopList`, at the entry `nextHop` names:
it links the new bucket after the last entry of a smaller offset. -/
def insertInHopListFrom (neighborhood newBucket hopOffset : ℕ) :
    ℕ → (ℕ → Bucket V) → ℕ → ℕ → Bucket V
  | 0, buckets, _ => buckets
  | fuel + 1, buckets, nextHop =>
    let bucket := neighborhood + nextHop - 1
    let nextHop := (buckets bucket).nextHop
    if nextHop = IntMap.nullHopOffset ∨ nextHop > hopOffset then
      let buckets := Function.update buckets newBucket { buckets newBucket with nextHop := nextHop }
      Function.update buckets bucket { buckets bucket with nextHop := hopOffset }
    else insertInHopListFrom neighborhood newBucket hopOffset fuel buckets nextHop

/-- `insertInHopList`: the bucket linked into the neighborhood's hop list,
which stays sorted by offset. -/
def insertInHopList (buckets : ℕ → Bucket V) (neighborhood newBucket : ℕ) : ℕ → Bucket V :=
  let hopOffset := 1 + (newBucket - neighborhood)
  let nextHop := (buckets neighborhood).firstHop
  if nextHop = IntMap.nullHopOffset ∨ nextHop > hopOffset then
    let buckets := Function.update buckets newBucket { buckets newBucket with nextHop := nextHop }
    Function.update buckets neighborhood { buckets neighborhood with firstHop := hopOffset }
  else insertInHopListFrom neighborhood newBucket hopOffset IntMap.neighborhood buckets nextHop

/-- `selectBucket`: the 32-bit hash scaled to a neighborhood, as a binary
fraction times the capacity. -/
def selectBucket (map : IntMap V) (key : UInt64) : ℕ :=
  (hashKey key &&& 0xFFFFFFFF).toNat * map.capacity % 2 ^ 64 / 2 ^ 32

/-- The loop of `searchHopList`: the entry with the key, and the entry
before it. -/
def searchHopListFrom (buckets : ℕ → Bucket V) (neighborhood : ℕ) (key : UInt64) :
    ℕ → Option ℕ → ℕ → Option (ℕ × Option ℕ)
  | 0, _, _ => none
  | fuel + 1, previous, nextHop =>
    match dereferenceHop neighborhood nextHop with
    | none => none
    | some entry =>
      if key = (buckets entry).key ∧ (buckets entry).value.isSome then some (entry, previous)
      else searchHopListFrom buckets neighborhood key fuel (some entry) (buckets entry).nextHop

/-- `searchHopList`. -/
def searchHopList (map : IntMap V) (bucket : ℕ) (key : UInt64) : Option (ℕ × Option ℕ) :=
  searchHopListFrom map.buckets bucket key IntMap.neighborhood none (map.buckets bucket).firstHop

/-- `intMapGet`. -/
def intMapGet (map : IntMap V) (key : UInt64) : Option V :=
  (searchHopList map (selectBucket map key) key).bind fun (entry, _) => (map.buckets entry).value

/-- `findEmptyBucket`: the first empty bucket from `bucket`, within
`maxProbes` and the array. -/
def findEmptyBucket (map : IntMap V) (bucket maxProbes : ℕ) : Option ℕ :=
  (List.range' bucket (min (map.bucketCount - bucket) maxProbes)).find? fun entry =>
    (map.buckets entry).value.isNone

/-- `moveEmptyBucket`: in the first neighborhood around the hole whose first
entry lies before it, that entry moved into the hole; the bucket it leaves is
the new hole. -/
def moveEmptyBucket (map : IntMap V) (hole : ℕ) : IntMap V × Option ℕ :=
  let movable := fun bucket =>
    match dereferenceHop bucket (map.buckets bucket).firstHop with
    | none => false
    | some newHole => !decide (hole < newHole)
  match (List.range' (hole + 1 - IntMap.neighborhood) (IntMap.neighborhood - 1)).find? movable with
  | none => (map, none)
  | some bucket =>
    let newHole := bucket + (map.buckets bucket).firstHop - 1
    let buckets := map.buckets
    let buckets := Function.update buckets bucket { buckets bucket with firstHop := (buckets newHole).nextHop }
    let buckets := Function.update buckets newHole { buckets newHole with nextHop := IntMap.nullHopOffset }
    let buckets := Function.update buckets hole
      { buckets hole with key := (buckets newHole).key, value := (buckets newHole).value }
    let buckets := Function.update buckets newHole { buckets newHole with value := none }
    ({ map with buckets := insertInHopList buckets bucket hole }, some newHole)

/-- The loop of `findOrMakeVacancy`: the hole moved nearer until it is in the
neighborhood, or cannot be moved. -/
def findOrMakeVacancyFrom (neighborhood : ℕ) : ℕ → IntMap V → Option ℕ → IntMap V × Option ℕ
  | _, map, none => (map, none)
  | 0, map, some _ => (map, none)
  | fuel + 1, map, some hole =>
    if hole - neighborhood < IntMap.neighborhood then (map, some hole)
    else
      let (map, hole) := moveEmptyBucket map hole
      findOrMakeVacancyFrom neighborhood fuel map hole

/-- `findOrMakeVacancy`: an empty bucket in the neighborhood, found or made. -/
def findOrMakeVacancy (map : IntMap V) (neighborhood : ℕ) : IntMap V × Option ℕ :=
  findOrMakeVacancyFrom neighborhood map.bucketCount map
    (findEmptyBucket map neighborhood IntMap.maxProbes)

/-- `updateMapping`: for a key in the neighborhood, its old value, after the
new one is stored if `update` asks for it. -/
def updateMapping (map : IntMap V) (neighborhood : ℕ) (key : UInt64) (newValue : V) (update : Bool) :
    Option (IntMap V × Option V) :=
  match searchHopList map neighborhood key with
  | none => none
  | some (bucket, _) =>
    let oldValue := (map.buckets bucket).value
    if update then
      let updated := { map.buckets bucket with value := some newValue }
      some ({ map with buckets := Function.update map.buckets bucket updated }, oldValue)
    else some (map, oldValue)

mutual

/-- `intMapPut`: the old value of a key already mapped, or `none` for a new
entry. -/
def intMapPut (fuel : ℕ) (map : IntMap V) (key : UInt64) (newValue : Option V) (update : Bool) :
    Option (IntMap V × Except UdsError (Option V)) :=
  match newValue with
  | none => some (map, .error .invalidArgument)
  | some value =>
    match updateMapping map (selectBucket map key) key value update with
    | some (map, oldValue) => some (map, .ok oldValue)
    | none => putNewEntry fuel map key value
termination_by (fuel, 1, 0)

/-- The loop of `intMapPut` that resizes the map until the key's
neighborhood has a vacancy, and then puts the entry there. -/
def putNewEntry (fuel : ℕ) (map : IntMap V) (key : UInt64) (value : V) :
    Option (IntMap V × Except UdsError (Option V)) :=
  let neighborhood := selectBucket map key
  match findOrMakeVacancy map neighborhood with
  | (map, some bucket) =>
    let buckets := Function.update map.buckets bucket { map.buckets bucket with key := key, value := some value }
    some ({ map with size := map.size + 1, buckets := insertInHopList buckets neighborhood bucket }, .ok none)
  | (map, none) =>
    match fuel with
    | 0 => none
    | fuel + 1 =>
      match resizeBuckets fuel map with
      | none => none
      | some (map, .error result) => some (map, .error result)
      | some (map, .ok ()) => putNewEntry fuel map key value
termination_by (fuel, 0, 0)

/-- `resizeBuckets`: a map of `capacity / 2 * 3` neighborhoods, with every
entry of the old one put again; on a failure the old map is kept. -/
def resizeBuckets (fuel : ℕ) (oldMap : IntMap V) : Option (IntMap V × Except UdsError Unit) :=
  reinsertEntries fuel oldMap (allocateBuckets (oldMap.capacity / 2 * 3)) (List.range oldMap.bucketCount)
termination_by (fuel, 3, 0)

/-- The loop of `resizeBuckets` over the old buckets. -/
def reinsertEntries (fuel : ℕ) (oldMap map : IntMap V) : List ℕ → Option (IntMap V × Except UdsError Unit)
  | [] => some (map, .ok ())
  | i :: rest =>
    match (oldMap.buckets i).value with
    | none => reinsertEntries fuel oldMap map rest
    | some value =>
      match intMapPut fuel map (oldMap.buckets i).key (some value) true with
      | none => none
      | some (_, .error result) => some (oldMap, .error result)
      | some (map, .ok _) => reinsertEntries fuel oldMap map rest
termination_by indices => (fuel, 2, indices.length)

end

/-- `intMapRemove`: the value of the key, after its entry is emptied and
spliced out of its hop list. -/
def intMapRemove (map : IntMap V) (key : UInt64) : IntMap V × Option V :=
  let bucket := selectBucket map key
  match searchHopList map bucket key with
  | none => (map, none)
  | some (victim, previous) =>
    let value := (map.buckets victim).value
    let buckets := map.buckets
    let buckets := Function.update buckets victim { buckets victim with value := none, key := 0 }
    let buckets := match previous with
      | none => Function.update buckets bucket { buckets bucket with firstHop := (buckets victim).nextHop }
      | some previous =>
        Function.update buckets previous { buckets previous with nextHop := (buckets victim).nextHop }
    let buckets := Function.update buckets victim { buckets victim with nextHop := IntMap.nullHopOffset }
    ({ map with size := map.size - 1, buckets := buckets }, value)

/-- `intMapPut` of each entry in turn, each with `fuel`. -/
def intMapPutAll (fuel : ℕ) : IntMap V → List (UInt64 × V) → Option (IntMap V)
  | map, [] => some map
  | map, (key, value) :: entries =>
    match intMapPut fuel map key (some value) true with
    | some (map, _) => intMapPutAll fuel map entries
    | none => none

/-! ## Maps of at most one neighborhood

With a capacity of at most one, every key hashes to bucket 0, so every entry
is in its neighborhood. Filled from empty, such a map holds its entries in
its first buckets, in the order they were put, on the one hop list of bucket
0 (`packedMap`). A put of a new key fills the next bucket; when every bucket
is full, no vacancy can be found or made. -/

/-- A capacity of at most one neighborhood sends every key to bucket 0: the
32-bit hash times the capacity is below `2 ^ 32`. -/
theorem selectBucket_eq_zero (map : IntMap V) (hcapacity : map.capacity ≤ 1) (key : UInt64) :
    selectBucket map key = 0 := by
  have hmask : (0xFFFFFFFF : UInt64).toNat = 2 ^ 32 - 1 := rfl
  have hhash : (hashKey key &&& 0xFFFFFFFF).toNat < 2 ^ 32 := by
    rw [UInt64.toNat_and]
    have := Nat.and_le_right (n := (hashKey key).toNat) (m := (0xFFFFFFFF : UInt64).toNat)
    omega
  have hproduct : (hashKey key &&& 0xFFFFFFFF).toNat * map.capacity < 2 ^ 32 := by
    calc (hashKey key &&& 0xFFFFFFFF).toNat * map.capacity
        ≤ (hashKey key &&& 0xFFFFFFFF).toNat * 1 := Nat.mul_le_mul_left _ hcapacity
      _ < 2 ^ 32 := by omega
  unfold selectBucket
  rw [Nat.mod_eq_of_lt (by omega), Nat.div_eq_of_lt hproduct]

/-- The buckets of a map holding `entries` in its first buckets, in order,
all on the hop list of bucket 0. -/
def packedBuckets (entries : List (UInt64 × V)) (index : ℕ) : Bucket V where
  firstHop := if index = 0 ∧ entries ≠ [] then 1 else 0
  nextHop := if index + 1 < entries.length then index + 2 else 0
  key := (entries[index]?.map Prod.fst).getD 0
  value := entries[index]?.map Prod.snd

/-- The map of `capacity` neighborhoods holding `entries` so. -/
def packedMap (capacity : ℕ) (entries : List (UInt64 × V)) : IntMap V :=
  ⟨entries.length, capacity, capacity + (IntMap.neighborhood - 1), packedBuckets entries⟩

@[simp]
theorem packedMap_capacity (capacity : ℕ) (entries : List (UInt64 × V)) :
    (packedMap capacity entries).capacity = capacity := rfl

@[simp]
theorem packedMap_bucketCount (capacity : ℕ) (entries : List (UInt64 × V)) :
    (packedMap capacity entries).bucketCount = capacity + (IntMap.neighborhood - 1) := rfl

@[simp]
theorem packedMap_buckets (capacity : ℕ) (entries : List (UInt64 × V)) :
    (packedMap capacity entries).buckets = packedBuckets entries := rfl

theorem allocateBuckets_eq_packedMap (capacity : ℕ) :
    (allocateBuckets capacity : IntMap V) = packedMap capacity [] := by
  simp only [allocateBuckets, packedMap, List.length_nil, IntMap.mk.injEq, true_and]
  funext index
  ext <;> simp [packedBuckets, Bucket.empty]

theorem packedBuckets_key {entries : List (UInt64 × V)} {index : ℕ} (h : index < entries.length) :
    (packedBuckets entries index).key = entries[index].1 := by
  simp [packedBuckets, List.getElem?_eq_getElem h]

theorem packedBuckets_value {entries : List (UInt64 × V)} {index : ℕ} (h : index < entries.length) :
    (packedBuckets entries index).value = some entries[index].2 := by
  simp [packedBuckets, List.getElem?_eq_getElem h]

section Fresh

variable {entries : List (UInt64 × V)} {key : UInt64}

/-- The hop list of bucket 0 is walked entry by entry, and a key that no
entry has is not found. -/
theorem searchHopListFrom_packed (hfresh : key ∉ entries.map Prod.fst) :
    ∀ fuel index previous, index < entries.length → entries.length ≤ index + fuel →
      searchHopListFrom (packedBuckets entries) 0 key fuel previous (index + 1) = none := by
  intro fuel
  induction fuel with
  | zero => intro index previous hindex hfuel; omega
  | succ fuel ih =>
    intro index previous hindex hfuel
    have hkey : key ≠ (packedBuckets entries index).key := by
      rw [packedBuckets_key hindex]
      intro heq
      exact hfresh (List.mem_map.mpr ⟨entries[index], List.getElem_mem hindex, heq.symm⟩)
    have hderef : dereferenceHop 0 (index + 1) = some index := by
      simp [dereferenceHop, IntMap.nullHopOffset]
    rw [searchHopListFrom, hderef]
    simp only [hkey, false_and, if_false]
    by_cases hnext : index + 1 < entries.length
    · have hhop : (packedBuckets entries index).nextHop = index + 1 + 1 := by
        simp [packedBuckets, hnext]
      rw [hhop]
      exact ih (index + 1) (some index) hnext (by omega)
    · have hhop : (packedBuckets entries index).nextHop = 0 := by
        simp [packedBuckets, hnext]
      rw [hhop]
      cases fuel <;> rfl

theorem updateMapping_packed (hfresh : key ∉ entries.map Prod.fst) {capacity : ℕ}
    (hroom : entries.length ≤ IntMap.neighborhood) (value : V) (update : Bool) :
    updateMapping (packedMap capacity entries) 0 key value update = none := by
  have hsearch : searchHopList (packedMap capacity entries) 0 key = none := by
    unfold searchHopList
    cases entries with
    | nil => rfl
    | cons entry entries =>
      have hfirst : (packedBuckets (entry :: entries) 0).firstHop = 0 + 1 := by simp [packedBuckets]
      simp only [packedMap, hfirst]
      exact searchHopListFrom_packed hfresh _ 0 none (by simp) (by simpa using hroom)
  simp [updateMapping, hsearch]

end Fresh

/-- The first empty bucket of a map with room is the one after its entries. -/
theorem findEmptyBucket_packed {capacity : ℕ} {entries : List (UInt64 × V)} (hcapacity : capacity ≤ 1)
    (hroom : entries.length < capacity + (IntMap.neighborhood - 1)) :
    findEmptyBucket (packedMap capacity entries) 0 IntMap.maxProbes = some entries.length := by
  unfold findEmptyBucket
  rw [List.find?_range'_eq_some]
  refine ⟨by simp [packedMap, packedBuckets], ?_, ?_⟩
  · simp only [packedMap, IntMap.neighborhood, IntMap.maxProbes] at hroom ⊢
    rw [List.mem_range'_1]
    omega
  · intro index _ hindex
    simp [packedMap, packedBuckets_value hindex]

/-- A full map has no empty bucket. -/
theorem findEmptyBucket_full {capacity : ℕ} {entries : List (UInt64 × V)} (hcapacity : capacity ≤ 1)
    (hfull : entries.length = capacity + (IntMap.neighborhood - 1)) :
    findEmptyBucket (packedMap capacity entries) 0 IntMap.maxProbes = none := by
  unfold findEmptyBucket
  rw [List.find?_eq_none]
  intro index hindex
  simp only [packedMap, IntMap.neighborhood, IntMap.maxProbes, List.mem_range'_1] at hindex hfull
  simp [packedMap, packedBuckets_value (show index < entries.length by omega)]

theorem findOrMakeVacancy_packed {capacity : ℕ} {entries : List (UInt64 × V)} (hcapacity : capacity ≤ 1)
    (hroom : entries.length < capacity + (IntMap.neighborhood - 1)) :
    findOrMakeVacancy (packedMap capacity entries) 0 = (packedMap capacity entries, some entries.length) := by
  unfold findOrMakeVacancy
  rw [findEmptyBucket_packed hcapacity hroom]
  obtain ⟨fuel, hfuel⟩ : ∃ fuel, (packedMap capacity entries : IntMap V).bucketCount = fuel + 1 :=
    ⟨capacity + (IntMap.neighborhood - 1) - 1, by simp [packedMap, IntMap.neighborhood]⟩
  simp only [IntMap.neighborhood] at hroom
  rw [hfuel, findOrMakeVacancyFrom, if_pos (by simp [IntMap.neighborhood]; omega)]

theorem findOrMakeVacancy_full {capacity : ℕ} {entries : List (UInt64 × V)} (hcapacity : capacity ≤ 1)
    (hfull : entries.length = capacity + (IntMap.neighborhood - 1)) :
    findOrMakeVacancy (packedMap capacity entries) 0 = (packedMap capacity entries, none) := by
  unfold findOrMakeVacancy
  rw [findEmptyBucket_full hcapacity hfull, findOrMakeVacancyFrom]

section Insert

variable {entries : List (UInt64 × V)} {key : UInt64} {value : V}

/-- The buckets with the new entry stored after the old ones, not yet linked. -/
def storedBuckets (entries : List (UInt64 × V)) (key : UInt64) (value : V) : ℕ → Bucket V :=
  Function.update (packedBuckets entries) entries.length
    { packedBuckets entries entries.length with key := key, value := some value }

/-- The walk of `insertInHopList` from the entry at `index` reaches the last
entry, and links the new bucket after it. -/
theorem insertInHopListFrom_packed :
    ∀ fuel index, index < entries.length → entries.length ≤ index + fuel →
      insertInHopListFrom 0 entries.length (1 + entries.length) fuel (storedBuckets entries key value)
          (index + 1) =
        let buckets := storedBuckets entries key value
        let buckets := Function.update buckets entries.length { buckets entries.length with nextHop := 0 }
        Function.update buckets (entries.length - 1)
          { buckets (entries.length - 1) with nextHop := 1 + entries.length } := by
  intro fuel
  induction fuel with
  | zero => intro index hindex hfuel; omega
  | succ fuel ih =>
    intro index hindex hfuel
    have hstored : storedBuckets entries key value index = packedBuckets entries index := by
      simp [storedBuckets, show index ≠ entries.length by omega]
    rw [insertInHopListFrom]
    simp only [Nat.zero_add, Nat.add_sub_cancel, hstored]
    by_cases hnext : index + 1 < entries.length
    · have hhop : (packedBuckets entries index).nextHop = index + 1 + 1 := by simp [packedBuckets, hnext]
      rw [hhop, if_neg (by simp [IntMap.nullHopOffset]; omega)]
      exact ih (index + 1) hnext (by omega)
    · have hhop : (packedBuckets entries index).nextHop = 0 := by simp [packedBuckets, hnext]
      have hlast : index = entries.length - 1 := by omega
      rw [hhop, if_pos (by simp [IntMap.nullHopOffset]), hlast]

/-- A new entry stored after the others and linked at the end of the hop list
of bucket 0 gives the packed buckets of the longer list. -/
theorem insertInHopList_packed (hroom : entries.length < IntMap.neighborhood) :
    insertInHopList (storedBuckets entries key value) 0 entries.length =
      packedBuckets (entries ++ [(key, value)]) := by
  unfold insertInHopList
  by_cases hempty : entries = []
  · subst hempty
    have hfirst : (storedBuckets ([] : List (UInt64 × V)) key value 0).firstHop = 0 := by
      simp [storedBuckets, packedBuckets]
    simp only [List.length_nil, Nat.sub_zero, hfirst, IntMap.nullHopOffset, true_or, if_true]
    funext index
    by_cases hindex : index = 0
    · subst hindex
      ext <;> simp [storedBuckets, packedBuckets]
    · ext <;> simp [storedBuckets, packedBuckets, hindex]
  · have hlength : 0 < entries.length := List.length_pos_of_ne_nil hempty
    have hfirst : (storedBuckets entries key value 0).firstHop = 0 + 1 := by
      simp [storedBuckets, packedBuckets, hempty, show 0 ≠ entries.length by omega]
    have hbefore : entries.length - 1 ≠ entries.length := by omega
    simp only [Nat.sub_zero, hfirst]
    rw [if_neg (by simp [IntMap.nullHopOffset])]
    rw [insertInHopListFrom_packed _ 0 hlength (by simp [IntMap.neighborhood] at hroom ⊢; omega)]
    funext index
    by_cases hnew : index = entries.length
    · subst hnew
      ext <;> simp [storedBuckets, packedBuckets, Function.update_apply, hempty, hbefore.symm]
    by_cases hlast : index = entries.length - 1
    · have hlt : index < entries.length := by omega
      subst hlast
      ext <;> simp [storedBuckets, packedBuckets, hempty, hbefore, hlength]
      omega
    · have hother : storedBuckets entries key value index = packedBuckets entries index := by
        simp [storedBuckets, hnew]
      simp only [Function.update_apply, hnew, hlast, if_false, hother]
      by_cases hlt : index < entries.length
      · have hnext : index + 1 < entries.length := by omega
        ext <;> simp [packedBuckets, hempty, hlt, hnext, List.getElem?_append_left hlt]
      · have hnext : ¬index + 1 < entries.length := by omega
        have hnone : (entries ++ [(key, value)])[index]? = none :=
          List.getElem?_eq_none (by simp; omega)
        ext <;> simp [packedBuckets, hempty, hlt, hnext, hnone]

end Insert

/-- The walk of the hop list of bucket 0 from the entry at `index` finds the
first later entry with the key. -/
theorem searchHopListFrom_packed_value {entries : List (UInt64 × V)} (key : UInt64) :
    ∀ fuel index previous, index < entries.length → entries.length ≤ index + fuel →
      ((searchHopListFrom (packedBuckets entries) 0 key fuel previous (index + 1)).bind fun found =>
        (packedBuckets entries found.1).value) = (entries.drop index).lookup key := by
  intro fuel
  induction fuel with
  | zero => intro index previous hindex hfuel; omega
  | succ fuel ih =>
    intro index previous hindex hfuel
    have hderef : dereferenceHop 0 (index + 1) = some index := by
      simp [dereferenceHop, IntMap.nullHopOffset]
    rw [searchHopListFrom, hderef]
    simp only [packedBuckets_key hindex, packedBuckets_value hindex, Option.isSome_some, and_true]
    by_cases hkey : key = entries[index].1
    · have hfound : (entries.drop index).lookup key = some entries[index].2 := by
        rw [List.drop_eq_getElem_cons hindex, List.lookup_cons, hkey]
        simp
      rw [if_pos hkey, hfound]
      simp [packedBuckets_value hindex]
    · have hskip : (entries.drop index).lookup key = (entries.drop (index + 1)).lookup key := by
        have hdiffer : (key == entries[index].1) = false := by simpa using hkey
        rw [List.drop_eq_getElem_cons hindex, List.lookup_cons, hdiffer]
      rw [if_neg hkey, hskip]
      by_cases hnext : index + 1 < entries.length
      · have hhop : (packedBuckets entries index).nextHop = index + 1 + 1 := by simp [packedBuckets, hnext]
        rw [hhop]
        exact ih (index + 1) (some index) hnext (by omega)
      · have hhop : (packedBuckets entries index).nextHop = 0 := by simp [packedBuckets, hnext]
        rw [hhop, List.drop_of_length_le (by omega)]
        cases fuel <;> rfl

/-- `intMapGet` of a map of at most one neighborhood looks the key up in its
entries. -/
theorem intMapGet_packed {capacity : ℕ} {entries : List (UInt64 × V)} (hcapacity : capacity ≤ 1)
    (hroom : entries.length ≤ IntMap.neighborhood) (key : UInt64) :
    intMapGet (packedMap capacity entries) key = entries.lookup key := by
  unfold intMapGet searchHopList
  rw [selectBucket_eq_zero _ hcapacity]
  cases entries with
  | nil => rfl
  | cons entry entries =>
    have hfirst : (packedBuckets (entry :: entries) 0).firstHop = 0 + 1 := by simp [packedBuckets]
    simp only [packedMap_buckets, hfirst]
    exact searchHopListFrom_packed_value key _ 0 none (by simp) (by simpa using hroom)

/-- A put of a new key into a map of at most one neighborhood with room
stores it in the next bucket, at the end of the hop list, with any fuel. -/
theorem intMapPut_packed {capacity : ℕ} {entries : List (UInt64 × V)} {key : UInt64}
    (hcapacity : capacity ≤ 1) (hroom : entries.length < capacity + (IntMap.neighborhood - 1))
    (hfresh : key ∉ entries.map Prod.fst) (fuel : ℕ) (value : V) (update : Bool) :
    intMapPut fuel (packedMap capacity entries) key (some value) update =
      some (packedMap capacity (entries ++ [(key, value)]), .ok none) := by
  have hselect := selectBucket_eq_zero (packedMap capacity entries) hcapacity key
  have hshort : entries.length < IntMap.neighborhood := by
    simp only [IntMap.neighborhood] at hroom ⊢
    omega
  rw [intMapPut]
  simp only [hselect, updateMapping_packed hfresh hshort.le value update]
  rw [putNewEntry]
  simp only [hselect, findOrMakeVacancy_packed hcapacity hroom]
  have hlinked : insertInHopList (storedBuckets entries key value) 0 entries.length =
      packedBuckets (entries ++ [(key, value)]) := insertInHopList_packed hshort
  simp only [storedBuckets] at hlinked
  simp only [packedMap, hlinked, List.length_append, List.length_singleton]

/-- The key at an index of a list of distinct keys is not among those before it. -/
theorem getElem_not_mem_take {keys : List UInt64} (hnodup : keys.Nodup) {index : ℕ}
    (hindex : index < keys.length) : keys[index] ∉ keys.take index := by
  intro hmem
  obtain ⟨earlier, hearlier, heq⟩ := List.mem_iff_getElem.mp hmem
  rw [List.getElem_take] at heq
  have := (List.Nodup.getElem_inj_iff hnodup).mp heq
  simp at hearlier
  omega

section Resize

variable {capacity : ℕ} {entries : List (UInt64 × V)}

/-- Putting the entries of a packed map again into a map of one neighborhood
refills its buckets in the same order, while they fit. -/
theorem reinsertEntries_packed (hkeys : (entries.map Prod.fst).Nodup) (fuel : ℕ) (rest : List ℕ) :
    ∀ count first, first + count ≤ entries.length → first + count ≤ IntMap.neighborhood - 1 →
      reinsertEntries fuel (packedMap capacity entries) (packedMap 0 (entries.take first))
          (List.range' first count ++ rest) =
        reinsertEntries fuel (packedMap capacity entries) (packedMap 0 (entries.take (first + count))) rest := by
  intro count
  induction count with
  | zero => intro first _ _; rfl
  | succ count ih =>
    intro first hlength hroom
    have hfirst : first < entries.length := by omega
    have hfresh : entries[first].1 ∉ (entries.take first).map Prod.fst := by
      rw [List.map_take]
      have := getElem_not_mem_take hkeys (show first < (entries.map Prod.fst).length by simpa using hfirst)
      simpa using this
    have hput : intMapPut fuel (packedMap 0 (entries.take first)) entries[first].1 (some entries[first].2) true =
        some (packedMap 0 (entries.take first ++ [(entries[first].1, entries[first].2)]), .ok none) :=
      intMapPut_packed zero_le_one (by simp; omega) hfresh fuel entries[first].2 true
    rw [List.range'_succ, List.cons_append, reinsertEntries]
    simp only [packedMap_buckets, packedBuckets_value hfirst, packedBuckets_key hfirst]
    rw [hput]
    simp only [Prod.mk.eta, List.take_concat_get' entries first hfirst]
    rw [show first + (count + 1) = first + 1 + count by omega]
    exact ih (first + 1) (by omega) (by omega)

/-- A resize of a map of at most one neighborhood makes a map of capacity
`capacity / 2 * 3 = 0` and puts the entries into it in order. -/
theorem resizeBuckets_packed (hcapacity : capacity ≤ 1) (fuel : ℕ) :
    resizeBuckets fuel (packedMap capacity entries) =
      reinsertEntries fuel (packedMap capacity entries) (packedMap 0 (entries.take 0))
        (List.range' 0 (capacity + (IntMap.neighborhood - 1)) ++ []) := by
  have hshrink : capacity / 2 * 3 = 0 := by omega
  rw [resizeBuckets, packedMap_capacity, packedMap_bucketCount, hshrink, allocateBuckets_eq_packedMap,
    List.take_zero, List.append_nil, List.range_eq_range']

/-- A put of a new key into a full map of at most one neighborhood never
returns, whatever the fuel. No bucket is empty, so each turn of the loop
resizes, to capacity `capacity / 2 * 3 = 0`: 254 buckets, one fewer than a
capacity of one has. Refilled, the entries of a full map of capacity 0 fill
it again, and the loop turns once more; a full map of capacity 1 has one
entry too many, whose put is again a put into a full map. -/
theorem putNewEntry_full : ∀ fuel {capacity : ℕ} {entries : List (UInt64 × V)} {key : UInt64},
    capacity ≤ 1 → entries.length = capacity + (IntMap.neighborhood - 1) →
    (entries.map Prod.fst).Nodup → key ∉ entries.map Prod.fst → ∀ value : V,
      putNewEntry fuel (packedMap capacity entries) key value = none := by
  intro fuel
  induction fuel with
  | zero =>
    intro capacity entries key hcapacity hfull _ _ value
    rw [putNewEntry]
    simp only [selectBucket_eq_zero (packedMap capacity entries) hcapacity key,
      findOrMakeVacancy_full hcapacity hfull]
  | succ fuel ih =>
    intro capacity entries key hcapacity hfull hkeys hfresh value
    rw [putNewEntry]
    simp only [selectBucket_eq_zero (packedMap capacity entries) hcapacity key,
      findOrMakeVacancy_full hcapacity hfull, resizeBuckets_packed hcapacity fuel]
    simp only [IntMap.neighborhood] at hfull
    rcases (show capacity = 0 ∨ capacity = 1 by omega) with rfl | rfl
    · have hrefill : reinsertEntries fuel (packedMap 0 entries) (packedMap 0 (entries.take 0))
          (List.range' 0 254 ++ []) =
          reinsertEntries fuel (packedMap 0 entries) (packedMap 0 (entries.take (0 + 254))) [] :=
        reinsertEntries_packed hkeys fuel [] 254 0 (by omega) (by simp [IntMap.neighborhood])
      rw [show (0 : ℕ) + (IntMap.neighborhood - 1) = 254 from rfl, hrefill,
        List.take_of_length_le (by omega), reinsertEntries]
      exact ih zero_le_one (by simp only [IntMap.neighborhood]; omega) hkeys hfresh value
    · have hlast : 254 < entries.length := by omega
      have hrefill : reinsertEntries fuel (packedMap 1 entries) (packedMap 0 (entries.take 0))
          (List.range' 0 254 ++ [254]) =
          reinsertEntries fuel (packedMap 1 entries) (packedMap 0 (entries.take (0 + 254))) [254] :=
        reinsertEntries_packed hkeys fuel [254] 254 0 (by omega) (by simp [IntMap.neighborhood])
      have hleft : entries[254].1 ∉ (entries.take 254).map Prod.fst := by
        have hnew := getElem_not_mem_take hkeys (show 254 < (entries.map Prod.fst).length by simpa using hlast)
        rwa [List.getElem_map, ← List.map_take] at hnew
      have hstuck : putNewEntry fuel (packedMap 0 (entries.take 254)) entries[254].1 entries[254].2 = none :=
        ih zero_le_one (by simp [IntMap.neighborhood]; omega)
          (by rw [List.map_take]; exact hkeys.sublist (List.take_sublist _ _)) hleft entries[254].2
      rw [show (1 : ℕ) + (IntMap.neighborhood - 1) = 254 + 1 from rfl, ← List.range'_append_1,
        List.append_assoc, show List.range' (0 + 254) 1 ++ [] = [254] from rfl, hrefill, reinsertEntries]
      simp only [packedMap_buckets, packedBuckets_value hlast, packedBuckets_key hlast, Nat.zero_add]
      rw [intMapPut]
      simp only [selectBucket_eq_zero (packedMap 0 (entries.take 254)) (by simp),
        updateMapping_packed hleft (by simp [IntMap.neighborhood]), hstuck]

end Resize

/-- The put of a new key into a full map of at most one neighborhood. -/
theorem intMapPut_full {capacity : ℕ} {entries : List (UInt64 × V)} {key : UInt64} (hcapacity : capacity ≤ 1)
    (hfull : entries.length = capacity + (IntMap.neighborhood - 1)) (hkeys : (entries.map Prod.fst).Nodup)
    (hfresh : key ∉ entries.map Prod.fst) (fuel : ℕ) (value : V) (update : Bool) :
    intMapPut fuel (packedMap capacity entries) key (some value) update = none := by
  rw [intMapPut]
  simp only [selectBucket_eq_zero (packedMap capacity entries) hcapacity key,
    updateMapping_packed hfresh (by simp only [IntMap.neighborhood] at hfull ⊢; omega),
    putNewEntry_full fuel hcapacity hfull hkeys hfresh value]

/-- The run lemma: puts of distinct new keys into a map of at most one
neighborhood fill its buckets in order, while they fit. -/
theorem intMapPutAll_packed {capacity : ℕ} (hcapacity : capacity ≤ 1) (fuel : ℕ) :
    ∀ (entries acc : List (UInt64 × V)), ((acc ++ entries).map Prod.fst).Nodup →
      (acc ++ entries).length ≤ capacity + (IntMap.neighborhood - 1) →
      intMapPutAll fuel (packedMap capacity acc) entries = some (packedMap capacity (acc ++ entries)) := by
  intro entries
  induction entries with
  | nil => intro acc _ _; simp [intMapPutAll]
  | cons entry entries ih =>
    intro acc hkeys hroom
    obtain ⟨key, value⟩ := entry
    have hfresh : key ∉ acc.map Prod.fst := by
      rw [List.map_append, List.nodup_append] at hkeys
      intro hmem
      exact hkeys.2.2 key hmem key (by simp) rfl
    rw [intMapPutAll, intMapPut_packed hcapacity (by simp at hroom; omega) hfresh fuel value true]
    rw [show acc ++ (key, value) :: entries = acc ++ [(key, value)] ++ entries by simp] at hkeys hroom ⊢
    exact ih _ hkeys hroom

theorem makeIntMap_one_hundred : (makeIntMap 1 100 : Except UdsError (IntMap V)) = .ok (allocateBuckets 1) := rfl

/-- The keys `0, …, count - 1` are distinct while they fit in 64 bits. -/
theorem range_keys_nodup {count : ℕ} (hcount : count ≤ 2 ^ 64) :
    (((List.range count).map fun key => (key.toUInt64, ())).map Prod.fst).Nodup := by
  simp only [List.map_map]
  refine List.Nodup.map_on ?_ List.nodup_range
  intro key hkey key' hkey' heq
  simp only [List.mem_range] at hkey hkey'
  have hvalue := congrArg UInt64.toNat heq
  simp at hvalue
  omega

/-- The key `count` is not among `0, …, count - 1`. -/
theorem range_keys_fresh (count : ℕ) (hcount : count < 2 ^ 64) :
    count.toUInt64 ∉ ((List.range count).map fun key => (key.toUInt64, ())).map Prod.fst := by
  simp only [List.map_map, List.mem_map, List.mem_range, not_exists, not_and]
  intro key hkey heq
  have hvalue := congrArg UInt64.toNat heq
  simp at hvalue
  omega

/-- The 255 puts of the keys `0, …, 254` into the map of `makeIntMap 1 100`
fill its 255 buckets in order. -/
theorem intMapPutAll_range_255 (fuel : ℕ) :
    intMapPutAll fuel (allocateBuckets 1) ((List.range 255).map fun key => (key.toUInt64, ())) =
      some (packedMap 1 ((List.range 255).map fun key => (key.toUInt64, ()))) := by
  rw [allocateBuckets_eq_packedMap]
  exact intMapPutAll_packed le_rfl fuel _ [] (by simpa using range_keys_nodup (by decide))
    (by simp [IntMap.neighborhood])

theorem length_range_255 :
    ((List.range 255).map fun key => (key.toUInt64, ())).length = 1 + (IntMap.neighborhood - 1) := by
  simp [IntMap.neighborhood]

/-- A map made by `makeIntMap 1 100` has one neighborhood of 255 buckets. The
puts of the keys `0, …, 254` fill them; the put of one more key never
returns, however much fuel it is given: its loop resizes the map again and
again, each time to capacity `1 / 2 * 3 = 0`, 254 buckets. -/
theorem intMapPut_loops_after_255_keys :
    (makeIntMap 1 100 : Except UdsError (IntMap Unit)) = .ok (allocateBuckets 1) ∧
      let entries : List (UInt64 × Unit) := (List.range 255).map fun key => (key.toUInt64, ())
      ∃ map, (∀ fuel, intMapPutAll fuel (allocateBuckets 1) entries = some map) ∧ intMapSize map = 255 ∧
        ∀ fuel, intMapPut fuel map 255 (some ()) true = none := by
  refine ⟨makeIntMap_one_hundred, ?_⟩
  intro entries
  have hfresh : (255 : UInt64) ∉ entries.map Prod.fst := range_keys_fresh 255 (by decide)
  refine ⟨packedMap 1 entries, intMapPutAll_range_255, by simp [intMapSize, packedMap, entries], fun fuel => ?_⟩
  exact intMapPut_full le_rfl length_range_255 (range_keys_nodup (by decide)) hfresh fuel () true

/-- The same map, seen as a finite map: through the 255 puts `intMapGet`
agrees with the list of entries put, but the next put, which a finite map
takes at once, never returns. -/
theorem intMapGet_agrees_until_put_loops :
    (makeIntMap 1 100 : Except UdsError (IntMap Unit)) = .ok (allocateBuckets 1) ∧
      let entries : List (UInt64 × Unit) := (List.range 255).map fun key => (key.toUInt64, ())
      ∃ map, (∀ fuel, intMapPutAll fuel (allocateBuckets 1) entries = some map) ∧
        (∀ key, intMapGet map key = entries.lookup key) ∧ entries.lookup 255 = none ∧
        ∀ fuel, intMapPut fuel map 255 (some ()) true = none := by
  refine ⟨makeIntMap_one_hundred, ?_⟩
  intro entries
  have hfresh : (255 : UInt64) ∉ entries.map Prod.fst := range_keys_fresh 255 (by decide)
  refine ⟨packedMap 1 entries, intMapPutAll_range_255,
    intMapGet_packed le_rfl (by simp [entries, IntMap.neighborhood]), ?_,
    fun fuel => intMapPut_full le_rfl length_range_255 (range_keys_nodup (by decide)) hfresh fuel () true⟩
  rw [List.lookup_eq_none_iff]
  intro entry hentry
  have hkey : entry.1 ∈ entries.map Prod.fst := List.mem_map_of_mem hentry
  simp only [bne_iff_ne, ne_eq]
  intro heq
  exact hfresh (heq ▸ hkey)

end IntMap

end Vdo
