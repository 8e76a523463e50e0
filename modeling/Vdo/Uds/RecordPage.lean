import Mathlib
import Vdo.Lib.HeapTree
import Vdo.Uds.RadixSortRun

/-!
# Record pages

A record page (`recordPage.c`) holds `recordsPerPage` chunk records as a binary
search tree by name, in heap order: the root at slot `0` and the children of
slot `n` at `2n + 1` and `2n + 2`. `encodeRecordPage` radix sorts pointers to the
records by their `UDS_CHUNK_NAME_SIZE` name bytes and copies the records into the
slots in the tree's in-order sequence (`encodeTree`); `searchRecordPage` walks down
from the root, comparing names as `memcmp` does.

A pointer to a record is modelled by the record's index in `records`, and in
`encodeTree` by the record it points to. The name size is a parameter
(`UDS_CHUNK_NAME_SIZE` is 16), and a record's data of any type.

`encodeTree_spec`: the in-order list of the tree holds the sorted records.
`encodeRecordPage_spec`: the page holds the records, and a search finds exactly
the records there, after at most `log₂ recordsPerPage + 1` comparisons.
-/

namespace Vdo.Uds

open SegmentSort HeapTree

/-- `UdsChunkName`: the `UDS_CHUNK_NAME_SIZE` bytes of a chunk name. -/
structure UdsChunkName (nameSize : ℕ) where
  name : Fin nameSize → UInt8
  deriving DecidableEq

namespace UdsChunkName

variable {nameSize : ℕ}

/-- Byte `i` of a name. -/
def byte (name : UdsChunkName nameSize) (i : ℕ) : UInt8 :=
  if h : i < nameSize then name.name ⟨i, h⟩ else 0

/-- `memcmp(name1, name2, UDS_CHUNK_NAME_SIZE)`. -/
def compareNames (name1 name2 : UdsChunkName nameSize) : Ordering :=
  RadixSort.compare byte name1 name2 0 nameSize

/-- Names compare equal exactly when they are the same name. -/
theorem compareNames_eq_eq_iff {name1 name2 : UdsChunkName nameSize} :
    compareNames name1 name2 = .eq ↔ name1 = name2 := by
  rw [compareNames, RadixSort.compare, windowCompare_eq_eq_iff]
  constructor
  · intro h
    obtain ⟨f⟩ := name1
    obtain ⟨g⟩ := name2
    congr
    funext i
    have hi := h i.val (Nat.zero_le _) (by omega)
    simp only [byte, i.isLt, dif_pos] at hi
    exact UInt8.toNat_inj.mp hi
  · rintro rfl i _ _
    rfl

/-- A name below a second one is below every name the second is at most. -/
theorem compareNames_lt_of_lt_of_le {name1 name2 name3 : UdsChunkName nameSize}
    (h12 : compareNames name1 name2 = .lt) (h23 : compareNames name2 name3 ≠ .gt) :
    compareNames name1 name3 = .lt :=
  windowCompare_lt_of_lt_of_le 0 nameSize h12 h23

theorem compareNames_swap (name1 name2 : UdsChunkName nameSize) :
    compareNames name2 name1 = (compareNames name1 name2).swap :=
  windowCompare_swap 0 nameSize

end UdsChunkName

namespace RecordPage

open UdsChunkName

variable {nameSize : ℕ} {δ : Type*}

/-- `encodeTree`: copy the sorted records from `nextRecord` on into the slots of
the subtree at `node`, in order, and return the next record to copy. -/
def encodeTree {α : Type*} (recordPage sortedPointers : ℕ → α) (nextRecord node nodeCount : ℕ) :
    (ℕ → α) × ℕ :=
  if node < nodeCount then
    let child := 2 * node + 1
    let left := encodeTree recordPage sortedPointers nextRecord child nodeCount
    let recordPage := Function.update left.1 node (sortedPointers left.2)
    encodeTree recordPage sortedPointers (left.2 + 1) (child + 1) nodeCount
  else (recordPage, nextRecord)
termination_by nodeCount - node

/-- `encodeRecordPage`: sort pointers to the records (`recordPointers[i] =
&records[i]`) by name, then copy the records into the scratch page in tree
order. -/
def encodeRecordPage (sorter : RadixSort.RadixSorter) (geometry : Geometry)
    (records scratchPage : ℕ → UdsChunkName nameSize × δ) :
    Option (RadixSort.RadixSorter × Except UdsError (ℕ → UdsChunkName nameSize × δ)) :=
  match RadixSort.radixSort (fun i => (records i).1.byte) sorter (fun i => i)
      geometry.recordsPerPage nameSize with
  | none => none
  | some (sorter, _, .error e) => some (sorter, .error e)
  | some (sorter, recordPointers, .ok ()) =>
    some (sorter, .ok (encodeTree scratchPage (fun i => records (recordPointers i)) 0 0
      geometry.recordsPerPage).1)

/-- The comparison of a name with the record at a slot. -/
def compareWithSlot (recordPage : ℕ → UdsChunkName nameSize × δ) (name : UdsChunkName nameSize)
    (node : ℕ) : Ordering :=
  compareNames name (recordPage node).1

/-- `searchRecordPage`: walk down the tree from the root; `some data` is `true`
with the record's data stored in `*metadata`. -/
def searchRecordPage (recordPage : ℕ → UdsChunkName nameSize × δ) (name : UdsChunkName nameSize)
    (geometry : Geometry) : Option δ :=
  (search (compareWithSlot recordPage name) geometry.recordsPerPage 0).map fun node =>
    (recordPage node).2

/-! ## Copying the records in order -/

/-- `encodeTree` copies the records from `nextRecord` on into the subtree's
slots in order, returns the record after them, and leaves the other slots alone. -/
theorem encodeTree_spec {α : Type*} (recordPage sortedPointers : ℕ → α)
    (nextRecord node nodeCount : ℕ) :
    (encodeTree recordPage sortedPointers nextRecord node nodeCount).2 =
        nextRecord + (inorder nodeCount node).length ∧
      (inorder nodeCount node).map (encodeTree recordPage sortedPointers nextRecord node
        nodeCount).1 =
        (List.range' nextRecord (inorder nodeCount node).length).map sortedPointers ∧
      ∀ x ∉ inorder nodeCount node,
        (encodeTree recordPage sortedPointers nextRecord node nodeCount).1 x = recordPage x := by
  fun_induction encodeTree recordPage sortedPointers nextRecord node nodeCount with
  | case1 recordPage nextRecord node hlt child left page ihl _ ihr =>
    obtain ⟨hl2, hl1, hlout⟩ := ihl
    obtain ⟨hr2, hr1, hrout⟩ := ihr
    have hsplit : inorder nodeCount node =
        inorder nodeCount child ++ node :: inorder nodeCount (child + 1) := inorder_of_lt hlt
    have hnodeL : node ∉ inorder nodeCount child := not_mem_children (Or.inl rfl)
    have hnodeR : node ∉ inorder nodeCount (child + 1) := not_mem_children (Or.inr rfl)
    have hpage : ∀ x, x ≠ node → page x = left.1 x := fun x hx => Function.update_of_ne hx _ _
    have hpageNode : page node = sortedPointers left.2 := Function.update_self _ _ _
    rw [hsplit]
    refine ⟨?_, ?_, fun x hx => ?_⟩
    · rw [hr2, hl2, List.length_append, List.length_cons]
      omega
    · have hL : (inorder nodeCount child).map
          (encodeTree page sortedPointers (left.2 + 1) (child + 1) nodeCount).1 =
          (inorder nodeCount child).map left.1 :=
        List.map_congr_left fun x hx => by
          rw [hrout x fun hR => not_mem_both hx hR, hpage x fun h => hnodeL (h ▸ hx)]
      rw [List.map_append, List.map_cons, hL, hl1, hrout node hnodeR, hpageNode, hr1, hl2,
        List.length_append, List.length_cons, ← List.range'_append, List.range'_succ]
      simp only [List.map_append, List.map_cons, Nat.one_mul, Nat.add_assoc]
    · simp only [List.mem_append, List.mem_cons, not_or] at hx
      rw [hrout x hx.2.2, hpage x hx.2.1, hlout x hx.1]
  | case2 recordPage nextRecord node hge =>
    simp [inorder_of_le (Nat.le_of_not_lt hge)]

/-! ## The encoded page -/

section Page

variable {n : ℕ} {records : ℕ → UdsChunkName nameSize × δ} {recordPointers : ℕ → ℕ}

/-- Encoding the whole tree lays the records the pointers point to along the
tree's in-order list. -/
theorem inorder_map_encodeTree (scratchPage : ℕ → UdsChunkName nameSize × δ) :
    (inorder n 0).map (encodeTree scratchPage (fun i => records (recordPointers i)) 0 0 n).1 =
      (List.range n).map fun i => records (recordPointers i) := by
  have h := (encodeTree_spec scratchPage (fun i => records (recordPointers i)) 0 0 n).2.1
  rwa [length_inorder_zero, ← List.range_eq_range'] at h

/-- Encoding with rearranged pointers copies each record into the page once. -/
theorem perm_encodeTree (hperm : PermOn 0 n (fun i => i) recordPointers)
    (scratchPage : ℕ → UdsChunkName nameSize × δ) :
    ((List.range n).map
      (encodeTree scratchPage (fun i => records (recordPointers i)) 0 0 n).1).Perm
      ((List.range n).map records) := by
  have hpointers : ((List.range n).map recordPointers).Perm (List.range n) := by
    have h := hperm.perm_map_range'
    rwa [Nat.sub_zero, ← List.range_eq_range', List.map_id'] at h
  have hpage : (List.range n).map (fun i => records (recordPointers i)) =
      ((List.range n).map recordPointers).map records := by
    rw [List.map_map]
    rfl
  refine (inorder_zero_perm.map _).symm.trans ?_
  rw [inorder_map_encodeTree, hpage]
  exact hpointers.map records

/-- Pointers sorted by name to records of distinct names point to names in
increasing order. -/
theorem compareNames_pointers_lt (hperm : PermOn 0 n (fun i => i) recordPointers)
    (hsorted : RadixSort.SortedOn (fun i => (records i).1.byte) 0 nameSize 0 n recordPointers)
    (hdistinct : ∀ i < n, ∀ j < n, (records i).1 = (records j).1 → i = j) {i j : ℕ}
    (hij : i < j) (hj : j < n) :
    compareNames (records (recordPointers i)).1 (records (recordPointers j)).1 = .lt := by
  have hle : compareNames (records (recordPointers i)).1 (records (recordPointers j)).1 ≠ .gt :=
    hsorted i j (Nat.zero_le i) hij hj
  have hne : compareNames (records (recordPointers i)).1 (records (recordPointers j)).1 ≠ .eq := by
    obtain ⟨σ, hσ, hb⟩ := hperm
    intro heq
    have hi' := PermOn.perm_mem hσ (i := i) ⟨Nat.zero_le i, by omega⟩
    have hj' := PermOn.perm_mem hσ (i := j) ⟨Nat.zero_le j, hj⟩
    rw [hb i, hb j] at heq
    have hσij := hdistinct (σ i) hi'.2 (σ j) hj'.2 (compareNames_eq_eq_iff.mp heq)
    exact absurd (σ.injective hσij) (by omega)
  cases h : compareNames (records (recordPointers i)).1 (records (recordPointers j)).1
  · rfl
  · exact absurd h hne
  · exact absurd h hle

/-- The comparisons of any name with the slots of the encoded page are ordered
along the tree's in-order list, as the names there increase. -/
theorem searchOrdered_encodeTree (hperm : PermOn 0 n (fun i => i) recordPointers)
    (hsorted : RadixSort.SortedOn (fun i => (records i).1.byte) 0 nameSize 0 n recordPointers)
    (hdistinct : ∀ i < n, ∀ j < n, (records i).1 = (records j).1 → i = j)
    (scratchPage : ℕ → UdsChunkName nameSize × δ) (name : UdsChunkName nameSize) :
    SearchOrdered (compareWithSlot
      (encodeTree scratchPage (fun i => records (recordPointers i)) 0 0 n).1 name) (inorder n 0) := by
  set page := (encodeTree scratchPage (fun i => records (recordPointers i)) 0 0 n).1
  have hlt : (inorder n 0).Pairwise fun x y => compareNames (page x).1 (page y).1 = .lt := by
    have hmapped : ((inorder n 0).map page).Pairwise
        fun (r s : UdsChunkName nameSize × δ) => compareNames r.1 s.1 = .lt := by
      rw [inorder_map_encodeTree, List.pairwise_map]
      exact List.pairwise_lt_range.imp_of_mem fun _ hj hij =>
        compareNames_pointers_lt hperm hsorted hdistinct hij (List.mem_range.mp hj)
    exact List.pairwise_map.mp hmapped
  refine hlt.imp fun {x y} hxy => ⟨fun hx => ?_, fun hy => ?_⟩
  · exact compareNames_lt_of_lt_of_le hx (by rw [hxy]; exact nofun)
  · have hyName : compareNames (page y).1 name = .lt := by
      unfold compareWithSlot at hy
      rw [compareNames_swap, hy]
      rfl
    have hxName := compareNames_lt_of_lt_of_le hxy (by rw [hyName]; exact nofun)
    unfold compareWithSlot
    rw [compareNames_swap, hxName]
    rfl

/-- On a page encoded from sorted pointers to records of distinct names, a
search for a name finds the data of the record of that name, and fails when
there is none. -/
theorem searchRecordPage_encodeTree {geometry : Geometry}
    (hperm : PermOn 0 geometry.recordsPerPage (fun i => i) recordPointers)
    (hsorted : RadixSort.SortedOn (fun i => (records i).1.byte) 0 nameSize 0
      geometry.recordsPerPage recordPointers)
    (hdistinct : ∀ i < geometry.recordsPerPage, ∀ j < geometry.recordsPerPage,
      (records i).1 = (records j).1 → i = j)
    (scratchPage : ℕ → UdsChunkName nameSize × δ) (name : UdsChunkName nameSize) (data : δ) :
    searchRecordPage (encodeTree scratchPage (fun i => records (recordPointers i)) 0 0
        geometry.recordsPerPage).1 name geometry = some data ↔
      ∃ i < geometry.recordsPerPage, records i = (name, data) := by
  set n := geometry.recordsPerPage
  set page := (encodeTree scratchPage (fun i => records (recordPointers i)) 0 0 n).1
  have hslots : ∀ r, (∃ m < n, page m = r) ↔ ∃ i < n, records i = r := fun r => by
    have h : r ∈ (List.range n).map page ↔ r ∈ (List.range n).map records :=
      (perm_encodeTree hperm scratchPage).mem_iff
    simpa only [List.mem_map, List.mem_range] using h
  have hfound : ∀ m, search (compareWithSlot page name) n 0 = some m →
      m < n ∧ (page m).1 = name := fun m h => by
    obtain ⟨hm, heq⟩ := search_sound h
    exact ⟨(mem_inorder.mp hm).1, (compareNames_eq_eq_iff.mp heq).symm⟩
  unfold searchRecordPage
  rw [Option.map_eq_some_iff]
  constructor
  · rintro ⟨m, hm, rfl⟩
    obtain ⟨hmn, hname⟩ := hfound m hm
    obtain ⟨i, hi, hrec⟩ := (hslots (page m)).mp ⟨m, hmn, rfl⟩
    exact ⟨i, hi, by rw [hrec, ← hname]⟩
  · rintro ⟨i, hi, hrec⟩
    obtain ⟨m, hmn, hpage⟩ := (hslots (name, data)).mpr ⟨i, hi, hrec⟩
    have hmIn : m ∈ inorder n 0 := inorder_zero_perm.mem_iff.mpr (List.mem_range.mpr hmn)
    have heq : compareWithSlot page name m = .eq := compareNames_eq_eq_iff.mpr (by rw [hpage])
    obtain ⟨m', hm'⟩ := Option.isSome_iff_exists.mp
      (search_complete (searchOrdered_encodeTree hperm hsorted hdistinct scratchPage name) hmIn heq)
    obtain ⟨hm'n, hname'⟩ := hfound m' hm'
    obtain ⟨i', hi', hrec'⟩ := (hslots (page m')).mp ⟨m', hm'n, rfl⟩
    have hii : i' = i := hdistinct i' hi' i hi (by rw [hrec', hrec, hname'])
    refine ⟨m', hm', ?_⟩
    rw [← hrec', hii, hrec]

end Page

/-- `encodeRecordPage` on records of distinct names, with the volume's sorter
(made for `recordsPerPage` keys, its histogram cleared): the sort succeeds and
leaves the histogram cleared; the page holds the records, each once; a search
for any name returns the data of the record of that name, and fails when there is
none; and it compares the name with at most `log₂ recordsPerPage + 1` slots. -/
theorem encodeRecordPage_spec {sorter : RadixSort.RadixSorter} (geometry : Geometry)
    (hcleared : sorter.bins.Cleared) (hcount : geometry.recordsPerPage ≤ sorter.count)
    (records scratchPage : ℕ → UdsChunkName nameSize × δ)
    (hdistinct : ∀ i < geometry.recordsPerPage, ∀ j < geometry.recordsPerPage,
      (records i).1 = (records j).1 → i = j) :
    ∃ sorter' recordPage,
      encodeRecordPage sorter geometry records scratchPage = some (sorter', .ok recordPage) ∧
      sorter'.bins.Cleared ∧
      ((List.range geometry.recordsPerPage).map recordPage).Perm
        ((List.range geometry.recordsPerPage).map records) ∧
      (∀ name data, searchRecordPage recordPage name geometry = some data ↔
        ∃ i < geometry.recordsPerPage, records i = (name, data)) ∧
      ∀ name, (visits (compareWithSlot recordPage name) geometry.recordsPerPage 0).length ≤
        Nat.log 2 geometry.recordsPerPage + 1 := by
  obtain ⟨sorter', recordPointers, hsort, hperm, hsorted, hcleared'⟩ :=
    @RadixSort.radixSort_spec ℕ (fun i => (records i).1.byte) sorter (fun i => i)
      geometry.recordsPerPage nameSize hcleared fun _ => hcount
  refine ⟨sorter', _, ?_, hcleared', perm_encodeTree hperm scratchPage,
    searchRecordPage_encodeTree hperm hsorted hdistinct scratchPage, fun _ => length_visits_le⟩
  unfold encodeRecordPage
  rw [hsort]

/-- Three records of one-byte names `7`, `6`, `5`, with their indices as data. -/
def threeRecords : ℕ → UdsChunkName 1 × ℕ := fun i => (⟨fun _ => UInt8.ofNat (7 - i)⟩, i)

theorem encodeRecordPage_spec_three_records :
    (RadixSort.makeRadixSorter 3).bins.Cleared ∧
    (⟨3, 1, 3, 2⟩ : Geometry).recordsPerPage ≤ (RadixSort.makeRadixSorter 3).count ∧
    (∀ i < 3, ∀ j < 3, (threeRecords i).1 = (threeRecords j).1 → i = j) ∧
    ∃ sorter' recordPage, encodeRecordPage (RadixSort.makeRadixSorter 3) ⟨3, 1, 3, 2⟩
        threeRecords threeRecords = some (sorter', .ok recordPage) ∧
      sorter'.bins.Cleared ∧
      ((List.range 3).map recordPage).Perm ((List.range 3).map threeRecords) ∧
      (∀ name data, searchRecordPage recordPage name ⟨3, 1, 3, 2⟩ = some data ↔
        ∃ i < 3, threeRecords i = (name, data)) ∧
      ∀ name, (visits (compareWithSlot recordPage name) 3 0).length ≤ Nat.log 2 3 + 1 := by
  have hdistinct : ∀ i < 3, ∀ j < 3, (threeRecords i).1 = (threeRecords j).1 → i = j := by
    decide
  exact ⟨RadixSort.Histogram.zero_cleared, le_refl 3, hdistinct,
    encodeRecordPage_spec ⟨3, 1, 3, 2⟩ RadixSort.Histogram.zero_cleared (le_refl 3) threeRecords
      threeRecords hdistinct⟩

end RecordPage

end Vdo.Uds
