import Mathlib
import Vdo.Lib.SegmentSort
import Vdo.Uds.OpenChapterZone

/-!
# The radix sort of record pointers

`radixSort` (`radixSort.c`) sorts an array of pointers to fixed-length byte keys
in place: an American flag sort, an in-place 8-bit radix exchange sort. A task
is a run of keys that agree on their first `offset` bytes. The keys are counted
by their byte at `offset` (`measureBins`), the ends of the 256 piles computed
and a task pushed for every pile that still needs sorting (`pushBins`), and the
keys then moved into their piles by cycles of swaps behind a fence. Piles of
more than `INSERTION_SORT_THRESHOLD` keys go on a stack of tasks, smaller ones
are insertion sorted at once, and a whole input of so few keys is insertion
sorted from the start.

The array is a function from positions, and a pointer is whatever the array
holds (a type `κ` with `bytes key i`, the byte `key[i]`). The task stack and the
list of small piles are lists with the most recently pushed task first; the
stack is full when it holds `endOfStack` tasks. The loops of the source are
recursions on their counters; the fence loop and the main loop carry fuel, which
the proofs show is never exhausted.
-/

namespace Vdo.Uds

namespace RadixSort

open SegmentSort

/-- `INSERTION_SORT_THRESHOLD`: piles of at most this many keys are insertion
sorted. -/
def insertionSortThreshold : ℕ := 12

/-- A `Task`: sort the keys at the positions `firstKey ..= lastKey` by their
`length` bytes from `offset` on. -/
structure Task where
  firstKey : ℕ
  lastKey : ℕ
  offset : ℕ
  length : ℕ
  deriving DecidableEq, Repr

/-- A `Histogram` of the bytes of a task's keys at its offset: the number of
nonempty bins, the first and last of them, and the size of every bin. -/
structure Histogram where
  used : ℕ
  first : ℕ
  last : ℕ
  size : ℕ → ℕ

/-- The histogram with every field zero, as allocated and as `memset` leaves it. -/
def Histogram.zero : Histogram := ⟨0, 0, 0, fun _ => 0⟩

/-- What a `RadixSorter` keeps between sorts: the largest count it sorts, the
histogram and the pile pointers. -/
structure RadixSorter where
  count : ℕ
  bins : Histogram
  pile : ℕ → ℕ

/-- `makeRadixSorter`: the allocation is zeroed. -/
def makeRadixSorter (count : ℕ) : RadixSorter := ⟨count, Histogram.zero, fun _ => 0⟩

/-- `endOfStack - stack`: the sorter has room for `count / INSERTION_SORT_THRESHOLD`
tasks. -/
def RadixSorter.stackSize (sorter : RadixSorter) : ℕ := sorter.count / insertionSortThreshold

variable {κ : Type*} (bytes : κ → ℕ → UInt8)

/-- `compare`: `memcmp(&key1[offset], &key2[offset], length)`, which orders bytes
as unsigned values. -/
def compare (key1 key2 : κ) (offset length : ℕ) : Ordering :=
  windowCompare (fun i => (bytes key1 i).toNat) (fun i => (bytes key2 i).toNat) offset length

/-! ## Insertion sort -/

/-- `insertKey`, with `hole` the slot `next[1]` the loop has cleared: the keys
before it that are above `unsorted` move up one slot, and `unsorted` goes into
the last slot cleared. At `hole = 0` the decremented `next` is below `firstKey`. -/
def insertKey (task : Task) (unsorted : κ) (keys : ℕ → κ) : ℕ → ℕ → κ
  | 0 => Function.update keys 0 unsorted
  | hole + 1 =>
    if task.firstKey ≤ hole ∧ compare bytes unsorted (keys hole) task.offset task.length = .lt then
      insertKey task unsorted (Function.update keys (hole + 1) (keys hole)) hole
    else Function.update keys (hole + 1) unsorted

/-- `insertionSort`: insert the keys at `firstKey + 1 ..= lastKey` one by one. -/
def insertionSort (task : Task) (keys : ℕ → κ) : ℕ → κ :=
  (List.range' (task.firstKey + 1) (task.lastKey - task.firstKey)).foldl
    (fun keys next => insertKey bytes task (keys next) keys next) keys

/-! ## Counting the bins -/

/-- `pushTask`: the task of the `count` keys from `firstKey` on. -/
def pushTask (tasks : List Task) (firstKey count offset length : ℕ) : List Task :=
  ⟨firstKey, firstKey + count - 1, offset, length⟩ :: tasks

/-- One pass of the loop of `measureBins`: count a key in `bin`, and track the
first and last nonempty bins when the bin's count goes from zero to one. -/
def tallyBin (bins : Histogram) (bin : ℕ) : Histogram :=
  let size := bins.size bin + 1
  let bins := { bins with size := Function.update bins.size bin size }
  if size = 1 then
    { bins with
      used := bins.used + 1
      first := if bin < bins.first then bin else bins.first
      last := if bins.last < bin then bin else bins.last }
  else bins

/-- `measureBins`: count the keys of the task by their byte at its offset. The
counts and `used` are not reset: the sort leaves them zero. -/
def measureBins (task : Task) (keys : ℕ → κ) (bins : Histogram) : Histogram :=
  (List.range' task.firstKey (task.lastKey + 1 - task.firstKey)).foldl
    (fun bins keyPtr => tallyBin bins (bytes (keys keyPtr) task.offset).toNat)
    { bins with first := 255, last := 0 }

/-! ## Pushing the piles -/

/-- What `pushBins` updates besides the histogram: the stack and the list of
tasks, the pile pointers and the start of the next pile. -/
structure PileState where
  stack : List Task
  list : List Task
  pile : ℕ → ℕ
  pileStart : ℕ

/-- The body of the loop of `pushBins` for a nonempty `bin`: a pile of keys that
are not yet fully compared gets a task, on the stack when it is large and on the
list when it has at least two keys, and the pile's end is recorded. -/
def pushBin (endOfStack offset length : ℕ) (size : ℕ) (bin : ℕ) (st : PileState) :
    Except UdsError PileState :=
  let pushed : Except UdsError PileState :=
    if 0 < length then
      if insertionSortThreshold < size then
        if endOfStack ≤ st.stack.length then .error .badState
        else .ok { st with stack := pushTask st.stack st.pileStart size offset length }
      else if 1 < size then .ok { st with list := pushTask st.list st.pileStart size offset length }
      else .ok st
    else .ok st
  match pushed with
  | .error e => .error e
  | .ok st =>
    .ok { st with pileStart := st.pileStart + size,
                  pile := Function.update st.pile bin (st.pileStart + size) }

/-- The loop of `pushBins` from `bin` on, with `fuel` bins left below 256: empty
bins are skipped and the loop stops once `used` reaches zero. -/
def pushBinsLoop (endOfStack offset length : ℕ) :
    ℕ → ℕ → Histogram → PileState → Except UdsError (Histogram × PileState)
  | 0, _, bins, st => .ok (bins, st)
  | fuel + 1, bin, bins, st =>
    if bins.size bin = 0 then pushBinsLoop endOfStack offset length fuel (bin + 1) bins st
    else
      match pushBin endOfStack offset length (bins.size bin) bin st with
      | .error e => .error e
      | .ok st =>
        let bins := { bins with used := bins.used - 1 }
        if bins.used = 0 then .ok (bins, st)
        else pushBinsLoop endOfStack offset length fuel (bin + 1) bins st

/-- `pushBins`: the piles of the bins from `first` on, starting at `firstKey`. -/
def pushBins (endOfStack : ℕ) (stack list : List Task) (pile : ℕ → ℕ) (bins : Histogram)
    (firstKey offset length : ℕ) : Except UdsError (Histogram × PileState) :=
  pushBinsLoop endOfStack offset length (256 - bins.first) bins.first bins ⟨stack, list, pile, firstKey⟩

/-! ## Moving the keys into their piles -/

/-- The `while` loop of `radixSort` with `key` in hand: the pile pointer of the
key's bin moves down one slot, and while it stays above the fence the key is
swapped for the key in that slot. Each swap lowers a pile pointer. -/
def swapIntoPile (offset fence : ℕ) (keys : ℕ → κ) (pile : ℕ → ℕ) (key : κ) :
    (ℕ → κ) × (ℕ → ℕ) × κ :=
  let bin := (bytes key offset).toNat
  let lowered := Function.update pile bin (pile bin - 1)
  if fence < lowered bin then
    swapIntoPile offset fence (Function.update keys (lowered bin) key) lowered (keys (lowered bin))
  else (keys, lowered, key)
termination_by ∑ b ∈ Finset.range 256, pile b
decreasing_by
  have hbin : (bytes key offset).toNat ∈ Finset.range 256 :=
    Finset.mem_range.mpr (UInt8.toNat_lt _)
  have hlow : fence < pile (bytes key offset).toNat - 1 := by
    simpa only [lowered, bin, Function.update_self] using ‹fence < lowered bin›
  rw [Finset.sum_update_of_mem hbin, Finset.sdiff_singleton_eq_erase,
    ← Finset.add_sum_erase _ _ hbin]
  omega

/-- The `for (fence ...)` loop of `radixSort`, while `fence` is below `stop`, the
start of the last pile (`fence <= end` with `end = lastKey - size[last]`): the
key at the fence starts a cycle of swaps, the key the cycle ends with completes
the pile at the fence, and the fence moves past that pile. -/
def placePiles (offset stop : ℕ) :
    ℕ → ℕ → (ℕ → κ) → (ℕ → ℕ) → (ℕ → ℕ) → Option ((ℕ → κ) × (ℕ → ℕ) × (ℕ → ℕ))
  | 0, _, _, _, _ => none
  | fuel + 1, fence, keys, pile, size =>
    if fence < stop then
      let (keys, pile, key) := swapIntoPile bytes offset fence keys pile (keys fence)
      let bin := (bytes key offset).toNat
      placePiles offset stop fuel (fence + size bin) (Function.update keys fence key) pile
        (Function.update size bin 0)
    else some (keys, pile, size)

/-! ## The main loop -/

/-- One pass of the main loop of `radixSort` on `task`, with `stack` the tasks
under it: count the bins, push the piles (a full stack clears the histogram and
fails with `UDS_BAD_STATE`), move the keys into their piles, and insertion sort
the small piles, the most recently listed first. The fence loop's fuel is one
more than the keys before the last pile. -/
def sortTask (endOfStack : ℕ) (sorter : RadixSorter) (keys : ℕ → κ) (task : Task)
    (stack : List Task) : Option (RadixSorter × (ℕ → κ) × Except UdsError (List Task)) :=
  let bins := measureBins bytes task keys sorter.bins
  match pushBins endOfStack stack [] sorter.pile bins task.firstKey (task.offset + 1)
      (task.length - 1) with
  | .error e => some ({ sorter with bins := Histogram.zero }, keys, .error e)
  | .ok (bins, st) =>
    let stop := task.lastKey + 1 - bins.size bins.last
    match placePiles bytes task.offset stop (stop + 1 - task.firstKey) task.firstKey keys st.pile
        (Function.update bins.size bins.last 0) with
    | none => none
    | some (keys, pile, size) =>
      let keys := st.list.foldl (fun keys small => insertionSort bytes small keys) keys
      some ({ sorter with bins := { bins with size := size }, pile := pile }, keys, .ok st.stack)

/-- The main loop of `radixSort`: take the task on top of the stack until the
stack is empty. -/
def radixSortLoop (endOfStack : ℕ) :
    ℕ → RadixSorter → (ℕ → κ) → List Task → Option (RadixSorter × (ℕ → κ) × Except UdsError Unit)
  | 0, _, _, _ => none
  | _ + 1, sorter, keys, [] => some (sorter, keys, .ok ())
  | fuel + 1, sorter, keys, task :: stack =>
    match sortTask bytes endOfStack sorter keys task stack with
    | none => none
    | some (sorter, keys, .error e) => some (sorter, keys, .error e)
    | some (sorter, keys, .ok stack) => radixSortLoop endOfStack fuel sorter keys stack

/-- `radixSort` of the `count` keys at the start of `keys` by their first `length`
bytes. The main loop's fuel is one more than `count * length`, which bounds the
work left on the stack. -/
def radixSort (sorter : RadixSorter) (keys : ℕ → κ) (count length : ℕ) :
    Option (RadixSorter × (ℕ → κ) × Except UdsError Unit) :=
  if count = 0 ∨ length = 0 then some (sorter, keys, .ok ())
  else
    let start : Task := ⟨0, count - 1, 0, length⟩
    if count ≤ insertionSortThreshold then some (sorter, insertionSort bytes start keys, .ok ())
    else if sorter.count < count then some (sorter, keys, .error .invalidArgument)
    else radixSortLoop bytes sorter.stackSize (count * length + 1) sorter keys [start]

/-! ## The insertion sort sorts -/

section Proofs

open IndexCount

variable {bytes}

/-- The keys at the positions `[lo, hi)` are in order by their `length` bytes
from `offset` on. -/
def SortedOn (bytes : κ → ℕ → UInt8) (offset length lo hi : ℕ) (keys : ℕ → κ) : Prop :=
  ∀ i j, lo ≤ i → i < j → j < hi → compare bytes (keys i) (keys j) offset length ≠ .gt

theorem compare_trans {key1 key2 key3 : κ} {offset length : ℕ}
    (h12 : compare bytes key1 key2 offset length ≠ .gt)
    (h23 : compare bytes key2 key3 offset length ≠ .gt) :
    compare bytes key1 key3 offset length ≠ .gt :=
  windowCompare_trans offset length h12 h23

/-- A key that does not compare below another compares at least it. -/
theorem compare_ne_gt_of_ne_lt {key1 key2 : κ} {offset length : ℕ}
    (h : compare bytes key1 key2 offset length ≠ .lt) :
    compare bytes key2 key1 offset length ≠ .gt := by
  unfold compare at h ⊢
  rw [windowCompare_swap]
  cases hc : windowCompare (fun i => (bytes key1 i).toNat) (fun i => (bytes key2 i).toNat) offset
    length <;> simp_all

/-- One insertion: into keys in order before `hole`, with `unsorted` taken out of
the slot `hole`, `insertKey` puts `unsorted` in place and leaves the keys up to
`hole` in order. -/
theorem insertKey_spec (task : Task) (unsorted : κ) (hole : ℕ) (keys : ℕ → κ)
    (hfirst : task.firstKey ≤ hole)
    (hsorted : SortedOn bytes task.offset task.length task.firstKey hole keys) :
    PermOn task.firstKey (hole + 1) (Function.update keys hole unsorted)
        (insertKey bytes task unsorted keys hole) ∧
      SortedOn bytes task.offset task.length task.firstKey (hole + 1)
        (insertKey bytes task unsorted keys hole) := by
  induction hole generalizing keys with
  | zero => exact ⟨PermOn.refl _, fun i j hi hij hj => by omega⟩
  | succ hole ih =>
    rw [insertKey]
    split_ifs with hmove
    · obtain ⟨hle, hlt⟩ := hmove
      set moved := Function.update keys (hole + 1) (keys hole) with hmoved
      have hsorted' : SortedOn bytes task.offset task.length task.firstKey hole moved := by
        intro i j hi hij hj
        rw [hmoved, Function.update_of_ne (by omega), Function.update_of_ne (by omega)]
        exact hsorted i j hi hij (by omega)
      obtain ⟨hperm, hsort⟩ := ih moved hle hsorted'
      have hswap : Function.update moved hole unsorted =
          Function.update keys (hole + 1) unsorted ∘ Equiv.swap hole (hole + 1) := by
        funext i
        rw [Equiv.comp_swap_eq_update]
        simp only [hmoved, Function.update_apply]
        split_ifs <;> first | rfl | omega
      refine ⟨?_, fun i j hi hij hj => ?_⟩
      · have hstep : PermOn task.firstKey (hole + 1 + 1) (Function.update keys (hole + 1) unsorted)
            (Function.update keys (hole + 1) unsorted ∘ Equiv.swap hole (hole + 1)) :=
          PermOn.swap ⟨hle, by omega⟩ ⟨by omega, by omega⟩
        rw [hswap] at hperm
        exact hstep.trans (hperm.mono le_rfl (by omega))
      · rcases Nat.lt_or_ge j (hole + 1) with hj' | hj'
        · exact hsort i j hi hij hj'
        · have hlast : insertKey bytes task unsorted moved hole (hole + 1) = keys hole := by
            rw [hperm.eq_of_notMem (by omega), Function.update_of_ne (by omega), hmoved,
              Function.update_self]
          obtain ⟨m, hm, hmi⟩ := hperm.exists_eq (i := i) ⟨hi, by omega⟩
          rw [show j = hole + 1 by omega, hlast, hmi]
          rcases Nat.lt_or_ge m hole with hm' | hm'
          · rw [Function.update_of_ne (by omega), hmoved, Function.update_of_ne (by omega)]
            exact hsorted m hole hm.1 hm' (by omega)
          · rw [show m = hole by omega, Function.update_self, hlt]
            exact nofun
    · refine ⟨PermOn.refl _, fun i j hi hij hj => ?_⟩
      rcases Nat.lt_or_ge j (hole + 1) with hj' | hj'
      · rw [Function.update_of_ne (by omega), Function.update_of_ne (by omega)]
        exact hsorted i j hi hij hj'
      · have hstay : compare bytes (keys hole) unsorted task.offset task.length ≠ .gt :=
          compare_ne_gt_of_ne_lt fun hlt => hmove ⟨by omega, hlt⟩
        rw [show j = hole + 1 by omega, Function.update_self, Function.update_of_ne (by omega)]
        rcases Nat.lt_or_ge i hole with hi' | hi'
        · exact compare_trans (hsorted i hole hi hi' (by omega)) hstay
        · rwa [show i = hole by omega]

/-- The first `count` insertions of `insertionSort` leave the keys up to
`firstKey + count` in order. -/
theorem insertionSort_loop (task : Task) (keys : ℕ → κ) (count : ℕ) :
    PermOn task.firstKey (task.firstKey + 1 + count) keys
        ((List.range' (task.firstKey + 1) count).foldl
          (fun keys next => insertKey bytes task (keys next) keys next) keys) ∧
      SortedOn bytes task.offset task.length task.firstKey (task.firstKey + 1 + count)
        ((List.range' (task.firstKey + 1) count).foldl
          (fun keys next => insertKey bytes task (keys next) keys next) keys) := by
  induction count with
  | zero => exact ⟨PermOn.refl _, fun i j hi hij hj => by omega⟩
  | succ count ih =>
    rw [List.range'_concat, List.foldl_append, List.foldl_cons, List.foldl_nil]
    obtain ⟨hperm, hsorted⟩ := ih
    set sorted := (List.range' (task.firstKey + 1) count).foldl
      (fun keys next => insertKey bytes task (keys next) keys next) keys
    have hnext : task.firstKey + 1 + 1 * count = task.firstKey + 1 + count := by omega
    rw [hnext]
    obtain ⟨hperm', hsorted'⟩ := insertKey_spec task (sorted (task.firstKey + 1 + count))
      (task.firstKey + 1 + count) sorted (by omega) hsorted
    rw [Function.update_eq_self] at hperm'
    exact ⟨(hperm.mono le_rfl (by omega)).trans (hperm'.mono le_rfl (by omega)),
      by rwa [show task.firstKey + 1 + (count + 1) = task.firstKey + 1 + count + 1 by omega]⟩

/-- `insertionSort` sorts the keys of its task and moves no other key. -/
theorem insertionSort_spec (task : Task) (keys : ℕ → κ) :
    PermOn task.firstKey (task.lastKey + 1) keys (insertionSort bytes task keys) ∧
      SortedOn bytes task.offset task.length task.firstKey (task.lastKey + 1)
        (insertionSort bytes task keys) := by
  rcases Nat.lt_or_ge task.lastKey task.firstKey with hempty | hle
  · have hnil : task.lastKey - task.firstKey = 0 := by omega
    rw [insertionSort, hnil, List.range'_zero, List.foldl_nil]
    exact ⟨PermOn.refl _, fun i j hi hij hj => by omega⟩
  · obtain ⟨hperm, hsorted⟩ := @insertionSort_loop κ bytes task keys
      (task.lastKey - task.firstKey)
    rw [show task.firstKey + 1 + (task.lastKey - task.firstKey) = task.lastKey + 1 by omega]
      at hperm hsorted
    exact ⟨hperm, hsorted⟩

/-- Two tasks whose key positions do not meet. -/
def Task.Disjoint (t u : Task) : Prop :=
  t.lastKey < u.firstKey ∨ u.lastKey < t.firstKey

/-- Insertion sorting a list of disjoint tasks one after another, as the main
loop does with its small piles: each task ends sorted, the keys of each come from
the same task, the other keys stay, and the whole is a rearrangement of any
segment that holds the tasks. -/
theorem foldl_insertionSort {lo hi : ℕ} (tasks : List Task) (keys : ℕ → κ)
    (hdisjoint : tasks.Pairwise Task.Disjoint)
    (hwithin : ∀ t ∈ tasks, lo ≤ t.firstKey ∧ t.lastKey < hi) :
    PermOn lo hi keys (tasks.foldl (fun keys t => insertionSort bytes t keys) keys) ∧
      (∀ t ∈ tasks, SortedOn bytes t.offset t.length t.firstKey (t.lastKey + 1)
        (tasks.foldl (fun keys t => insertionSort bytes t keys) keys)) ∧
      (∀ t ∈ tasks, ∀ p, t.firstKey ≤ p → p ≤ t.lastKey →
        ∃ q, (t.firstKey ≤ q ∧ q ≤ t.lastKey) ∧
          tasks.foldl (fun keys t => insertionSort bytes t keys) keys p = keys q) ∧
      ∀ p, (∀ t ∈ tasks, p < t.firstKey ∨ t.lastKey < p) →
        tasks.foldl (fun keys t => insertionSort bytes t keys) keys p = keys p := by
  induction tasks generalizing keys with
  | nil => exact ⟨PermOn.refl _, nofun, nofun, fun _ _ => rfl⟩
  | cons t rest ih =>
    rw [List.pairwise_cons] at hdisjoint
    rw [List.foldl_cons]
    set sorted := insertionSort bytes t keys
    obtain ⟨hperm, hsorted⟩ := @insertionSort_spec κ bytes t keys
    obtain ⟨hperm', hsorted', hfrom', hstay'⟩ :=
      ih sorted hdisjoint.2 fun u hu => hwithin u (List.mem_cons_of_mem t hu)
    have hwt := hwithin t List.mem_cons_self
    have houtside : ∀ p, t.firstKey ≤ p → p ≤ t.lastKey →
        ∀ u ∈ rest, p < u.firstKey ∨ u.lastKey < p := by
      intro p hp1 hp2 u hu
      rcases hdisjoint.1 u hu with h | h <;> omega
    refine ⟨(hperm.mono hwt.1 (by omega)).trans hperm', fun u hu => ?_, fun u hu p hp1 hp2 => ?_,
      fun p hp => ?_⟩
    · rcases List.mem_cons.mp hu with rfl | hu
      · intro i j hi hij hj
        rw [hstay' i (houtside i hi (by omega)), hstay' j (houtside j (by omega) (by omega))]
        exact hsorted i j hi hij hj
      · exact hsorted' u hu
    · rcases List.mem_cons.mp hu with rfl | hu
      · rw [hstay' p (houtside p hp1 hp2)]
        obtain ⟨q, hq, hpq⟩ := hperm.exists_eq ⟨hp1, by omega⟩
        exact ⟨q, ⟨hq.1, by omega⟩, hpq⟩
      · obtain ⟨q, hq, hpq⟩ := hfrom' u hu p hp1 hp2
        refine ⟨q, hq, hpq.trans (hperm.eq_of_notMem ?_)⟩
        rcases hdisjoint.1 u hu with h | h <;> omega
    · rw [hstay' p fun u hu => hp u (List.mem_cons_of_mem t hu)]
      exact hperm.eq_of_notMem (by rcases hp t List.mem_cons_self with h | h <;> omega)


/-! ## The histogram counts the task -/

/-- The histogram as the sort leaves it between tasks: no bin counted. -/
def Histogram.Cleared (bins : Histogram) : Prop :=
  bins.used = 0 ∧ ∀ b, bins.size b = 0

theorem Histogram.zero_cleared : Histogram.zero.Cleared := ⟨rfl, fun _ => rfl⟩

/-- `bins` counts the keys at the positions `[lo, hi)` by their byte at `offset`:
the size of every bin, the number of nonempty bins, and the first and last of
them (`UINT8_MAX` and `0` while no key is counted). -/
structure Histogram.Counts (bytes : κ → ℕ → UInt8) (bins : Histogram) (keys : ℕ → κ)
    (offset lo hi : ℕ) : Prop where
  size_eq : ∀ b, bins.size b =
    countWhere (Finset.Ico lo hi) (fun key => (bytes key offset).toNat = b) keys
  used_eq : bins.used = countWhere (Finset.range 256) (· ≠ 0) bins.size
  last_lt : lo < hi → bins.last < 256
  size_last : lo < hi → bins.size bins.last ≠ 0
  bounds : ∀ b, bins.size b ≠ 0 → bins.first ≤ b ∧ b ≤ bins.last
  empty : hi ≤ lo → bins.first = 255 ∧ bins.last = 0

theorem tallyBin_of_eq_zero {bins : Histogram} {bin : ℕ} (hzero : bins.size bin = 0) :
    tallyBin bins bin =
      { used := bins.used + 1
        first := if bin < bins.first then bin else bins.first
        last := if bins.last < bin then bin else bins.last
        size := Function.update bins.size bin 1 } := by
  simp [tallyBin, hzero]

theorem tallyBin_of_ne_zero {bins : Histogram} {bin : ℕ} (hzero : bins.size bin ≠ 0) :
    tallyBin bins bin = { bins with size := Function.update bins.size bin (bins.size bin + 1) } := by
  simp [tallyBin, hzero]

namespace Histogram.Counts

variable {bins : Histogram} {keys : ℕ → κ} {offset lo hi : ℕ}

/-- No key counted, as `measureBins` starts from a cleared histogram. -/
theorem start (hcleared : bins.Cleared) :
    Counts bytes { bins with first := 255, last := 0 } keys offset lo lo := by
  refine ⟨fun b => ?_, ?_, fun h => absurd h (lt_irrefl lo), fun h => absurd h (lt_irrefl lo),
    fun b hb => absurd (hcleared.2 b) hb, fun _ => ⟨rfl, rfl⟩⟩
  · rw [Finset.Ico_self]
    exact hcleared.2 b
  · exact hcleared.1.trans (countWhere_eq_zero fun b _ hb => hb (hcleared.2 b)).symm

/-- Counting the key at `hi`. -/
theorem tally (hcounts : Counts bytes bins keys offset lo hi) (hle : lo ≤ hi) :
    Counts bytes (tallyBin bins (bytes (keys hi) offset).toNat) keys offset lo (hi + 1) := by
  set c := (bytes (keys hi) offset).toNat with hc
  have hc256 : c < 256 := UInt8.toNat_lt _
  have hsize : ∀ b, Function.update bins.size c (bins.size c + 1) b =
      countWhere (Finset.Ico lo (hi + 1)) (fun key => (bytes key offset).toNat = b) keys := by
    intro b
    rw [Nat.Ico_succ_right_eq_insert_Ico hle, countWhere_insert Finset.right_notMem_Ico,
      ← hcounts.size_eq b]
    by_cases hb : b = c
    · subst hb
      simp [hc]
    · have hcb : (bytes (keys hi) offset).toNat ≠ b := fun h => hb (by rw [hc, h])
      rw [Function.update_of_ne hb, if_neg hcb, add_zero]
  have hupdate := countWhere_update_of_mem (p := (· ≠ 0)) (f := bins.size)
    (Finset.mem_range.mpr hc256) (bins.size c + 1)
  by_cases hzero : bins.size c = 0
  · have hlast : lo < hi → bins.last < 256 ∧ bins.size bins.last ≠ 0 ∧ bins.last ≠ c :=
      fun hlo => ⟨hcounts.last_lt hlo, hcounts.size_last hlo,
        fun h => hcounts.size_last hlo (h ▸ hzero)⟩
    have hempty : hi ≤ lo → bins.first = 255 ∧ bins.last = 0 := hcounts.empty
    rw [tallyBin_of_eq_zero hzero]
    have hone : bins.size c + 1 = 1 := by omega
    rw [hone] at hupdate hsize
    refine ⟨fun b => hsize b, ?_, fun _ => ?_, fun _ => ?_, fun b hb => ?_, fun h => by omega⟩ <;>
      dsimp only
    · rw [if_neg (not_not.mpr hzero), if_pos one_ne_zero] at hupdate
      rw [hcounts.used_eq]
      omega
    · rcases Nat.lt_or_ge lo hi with hlo | hge
      · have := (hlast hlo).1
        split_ifs <;> omega
      · have := (hempty hge).2
        split_ifs <;> omega
    · split_ifs with hlt
      · simp
      · rcases Nat.lt_or_ge lo hi with hlo | hge
        · rw [Function.update_of_ne (hlast hlo).2.2]
          exact (hlast hlo).2.1
        · have hlc : bins.last = c := by
            have := (hempty hge).2
            omega
          rw [hlc, Function.update_self]
          exact one_ne_zero
    · dsimp only at hb
      by_cases hbc : b = c
      · rcases Nat.lt_or_ge lo hi with hlo | hge
        · have := hcounts.bounds bins.last (hlast hlo).2.1
          constructor <;> split_ifs <;> omega
        · have := hempty hge
          constructor <;> split_ifs <;> omega
      · rw [Function.update_of_ne hbc] at hb
        have := hcounts.bounds b hb
        constructor <;> split_ifs <;> omega
  · have hlo : lo < hi := by
      by_contra hge
      rw [hcounts.size_eq c, show hi = lo by omega, Finset.Ico_self] at hzero
      exact hzero rfl
    rw [tallyBin_of_ne_zero hzero]
    refine ⟨fun b => hsize b, ?_, fun _ => hcounts.last_lt hlo, fun _ => ?_, fun b hb => ?_,
      fun h => by omega⟩ <;> dsimp only
    · rw [if_pos hzero, if_pos (Nat.add_one_ne_zero _)] at hupdate
      rw [hcounts.used_eq]
      omega
    · by_cases hlc : bins.last = c
      · rw [hlc, Function.update_self]
        omega
      · rw [Function.update_of_ne hlc]
        exact hcounts.size_last hlo
    · dsimp only at hb
      by_cases hbc : b = c
      · rw [hbc]
        exact hcounts.bounds c hzero
      · rw [Function.update_of_ne hbc] at hb
        exact hcounts.bounds b hb

/-- Counting the keys at `lo, …, lo + n - 1` one by one. -/
theorem tally_range (hcounts : Counts bytes bins keys offset lo lo) (n : ℕ) :
    Counts bytes ((List.range' lo n).foldl
      (fun bins keyPtr => tallyBin bins (bytes (keys keyPtr) offset).toNat) bins)
      keys offset lo (lo + n) := by
  induction n with
  | zero => exact hcounts
  | succ n ih =>
    rw [List.range'_concat, List.foldl_append, List.foldl_cons, List.foldl_nil, Nat.one_mul,
      ← Nat.add_assoc]
    exact ih.tally (by omega)

end Histogram.Counts

/-- `measureBins` from a cleared histogram counts the keys of its task. -/
theorem measureBins_counts (task : Task) (keys : ℕ → κ) {bins : Histogram}
    (hcleared : bins.Cleared) (hkeys : task.firstKey ≤ task.lastKey) :
    (measureBins bytes task keys bins).Counts bytes keys task.offset task.firstKey
      (task.lastKey + 1) := by
  have hstart : Histogram.Counts bytes { bins with first := 255, last := 0 } keys task.offset
      task.firstKey task.firstKey := Histogram.Counts.start hcleared
  have hcount := hstart.tally_range (task.lastKey + 1 - task.firstKey)
  rwa [show task.firstKey + (task.lastKey + 1 - task.firstKey) = task.lastKey + 1 by omega]
    at hcount

end Proofs

end RadixSort

end Vdo.Uds
