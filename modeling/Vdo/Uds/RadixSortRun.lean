import Mathlib
import Vdo.Uds.RadixSortPlace

/-!
# The radix sort sorts

The main loop of `radixSort` takes the task on top of the stack, moves its keys
into the piles of their byte at the task's offset, insertion sorts the small
piles and pushes the large ones. Its invariant (`SortProgress`): the keys are a
rearrangement of the input and in order except within the tasks still on the
stack, which are disjoint, have more than `INSERTION_SORT_THRESHOLD` keys, and
whose keys agree on the bytes before their offset. A pass keeps it and takes the
task's keys off the work the stack holds (`stackWork`: each task's keys times
its bytes left), which bounds the loop's fuel; and the tasks on the stack hold
at least 13 keys each, so the stack never holds more than `count / 12` of them
and `pushBins` always finds room (`SortProgress.step`).

`radixSort_spec`: with a sorter made for at least `count` keys and a cleared
histogram, `radixSort` returns `UDS_SUCCESS` with the first `count` keys in order
by their first `length` bytes, a rearrangement of the keys it was given, and the
histogram cleared again for the next sort.
-/

namespace Vdo.Uds

namespace RadixSort

open SegmentSort IndexCount

variable {κ : Type*} {bytes : κ → ℕ → UInt8}

/-- The number of keys of a task. -/
def Task.keyCount (t : Task) : ℕ := t.lastKey + 1 - t.firstKey

/-- The work a stack of tasks holds: the keys of each task times its bytes left. -/
def stackWork (stack : List Task) : ℕ := (stack.map fun t => t.keyCount * t.length).sum

/-- A task as the main loop keeps it on the stack: within the first `count` keys,
with more than `INSERTION_SORT_THRESHOLD` of them, its offset and bytes left
adding up to the key length, bytes left to compare, and its keys agreeing on
the bytes before its offset. -/
structure Task.Pending (bytes : κ → ℕ → UInt8) (length count : ℕ) (keys : ℕ → κ) (t : Task) :
    Prop where
  lastKey_lt : t.lastKey < count
  large : insertionSortThreshold < t.keyCount
  offset_add : t.offset + t.length = length
  length_pos : 0 < t.length
  agree : ∀ p q, t.firstKey ≤ p → p ≤ t.lastKey → t.firstKey ≤ q → q ≤ t.lastKey →
    ∀ i < t.offset, bytes (keys p) i = bytes (keys q) i

/-- The state of the main loop of `radixSort`: the keys a rearrangement of the
first `count` input keys `keys0`, in order by their first `length` bytes except
within a task still on the stack; the tasks pending and disjoint, holding no more
than `count` keys together; and the histogram cleared. -/
structure SortProgress (bytes : κ → ℕ → UInt8) (length count : ℕ) (keys0 keys : ℕ → κ)
    (sorter : RadixSorter) (stack : List Task) : Prop where
  perm : PermOn 0 count keys0 keys
  pending : ∀ t ∈ stack, t.Pending bytes length count keys
  disjoint : stack.Pairwise Task.Disjoint
  sorted : ∀ p q, p < q → q < count → (∀ t ∈ stack, ¬(t.firstKey ≤ p ∧ q ≤ t.lastKey)) →
    compare bytes (keys p) (keys q) 0 length ≠ .gt
  cleared : sorter.bins.Cleared
  keys_le : (stack.map Task.keyCount).sum ≤ count

/-! ## Comparing keys with a common prefix -/

/-- Keys that agree on their first `k` bytes compare as their bytes from `k` on. -/
theorem compare_of_agree {key1 key2 : κ} {k : ℕ} (h : ∀ i < k, bytes key1 i = bytes key2 i)
    (m : ℕ) : compare bytes key1 key2 0 (k + m) = compare bytes key1 key2 k m := by
  unfold compare
  rw [windowCompare_of_agree (fun i _ hi => by rw [h i (by omega)]) m, Nat.zero_add]

/-- Keys that agree on their first `k` bytes and differ at byte `k` are ordered by
that byte. -/
theorem compare_of_agree_of_lt {key1 key2 : κ} {k : ℕ} (h : ∀ i < k, bytes key1 i = bytes key2 i)
    (hlt : (bytes key1 k).toNat < (bytes key2 k).toNat) (m : ℕ) :
    compare bytes key1 key2 0 (k + (m + 1)) = .lt := by
  rw [compare_of_agree h]
  simp only [compare, windowCompare, hlt, if_true]

/-! ## The piles of a task -/

section Piles

variable {firstKey : ℕ} {size : ℕ → ℕ} {offset length : ℕ}

theorem keyCount_pileTask {b : ℕ} (hsize : size b ≠ 0) :
    (pileTask firstKey size offset length b).keyCount = size b := by
  simp only [Task.keyCount, pileTask]
  omega

/-- The piles of distinct nonempty bins are disjoint. -/
theorem pairwise_disjoint_pileTasks {keep : ℕ → Bool} (hkeep : ∀ b, keep b = true → size b ≠ 0)
    (n : ℕ) : (pileTasks firstKey size offset length keep (List.range n)).Pairwise Task.Disjoint := by
  rw [pileTasks, List.pairwise_map]
  refine (List.pairwise_lt_range.filter keep).imp_of_mem fun {b b'} hb _ hlt => Or.inl ?_
  have hsize := hkeep b (List.mem_filter.mp hb).2
  have hmono : startOfPile firstKey size (b + 1) ≤ startOfPile firstKey size b' :=
    startOfPile_mono hlt
  simp only [pileTask]
  rw [startOfPile_succ] at hmono
  omega

theorem Task.Disjoint.symm {t u : Task} (h : t.Disjoint u) : u.Disjoint t :=
  Or.symm h

theorem pairwise_disjoint_reverse {tasks : List Task} (h : tasks.Pairwise Task.Disjoint) :
    tasks.reverse.Pairwise Task.Disjoint :=
  List.pairwise_reverse.mpr (h.imp Task.Disjoint.symm)

/-- Tasks with more than `c` keys each: `c + 1` times their number is at most their
keys. -/
theorem mul_length_le_sum_keyCount {c : ℕ} :
    ∀ tasks : List Task, (∀ t ∈ tasks, c < t.keyCount) →
      (c + 1) * tasks.length ≤ (tasks.map Task.keyCount).sum
  | [], _ => by simp
  | t :: rest, h => by
    have ht := h t List.mem_cons_self
    have hrest := mul_length_le_sum_keyCount rest fun u hu => h u (List.mem_cons_of_mem t hu)
    simp only [List.length_cons, List.map_cons, List.sum_cons]
    rw [Nat.mul_succ]
    omega

end Piles

/-- The stacked piles of a task together hold at most its keys. -/
theorem sum_keyCount_stacked_le {keys : ℕ → κ} {offset firstKey lastKey : ℕ} {size : ℕ → ℕ}
    {last length : ℕ} (ht : Tally bytes keys offset firstKey lastKey size last) :
    ((pileTasks firstKey size (offset + 1) length (isStackedPile size length)
      (List.range 256)).map Task.keyCount).sum ≤ lastKey + 1 - firstKey := by
  have hstacked : ∀ b, isStackedPile size length b = true → size b ≠ 0 := fun b hb => by
    simp only [isStackedPile, Bool.and_eq_true, decide_eq_true_eq] at hb
    simp only [insertionSortThreshold] at hb
    omega
  rw [pileTasks, List.map_map]
  have hcount : ((List.range 256).filter (isStackedPile size length)).map
      (Task.keyCount ∘ pileTask firstKey size (offset + 1) length) =
      ((List.range 256).filter (isStackedPile size length)).map size :=
    List.map_congr_left fun b hb => keyCount_pileTask (hstacked b (List.mem_filter.mp hb).2)
  have hsub : (((List.range 256).filter (isStackedPile size length)).map size).sum ≤
      ((List.range 256).map size).sum :=
    (List.filter_sublist.map size).sum_le_sum fun _ _ => Nat.zero_le _
  have htotal : ((List.range 256).map size).sum = ∑ b ∈ Finset.range 256, size b := by
    simp [Finset.sum, Finset.range_val, Multiset.range]
  have htop := ht.startOfPile_top
  rw [startOfPile] at htop
  rw [hcount]
  omega

/-- A histogram that counts a nonempty task is what the fence loop takes. -/
theorem Histogram.Counts.toTally {bins : Histogram} {keys : ℕ → κ} {offset lo hi : ℕ}
    (hcounts : bins.Counts bytes keys offset lo (hi + 1)) (hle : lo ≤ hi) :
    Tally bytes keys offset lo hi bins.size bins.last :=
  ⟨hcounts.size_eq, hcounts.last_lt (by omega), hcounts.size_last (by omega),
    fun b hb => by_contra fun hsize => absurd (hcounts.bounds b hsize).2 (by omega), hle⟩

/-- A stacked or listed pile is nonempty. -/
theorem size_ne_zero_of_listed {size : ℕ → ℕ} {length b : ℕ}
    (h : isListedPile size length b = true) : size b ≠ 0 := by
  simp only [isListedPile, Bool.and_eq_true, decide_eq_true_eq] at h
  omega

theorem size_ne_zero_of_stacked {size : ℕ → ℕ} {length b : ℕ}
    (h : isStackedPile size length b = true) : size b ≠ 0 := by
  simp only [isStackedPile, Bool.and_eq_true, decide_eq_true_eq] at h
  have := h.2
  simp only [insertionSortThreshold] at this
  omega

/-- The pile of a nonempty bin that is kept is one of the kept piles. -/
theorem pileTask_mem_pileTasks {keys : ℕ → κ} {offset firstKey lastKey : ℕ} {size : ℕ → ℕ}
    {last : ℕ} (ht : Tally bytes keys offset firstKey lastKey size last) {offset' length' b : ℕ}
    {keep : ℕ → Bool} (hkeep : keep b = true) (hsize : size b ≠ 0) :
    pileTask firstKey size offset' length' b ∈
      pileTasks firstKey size offset' length' keep (List.range 256) := by
  have hb : b < 256 := by
    by_contra hge
    exact hsize (ht.above_last b (by have := ht.last_lt; omega))
  exact List.mem_map_of_mem (List.mem_filter.mpr ⟨List.mem_range.mpr hb, hkeep⟩)

/-- The pile of a nonempty bin lies within the task. -/
theorem pileTask_within {keys : ℕ → κ} {offset firstKey lastKey : ℕ} {size : ℕ → ℕ} {last : ℕ}
    (ht : Tally bytes keys offset firstKey lastKey size last) {offset' length' b : ℕ}
    (hsize : size b ≠ 0) :
    firstKey ≤ (pileTask firstKey size offset' length' b).firstKey ∧
      (pileTask firstKey size offset' length' b).lastKey ≤ lastKey := by
  have hfirst : startOfPile firstKey size 0 ≤ startOfPile firstKey size b :=
    startOfPile_mono (Nat.zero_le b)
  have hlast : startOfPile firstKey size (b + 1) ≤ startOfPile firstKey size (last + 1) :=
    startOfPile_mono (by have := hsize; by_contra h; exact hsize (ht.above_last b (by omega)))
  rw [startOfPile_zero] at hfirst
  rw [ht.startOfPile_last_succ, startOfPile_succ] at hlast
  simp only [pileTask]
  omega

/-- One pass of the main loop on a task with room on the stack for its stacked
piles: the pass succeeds, leaves the histogram cleared, and pushes the stacked
piles; it rearranges the task's keys into their piles and sorts every listed
pile. -/
theorem sortTask_spec {endOfStack : ℕ} {sorter : RadixSorter} {keys : ℕ → κ} {t : Task}
    {rest : List Task} {size : ℕ → ℕ} (hcleared : sorter.bins.Cleared)
    (hkeys : t.firstKey ≤ t.lastKey) (hsize : (measureBins bytes t keys sorter.bins).size = size)
    (hroom : rest.length + ((List.range 256).filter (isStackedPile size (t.length - 1))).length ≤
      endOfStack) :
    ∃ sorter' keys', sortTask bytes endOfStack sorter keys t rest =
        some (sorter', keys', .ok ((pileTasks t.firstKey size (t.offset + 1) (t.length - 1)
          (isStackedPile size (t.length - 1)) (List.range 256)).reverse ++ rest)) ∧
      sorter'.bins.Cleared ∧
      PermOn t.firstKey (t.lastKey + 1) keys keys' ∧
      (∀ p, t.firstKey ≤ p → p ≤ t.lastKey →
        (bytes (keys' p) t.offset).toNat = pileOf t.firstKey size p) ∧
      ∀ b, isListedPile size (t.length - 1) b = true →
        SortedOn bytes (t.offset + 1) (t.length - 1) (startOfPile t.firstKey size b)
          (startOfPile t.firstKey size b + size b) keys' := by
  set bins := measureBins bytes t keys sorter.bins with hbins
  have hcounts : bins.Counts bytes keys t.offset t.firstKey (t.lastKey + 1) :=
    measureBins_counts t keys hcleared hkeys
  have ht : Tally bytes keys t.offset t.firstKey t.lastKey size bins.last := by
    rw [← hsize]
    exact hcounts.toTally hkeys
  have hfirst : bins.first ≤ bins.last := (hcounts.bounds _ (hcounts.size_last (by omega))).1
  have hbelow : ∀ b < bins.first, size b = 0 := fun b hb => by
    rw [← hsize]
    by_contra hne
    exact absurd (hcounts.bounds b hne).1 (by omega)
  have hpush := @pushBins_spec t.firstKey size (t.offset + 1) (t.length - 1) endOfStack rest []
    sorter.pile bins hsize (by rw [← hsize]; exact hcounts.used_eq)
    (by have := ht.last_lt; omega) hbelow hroom
  set st := pushedBelow rest [] sorter.pile t.firstKey size (t.offset + 1) (t.length - 1) 256
    with hst
  have hstop : t.lastKey + 1 - size bins.last = startOfPile t.firstKey size bins.last := by
    have := ht.startOfPile_last
    omega
  have hpile : ∀ b, size b ≠ 0 → st.pile b = startOfPile t.firstKey size (b + 1) := by
    intro b hb
    have hb256 : b < 256 := by
      by_contra hge
      exact hb (ht.above_last b (by have := ht.last_lt; omega))
    simp only [hst, pushedBelow, hb256, ne_eq, hb, not_false_eq_true, and_self, if_true]
  obtain ⟨keys1, pile1, size1, hplace, hperm1, hpiles1, hzero1⟩ :=
    placePiles_spec ht (startOfPile t.firstKey size bins.last + 1 - t.firstKey) t.firstKey keys
      st.pile (Function.update size bins.last 0) (Placing.start ht hpile)
      (by have := (Placing.start ht hpile).fence_le; omega)
  have hlisted : ∀ b, isListedPile size (t.length - 1) b = true → size b ≠ 0 :=
    fun b hb => size_ne_zero_of_listed hb
  set listed := pileTasks t.firstKey size (t.offset + 1) (t.length - 1)
    (isListedPile size (t.length - 1)) (List.range 256) with hlistedDef
  have hwithin : ∀ u ∈ listed.reverse, t.firstKey ≤ u.firstKey ∧ u.lastKey < t.lastKey + 1 := by
    intro u hu
    rw [List.mem_reverse, hlistedDef, pileTasks, List.mem_map] at hu
    obtain ⟨b, hb, rfl⟩ := hu
    have hin : t.firstKey ≤ (pileTask t.firstKey size (t.offset + 1) (t.length - 1) b).firstKey ∧
        (pileTask t.firstKey size (t.offset + 1) (t.length - 1) b).lastKey ≤ t.lastKey :=
      pileTask_within ht (hlisted b (List.mem_filter.mp hb).2)
    omega
  obtain ⟨hperm2, hsorted2, hfrom2, hstay2⟩ := @foldl_insertionSort κ bytes t.firstKey
    (t.lastKey + 1) listed.reverse keys1
    (pairwise_disjoint_reverse (pairwise_disjoint_pileTasks hlisted 256)) hwithin
  refine ⟨{ sorter with bins := { bins with used := 0, size := size1 }, pile := pile1 },
    listed.reverse.foldl (fun keys small => insertionSort bytes small keys) keys1, ?_, ?_, ?_, ?_,
    ?_⟩
  · unfold sortTask
    dsimp only
    rw [hpush]
    dsimp only
    rw [hsize, hstop, hplace]
    simp only [hst, pushedBelow, List.append_nil, hlistedDef]
  · exact ⟨rfl, hzero1⟩
  · exact hperm1.trans hperm2
  · intro p hp1 hp2
    by_cases hin : ∃ u ∈ listed.reverse, u.firstKey ≤ p ∧ p ≤ u.lastKey
    · obtain ⟨u, hu, hpu⟩ := hin
      obtain ⟨q, hq, hpq⟩ := hfrom2 u hu p hpu.1 hpu.2
      have hu' := hu
      rw [List.mem_reverse, hlistedDef, pileTasks, List.mem_map] at hu'
      obtain ⟨b, hb, rfl⟩ := hu'
      have hsizeb := hlisted b (List.mem_filter.mp hb).2
      simp only [pileTask] at hpu hq
      have hend : startOfPile t.firstKey size (b + 1) = startOfPile t.firstKey size b + size b :=
        startOfPile_succ b
      have hqb : pileOf t.firstKey size q = b := ht.pileOf_eq (by omega) (by omega)
      have hpb : pileOf t.firstKey size p = b := ht.pileOf_eq (by omega) (by omega)
      have hwq := hwithin _ hu
      simp only [pileTask] at hwq
      rw [hpq, hpiles1 q (by omega) (by omega), hqb, hpb]
    · push Not at hin
      rw [hstay2 p fun u hu => by
        by_contra hcon
        exact absurd (hin u hu (by omega)) (by omega)]
      exact hpiles1 p hp1 hp2
  · intro b hb
    have hsizeb := hlisted b hb
    have hmem : pileTask t.firstKey size (t.offset + 1) (t.length - 1) b ∈ listed.reverse := by
      rw [List.mem_reverse, hlistedDef, pileTasks]
      exact List.mem_map_of_mem (List.mem_filter.mpr ⟨List.mem_range.mpr (by
        by_contra hge
        exact hsizeb (ht.above_last b (by have := ht.last_lt; omega))), hb⟩)
    have hsorted := hsorted2 _ hmem
    simp only [pileTask] at hsorted
    rwa [show startOfPile t.firstKey size b + size b - 1 + 1 = startOfPile t.firstKey size b + size b
      by omega] at hsorted

/-! ## One pass of the main loop -/

section Pass

variable {length count : ℕ} {keys keys' : ℕ → κ} {t : Task} {size : ℕ → ℕ} {last : ℕ}

/-- The keys of a pending task still agree before its offset once they are
rearranged among themselves. -/
theorem Task.Pending.agree_of_perm (hpend : t.Pending bytes length count keys)
    (hperm : PermOn t.firstKey (t.lastKey + 1) keys keys') {p q : ℕ}
    (hp : t.firstKey ≤ p ∧ p ≤ t.lastKey) (hq : t.firstKey ≤ q ∧ q ≤ t.lastKey) :
    ∀ i < t.offset, bytes (keys' p) i = bytes (keys' q) i := by
  obtain ⟨p', hp', hpp'⟩ := hperm.exists_eq (i := p) ⟨hp.1, by omega⟩
  obtain ⟨q', hq', hqq'⟩ := hperm.exists_eq (i := q) ⟨hq.1, by omega⟩
  rw [hpp', hqq']
  exact hpend.agree p' q' hp'.1 (by omega) hq'.1 (by omega)

/-- A task that the pass on another does not meet stays pending. -/
theorem Task.Pending.of_disjoint {u : Task} (hpend : u.Pending bytes length count keys)
    (hdisjoint : t.Disjoint u) (hperm : PermOn t.firstKey (t.lastKey + 1) keys keys') :
    u.Pending bytes length count keys' where
  lastKey_lt := hpend.lastKey_lt
  large := hpend.large
  offset_add := hpend.offset_add
  length_pos := hpend.length_pos
  agree p q hp1 hp2 hq1 hq2 := by
    have hout : ∀ x, u.firstKey ≤ x → x ≤ u.lastKey → keys' x = keys x := fun x hx1 hx2 =>
      hperm.eq_of_notMem (by rcases hdisjoint with h | h <;> omega)
    rw [hout p hp1 hp2, hout q hq1 hq2]
    exact hpend.agree p q hp1 hp2 hq1 hq2

/-- A stacked pile of the pass on a task is a pending task of the keys after it:
its keys agree before the task's offset, and at the offset on the pile's byte. -/
theorem Task.Pending.of_stacked (ht : Tally bytes keys t.offset t.firstKey t.lastKey size last)
    (hpend : t.Pending bytes length count keys)
    (hperm : PermOn t.firstKey (t.lastKey + 1) keys keys')
    (hpiles : ∀ p, t.firstKey ≤ p → p ≤ t.lastKey →
      (bytes (keys' p) t.offset).toNat = pileOf t.firstKey size p)
    {b : ℕ} (hb : isStackedPile size (t.length - 1) b = true) :
    (pileTask t.firstKey size (t.offset + 1) (t.length - 1) b).Pending bytes length count keys' := by
  have hsize := size_ne_zero_of_stacked hb
  have hwithin : t.firstKey ≤ (pileTask t.firstKey size (t.offset + 1) (t.length - 1) b).firstKey ∧
      (pileTask t.firstKey size (t.offset + 1) (t.length - 1) b).lastKey ≤ t.lastKey :=
    pileTask_within ht hsize
  simp only [isStackedPile, Bool.and_eq_true, decide_eq_true_eq] at hb
  have hend : startOfPile t.firstKey size (b + 1) = startOfPile t.firstKey size b + size b :=
    startOfPile_succ b
  have hoffset := hpend.offset_add
  refine ⟨?_, ?_, ?_, hb.1, ?_⟩
  · have := hpend.lastKey_lt
    omega
  · rw [keyCount_pileTask hsize]
    exact hb.2
  · simp only [pileTask]
    omega
  · simp only [pileTask] at hwithin ⊢
    intro p q hp1 hp2 hq1 hq2 i hi
    rcases Nat.lt_or_ge i t.offset with hi' | hi'
    · exact hpend.agree_of_perm hperm ⟨by omega, by omega⟩ ⟨by omega, by omega⟩ i hi'
    · rw [show i = t.offset by omega]
      apply UInt8.toNat_inj.mp
      rw [hpiles p (by omega) (by omega), hpiles q (by omega) (by omega),
        ht.pileOf_eq (by omega) (by omega), ht.pileOf_eq (by omega) (by omega)]

/-- After the pass on a task, two of its keys are in order unless they share a
pile that goes on the stack: keys of different piles are ordered by their byte
at the offset, and keys of a small pile by its insertion sort. -/
theorem compare_within_task (ht : Tally bytes keys t.offset t.firstKey t.lastKey size last)
    (hpend : t.Pending bytes length count keys)
    (hperm : PermOn t.firstKey (t.lastKey + 1) keys keys')
    (hpiles : ∀ p, t.firstKey ≤ p → p ≤ t.lastKey →
      (bytes (keys' p) t.offset).toNat = pileOf t.firstKey size p)
    (hlisted : ∀ b, isListedPile size (t.length - 1) b = true →
      SortedOn bytes (t.offset + 1) (t.length - 1) (startOfPile t.firstKey size b)
        (startOfPile t.firstKey size b + size b) keys')
    {p q : ℕ} (hp : t.firstKey ≤ p) (hpq : p < q) (hq : q ≤ t.lastKey)
    (hnot : ¬(isStackedPile size (t.length - 1) (pileOf t.firstKey size p) = true ∧
      pileOf t.firstKey size p = pileOf t.firstKey size q)) :
    compare bytes (keys' p) (keys' q) 0 length ≠ .gt := by
  have hagree : ∀ i < t.offset, bytes (keys' p) i = bytes (keys' q) i :=
    hpend.agree_of_perm hperm ⟨hp, by omega⟩ ⟨by omega, hq⟩
  obtain ⟨hps, hpe⟩ := ht.pileOf_spec hp (by omega)
  obtain ⟨hqs, hqe⟩ := ht.pileOf_spec (by omega) hq
  have hle : pileOf t.firstKey size p ≤ pileOf t.firstKey size q := by
    by_contra hlt
    have : startOfPile t.firstKey size (pileOf t.firstKey size q + 1) ≤
        startOfPile t.firstKey size (pileOf t.firstKey size p) := startOfPile_mono (by omega)
    omega
  have hlength : length = t.offset + (t.length - 1 + 1) := by
    have := hpend.offset_add
    have := hpend.length_pos
    omega
  rcases Nat.lt_or_ge (pileOf t.firstKey size p) (pileOf t.firstKey size q) with hlt | hge
  · have hbytes : (bytes (keys' p) t.offset).toNat < (bytes (keys' q) t.offset).toNat := by
      rw [hpiles p hp (by omega), hpiles q (by omega) hq]
      exact hlt
    rw [hlength, compare_of_agree_of_lt hagree hbytes]
    decide
  · set b := pileOf t.firstKey size p
    have hbq : pileOf t.firstKey size q = b := by omega
    have hagree' : ∀ i < t.offset + 1, bytes (keys' p) i = bytes (keys' q) i := by
      intro i hi
      rcases Nat.lt_or_ge i t.offset with hi' | hi'
      · exact hagree i hi'
      · rw [show i = t.offset by omega]
        exact UInt8.toNat_inj.mp (by rw [hpiles p hp (by omega), hpiles q (by omega) hq, hbq])
    rw [show length = t.offset + 1 + (t.length - 1) by omega, compare_of_agree hagree']
    by_cases hlistedb : isListedPile size (t.length - 1) b = true
    · rw [startOfPile_succ] at hpe
      exact hlisted b hlistedb p q hps hpq (by rw [← hbq]; rw [startOfPile_succ] at hqe; omega)
    · have hstackedb : ¬isStackedPile size (t.length - 1) b = true := fun h => hnot ⟨h, hbq.symm⟩
      simp only [isListedPile, isStackedPile, Bool.and_eq_true, decide_eq_true_eq,
        Bool.not_eq_true', decide_eq_false_iff_not, not_and, not_lt] at hlistedb hstackedb
      rcases Nat.eq_zero_or_pos (t.length - 1) with hzero | hpos
      · rw [hzero, compare, windowCompare_zero]
        decide
      · exfalso
        rw [startOfPile_succ, hbq] at hqe
        rw [hbq] at hqs
        have h12 := hstackedb hpos
        have := hlistedb ⟨hpos, h12⟩
        omega

/-- Keys not both of the task stay in order across the pass: it only rearranges
the task's own keys, and no other task on the stack meets the task. -/
theorem compare_across_task {keys0 : ℕ → κ} {sorter : RadixSorter} {rest : List Task}
    (hp : SortProgress bytes length count keys0 keys sorter (t :: rest))
    (hperm : PermOn t.firstKey (t.lastKey + 1) keys keys') {p q : ℕ} (hpq : p < q) (hq : q < count)
    (hnot : ∀ u ∈ rest, ¬(u.firstKey ≤ p ∧ q ≤ u.lastKey))
    (hout : ¬(t.firstKey ≤ p ∧ q ≤ t.lastKey)) :
    compare bytes (keys' p) (keys' q) 0 length ≠ .gt := by
  have hdisjoint : ∀ u ∈ rest, t.Disjoint u := (List.pairwise_cons.mp hp.disjoint).1
  have hmeet : ∀ u ∈ rest, ∀ x, t.firstKey ≤ x → x ≤ t.lastKey →
      ¬(u.firstKey ≤ x ∧ x ≤ u.lastKey) := by
    intro u hu x hx1 hx2 hux
    rcases hdisjoint u hu with h | h <;> omega
  have hold : ∀ p' q', p' < q' → q' < count → (p' = p ∨ t.firstKey ≤ p' ∧ p' ≤ t.lastKey) →
      (q' = q ∨ t.firstKey ≤ q' ∧ q' ≤ t.lastKey) →
      (p' = p ∧ q' = q ∨ ¬(t.firstKey ≤ p' ∧ q' ≤ t.lastKey)) →
      compare bytes (keys p') (keys q') 0 length ≠ .gt := by
    intro p' q' hpq' hq' hp' hq'' hnt
    refine hp.sorted p' q' hpq' hq' fun u hu hcover => ?_
    rcases List.mem_cons.mp hu with rfl | hu
    · rcases hnt with ⟨rfl, rfl⟩ | hnt
      · exact hout hcover
      · exact hnt hcover
    · rcases hp' with rfl | hp'
      · rcases hq'' with rfl | hq''
        · exact hnot u hu hcover
        · exact hmeet u hu q' hq''.1 hq''.2 ⟨by omega, hcover.2⟩
      · exact hmeet u hu p' hp'.1 hp'.2 ⟨hcover.1, by omega⟩
  by_cases hpt : t.firstKey ≤ p ∧ p ≤ t.lastKey
  · have hqt : t.lastKey < q := by omega
    obtain ⟨p', hp', hpp'⟩ := hperm.exists_eq (i := p) ⟨hpt.1, by omega⟩
    rw [hpp', hperm.eq_of_notMem (Or.inr (by omega))]
    exact hold p' q (by omega) hq (Or.inr ⟨hp'.1, by omega⟩) (Or.inl rfl) (Or.inr (by omega))
  · rw [hperm.eq_of_notMem (by omega)]
    by_cases hqt : t.firstKey ≤ q ∧ q ≤ t.lastKey
    · obtain ⟨q', hq', hqq'⟩ := hperm.exists_eq (i := q) ⟨hqt.1, by omega⟩
      rw [hqq']
      exact hold p q' (by omega) (by have := (hp.pending t List.mem_cons_self).lastKey_lt; omega)
        (Or.inl rfl) (Or.inr ⟨hq'.1, by omega⟩) (Or.inr (by omega))
    · rw [hperm.eq_of_notMem (by omega)]
      exact hold p q hpq hq (Or.inl rfl) (Or.inl rfl) (Or.inl ⟨rfl, rfl⟩)

/-- One pass of the main loop keeps its invariant and takes work off the stack:
the pass succeeds, since the tasks on the stack hold more than
`INSERTION_SORT_THRESHOLD` keys each and at most `count` together, so there is
always room for the stacked piles. -/
theorem SortProgress.step {endOfStack : ℕ} {keys0 : ℕ → κ} {sorter : RadixSorter}
    {rest : List Task} (hp : SortProgress bytes length count keys0 keys sorter (t :: rest))
    (hroom : count / insertionSortThreshold ≤ endOfStack) :
    ∃ sorter' keys' stack', sortTask bytes endOfStack sorter keys t rest =
        some (sorter', keys', .ok stack') ∧
      SortProgress bytes length count keys0 keys' sorter' stack' ∧
      stackWork stack' < stackWork (t :: rest) := by
  have hpend := hp.pending t List.mem_cons_self
  have hkeyCount : t.keyCount = t.lastKey + 1 - t.firstKey := rfl
  have hlarge := hpend.large
  simp only [insertionSortThreshold] at hlarge hroom
  have hkeys : t.firstKey ≤ t.lastKey := by omega
  obtain ⟨size, hsize⟩ : ∃ size, (measureBins bytes t keys sorter.bins).size = size := ⟨_, rfl⟩
  have ht : Tally bytes keys t.offset t.firstKey t.lastKey size
      (measureBins bytes t keys sorter.bins).last := by
    rw [← hsize]
    exact (measureBins_counts t keys hp.cleared hkeys).toTally hkeys
  set stacked := pileTasks t.firstKey size (t.offset + 1) (t.length - 1)
    (isStackedPile size (t.length - 1)) (List.range 256) with hstackedDef
  have hstacked : ∀ u ∈ stacked, ∃ b, isStackedPile size (t.length - 1) b = true ∧
      u = pileTask t.firstKey size (t.offset + 1) (t.length - 1) b := by
    intro u hu
    obtain ⟨b, hb, rfl⟩ := List.mem_map.mp hu
    exact ⟨b, (List.mem_filter.mp hb).2, rfl⟩
  have hsumStacked : (stacked.map Task.keyCount).sum ≤ t.lastKey + 1 - t.firstKey :=
    sum_keyCount_stacked_le ht
  have hlenStacked := mul_length_le_sum_keyCount stacked fun u hu => by
    obtain ⟨b, hb, rfl⟩ := hstacked u hu
    rw [keyCount_pileTask (size_ne_zero_of_stacked hb)]
    simp only [isStackedPile, Bool.and_eq_true, decide_eq_true_eq] at hb
    exact hb.2
  have hlenRest := mul_length_le_sum_keyCount rest fun u hu =>
    (hp.pending u (List.mem_cons_of_mem t hu)).large
  have hkeysLe := hp.keys_le
  simp only [List.map_cons, List.sum_cons] at hkeysLe
  simp only [insertionSortThreshold] at hlenStacked hlenRest
  have hfilter : ((List.range 256).filter (isStackedPile size (t.length - 1))).length =
      stacked.length := by
    rw [hstackedDef, pileTasks, List.length_map]
  obtain ⟨sorter', keys', heq, hcleared', hperm', hpiles', hlisted'⟩ :=
    @sortTask_spec κ bytes endOfStack sorter keys t rest size hp.cleared hkeys hsize (by omega)
  have hdisjoint : ∀ u ∈ rest, t.Disjoint u := (List.pairwise_cons.mp hp.disjoint).1
  have hwithin : ∀ u ∈ stacked, t.firstKey ≤ u.firstKey ∧ u.lastKey ≤ t.lastKey := by
    intro u hu
    obtain ⟨b, hb, rfl⟩ := hstacked u hu
    exact pileTask_within ht (size_ne_zero_of_stacked hb)
  refine ⟨sorter', keys', stacked.reverse ++ rest, heq, ⟨?perm, ?pending, ?disjoint, ?sorted,
    hcleared', ?keys_le⟩, ?work⟩
  case perm =>
    exact hp.perm.trans (hperm'.mono (Nat.zero_le _) (by have := hpend.lastKey_lt; omega))
  case pending =>
    intro u hu
    rcases List.mem_append.mp hu with hu | hu
    · obtain ⟨b, hb, rfl⟩ := hstacked u (List.mem_reverse.mp hu)
      exact hpend.of_stacked ht hperm' hpiles' hb
    · exact (hp.pending u (List.mem_cons_of_mem t hu)).of_disjoint (hdisjoint u hu) hperm'
  case disjoint =>
    refine List.pairwise_append.mpr ⟨pairwise_disjoint_reverse
      (pairwise_disjoint_pileTasks (fun b hb => size_ne_zero_of_stacked hb) 256),
      (List.pairwise_cons.mp hp.disjoint).2, fun u hu v hv => ?_⟩
    have hu' := hwithin u (List.mem_reverse.mp hu)
    rcases hdisjoint v hv with h | h
    · exact Or.inl (by omega)
    · exact Or.inr (by omega)
  case sorted =>
    intro p q hpq hq hnot
    by_cases hin : t.firstKey ≤ p ∧ q ≤ t.lastKey
    · refine compare_within_task ht hpend hperm' hpiles' hlisted' hin.1 hpq hin.2 ?_
      rintro ⟨hb, hbq⟩
      obtain ⟨hps, -⟩ := ht.pileOf_spec hin.1 (by omega)
      obtain ⟨-, hqe⟩ := ht.pileOf_spec (by omega) hin.2
      rw [← hbq, startOfPile_succ] at hqe
      refine hnot _ (List.mem_append_left rest (List.mem_reverse.mpr
        (pileTask_mem_pileTasks ht hb (size_ne_zero_of_stacked hb)))) ?_
      simp only [pileTask]
      omega
    · exact compare_across_task hp hperm' hpq hq (fun u hu => hnot u (List.mem_append_right _ hu))
        hin
  case keys_le =>
    simp only [List.map_append, List.sum_append, List.map_reverse, List.sum_reverse]
    omega
  case work =>
    obtain ⟨m, hm⟩ : ∃ m, t.length = m + 1 := ⟨t.length - 1, by have := hpend.length_pos; omega⟩
    have hpiles : (stacked.map fun u => u.keyCount * u.length) =
        stacked.map fun u => u.keyCount * m := by
      refine List.map_congr_left fun u hu => ?_
      obtain ⟨b, -, rfl⟩ := hstacked u hu
      simp only [pileTask, hm, Nat.add_sub_cancel]
    have hle : (stacked.map Task.keyCount).sum * m ≤ t.keyCount * m :=
      Nat.mul_le_mul_right m (by omega)
    simp only [stackWork, List.map_append, List.sum_append, List.map_reverse, List.sum_reverse,
      List.map_cons, List.sum_cons, hpiles, List.sum_map_mul_right, hm, Nat.mul_succ]
    omega

end Pass

/-! ## The main loop -/

section Loop

variable {length count : ℕ} {keys0 : ℕ → κ}

/-- The main loop, from a state that keeps its invariant and with more fuel than
the work on the stack, empties the stack and succeeds. -/
theorem radixSortLoop_spec {endOfStack : ℕ} (hroom : count / insertionSortThreshold ≤ endOfStack) :
    ∀ (fuel : ℕ) (sorter : RadixSorter) (keys : ℕ → κ) (stack : List Task),
      SortProgress bytes length count keys0 keys sorter stack → stackWork stack < fuel →
      ∃ sorter' keys', radixSortLoop bytes endOfStack fuel sorter keys stack =
          some (sorter', keys', .ok ()) ∧
        SortProgress bytes length count keys0 keys' sorter' []
  | 0, _, _, _, _, hfuel => absurd hfuel (Nat.not_lt_zero _)
  | fuel + 1, sorter, keys, [], hp, _ => ⟨sorter, keys, rfl, hp⟩
  | fuel + 1, sorter, keys, t :: rest, hp, hfuel => by
    obtain ⟨sorter', keys', stack', heq, hp', hwork⟩ := hp.step hroom
    obtain ⟨sorter'', keys'', hloop, hp''⟩ :=
      radixSortLoop_spec hroom fuel sorter' keys' stack' hp' (by omega)
    refine ⟨sorter'', keys'', ?_, hp''⟩
    rw [radixSortLoop, heq]
    exact hloop

/-- With the stack empty, the first `count` keys are in order. -/
theorem SortProgress.sortedOn {keys : ℕ → κ} {sorter : RadixSorter}
    (hp : SortProgress bytes length count keys0 keys sorter []) :
    SortedOn bytes 0 length 0 count keys :=
  fun p q _ hpq hq => hp.sorted p q hpq hq nofun

/-- The main loop starts from the invariant: one task of all the keys. -/
theorem SortProgress.start (keys : ℕ → κ) {sorter : RadixSorter} (hcleared : sorter.bins.Cleared)
    (hcount : insertionSortThreshold < count) (hlength : 0 < length) :
    SortProgress bytes length count keys keys sorter [⟨0, count - 1, 0, length⟩] where
  perm := PermOn.refl keys
  pending t ht := by
    rw [List.mem_singleton] at ht
    subst ht
    simp only [insertionSortThreshold] at hcount
    exact ⟨by dsimp only; omega, by simp only [Task.keyCount, insertionSortThreshold]; omega,
      Nat.zero_add length, hlength, fun _ _ _ _ _ _ i hi => absurd hi (Nat.not_lt_zero i)⟩
  disjoint := List.pairwise_singleton _ _
  sorted p q _ hq hnot := absurd ⟨Nat.zero_le p, by dsimp only; omega⟩ (hnot _ List.mem_cons_self)
  cleared := hcleared
  keys_le := by simp [Task.keyCount]; omega

end Loop

/-- `radixSort` sorts: with a cleared histogram, and a sorter made for at least
`count` keys where the keys are too many for one insertion sort, it returns
`UDS_SUCCESS` with the first `count` keys rearranged into order by their first
`length` bytes, and leaves the histogram cleared. -/
theorem radixSort_spec {sorter : RadixSorter} (keys : ℕ → κ) (count length : ℕ)
    (hcleared : sorter.bins.Cleared) (hcount : insertionSortThreshold < count → count ≤ sorter.count) :
    ∃ sorter' keys', radixSort bytes sorter keys count length = some (sorter', keys', .ok ()) ∧
      PermOn 0 count keys keys' ∧ SortedOn bytes 0 length 0 count keys' ∧ sorter'.bins.Cleared := by
  unfold radixSort
  by_cases hnone : count = 0 ∨ length = 0
  · refine ⟨sorter, keys, if_pos hnone, PermOn.refl keys, fun p q _ hpq hq => ?_, hcleared⟩
    rcases hnone with rfl | rfl
    · omega
    · simp [compare]
  rw [if_neg hnone]
  push Not at hnone
  dsimp only
  by_cases hsmall : count ≤ insertionSortThreshold
  · rw [if_pos hsmall]
    obtain ⟨hperm, hsorted⟩ := @insertionSort_spec κ bytes ⟨0, count - 1, 0, length⟩ keys
    dsimp only at hperm hsorted
    rw [Nat.sub_add_cancel (Nat.one_le_iff_ne_zero.mpr hnone.1)] at hperm hsorted
    exact ⟨sorter, _, rfl, hperm, hsorted, hcleared⟩
  · rw [if_neg hsmall, if_neg (not_lt.mpr (hcount (not_le.mp hsmall)))]
    have hroom : count / insertionSortThreshold ≤ sorter.stackSize :=
      Nat.div_le_div_right (hcount (not_le.mp hsmall))
    have hwork : stackWork [(⟨0, count - 1, 0, length⟩ : Task)] < count * length + 1 := by
      simp only [stackWork, Task.keyCount, List.map_cons, List.map_nil, List.sum_cons,
        List.sum_nil]
      rw [Nat.sub_add_cancel (Nat.one_le_iff_ne_zero.mpr hnone.1), Nat.sub_zero]
      omega
    obtain ⟨sorter', keys', hloop, hp⟩ := radixSortLoop_spec hroom (count * length + 1) sorter keys _
      (SortProgress.start keys hcleared (not_le.mp hsmall) (Nat.pos_of_ne_zero hnone.2)) hwork
    exact ⟨sorter', keys', hloop, hp.perm, hp.sortedOn, hp.cleared⟩

/-- A sorter made for `c` keys sorts any `count ≤ c` keys by any number of bytes:
`radixSort` returns `UDS_SUCCESS`, the first `count` keys rearranged into order,
and the histogram zero again. -/
theorem radixSort_makeRadixSorter {c count : ℕ} (hcount : count ≤ c) (keys : ℕ → κ) (length : ℕ) :
    ∃ sorter' keys', radixSort bytes (makeRadixSorter c) keys count length =
        some (sorter', keys', .ok ()) ∧
      PermOn 0 count keys keys' ∧ SortedOn bytes 0 length 0 count keys' ∧
      sorter'.bins.used = 0 ∧ ∀ b, sorter'.bins.size b = 0 := by
  obtain ⟨sorter', keys', hsort, hperm, hsorted, hcleared⟩ :=
    @radixSort_spec κ bytes (makeRadixSorter c) keys count length Histogram.zero_cleared
      fun _ => hcount
  exact ⟨sorter', keys', hsort, hperm, hsorted, hcleared.1, hcleared.2⟩

/-- Sixteen keys of two bytes, more than one insertion sort takes, key `k`
holding bytes `7k mod 5` and `(7k + 3) mod 5`: the sort runs the
American-flag passes. -/
theorem radixSort_makeRadixSorter_sixteen_keys :
    16 ≤ 16 ∧
      (radixSort (fun k i => UInt8.ofNat ((k * 7 + i * 3) % 5)) (makeRadixSorter 16) (fun k => k) 16 2).map
          (fun result => (List.range 16).map result.2.1) =
        some [10, 5, 15, 0, 13, 8, 3, 1, 11, 6, 4, 14, 9, 7, 2, 12] ∧
      ∃ sorter' keys', radixSort (fun k i => UInt8.ofNat ((k * 7 + i * 3) % 5)) (makeRadixSorter 16)
          (fun k => k) 16 2 = some (sorter', keys', .ok ()) ∧
        PermOn 0 16 (fun k => k) keys' ∧ SortedOn (fun k i => UInt8.ofNat ((k * 7 + i * 3) % 5)) 0 2 0 16 keys' ∧
        sorter'.bins.used = 0 ∧ ∀ b, sorter'.bins.size b = 0 :=
  ⟨le_rfl, by decide +kernel, radixSort_makeRadixSorter le_rfl (fun k => k) 2⟩

end RadixSort

end Vdo.Uds
