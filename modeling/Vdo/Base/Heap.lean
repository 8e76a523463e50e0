import Mathlib
import Vdo.Lib.BinaryHeap

/-!
# The heap of `heap.c`

A `Heap` keeps `count` elements of `elementSize` bytes in an array whose pointer
is moved one element back, so that byte offsets count elements from one: node
`k` is at offset `k * elementSize` and its children at twice that offset and one
element further. Elements are modelled whole, each at the offset it starts at;
every offset the code reads or writes is such a start.

On offsets that are multiples of `elementSize`, `siftHeapDown` does what the
one-based `BinaryHeap.siftDown` does on the nodes (`nodes_siftHeapDown`), and so
do the loops of `buildHeap`, `sortHeap` and the steps of `popMaxHeapElement` and
`sortNextHeapElement`. For every comparator that orders as a total preorder
(`atLeast`), `buildHeap` therefore builds a max-heap of the nodes, the root
`popMaxHeapElement` returns is at least every element, `sortHeap` sorts the
elements in place, and repeated `sortNextHeapElement` calls return them largest
first (`heap_operations_correct`).
-/

namespace Vdo

/-- A `Heap`: its comparator, the array of its elements by byte offset from the
moved pointer, and its sizes. -/
structure Heap (α : Type*) where
  /-- The comparator, less than, equal to or greater than zero as its first
  argument is less than, equal to or greater than its second. -/
  comparator : α → α → ℤ
  /-- The elements by the byte offset they start at. -/
  array : ℕ → α
  /-- The maximum number of elements. -/
  capacity : ℕ
  /-- The size of every element in bytes. -/
  elementSize : ℕ
  /-- The number of elements in the heap. -/
  count : ℕ

namespace Heap

variable {α : Type*}

/-- `initializeHeap` over the caller's `array`, given by the byte offsets of its
elements: the heap's array starts one element earlier. -/
def initializeHeap (comparator : α → α → ℤ) (array : ℕ → α) (capacity elementSize : ℕ) :
    Heap α where
  comparator := comparator
  array := fun offset => array (offset - elementSize)
  capacity := capacity
  elementSize := elementSize
  count := 0

/-- `swapElements`. -/
def swapElements (heap : Heap α) (node1 node2 : ℕ) : Heap α :=
  { heap with array := BinaryHeap.swapAt heap.array node1 node2 }

/-- The `swapNode` of `siftHeapDown` at `topNode`: of the children at
`leftChild = 2 * topNode` and one element further, the right one when it is in
the heap and the left one compares less, else the left one. -/
def swapNode (heap : Heap α) (topNode lastNode : ℕ) : ℕ :=
  let leftChild := 2 * topNode
  if leftChild < lastNode ∧
      heap.comparator (heap.array leftChild) (heap.array (leftChild + heap.elementSize)) < 0
  then leftChild + heap.elementSize else leftChild

/-- `siftHeapDown`: swap the element at `topNode` with its larger child while
that child is larger. The code loops for ever where the model stops without a
child past `topNode`, which only an element less than itself can reach. -/
def siftHeapDown (heap : Heap α) (topNode lastNode : ℕ) : Heap α :=
  if 2 * topNode ≤ lastNode then
    if heap.comparator (heap.array topNode) (heap.array (heap.swapNode topNode lastNode)) ≥ 0 then
      heap
    else if topNode < heap.swapNode topNode lastNode then
      (heap.swapElements topNode (heap.swapNode topNode lastNode)).siftHeapDown
        (heap.swapNode topNode lastNode) lastNode
    else heap
  else heap
termination_by lastNode + 1 - topNode

/-- The loop of `buildHeap`: sift down from `topNode` and every parent before
it. `buildHeap` returns before the loop when `elementSize` is `0`. -/
def siftParents (heap : Heap α) (topNode lastNode : ℕ) : Heap α :=
  if 0 < topNode ∧ 0 < heap.elementSize then
    (heap.siftHeapDown topNode lastNode).siftParents (topNode - heap.elementSize) lastNode
  else heap
termination_by topNode

/-- `buildHeap`. -/
def buildHeap (heap : Heap α) (count : ℕ) : Heap α :=
  let heap := { heap with count := min count heap.capacity }
  if heap.count < 2 ∨ heap.elementSize = 0 then heap
  else
    let size := heap.elementSize
    let lastParent := size * (heap.count / 2)
    let lastNode := size * heap.count
    heap.siftParents lastParent lastNode

/-- `popMaxHeapElement`: the root, if the heap has an element, with the last
element moved to the root and sifted down. -/
def popMaxHeapElement (heap : Heap α) : Heap α × Option α :=
  if heap.count = 0 then (heap, none)
  else
    let rootNode := heap.elementSize * 1
    let lastNode := heap.elementSize * heap.count
    let element := heap.array rootNode
    let heap := if rootNode ≠ lastNode then
        { heap with array := Function.update heap.array rootNode (heap.array lastNode) }
      else heap
    let heap := { heap with count := heap.count - 1 }
    (heap.siftHeapDown rootNode (lastNode - heap.elementSize), some element)

/-- `siftAndSort`: the root swapped with the last node, which leaves the heap,
and the new root sifted down; with the new last node. -/
def siftAndSort (heap : Heap α) (rootNode lastNode : ℕ) : Heap α × ℕ :=
  let heap := heap.swapElements rootNode lastNode
  let lastNode := lastNode - heap.elementSize
  (heap.siftHeapDown rootNode lastNode, lastNode)

/-- The loop of `sortHeap`. `sortHeap` returns before it when `elementSize` is
`0`. -/
def sortHeapLoop (heap : Heap α) (rootNode lastNode : ℕ) : Heap α :=
  if rootNode < lastNode ∧ 0 < heap.elementSize then
    (heap.siftAndSort rootNode lastNode).1.sortHeapLoop rootNode (heap.siftAndSort rootNode lastNode).2
  else heap
termination_by lastNode
decreasing_by
  simp only [siftAndSort, swapElements]
  omega

/-- `sortHeap`: the sorted array, with the heap emptied, and the number of
elements sorted. -/
def sortHeap (heap : Heap α) : Heap α × ℕ :=
  if heap.count < 2 ∨ heap.elementSize = 0 then (heap, heap.count)
  else
    let rootNode := heap.elementSize * 1
    let lastNode := heap.elementSize * heap.count
    let heap' := heap.sortHeapLoop rootNode lastNode
    ({ heap' with count := 0 }, heap.count)

/-- `sortNextHeapElement`: the root moved past the heap, which shrinks by one,
and returned; `none` is `NULL`. -/
def sortNextHeapElement (heap : Heap α) : Heap α × Option α :=
  if heap.count = 0 ∨ heap.elementSize = 0 then (heap, none)
  else
    let rootNode := heap.elementSize * 1
    let lastNode := heap.elementSize * heap.count
    let heap := if heap.count > 1 then (heap.siftAndSort rootNode lastNode).1 else heap
    let heap := { heap with count := heap.count - 1 }
    (heap, some (heap.array lastNode))

/-- `k` calls of `sortNextHeapElement` in a row, with what each returns. -/
def sortNextHeapElements (heap : Heap α) : ℕ → Heap α × List (Option α)
  | 0 => (heap, [])
  | k + 1 =>
    let (heap', element) := heap.sortNextHeapElement
    let (heap'', elements) := heap'.sortNextHeapElements k
    (heap'', element :: elements)

/-! ## Nodes and their order -/

/-- The element at node `k`, counted from one. -/
def nodes (heap : Heap α) (k : ℕ) : α := heap.array (k * heap.elementSize)

/-- The order a comparator stands for: `x` is at least `y`. -/
def atLeast (comparator : α → α → ℤ) (x y : α) : Prop := 0 ≤ comparator x y

instance (comparator : α → α → ℤ) : DecidableRel (atLeast comparator) :=
  fun x y => inferInstanceAs (Decidable (0 ≤ comparator x y))

/-! ## Byte offsets as nodes -/

section Offsets

variable {s : ℕ}

/-- Swapping two nodes' offsets swaps the nodes. -/
theorem swapAt_mul (a : ℕ → α) (hs : 0 < s) (i j k : ℕ) :
    BinaryHeap.swapAt a (i * s) (j * s) (k * s) = BinaryHeap.swapAt (fun k => a (k * s)) i j k := by
  by_cases hki : k = i
  · rw [hki, BinaryHeap.swapAt_left, BinaryHeap.swapAt_left]
  · by_cases hkj : k = j
    · rw [hkj, BinaryHeap.swapAt_right, BinaryHeap.swapAt_right]
    · have hki' : k * s ≠ i * s := fun h => hki (Nat.eq_of_mul_eq_mul_right hs h)
      have hkj' : k * s ≠ j * s := fun h => hkj (Nat.eq_of_mul_eq_mul_right hs h)
      rw [BinaryHeap.swapAt_of_ne a hki' hkj', BinaryHeap.swapAt_of_ne _ hki hkj]

end Offsets

/-! ## Frames: the steps change the array only -/

@[simp] theorem swapElements_comparator (heap : Heap α) (i j : ℕ) :
    (heap.swapElements i j).comparator = heap.comparator := rfl

@[simp] theorem swapElements_elementSize (heap : Heap α) (i j : ℕ) :
    (heap.swapElements i j).elementSize = heap.elementSize := rfl

@[simp] theorem swapElements_count (heap : Heap α) (i j : ℕ) :
    (heap.swapElements i j).count = heap.count := rfl

@[simp] theorem swapElements_capacity (heap : Heap α) (i j : ℕ) :
    (heap.swapElements i j).capacity = heap.capacity := rfl

theorem nodes_swapElements (heap : Heap α) (hs : 0 < heap.elementSize) (i j : ℕ) :
    (heap.swapElements (i * heap.elementSize) (j * heap.elementSize)).nodes =
      BinaryHeap.swapAt heap.nodes i j :=
  funext fun k => swapAt_mul heap.array hs i j k

/-- Sifting changes the array only. -/
theorem siftHeapDown_eq (heap : Heap α) (topNode lastNode : ℕ) :
    heap.siftHeapDown topNode lastNode =
      { heap with array := (heap.siftHeapDown topNode lastNode).array } := by
  fun_induction heap.siftHeapDown topNode lastNode with
  | case2 heap topNode _ _ _ ih =>
    rw [ih]
    rfl
  | _ => rfl

@[simp] theorem siftHeapDown_comparator (heap : Heap α) (topNode lastNode : ℕ) :
    (heap.siftHeapDown topNode lastNode).comparator = heap.comparator := by
  rw [siftHeapDown_eq]

@[simp] theorem siftHeapDown_elementSize (heap : Heap α) (topNode lastNode : ℕ) :
    (heap.siftHeapDown topNode lastNode).elementSize = heap.elementSize := by
  rw [siftHeapDown_eq]

@[simp] theorem siftHeapDown_count (heap : Heap α) (topNode lastNode : ℕ) :
    (heap.siftHeapDown topNode lastNode).count = heap.count := by
  rw [siftHeapDown_eq]

@[simp] theorem siftHeapDown_capacity (heap : Heap α) (topNode lastNode : ℕ) :
    (heap.siftHeapDown topNode lastNode).capacity = heap.capacity := by
  rw [siftHeapDown_eq]

/-! ## The sift on nodes -/

section Nodes

variable (heap : Heap α)

/-- On node offsets the child `siftHeapDown` swaps with is the one `maxChild`
picks. -/
theorem swapNode_mul (hs : 0 < heap.elementSize) (k n : ℕ) :
    heap.swapNode (k * heap.elementSize) (n * heap.elementSize) =
      BinaryHeap.maxChild (atLeast heap.comparator) heap.nodes n k * heap.elementSize := by
  have hleft : 2 * (k * heap.elementSize) = 2 * k * heap.elementSize := by ring
  have hright : 2 * k * heap.elementSize + heap.elementSize = (2 * k + 1) * heap.elementSize := by
    ring
  unfold swapNode BinaryHeap.maxChild
  simp only [hleft, hright, Nat.mul_lt_mul_right hs, nodes, atLeast, not_le]
  split_ifs <;> rfl

end Nodes

/-- On node offsets `siftHeapDown` is `siftDown` on the nodes. -/
theorem nodes_siftHeapDown (heap : Heap α) (hs : 0 < heap.elementSize) (n : ℕ) {k : ℕ}
    (hk : 0 < k) :
    (heap.siftHeapDown (k * heap.elementSize) (n * heap.elementSize)).nodes =
      BinaryHeap.siftDown (atLeast heap.comparator) heap.nodes n k := by
  have hchild := BinaryHeap.maxChild_eq (r := atLeast heap.comparator) heap.nodes n k
  rw [siftHeapDown, BinaryHeap.siftDown, swapNode_mul heap hs]
  by_cases hc : 2 * k ≤ n
  · have hc' : 2 * (k * heap.elementSize) ≤ n * heap.elementSize := by
      rw [← Nat.mul_assoc]
      exact Nat.mul_le_mul_right _ hc
    rw [if_pos hc', dif_pos ⟨hk, hc⟩]
    by_cases hstop : atLeast heap.comparator (heap.nodes k)
        (heap.nodes (BinaryHeap.maxChild (atLeast heap.comparator) heap.nodes n k))
    · have hstop' : heap.comparator (heap.array (k * heap.elementSize)) (heap.array
          (BinaryHeap.maxChild (atLeast heap.comparator) heap.nodes n k * heap.elementSize)) ≥ 0 :=
        hstop
      rw [if_pos hstop', if_pos hstop]
    · have hstop' : ¬heap.comparator (heap.array (k * heap.elementSize)) (heap.array
          (BinaryHeap.maxChild (atLeast heap.comparator) heap.nodes n k * heap.elementSize)) ≥ 0 :=
        hstop
      have hlt : k * heap.elementSize <
          BinaryHeap.maxChild (atLeast heap.comparator) heap.nodes n k * heap.elementSize :=
        Nat.mul_lt_mul_of_pos_right (by omega) hs
      rw [if_neg hstop', if_neg hstop, if_pos hlt, ← nodes_swapElements heap hs]
      exact nodes_siftHeapDown (heap.swapElements (k * heap.elementSize)
        (BinaryHeap.maxChild (atLeast heap.comparator) heap.nodes n k * heap.elementSize)) hs n
        (by omega)
  · have hc' : ¬2 * (k * heap.elementSize) ≤ n * heap.elementSize := by
      rw [← Nat.mul_assoc]
      exact fun h => hc (Nat.le_of_mul_le_mul_right h hs)
    rw [if_neg hc', dif_neg fun h => hc h.2]
termination_by n + 1 - k
decreasing_by
  have hchild := BinaryHeap.maxChild_eq (r := atLeast heap.comparator) heap.nodes n k
  omega

/-- Building changes the array only. -/
theorem siftParents_eq (heap : Heap α) (topNode lastNode : ℕ) :
    heap.siftParents topNode lastNode =
      { heap with array := (heap.siftParents topNode lastNode).array } := by
  fun_induction heap.siftParents topNode lastNode with
  | case1 heap topNode _ ih =>
    rw [ih, siftHeapDown_eq]
  | case2 => rfl

/-- The loop of `buildHeap` from node `k` is `heapify` from `k`. -/
theorem nodes_siftParents (heap : Heap α) (hs : 0 < heap.elementSize) (n k : ℕ) :
    (heap.siftParents (k * heap.elementSize) (n * heap.elementSize)).nodes =
      BinaryHeap.heapify (atLeast heap.comparator) heap.nodes n k := by
  induction k generalizing heap with
  | zero =>
    rw [siftParents, if_neg (by simp)]
    rfl
  | succ k ih =>
    have hnext : (k + 1) * heap.elementSize - heap.elementSize = k * heap.elementSize := by
      rw [Nat.succ_mul, Nat.add_sub_cancel]
    rw [siftParents, if_pos ⟨Nat.mul_pos (by omega) hs, hs⟩, hnext, BinaryHeap.heapify,
      ← nodes_siftHeapDown heap hs n (by omega)]
    have h := ih (heap.siftHeapDown ((k + 1) * heap.elementSize) (n * heap.elementSize))
      (by rw [siftHeapDown_elementSize]; exact hs)
    rw [siftHeapDown_elementSize, siftHeapDown_comparator] at h
    exact h

/-- `buildHeap` of `count` elements, at most the capacity, keeps the elements
and puts them in heap order. -/
theorem buildHeap_spec (heap : Heap α) [Std.Total (atLeast heap.comparator)]
    [IsTrans α (atLeast heap.comparator)] (hs : 0 < heap.elementSize) {count : ℕ} (hcount : count ≤ heap.capacity) :
    (heap.buildHeap count).count = count ∧ (heap.buildHeap count).comparator = heap.comparator ∧
      (heap.buildHeap count).elementSize = heap.elementSize ∧
      BinaryHeap.IsHeap (atLeast heap.comparator) (heap.buildHeap count).nodes count ∧
      SegmentSort.PermOn 1 (count + 1) heap.nodes (heap.buildHeap count).nodes := by
  have hmin : min count heap.capacity = count := Nat.min_eq_left hcount
  unfold buildHeap
  simp only [hmin]
  split_ifs with hsmall
  · refine ⟨rfl, rfl, rfl, fun i hi hin _ => ?_, SegmentSort.PermOn.refl _⟩
    rcases hsmall with h | h <;> omega
  · have hlast : heap.elementSize * (count / 2) = count / 2 * heap.elementSize := Nat.mul_comm _ _
    have hnode : heap.elementSize * count = count * heap.elementSize := Nat.mul_comm _ _
    have hframe := siftParents_eq { heap with count := count } (count / 2 * heap.elementSize)
      (count * heap.elementSize)
    have hnodes := nodes_siftParents { heap with count := count } hs count (count / 2)
    dsimp only at hnodes
    rw [hlast, hnode]
    refine ⟨by rw [hframe], by rw [hframe], by rw [hframe], ?_, ?_⟩
    · rw [hnodes]
      exact BinaryHeap.heapify_isHeap _ (BinaryHeap.heapFrom_of_half_lt _ (by omega))
    · rw [hnodes]
      exact BinaryHeap.heapify_permOn _ _ _

/-- Writing an element at a node's offset writes the node. -/
theorem nodes_update (heap : Heap α) (hs : 0 < heap.elementSize) (k : ℕ) (x : α) :
    ({ heap with array := Function.update heap.array (k * heap.elementSize) x } : Heap α).nodes =
      Function.update heap.nodes k x := by
  funext i
  by_cases hik : i = k
  · rw [hik, Function.update_self]
    exact Function.update_self _ _ _
  · rw [Function.update_of_ne hik]
    exact Function.update_of_ne (fun h => hik (Nat.eq_of_mul_eq_mul_right hs h)) _ _

/-- `popMaxHeapElement` of a heap returns its root, which is at least every
element, and leaves the others in heap order. -/
theorem popMaxHeapElement_spec (heap : Heap α) [Std.Total (atLeast heap.comparator)]
    [IsTrans α (atLeast heap.comparator)] (hs : 0 < heap.elementSize)
    (hheap : BinaryHeap.IsHeap (atLeast heap.comparator) heap.nodes heap.count)
    (hcount : 0 < heap.count) :
    ∃ heap', heap.popMaxHeapElement = (heap', some (heap.nodes 1)) ∧
      (∀ i, 1 ≤ i → i ≤ heap.count → atLeast heap.comparator (heap.nodes 1) (heap.nodes i)) ∧
      heap'.count = heap.count - 1 ∧ heap'.comparator = heap.comparator ∧
      heap'.elementSize = heap.elementSize ∧
      BinaryHeap.IsHeap (atLeast heap.comparator) heap'.nodes heap'.count ∧
      SegmentSort.PermOn 1 heap.count (Function.update heap.nodes 1 (heap.nodes heap.count))
        heap'.nodes := by
  set moved : Heap α :=
    { heap with
      array := Function.update heap.array (1 * heap.elementSize) (heap.nodes heap.count)
      count := heap.count - 1 } with hmoved
  have hmovedNodes : moved.nodes = Function.update heap.nodes 1 (heap.nodes heap.count) :=
    nodes_update heap hs 1 _
  have hpop : heap.popMaxHeapElement =
      (moved.siftHeapDown (1 * heap.elementSize) ((heap.count - 1) * heap.elementSize),
        some (heap.nodes 1)) := by
    have hlast : heap.elementSize * heap.count - heap.elementSize =
        (heap.count - 1) * heap.elementSize := by
      rw [Nat.mul_comm, Nat.sub_one_mul]
    have hroot : heap.array heap.elementSize = heap.nodes 1 := by rw [nodes, Nat.one_mul]
    have hlastNode : heap.array (heap.elementSize * heap.count) = heap.nodes heap.count := by
      rw [nodes, Nat.mul_comm]
    simp only [popMaxHeapElement, Nat.pos_iff_ne_zero.mp hcount, if_false, Nat.mul_one, hroot,
      hlastNode]
    split_ifs with hne
    · simp only [hlast, hmoved, Nat.one_mul]
    · have hone : heap.count = 1 := by
        by_contra h
        exact hne fun heq => h (Nat.eq_of_mul_eq_mul_left hs (by rw [Nat.mul_one]; exact heq)).symm
      have hsame : moved = { heap with count := heap.count - 1 } := by
        rw [hmoved, hone, Nat.one_mul, ← hroot, Function.update_eq_self]
      simp only [hlast, hsame, Nat.one_mul]
  have hsift := nodes_siftHeapDown moved hs (heap.count - 1) (k := 1) (by omega)
  refine ⟨_, hpop, fun i hi hin => hheap.root_ge hi hin, by rw [siftHeapDown_count],
    by rw [siftHeapDown_comparator], by rw [siftHeapDown_elementSize], ?_, ?_⟩
  · rw [siftHeapDown_count, hsift, hmovedNodes]
    exact BinaryHeap.siftDown_heapFrom (by omega)
      (BinaryHeap.Sifting.start hheap.heapFrom_two_update)
  · have hperm := BinaryHeap.siftDown_permOn (r := atLeast heap.comparator) (c := 1)
      (Function.update heap.nodes 1 (heap.nodes heap.count)) (heap.count - 1)
    rw [Nat.sub_add_cancel hcount] at hperm
    rw [hsift, hmovedNodes]
    exact hperm

/-- `siftAndSort` on node offsets: the root swapped with node `m + 1`, then
sifted down over the first `m` nodes. -/
theorem siftAndSort_mul (heap : Heap α) (m : ℕ) :
    heap.siftAndSort (1 * heap.elementSize) ((m + 1) * heap.elementSize) =
      ((heap.swapElements (1 * heap.elementSize) ((m + 1) * heap.elementSize)).siftHeapDown
        (1 * heap.elementSize) (m * heap.elementSize), m * heap.elementSize) := by
  have hlast : (m + 1) * heap.elementSize - heap.elementSize = m * heap.elementSize := by
    rw [Nat.succ_mul, Nat.add_sub_cancel]
  simp only [siftAndSort, swapElements_elementSize, hlast]

theorem nodes_siftAndSort (heap : Heap α) (hs : 0 < heap.elementSize) (m : ℕ) :
    (heap.siftAndSort (1 * heap.elementSize) ((m + 1) * heap.elementSize)).1.nodes =
      BinaryHeap.siftDown (atLeast heap.comparator) (BinaryHeap.swapAt heap.nodes 1 (m + 1)) m 1 := by
  rw [siftAndSort_mul heap, ← nodes_swapElements heap hs]
  exact nodes_siftHeapDown (heap.swapElements (1 * heap.elementSize) ((m + 1) * heap.elementSize))
    hs m (by omega)

theorem siftAndSort_fst_eq (heap : Heap α) (rootNode lastNode : ℕ) :
    (heap.siftAndSort rootNode lastNode).1 =
      { heap with array := (heap.siftAndSort rootNode lastNode).1.array } := by
  simp only [siftAndSort]
  rw [siftHeapDown_eq]
  rfl

/-- Sorting changes the array only. -/
theorem sortHeapLoop_eq (heap : Heap α) (rootNode lastNode : ℕ) :
    heap.sortHeapLoop rootNode lastNode =
      { heap with array := (heap.sortHeapLoop rootNode lastNode).array } := by
  fun_induction heap.sortHeapLoop rootNode lastNode with
  | case1 heap lastNode _ ih =>
    rw [ih, siftAndSort_fst_eq heap]
  | case2 => rfl

/-- The loop of `sortHeap` from node `m` is `sortLoop` from `m`. -/
theorem nodes_sortHeapLoop (heap : Heap α) (hs : 0 < heap.elementSize) (m : ℕ) :
    (heap.sortHeapLoop (1 * heap.elementSize) (m * heap.elementSize)).nodes =
      BinaryHeap.sortLoop (atLeast heap.comparator) heap.nodes m := by
  induction m using Nat.strong_induction_on generalizing heap with
  | _ m ih =>
    rcases m with _ | _ | m
    · rw [sortHeapLoop, if_neg (by simp)]
      rfl
    · rw [sortHeapLoop, if_neg (by simp)]
      rfl
    · have hlt : 1 * heap.elementSize < (m + 2) * heap.elementSize :=
        Nat.mul_lt_mul_of_pos_right (by omega) hs
      rw [sortHeapLoop, if_pos ⟨hlt, hs⟩, BinaryHeap.sortLoop, ← nodes_siftAndSort heap hs (m + 1),
        siftAndSort_mul heap (m + 1)]
      have h := ih (m + 1) (by omega)
        ((heap.swapElements (1 * heap.elementSize) ((m + 1 + 1) * heap.elementSize)).siftHeapDown
          (1 * heap.elementSize) ((m + 1) * heap.elementSize)) (by simpa using hs)
      rw [siftHeapDown_elementSize, siftHeapDown_comparator] at h
      exact h

/-- `sortHeap` of a heap sorts its elements in place, in non-decreasing order,
and empties the heap. -/
theorem sortHeap_spec (heap : Heap α) [Std.Total (atLeast heap.comparator)]
    [IsTrans α (atLeast heap.comparator)] (hs : 0 < heap.elementSize)
    (hheap : BinaryHeap.IsHeap (atLeast heap.comparator) heap.nodes heap.count) :
    heap.sortHeap.2 = heap.count ∧
      BinaryHeap.SortedAbove (atLeast heap.comparator) heap.sortHeap.1.nodes 0 heap.count ∧
      SegmentSort.PermOn 1 (heap.count + 1) heap.nodes heap.sortHeap.1.nodes := by
  unfold sortHeap
  split_ifs with hsmall
  · refine ⟨rfl, fun i j hi hij hj _ => ?_, SegmentSort.PermOn.refl _⟩
    rcases hsmall with h | h <;> omega
  · have hroot : heap.elementSize * 1 = 1 * heap.elementSize := Nat.mul_comm _ _
    have hlast : heap.elementSize * heap.count = heap.count * heap.elementSize := Nat.mul_comm _ _
    have hnodes : ({ heap.sortHeapLoop (1 * heap.elementSize) (heap.count * heap.elementSize) with
        count := 0 } : Heap α).nodes = BinaryHeap.sortLoop (atLeast heap.comparator) heap.nodes heap.count := by
      rw [← nodes_sortHeapLoop heap hs heap.count, sortHeapLoop_eq]
      rfl
    rw [hroot, hlast]
    refine ⟨rfl, ?_, ?_⟩
    · rw [hnodes]
      exact BinaryHeap.sortLoop_sorted hheap fun i j _ _ hj hlt => absurd hj (by omega)
    · rw [hnodes]
      exact BinaryHeap.sortLoop_permOn _ le_rfl

@[simp] theorem siftAndSort_fst_comparator (heap : Heap α) (rootNode lastNode : ℕ) :
    (heap.siftAndSort rootNode lastNode).1.comparator = heap.comparator := by
  rw [siftAndSort_fst_eq]

@[simp] theorem siftAndSort_fst_elementSize (heap : Heap α) (rootNode lastNode : ℕ) :
    (heap.siftAndSort rootNode lastNode).1.elementSize = heap.elementSize := by
  rw [siftAndSort_fst_eq]

@[simp] theorem siftAndSort_fst_count (heap : Heap α) (rootNode lastNode : ℕ) :
    (heap.siftAndSort rootNode lastNode).1.count = heap.count := by
  rw [siftAndSort_fst_eq]

/-- `sortNextHeapElement` of a heap returns its root, moved past the heap,
which shrinks by one and stays in heap order. -/
theorem sortNextHeapElement_spec (heap : Heap α) [Std.Total (atLeast heap.comparator)]
    [IsTrans α (atLeast heap.comparator)] (hs : 0 < heap.elementSize)
    (hheap : BinaryHeap.IsHeap (atLeast heap.comparator) heap.nodes heap.count)
    (hcount : 0 < heap.count) :
    ∃ heap', heap.sortNextHeapElement = (heap', some (heap.nodes 1)) ∧
      heap'.count = heap.count - 1 ∧ heap'.comparator = heap.comparator ∧
      heap'.elementSize = heap.elementSize ∧
      BinaryHeap.IsHeap (atLeast heap.comparator) heap'.nodes heap'.count ∧
      SegmentSort.PermOn 1 (heap.count + 1) heap.nodes heap'.nodes ∧ heap'.nodes heap.count = heap.nodes 1 := by
  have hne0 : heap.count ≠ 0 := by omega
  have hs0 : heap.elementSize ≠ 0 := by omega
  by_cases hone : heap.count = 1
  · refine ⟨{ heap with count := heap.count - 1 }, ?_, rfl, rfl, rfl, fun i hi hin _ => ?_,
      SegmentSort.PermOn.refl _, by rw [hone]; rfl⟩
    · simp only [sortNextHeapElement, hone, hs0, Nat.one_ne_zero, or_false, if_false,
        Nat.lt_irrefl, Nat.mul_one, nodes, Nat.one_mul]
    · simp only [hone] at hin
      omega
  · obtain ⟨m, hm⟩ : ∃ m, heap.count = m + 2 := ⟨heap.count - 2, by omega⟩
    set heap1 := (heap.siftAndSort (1 * heap.elementSize) ((m + 1 + 1) * heap.elementSize)).1
      with hheap1
    have hnodes : heap1.nodes = BinaryHeap.siftDown (atLeast heap.comparator)
        (BinaryHeap.swapAt heap.nodes 1 (m + 2)) (m + 1) 1 :=
      nodes_siftAndSort heap hs (m + 1)
    have hperm := BinaryHeap.siftDown_permOn (r := atLeast heap.comparator) (c := 1)
      (BinaryHeap.swapAt heap.nodes 1 (m + 2)) (m + 1)
    have hreturned : heap1.nodes (m + 2) = heap.nodes 1 := by
      rw [hnodes, hperm.eq_of_notMem (Or.inr le_rfl), BinaryHeap.swapAt_right]
    have hstep : heap.sortNextHeapElement =
        ({ heap1 with count := heap1.count - 1 }, some (heap1.nodes (m + 2))) := by
      have hroot : heap.elementSize * 1 = 1 * heap.elementSize := Nat.mul_comm _ _
      have hlast : heap.elementSize * heap.count = (m + 1 + 1) * heap.elementSize := by
        rw [hm, Nat.mul_comm]
      simp only [sortNextHeapElement, hne0, hs0, or_self, if_false, hroot, hlast,
        show heap.count > 1 by omega, if_true, nodes, hheap1, siftAndSort_fst_elementSize]
    refine ⟨_, hstep.trans (by rw [hreturned]), by simp [hheap1, hm], by simp [hheap1],
      by simp [hheap1], ?_, ?_, by rw [hm]; exact hreturned⟩
    · have hcount1 : heap1.count - 1 = m + 1 := by simp [hheap1, hm]
      show BinaryHeap.IsHeap _ heap1.nodes (heap1.count - 1)
      rw [hnodes, hcount1]
      exact (hm ▸ hheap).siftDown_swap_last
    · show SegmentSort.PermOn 1 (heap.count + 1) heap.nodes heap1.nodes
      rw [hnodes, hm]
      exact (SegmentSort.PermOn.swap (by omega) (by omega)).trans (hperm.mono le_rfl (by omega))

/-- Repeated `sortNextHeapElement` calls on a heap return its elements from the
largest down, the root first, and `NULL` once it is empty. -/
theorem sortNextHeapElements_spec (comparator : α → α → ℤ) [Std.Total (atLeast comparator)]
    [IsTrans α (atLeast comparator)] {n : ℕ} (heap : Heap α) (hcmp : heap.comparator = comparator)
    (hs : 0 < heap.elementSize) (hn : heap.count = n)
    (hheap : BinaryHeap.IsHeap (atLeast comparator) heap.nodes n) :
    ∃ elements : List α, (heap.sortNextHeapElements n).2 = elements.map some ∧
      elements.length = n ∧ elements.IsChain (atLeast comparator) ∧
      elements.Perm ((List.range' 1 n).map heap.nodes) ∧
      elements.head? = (if n = 0 then none else some (heap.nodes 1)) ∧
      ((heap.sortNextHeapElements n).1.sortNextHeapElement).2 = none := by
  induction n generalizing heap with
  | zero =>
    refine ⟨[], rfl, rfl, List.isChain_nil, List.Perm.nil, rfl, ?_⟩
    simp [sortNextHeapElements, sortNextHeapElement, hn]
  | succ m ih =>
    subst hcmp
    obtain ⟨heap', hstep, hcount', hcmp', hsize', hheap', hperm, hlast⟩ :=
      sortNextHeapElement_spec heap hs (hn ▸ hheap) (by omega)
    rw [hn] at hcount' hperm hlast
    rw [hcount'] at hheap'
    obtain ⟨elements, hmap, hlength, hchain, hcontent, hhead, hnone⟩ :=
      ih heap' hcmp' (hsize' ▸ hs) (by simpa using hcount') (by simpa using hheap')
    have hrun : heap.sortNextHeapElements (m + 1) =
        ((heap'.sortNextHeapElements m).1, some (heap.nodes 1) :: (heap'.sortNextHeapElements m).2) := by
      rw [sortNextHeapElements, hstep]
    have hsplit : (List.range' 1 (m + 1)).map heap'.nodes =
        (List.range' 1 m).map heap'.nodes ++ [heap.nodes 1] := by
      rw [List.range'_concat, List.map_append, List.map_singleton, Nat.one_mul, Nat.add_comm 1 m, hlast]
    have hsegment := hperm.perm_map_range'
    rw [Nat.add_sub_cancel, hsplit] at hsegment
    have hperm' : (heap.nodes 1 :: elements).Perm ((List.range' 1 (m + 1)).map heap.nodes) :=
      calc (heap.nodes 1 :: elements).Perm (heap.nodes 1 :: (List.range' 1 m).map heap'.nodes) :=
            hcontent.cons _
        List.Perm _ ((List.range' 1 m).map heap'.nodes ++ [heap.nodes 1]) :=
            (List.perm_append_singleton _ _).symm
        List.Perm _ ((List.range' 1 (m + 1)).map heap.nodes) := hsegment
    refine ⟨heap.nodes 1 :: elements, by rw [hrun, hmap, List.map_cons], by simp [hlength], ?_,
      hperm', by simp, by rw [hrun]; exact hnone⟩
    cases elements with
    | nil => exact List.isChain_singleton _
    | cons y rest =>
      have hm : m ≠ 0 := by
        rintro rfl
        simp at hlength
      simp only [hm, if_false, List.head?_cons, Option.some.injEq] at hhead
      obtain ⟨j, hj, hjeq⟩ := hperm.exists_eq (i := 1) ⟨le_rfl, by omega⟩
      refine List.isChain_cons_cons.mpr ⟨?_, hchain⟩
      rw [hhead, hjeq]
      exact (hn ▸ hheap).root_ge hj.1 (by omega)

/-- For every comparator that orders as a total preorder and every element size
above zero: `buildHeap` of up to `capacity` elements puts them in heap order over
the one-based byte offsets; `popMaxHeapElement` of a heap returns its root, an
element at least every remaining one, and leaves a heap of the other elements;
`sortHeap` of a heap leaves its elements in place in non-decreasing order; and
repeated `sortNextHeapElement` calls on a heap return its elements, each once, in
non-increasing order, then `NULL`. -/
theorem heap_operations_correct (comparator : α → α → ℤ) [Std.Total (atLeast comparator)]
    [IsTrans α (atLeast comparator)] :
    (∀ heap : Heap α, heap.comparator = comparator → 0 < heap.elementSize →
      ∀ count ≤ heap.capacity, (heap.buildHeap count).count = count ∧
        BinaryHeap.IsHeap (atLeast comparator) (heap.buildHeap count).nodes count ∧
        SegmentSort.PermOn 1 (count + 1) heap.nodes (heap.buildHeap count).nodes) ∧
    (∀ heap : Heap α, heap.comparator = comparator → 0 < heap.elementSize →
      BinaryHeap.IsHeap (atLeast comparator) heap.nodes heap.count → 0 < heap.count →
      ∃ heap', heap.popMaxHeapElement = (heap', some (heap.nodes 1)) ∧
        (∀ i, 1 ≤ i → i ≤ heap.count → atLeast comparator (heap.nodes 1) (heap.nodes i)) ∧
        heap'.count = heap.count - 1 ∧
        BinaryHeap.IsHeap (atLeast comparator) heap'.nodes heap'.count ∧
        SegmentSort.PermOn 1 heap.count (Function.update heap.nodes 1 (heap.nodes heap.count)) heap'.nodes) ∧
    (∀ heap : Heap α, heap.comparator = comparator → 0 < heap.elementSize →
      BinaryHeap.IsHeap (atLeast comparator) heap.nodes heap.count →
      heap.sortHeap.2 = heap.count ∧
        SegmentSort.PermOn 1 (heap.count + 1) heap.nodes heap.sortHeap.1.nodes ∧
        ∀ i j, 1 ≤ i → i < j → j ≤ heap.count →
          atLeast comparator (heap.sortHeap.1.nodes j) (heap.sortHeap.1.nodes i)) ∧
    (∀ heap : Heap α, heap.comparator = comparator → 0 < heap.elementSize →
      BinaryHeap.IsHeap (atLeast comparator) heap.nodes heap.count →
      ∃ elements : List α, (heap.sortNextHeapElements heap.count).2 = elements.map some ∧
        elements.length = heap.count ∧ elements.IsChain (atLeast comparator) ∧
        elements.Perm ((List.range' 1 heap.count).map heap.nodes) ∧
        ((heap.sortNextHeapElements heap.count).1.sortNextHeapElement).2 = none) := by
  refine ⟨fun heap hcmp hs count hcount => ?_, fun heap hcmp hs hheap hcount => ?_,
    fun heap hcmp hs hheap => ?_, fun heap hcmp hs hheap => ?_⟩
  · subst hcmp
    obtain ⟨hcount', -, -, hheap', hperm⟩ := buildHeap_spec heap hs hcount
    exact ⟨hcount', hheap', hperm⟩
  · subst hcmp
    obtain ⟨heap', hpop, hmax, hcount', -, -, hheap', hperm⟩ := popMaxHeapElement_spec heap hs hheap hcount
    exact ⟨heap', hpop, hmax, hcount', hheap', hperm⟩
  · subst hcmp
    obtain ⟨hcount', hsorted, hperm⟩ := sortHeap_spec heap hs hheap
    exact ⟨hcount', hperm, fun i j hi hij hj => hsorted i j hi hij hj (by omega)⟩
  · obtain ⟨elements, hmap, hlength, hchain, hcontent, -, hnone⟩ :=
      sortNextHeapElements_spec comparator heap hcmp hs rfl hheap
    exact ⟨elements, hmap, hlength, hchain, hcontent, hnone⟩

theorem heap_operations_correct_nat :
    Std.Total (atLeast fun x y : ℕ => (x : ℤ) - y) ∧
    IsTrans ℕ (atLeast fun x y : ℕ => (x : ℤ) - y) ∧
    (∀ heap : Heap ℕ, heap.comparator = (fun x y : ℕ => (x : ℤ) - y) → 0 < heap.elementSize →
      ∀ count ≤ heap.capacity, (heap.buildHeap count).count = count ∧
        BinaryHeap.IsHeap (atLeast fun x y : ℕ => (x : ℤ) - y) (heap.buildHeap count).nodes count ∧
        SegmentSort.PermOn 1 (count + 1) heap.nodes (heap.buildHeap count).nodes) ∧
    (∀ heap : Heap ℕ, heap.comparator = (fun x y : ℕ => (x : ℤ) - y) → 0 < heap.elementSize →
      BinaryHeap.IsHeap (atLeast fun x y : ℕ => (x : ℤ) - y) heap.nodes heap.count →
      0 < heap.count →
      ∃ heap', heap.popMaxHeapElement = (heap', some (heap.nodes 1)) ∧
        (∀ i, 1 ≤ i → i ≤ heap.count →
          atLeast (fun x y : ℕ => (x : ℤ) - y) (heap.nodes 1) (heap.nodes i)) ∧
        heap'.count = heap.count - 1 ∧
        BinaryHeap.IsHeap (atLeast fun x y : ℕ => (x : ℤ) - y) heap'.nodes heap'.count ∧
        SegmentSort.PermOn 1 heap.count (Function.update heap.nodes 1 (heap.nodes heap.count)) heap'.nodes) ∧
    (∀ heap : Heap ℕ, heap.comparator = (fun x y : ℕ => (x : ℤ) - y) → 0 < heap.elementSize →
      BinaryHeap.IsHeap (atLeast fun x y : ℕ => (x : ℤ) - y) heap.nodes heap.count →
      heap.sortHeap.2 = heap.count ∧
        SegmentSort.PermOn 1 (heap.count + 1) heap.nodes heap.sortHeap.1.nodes ∧
        ∀ i j, 1 ≤ i → i < j → j ≤ heap.count →
          atLeast (fun x y : ℕ => (x : ℤ) - y) (heap.sortHeap.1.nodes j)
            (heap.sortHeap.1.nodes i)) ∧
    (∀ heap : Heap ℕ, heap.comparator = (fun x y : ℕ => (x : ℤ) - y) → 0 < heap.elementSize →
      BinaryHeap.IsHeap (atLeast fun x y : ℕ => (x : ℤ) - y) heap.nodes heap.count →
      ∃ elements : List ℕ, (heap.sortNextHeapElements heap.count).2 = elements.map some ∧
        elements.length = heap.count ∧
        elements.IsChain (atLeast fun x y : ℕ => (x : ℤ) - y) ∧
        elements.Perm ((List.range' 1 heap.count).map heap.nodes) ∧
        ((heap.sortNextHeapElements heap.count).1.sortNextHeapElement).2 = none) :=
  have htotal : Std.Total (atLeast fun x y : ℕ => (x : ℤ) - y) :=
    ⟨fun x y => by simp only [atLeast]; omega⟩
  have htrans : IsTrans ℕ (atLeast fun x y : ℕ => (x : ℤ) - y) :=
    ⟨fun x y z hxy hyz => by simp only [atLeast] at hxy hyz ⊢; omega⟩
  ⟨htotal, htrans, @heap_operations_correct ℕ (fun x y : ℕ => (x : ℤ) - y) htotal htrans⟩

end Heap

end Vdo
