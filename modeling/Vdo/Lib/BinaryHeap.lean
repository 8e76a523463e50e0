import Mathlib
import Vdo.Lib.SegmentSort

/-!
# Binary max-heaps counted from one

A heap of `n` elements is kept in positions `1 … n` of an array (a function
from positions): the children of node `k` are `2 * k` and `2 * k + 1`, its
parent `k / 2`. `r x y` reads "`x` is at least `y`", for a relation `r` that is a
total preorder, so that ties between distinct elements are allowed.

`siftDown a n k` moves the element at `k` down, swapping it with its larger
child while that child is larger. `HeapFrom a n k` says every node from `k` on is
at least each of its children; `Sifting` is what holds while an element is
sifted down from `k`, every parent-child pair from `k` on ordered except those
below the element, whose parent is also at least the element's children
(`Sifting.swap`). So sifting from `k` over a sub-heap from `k + 1` gives a heap
from `k` (`siftDown_heapFrom`); doing so for `k = n / 2, …, 1` builds a heap
(`heapify_isHeap`). The root of a heap is at least every element
(`IsHeap.root_ge`). `sortLoop` takes the root to the end and sifts the new root
down until one element is left, which sorts the array (`sortLoop_sorted`).
Every step only swaps positions among `1 … n` (`SegmentSort.PermOn`).
-/

namespace BinaryHeap

open SegmentSort

variable {α : Type*} (r : α → α → Prop)

/-- The array with the elements at `i` and `j` exchanged. -/
def swapAt (a : ℕ → α) (i j : ℕ) : ℕ → α := a ∘ Equiv.swap i j

section Algorithms

variable [DecidableRel r]

/-- The child of `k` to swap with: the right one when it is in the heap and
the left one is not at least it, else the left one. -/
def maxChild (a : ℕ → α) (n k : ℕ) : ℕ :=
  if 2 * k < n ∧ ¬r (a (2 * k)) (a (2 * k + 1)) then 2 * k + 1 else 2 * k

/-- Sift the element at `k` down the heap of positions `1 … n`. -/
def siftDown (a : ℕ → α) (n k : ℕ) : ℕ → α :=
  if _h : 0 < k ∧ 2 * k ≤ n then
    if r (a k) (a (maxChild r a n k)) then a
    else siftDown (swapAt a k (maxChild r a n k)) n (maxChild r a n k)
  else a
termination_by n + 1 - k
decreasing_by
  have hchild : 2 * k ≤ maxChild r a n k := by
    unfold maxChild
    split_ifs <;> omega
  omega

/-- Sift down from `k`, `k - 1`, …, `1` in turn. -/
def heapify (a : ℕ → α) (n : ℕ) : ℕ → ℕ → α
  | 0 => a
  | k + 1 => heapify (siftDown r a n (k + 1)) n k

/-- The sorting loop: while the heap has more than one element, swap its root
with its last element, shrink it by one and sift the new root down. -/
def sortLoop (a : ℕ → α) : ℕ → ℕ → α
  | 0 => a
  | 1 => a
  | m + 2 => sortLoop (siftDown r (swapAt a 1 (m + 2)) (m + 1) 1) (m + 1)

end Algorithms

/-- Every node from `k` on is at least each of its children among `1 … n`. -/
def HeapFrom (a : ℕ → α) (n k : ℕ) : Prop :=
  ∀ i, 2 ≤ i → i ≤ n → k ≤ i / 2 → r (a (i / 2)) (a i)

/-- The heap property of positions `1 … n`. -/
abbrev IsHeap (a : ℕ → α) (n : ℕ) : Prop := HeapFrom r a n 1

/-- What holds while the element sifted down from `k` is at `c`: the pairs from
`k` on are ordered except those whose parent is `c`, and the parent of `c`, when
`c` is below `k`, is at least the children of `c`. -/
structure Sifting (a : ℕ → α) (n k c : ℕ) : Prop where
  reach : c = k ∨ k ≤ c / 2
  pairs : ∀ i, 2 ≤ i → i ≤ n → k ≤ i / 2 → i / 2 ≠ c → r (a (i / 2)) (a i)
  above : k < c → ∀ i, 2 ≤ i → i ≤ n → i / 2 = c → r (a (c / 2)) (a i)

/-- Positions `m + 1 … n` hold the largest elements in order: each is at least
every element before it. -/
def SortedAbove (a : ℕ → α) (m n : ℕ) : Prop :=
  ∀ i j, 1 ≤ i → i < j → j ≤ n → m < j → r (a j) (a i)

variable {r}

/-! ## Swapping -/

@[simp] theorem swapAt_left (a : ℕ → α) (i j : ℕ) : swapAt a i j i = a j := by
  simp [swapAt]

@[simp] theorem swapAt_right (a : ℕ → α) (i j : ℕ) : swapAt a i j j = a i := by
  simp [swapAt]

theorem swapAt_of_ne (a : ℕ → α) {i j x : ℕ} (hi : x ≠ i) (hj : x ≠ j) : swapAt a i j x = a x := by
  simp [swapAt, Equiv.swap_apply_of_ne_of_ne hi hj]

/-! ## Heaps -/

theorem refl_of_total [Std.Total r] (x : α) : r x x := (total_of r x x).elim id id

/-- Sifting starts at `k` over a sub-heap from `k + 1`. -/
theorem Sifting.start {a : ℕ → α} {n k : ℕ} (h : HeapFrom r a n (k + 1)) : Sifting r a n k k where
  reach := Or.inl rfl
  pairs i hi hin hk hne := h i hi hin (by omega)
  above hlt := absurd hlt (lt_irrefl k)

/-- Past the last parent nothing has children. -/
theorem heapFrom_of_half_lt (a : ℕ → α) {n k : ℕ} (hk : n / 2 < k) : HeapFrom r a n k := by
  intro i hi hin hki
  omega

/-- A heap of `n` with the root replaced by the last element is a heap of
`n - 1` from `2` on. -/
theorem IsHeap.heapFrom_two_update {a : ℕ → α} {n : ℕ} (h : IsHeap r a n) :
    HeapFrom r (Function.update a 1 (a n)) (n - 1) 2 := by
  intro i hi hin hki
  rw [Function.update_of_ne (by omega), Function.update_of_ne (by omega)]
  exact h i hi (by omega) (by omega)

/-- The root of a heap is at least every element: follow parents up to it. -/
theorem IsHeap.root_ge [Std.Total r] [IsTrans α r] {a : ℕ → α} {n : ℕ} (h : IsHeap r a n) {i : ℕ} (hi : 1 ≤ i) (hin : i ≤ n) :
    r (a 1) (a i) := by
  induction i using Nat.strong_induction_on with
  | _ i ih =>
    by_cases hone : i = 1
    · rw [hone]
      exact refl_of_total _
    · exact trans_of r (ih (i / 2) (by omega) (by omega) (by omega)) (h i (by omega) hin (by omega))

section Algorithms

variable [DecidableRel r]

/-! ## The child to swap with -/

theorem maxChild_eq (a : ℕ → α) (n k : ℕ) : maxChild r a n k = 2 * k ∨ maxChild r a n k = 2 * k + 1 := by
  unfold maxChild
  split_ifs
  · exact Or.inr rfl
  · exact Or.inl rfl

theorem maxChild_div_two (a : ℕ → α) (n k : ℕ) : maxChild r a n k / 2 = k := by
  rcases maxChild_eq (r := r) a n k with h | h <;> omega

theorem maxChild_le {a : ℕ → α} {n k : ℕ} (h : 2 * k ≤ n) : maxChild r a n k ≤ n := by
  unfold maxChild
  split_ifs <;> omega

/-! ## Rearranging -/

/-- Sifting only swaps positions among `1 … n`. -/
theorem siftDown_permOn (a : ℕ → α) (n : ℕ) {c : ℕ} : PermOn 1 (n + 1) a (siftDown r a n c) := by
  fun_induction siftDown r a n c with
  | case1 a c hguard hstop => exact PermOn.refl a
  | case2 a c hguard hlt ih =>
    have hmn : maxChild r a n c ≤ n := maxChild_le hguard.2
    have hmc := maxChild_div_two (r := r) a n c
    exact (PermOn.swap (by omega) (by omega)).trans ih
  | case3 a c hguard => exact PermOn.refl a

theorem heapify_permOn (a : ℕ → α) (n k : ℕ) : PermOn 1 (n + 1) a (heapify r a n k) := by
  induction k generalizing a with
  | zero => exact PermOn.refl a
  | succ k ih => exact (siftDown_permOn a n).trans (ih _)

theorem sortLoop_permOn (a : ℕ → α) {m n : ℕ} (hmn : m ≤ n) :
    PermOn 1 (n + 1) a (sortLoop r a m) := by
  revert hmn
  fun_induction sortLoop r a m with
  | case1 a => exact fun _ => PermOn.refl a
  | case2 a => exact fun _ => PermOn.refl a
  | case3 a m ih =>
    intro hmn
    exact ((PermOn.swap (by omega) (by omega)).trans
      ((siftDown_permOn _ (m + 1)).mono le_rfl (by omega))).trans (ih (by omega))

variable [Std.Total r] [IsTrans α r]

omit [IsTrans α r] in
/-- The child swapped with is at least each child of `k` in the heap. -/
theorem maxChild_ge (a : ℕ → α) {n k i : ℕ} (hi : i / 2 = k) (hin : i ≤ n) :
    r (a (maxChild r a n k)) (a i) := by
  unfold maxChild
  split_ifs with h
  · rcases (show i = 2 * k ∨ i = 2 * k + 1 by omega) with rfl | rfl
    · exact (total_of r _ _).resolve_left h.2
    · exact refl_of_total _
  · rcases (show i = 2 * k ∨ i = 2 * k + 1 by omega) with rfl | rfl
    · exact refl_of_total _
    · have : r (a (2 * k)) (a (2 * k + 1)) := by
        by_contra hne
        exact h ⟨by omega, hne⟩
      exact this

/-! ## Sifting down -/

omit [IsTrans α r] in
/-- Swapping the element with its larger child, when that child is larger,
moves the exception one level down. -/
theorem Sifting.swap {a : ℕ → α} {n k c : ℕ} (hs : Sifting r a n k c) (hk : 0 < k)
    (hc : 2 * c ≤ n) (hlt : ¬r (a c) (a (maxChild r a n c))) :
    Sifting r (swapAt a c (maxChild r a n c)) n k (maxChild r a n c) := by
  set m := maxChild r a n c with hm
  have hmc : m / 2 = c := maxChild_div_two a n c
  have hmn : m ≤ n := maxChild_le hc
  have hkc : k ≤ c := by rcases hs.reach with h | h <;> omega
  have hmge : r (a m) (a c) := (total_of r _ _).resolve_left hlt
  refine ⟨Or.inr (by omega), fun i hi hin hki hne => ?_, fun _ i hi hin hip => ?_⟩
  · by_cases hpc : i / 2 = c
    · rw [hpc, swapAt_left]
      by_cases him : i = m
      · rw [him, swapAt_right]
        exact hmge
      · rw [swapAt_of_ne a (by omega) him]
        exact maxChild_ge a hpc hin
    · rw [swapAt_of_ne a hpc (by omega)]
      by_cases hic : i = c
      · subst hic
        rw [swapAt_left]
        exact hs.above (by omega) m (by omega) hmn hmc
      · rw [swapAt_of_ne a hic (by omega)]
        exact hs.pairs i hi hin hki hpc
  · have hpair := hs.pairs i hi hin (by omega) (by omega)
    rw [hip] at hpair
    rw [hmc, swapAt_left, swapAt_of_ne a (by omega) (by omega)]
    exact hpair

/-- The element stops at `c`: the pairs at `c` are ordered too. -/
theorem Sifting.heapFrom {a : ℕ → α} {n k c : ℕ} (hs : Sifting r a n k c)
    (hstop : 2 * c ≤ n → r (a c) (a (maxChild r a n c))) : HeapFrom r a n k := by
  intro i hi hin hki
  by_cases hpc : i / 2 = c
  · rw [hpc]
    exact trans_of r (hstop (by omega)) (maxChild_ge a hpc hin)
  · exact hs.pairs i hi hin hki hpc

/-- Sifting the element at `c` down ends in a heap from `k`. -/
theorem siftDown_heapFrom {a : ℕ → α} {n k c : ℕ} (hk : 0 < k) (hs : Sifting r a n k c) :
    HeapFrom r (siftDown r a n c) n k := by
  fun_induction siftDown r a n c with
  | case1 a c hguard hstop => exact hs.heapFrom fun _ => hstop
  | case2 a c hguard hlt ih => exact ih (hs.swap hk hguard.2 hlt)
  | case3 a c hguard =>
    have hkc : k ≤ c := by rcases hs.reach with h | h <;> omega
    exact hs.heapFrom fun h => absurd ⟨by omega, h⟩ hguard

/-! ## Building a heap and sorting -/

/-- Sifting from `k` down to `1` over a heap from `k + 1` builds a heap. -/
theorem heapify_isHeap {a : ℕ → α} {n : ℕ} (k : ℕ) (h : HeapFrom r a n (k + 1)) :
    IsHeap r (heapify r a n k) n := by
  induction k generalizing a with
  | zero => exact h
  | succ k ih => exact ih (siftDown_heapFrom (by omega) (Sifting.start h))

/-- The root swapped with the last element and sifted down over the heap
shrunk by one: a heap again. -/
theorem IsHeap.siftDown_swap_last {a : ℕ → α} {m : ℕ} (hheap : IsHeap r a (m + 1)) :
    IsHeap r (siftDown r (swapAt a 1 (m + 1)) m 1) m := by
  refine siftDown_heapFrom (by omega) (Sifting.start fun i hi hin hki => ?_)
  rw [swapAt_of_ne a (by omega) (by omega), swapAt_of_ne a (by omega) (by omega)]
  exact hheap i hi (by omega) (by omega)

/-- One turn of the sorting loop keeps a heap before `m` below a sorted tail. -/
theorem SortedAbove.step {a : ℕ → α} {m n : ℕ} (hheap : IsHeap r a (m + 2))
    (hsorted : SortedAbove r a (m + 2) n) :
    IsHeap r (siftDown r (swapAt a 1 (m + 2)) (m + 1) 1) (m + 1) ∧
      SortedAbove r (siftDown r (swapAt a 1 (m + 2)) (m + 1) 1) (m + 1) n := by
  set b := swapAt a 1 (m + 2) with hb
  have hperm := siftDown_permOn (r := r) (c := 1) b (m + 1)
  refine ⟨hheap.siftDown_swap_last, ?_⟩
  · intro i j hi hij hjn hmj
    rw [hperm.eq_of_notMem (i := j) (Or.inr (by omega))]
    by_cases hjm : j = m + 2
    · obtain ⟨i', hi', hi'eq⟩ := hperm.exists_eq (i := i) ⟨hi, by omega⟩
      rw [hi'eq, hjm, hb, swapAt_right]
      by_cases hi'1 : i' = 1
      · rw [hi'1, swapAt_left]
        exact hheap.root_ge (by omega) le_rfl
      · rw [swapAt_of_ne a hi'1 (by omega)]
        exact hheap.root_ge hi'.1 (by omega)
    · have hj : b j = a j := swapAt_of_ne a (by omega) hjm
      by_cases him : i ≤ m + 1
      · obtain ⟨i', hi', hi'eq⟩ := hperm.exists_eq (i := i) ⟨hi, by omega⟩
        rw [hi'eq, hj]
        by_cases hi'1 : i' = 1
        · rw [hi'1, hb, swapAt_left]
          exact hsorted (m + 2) j (by omega) (by omega) hjn (by omega)
        · rw [hb, swapAt_of_ne a hi'1 (by omega)]
          exact hsorted i' j hi'.1 (by omega) hjn (by omega)
      · rw [hperm.eq_of_notMem (i := i) (Or.inr (by omega)), hj, hb]
        by_cases him2 : i = m + 2
        · rw [him2, swapAt_right]
          exact hsorted 1 j le_rfl (by omega) hjn (by omega)
        · rw [swapAt_of_ne a (by omega) him2]
          exact hsorted i j hi hij hjn (by omega)

/-- The sorting loop over a heap of `m` below a sorted tail sorts `1 … n`. -/
theorem sortLoop_sorted {a : ℕ → α} {m n : ℕ} (hheap : IsHeap r a m)
    (hsorted : SortedAbove r a m n) : SortedAbove r (sortLoop r a m) 0 n := by
  fun_induction sortLoop r a m with
  | case1 a =>
    intro i j hi hij hjn _
    exact hsorted i j hi hij hjn (by omega)
  | case2 a =>
    intro i j hi hij hjn _
    exact hsorted i j hi hij hjn (by omega)
  | case3 a m ih =>
    obtain ⟨hheap', hsorted'⟩ := SortedAbove.step hheap hsorted
    exact ih hheap' hsorted'

end Algorithms

end BinaryHeap
