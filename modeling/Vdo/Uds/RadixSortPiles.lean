import Mathlib
import Vdo.Uds.RadixSort

/-!
# The piles of a radix sort task

Once a task's keys are counted by their byte at the task's offset, the pile of
bin `b` is the run of positions from `startOfPile b`, after the keys of all
lower bins, of `size b` positions. `pushBins` is shown to record the end of
every nonempty pile and to push the task of every pile that needs more sorting
(`pushBins_spec`), with room on the stack whenever the tasks fit.
-/

namespace Vdo.Uds

namespace RadixSort

open IndexCount

/-- Where the pile of `bin` starts: after the keys of all the bins below it. -/
def startOfPile (firstKey : ℕ) (size : ℕ → ℕ) (bin : ℕ) : ℕ :=
  firstKey + ∑ b ∈ Finset.range bin, size b

/-- The task `pushBins` makes for the pile of `bin`. -/
def pileTask (firstKey : ℕ) (size : ℕ → ℕ) (offset length bin : ℕ) : Task :=
  ⟨startOfPile firstKey size bin, startOfPile firstKey size bin + size bin - 1, offset, length⟩

/-- A pile that goes on the stack: bytes left to compare and more than
`INSERTION_SORT_THRESHOLD` keys. -/
def isStackedPile (size : ℕ → ℕ) (length bin : ℕ) : Bool :=
  0 < length && insertionSortThreshold < size bin

/-- A pile that goes on the list to be insertion sorted: bytes left to compare and
between two and `INSERTION_SORT_THRESHOLD` keys. -/
def isListedPile (size : ℕ → ℕ) (length bin : ℕ) : Bool :=
  0 < length && !(insertionSortThreshold < size bin) && 1 < size bin

/-- The tasks of the piles of `bins` that `keep` selects. -/
def pileTasks (firstKey : ℕ) (size : ℕ → ℕ) (offset length : ℕ) (keep : ℕ → Bool)
    (bins : List ℕ) : List Task :=
  (bins.filter keep).map (pileTask firstKey size offset length)

/-- The state of `pushBins` before `bin`: the piles of the bins below it pushed
and their ends recorded. -/
def pushedBelow (stack list : List Task) (pile : ℕ → ℕ) (firstKey : ℕ) (size : ℕ → ℕ)
    (offset length bin : ℕ) : PileState where
  stack := (pileTasks firstKey size offset length (isStackedPile size length)
    (List.range bin)).reverse ++ stack
  list := (pileTasks firstKey size offset length (isListedPile size length)
    (List.range bin)).reverse ++ list
  pile := fun b => if b < bin ∧ size b ≠ 0 then startOfPile firstKey size (b + 1) else pile b
  pileStart := startOfPile firstKey size bin

section Piles

variable {firstKey : ℕ} {size : ℕ → ℕ}

@[simp]
theorem startOfPile_zero : startOfPile firstKey size 0 = firstKey := by
  simp [startOfPile]

theorem startOfPile_succ (bin : ℕ) :
    startOfPile firstKey size (bin + 1) = startOfPile firstKey size bin + size bin := by
  rw [startOfPile, startOfPile, Finset.sum_range_succ, Nat.add_assoc]

theorem startOfPile_mono {bin bin' : ℕ} (h : bin ≤ bin') :
    startOfPile firstKey size bin ≤ startOfPile firstKey size bin' :=
  Nat.add_le_add_left (Finset.sum_le_sum_of_subset (Finset.range_subset_range.mpr h)) _

/-- Empty bins between two others add nothing to where a pile starts. -/
theorem startOfPile_of_empty {bin bin' : ℕ} (h : bin ≤ bin')
    (hempty : ∀ b, bin ≤ b → b < bin' → size b = 0) :
    startOfPile firstKey size bin' = startOfPile firstKey size bin := by
  rw [startOfPile, startOfPile, ← Finset.sum_range_add_sum_Ico _ h,
    Finset.sum_eq_zero fun b hb => hempty b (Finset.mem_Ico.mp hb).1 (Finset.mem_Ico.mp hb).2,
    Nat.add_zero]

variable {offset length : ℕ}

/-- Empty bins between two others have no task. -/
theorem pileTasks_of_empty {keep : ℕ → Bool} (hkeep : ∀ b, size b = 0 → keep b = false)
    {bin bin' : ℕ} (h : bin ≤ bin') (hempty : ∀ b, bin ≤ b → b < bin' → size b = 0) :
    pileTasks firstKey size offset length keep (List.range bin') =
      pileTasks firstKey size offset length keep (List.range bin) := by
  obtain ⟨extra, rfl⟩ := Nat.exists_eq_add_of_le h
  rw [pileTasks, pileTasks, List.range_add, List.filter_append, List.map_append]
  have hnil : (List.map (fun x => bin + x) (List.range extra)).filter keep = [] := by
    rw [List.filter_eq_nil_iff]
    intro b hb
    obtain ⟨x, hx, rfl⟩ := List.mem_map.mp hb
    rw [hkeep _ (hempty _ (by omega) (by simpa using List.mem_range.mp hx))]
    exact Bool.false_ne_true
  rw [hnil, List.map_nil, List.append_nil]

theorem isStackedPile_of_empty {b : ℕ} (h : size b = 0) : isStackedPile size length b = false := by
  simp [isStackedPile, h, insertionSortThreshold]

theorem isListedPile_of_empty {b : ℕ} (h : size b = 0) : isListedPile size length b = false := by
  simp [isListedPile, h]

/-- Empty bins between two others leave the state of `pushBins` as it is. -/
theorem pushedBelow_of_empty {stack list : List Task} {pile : ℕ → ℕ} {bin bin' : ℕ}
    (h : bin ≤ bin') (hempty : ∀ b, bin ≤ b → b < bin' → size b = 0) :
    pushedBelow stack list pile firstKey size offset length bin' =
      pushedBelow stack list pile firstKey size offset length bin := by
  have hpile : ∀ b, (b < bin' ∧ size b ≠ 0) ↔ (b < bin ∧ size b ≠ 0) := by
    intro b
    constructor
    · rintro ⟨hb, hsize⟩
      exact ⟨by_contra fun hge => hsize (hempty b (by omega) hb), hsize⟩
    · rintro ⟨hb, hsize⟩
      exact ⟨by omega, hsize⟩
  simp only [pushedBelow, pileTasks_of_empty (fun b => isStackedPile_of_empty) h hempty,
    pileTasks_of_empty (fun b => isListedPile_of_empty) h hempty, startOfPile_of_empty h hempty,
    hpile]

/-- The state of `pushBins` before the first bin holds what it was given. -/
theorem pushedBelow_zero (stack list : List Task) (pile : ℕ → ℕ) :
    pushedBelow stack list pile firstKey size offset length 0 = ⟨stack, list, pile, firstKey⟩ := by
  simp [pushedBelow, pileTasks]

/-- The tasks of the piles below `bin + 1`: those below `bin`, and `bin`'s own
when `keep` selects it. -/
theorem pileTasks_succ (keep : ℕ → Bool) (bin : ℕ) :
    (pileTasks firstKey size offset length keep (List.range (bin + 1))).reverse =
      (if keep bin then [pileTask firstKey size offset length bin] else []) ++
        (pileTasks firstKey size offset length keep (List.range bin)).reverse := by
  rw [pileTasks, pileTasks, List.range_succ, List.filter_append, List.filter_singleton]
  cases keep bin <;> simp

/-- One pass of `pushBins` at a nonempty bin, when a stacked pile finds room: the
pile's task pushed where it belongs and its end recorded. -/
theorem pushBin_eq {endOfStack bin : ℕ} {st : PileState}
    (hroom : isStackedPile size length bin = true → st.stack.length < endOfStack) :
    pushBin endOfStack offset length (size bin) bin st =
      .ok { stack := (if isStackedPile size length bin then
                [⟨st.pileStart, st.pileStart + size bin - 1, offset, length⟩] else []) ++ st.stack
            list := (if isListedPile size length bin then
                [⟨st.pileStart, st.pileStart + size bin - 1, offset, length⟩] else []) ++ st.list
            pile := Function.update st.pile bin (st.pileStart + size bin)
            pileStart := st.pileStart + size bin } := by
  unfold pushBin isStackedPile isListedPile at *
  split_ifs <;> simp_all [pushTask] <;> omega

/-- One pass of `pushBins` at a nonempty bin with room on the stack. -/
theorem pushBin_pushedBelow {endOfStack : ℕ} {stack list : List Task} {pile : ℕ → ℕ} {bin : ℕ}
    (hsize : size bin ≠ 0)
    (hroom : isStackedPile size length bin = true →
      (pushedBelow stack list pile firstKey size offset length bin).stack.length < endOfStack) :
    pushBin endOfStack offset length (size bin) bin
        (pushedBelow stack list pile firstKey size offset length bin) =
      .ok (pushedBelow stack list pile firstKey size offset length (bin + 1)) := by
  have hpile : Function.update
      (fun b => if b < bin ∧ size b ≠ 0 then startOfPile firstKey size (b + 1) else pile b) bin
      (startOfPile firstKey size bin + size bin) =
      fun b => if b < bin + 1 ∧ size b ≠ 0 then startOfPile firstKey size (b + 1) else pile b := by
    funext b
    by_cases hb : b = bin
    · subst hb
      rw [Function.update_self, if_pos ⟨Nat.lt_succ_self b, hsize⟩, startOfPile_succ]
    · rw [Function.update_of_ne hb]
      have hiff : (b < bin ∧ size b ≠ 0) ↔ (b < bin + 1 ∧ size b ≠ 0) :=
        ⟨fun h => ⟨by omega, h.2⟩, fun h => ⟨by omega, h.2⟩⟩
      simp only [hiff]
  rw [pushBin_eq hroom]
  simp only [pushedBelow, pileTasks_succ, pileTask, List.append_assoc]
  rw [hpile, startOfPile_succ]

/-- The stacked piles below `bin` are fewer than all stacked piles when `bin` is
one of them. -/
theorem length_filter_range_lt {keep : ℕ → Bool} {bin : ℕ} (hbin : bin < 256)
    (hkeep : keep bin = true) :
    ((List.range bin).filter keep).length < ((List.range 256).filter keep).length := by
  have hsub : ((List.range (bin + 1)).filter keep).Sublist ((List.range 256).filter keep) :=
    (List.range_sublist.mpr hbin).filter keep
  have hlen := hsub.length_le
  rw [List.range_succ, List.filter_append, List.length_append, List.filter_singleton, hkeep]
    at hlen
  simp only [cond_true, List.length_singleton] at hlen
  omega

/-- The loop of `pushBins` from `bin` on: with `used` the number of nonempty bins
from `bin` on and room for every stacked pile, it pushes the piles of the bins
that are left and stops with `used` zero. -/
theorem pushBinsLoop_spec {endOfStack : ℕ} {stack list : List Task} {pile : ℕ → ℕ}
    {bins : Histogram} (hsize : bins.size = size)
    (hroom : stack.length + ((List.range 256).filter (isStackedPile size length)).length ≤
      endOfStack) (fuel : ℕ) :
    ∀ (bin used : ℕ), bin + fuel = 256 → used = countWhere (Finset.Ico bin 256) (· ≠ 0) size →
      pushBinsLoop endOfStack offset length fuel bin { bins with used := used }
          (pushedBelow stack list pile firstKey size offset length bin) =
        .ok ({ bins with used := 0 }, pushedBelow stack list pile firstKey size offset length 256) := by
  subst hsize
  induction fuel with
  | zero =>
    intro bin used hfuel hused
    have hbin : bin = 256 := by omega
    subst hbin
    rw [Finset.Ico_self] at hused
    rw [hused]
    rfl
  | succ fuel ih =>
    intro bin used hfuel hused
    have hnotMem : bin ∉ Finset.Ico (bin + 1) 256 := by simp
    have hsplit : Finset.Ico bin 256 = insert bin (Finset.Ico (bin + 1) 256) :=
      (Finset.insert_Ico_add_one_left_eq_Ico (by omega)).symm
    rw [pushBinsLoop]
    dsimp only
    by_cases hzero : bins.size bin = 0
    · rw [if_pos hzero]
      rw [← pushedBelow_of_empty (Nat.le_succ bin) fun b h1 h2 => by rwa [show b = bin by omega]]
      refine ih (bin + 1) used (by omega) ?_
      rw [hused, hsplit, countWhere_insert hnotMem, if_neg (not_not.mpr hzero), Nat.add_zero]
    · have hroom' : isStackedPile bins.size length bin = true →
          (pushedBelow stack list pile firstKey bins.size offset length bin).stack.length <
            endOfStack := by
        intro hstacked
        have hlt := length_filter_range_lt (show bin < 256 by omega) hstacked
        simp only [pushedBelow, List.length_append, List.length_reverse, pileTasks, List.length_map]
        omega
      have hrest : used - 1 = countWhere (Finset.Ico (bin + 1) 256) (· ≠ 0) bins.size := by
        rw [hused, hsplit, countWhere_insert hnotMem, if_pos hzero]
        omega
      rw [if_neg hzero, pushBin_pushedBelow hzero hroom']
      dsimp only
      by_cases hdone : used - 1 = 0
      · have hempty : ∀ b, bin + 1 ≤ b → b < 256 → bins.size b = 0 := by
          intro b h1 h2
          by_contra hne
          have hpos := countWhere_pos (p := (· ≠ 0)) (f := bins.size)
            (Finset.mem_Ico.mpr ⟨h1, h2⟩) hne
          omega
        rw [if_pos hdone, pushedBelow_of_empty (by omega) hempty, hdone]
      · rw [if_neg hdone]
        exact ih (bin + 1) (used - 1) (by omega) hrest

/-- `pushBins` after `measureBins`: every nonempty pile's end recorded, the task of
every pile that needs more sorting pushed, and `used` back to zero. -/
theorem pushBins_spec {endOfStack : ℕ} {stack list : List Task} {pile : ℕ → ℕ} {bins : Histogram}
    (hsize : bins.size = size)
    (hused : bins.used = countWhere (Finset.range 256) (· ≠ 0) size)
    (hfirst : bins.first ≤ 256) (hbelow : ∀ b < bins.first, size b = 0)
    (hroom : stack.length + ((List.range 256).filter (isStackedPile size length)).length ≤
      endOfStack) :
    pushBins endOfStack stack list pile bins firstKey offset length =
      .ok ({ bins with used := 0 }, pushedBelow stack list pile firstKey size offset length 256) := by
  have hstart : (⟨stack, list, pile, firstKey⟩ : PileState) =
      pushedBelow stack list pile firstKey size offset length bins.first := by
    rw [pushedBelow_of_empty (Nat.zero_le _) fun b _ hb => hbelow b hb, pushedBelow_zero]
  have hcount : bins.used = countWhere (Finset.Ico bins.first 256) (· ≠ 0) size := by
    rw [hused, Finset.range_eq_Ico]
    refine countWhere_of_subset (Finset.Ico_subset_Ico_left (Nat.zero_le _)) ?_
    intro b hbt hbs hne
    simp only [Finset.mem_Ico] at hbt hbs
    exact hne (hbelow b (by omega))
  have hloop := @pushBinsLoop_spec firstKey size offset length endOfStack stack list pile bins hsize
    hroom (256 - bins.first) bins.first bins.used (by omega) hcount
  rw [pushBins, hstart]
  exact hloop

end Piles

end RadixSort

end Vdo.Uds
