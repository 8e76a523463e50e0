import Mathlib

/-!
# Counting indices

The number of indices of a finite set at which a function satisfies a
predicate. A data structure that caches such a count in a field (a number of
free entries, a number of allocated entries per block) keeps it consistent by
the rules proved here: how a point update changes the count, how counts add
over disjoint sets and over consecutive blocks of a range, and how indices at
which the predicate fails can be added or dropped; and how a sum of per-index
counts changes when one index's count does.
-/

namespace IndexCount

variable {α : Type*}

/-- The number of indices in `s` at which `f` satisfies `p`. -/
def countWhere (s : Finset ℕ) (p : α → Prop) [DecidablePred p] (f : ℕ → α) : ℕ :=
  (s.filter fun i => p (f i)).card

section Rules

variable {s t : Finset ℕ} {p : α → Prop} [DecidablePred p] {f g : ℕ → α}

/-- Functions that agree on `s` have the same count there. -/
theorem countWhere_congr (h : ∀ i ∈ s, f i = g i) : countWhere s p f = countWhere s p g := by
  unfold countWhere
  congr 1
  exact Finset.filter_congr fun i hi => by rw [h i hi]

/-- Predicates that agree on the values at `s` have the same count there. -/
theorem countWhere_congr_iff {β : Type*} {q : β → Prop} [DecidablePred q] {g : ℕ → β}
    (h : ∀ i ∈ s, p (f i) ↔ q (g i)) : countWhere s p f = countWhere s q g := by
  unfold countWhere
  congr 1
  exact Finset.filter_congr h

/-- A count never exceeds the number of indices. -/
theorem countWhere_le_card : countWhere s p f ≤ s.card :=
  Finset.card_filter_le s _

/-- A predicate that holds at every index counts every index. -/
theorem countWhere_eq_card (h : ∀ i ∈ s, p (f i)) : countWhere s p f = s.card := by
  unfold countWhere
  rw [Finset.filter_true_of_mem h]

/-- A count that reaches the number of indices counts every index. -/
theorem of_card_le_countWhere (h : s.card ≤ countWhere s p f) : ∀ i ∈ s, p (f i) :=
  Finset.filter_card_eq (le_antisymm countWhere_le_card h)

/-- A predicate that holds at no index counts nothing. -/
theorem countWhere_eq_zero (h : ∀ i ∈ s, ¬ p (f i)) : countWhere s p f = 0 := by
  unfold countWhere
  rw [Finset.filter_false_of_mem h, Finset.card_empty]

/-- A count is positive when the predicate holds at some index. -/
theorem countWhere_pos {j : ℕ} (hj : j ∈ s) (hp : p (f j)) : 0 < countWhere s p f :=
  Finset.card_pos.mpr ⟨j, Finset.mem_filter.mpr ⟨hj, hp⟩⟩

/-- Adding one new index adds its own contribution. -/
theorem countWhere_insert {j : ℕ} (hj : j ∉ s) :
    countWhere (insert j s) p f = countWhere s p f + (if p (f j) then 1 else 0) := by
  unfold countWhere
  rw [Finset.filter_insert]
  split_ifs with hp
  · exact Finset.card_insert_of_notMem fun hmem => hj (Finset.mem_filter.mp hmem).1
  · rfl

/-- An update outside `s` leaves the count unchanged. -/
theorem countWhere_update_of_notMem {j : ℕ} (hj : j ∉ s) (v : α) :
    countWhere s p (Function.update f j v) = countWhere s p f := by
  apply countWhere_congr
  intro i hi
  have hne : i ≠ j := by
    rintro rfl
    exact hj hi
  exact Function.update_of_ne hne v f

/-- An update at an index of `s` trades the old value's contribution for the
new value's. -/
theorem countWhere_update_of_mem {j : ℕ} (hj : j ∈ s) (v : α) :
    countWhere s p (Function.update f j v) + (if p (f j) then 1 else 0) =
      countWhere s p f + (if p v then 1 else 0) := by
  have hsplit : s = insert j (s.erase j) := (Finset.insert_erase hj).symm
  have hrest : countWhere (s.erase j) p (Function.update f j v) = countWhere (s.erase j) p f :=
    countWhere_update_of_notMem (Finset.notMem_erase j s) v
  rw [hsplit, countWhere_insert (Finset.notMem_erase j s),
    countWhere_insert (Finset.notMem_erase j s), hrest, Function.update_self]
  omega

/-- Counts add over disjoint sets of indices. -/
theorem countWhere_union (h : Disjoint s t) :
    countWhere (s ∪ t) p f = countWhere s p f + countWhere t p f := by
  unfold countWhere
  rw [Finset.filter_union]
  exact Finset.card_union_of_disjoint (Finset.disjoint_filter_filter h)

/-- Every index satisfies either `p` or its negation. -/
theorem countWhere_add_countWhere_not :
    countWhere s p f + countWhere s (fun a => ¬ p a) f = s.card :=
  Finset.card_filter_add_card_filter_not (fun i => p (f i))

/-- Splitting the indices that satisfy `p` by a second predicate `q`. -/
theorem countWhere_and_add_and_not (q : α → Prop) [DecidablePred q] :
    countWhere s (fun a => p a ∧ q a) f + countWhere s (fun a => p a ∧ ¬ q a) f =
      countWhere s p f := by
  unfold countWhere
  rw [← Finset.card_union_of_disjoint]
  · congr 1
    ext i
    simp only [Finset.mem_union, Finset.mem_filter]
    tauto
  · rw [Finset.disjoint_filter]
    intro i _ hq hnq
    exact hnq.2 hq.2

/-- Indices of `t` outside `s` at which `p` fails do not change the count. -/
theorem countWhere_of_subset (hst : s ⊆ t) (h : ∀ i ∈ t, i ∉ s → ¬ p (f i)) :
    countWhere t p f = countWhere s p f := by
  unfold countWhere
  congr 1
  ext i
  simp only [Finset.mem_filter]
  constructor
  · rintro ⟨hit, hp⟩
    by_cases his : i ∈ s
    · exact ⟨his, hp⟩
    · exact absurd hp (h i hit his)
  · rintro ⟨his, hp⟩
    exact ⟨hst his, hp⟩

/-- The count over a range is the count over a prefix plus the count over the
rest. -/
theorem countWhere_range_add (a n : ℕ) :
    countWhere (Finset.range (a + n)) p f =
      countWhere (Finset.range a) p f + countWhere (Finset.Ico a (a + n)) p f := by
  have hsplit : Finset.range (a + n) = Finset.range a ∪ Finset.Ico a (a + n) := by
    rw [Finset.range_eq_Ico, Finset.range_eq_Ico,
      Finset.Ico_union_Ico_eq_Ico (Nat.zero_le _) (Nat.le_add_right _ _)]
  have hdisjoint : Disjoint (Finset.range a) (Finset.Ico a (a + n)) := by
    rw [Finset.range_eq_Ico]
    exact Finset.Ico_disjoint_Ico_consecutive _ _ _
  rw [hsplit, countWhere_union hdisjoint]

/-- Indices of a range at or past `bound` count nothing when the predicate
fails there, so the count is at most `bound`. -/
theorem countWhere_range_le {bound : ℕ} (h : ∀ i, bound ≤ i → ¬ p (f i)) (n : ℕ) :
    countWhere (Finset.range n) p f ≤ bound := by
  by_cases hn : n ≤ bound
  · exact (countWhere_le_card).trans ((Finset.card_range n).le.trans hn)
  · have hsub : Finset.range bound ⊆ Finset.range n := Finset.range_subset_range.mpr (by omega)
    rw [countWhere_of_subset hsub fun i _ hi => h i (by simpa using hi)]
    exact (countWhere_le_card).trans (Finset.card_range bound).le

end Rules

/-! ## Sums of per-index counts -/

section Sums

variable {s : Finset ℕ} {f g : ℕ → ℕ}

/-- Two per-index counts that differ at one index only: each sum plus the other
count's value there is the same. -/
theorem sum_add_of_eq_off {j : ℕ} (hj : j ∈ s) (h : ∀ i ∈ s, i ≠ j → g i = f i) :
    ∑ i ∈ s, g i + f j = ∑ i ∈ s, f i + g j := by
  rw [← Finset.add_sum_erase s f hj, ← Finset.add_sum_erase s g hj]
  have hrest : ∑ i ∈ s.erase j, g i = ∑ i ∈ s.erase j, f i :=
    Finset.sum_congr rfl fun i hi => h i (Finset.mem_of_mem_erase hi) (Finset.ne_of_mem_erase hi)
  rw [hrest]
  omega

end Sums

end IndexCount
