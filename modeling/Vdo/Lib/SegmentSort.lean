import Mathlib
import Vdo.Lib.IndexCount

/-!
# Sorting a segment of an array in place

An array is a function from positions. An in-place sort rearranges the entries
of a segment `[lo, hi)` and leaves every other position alone; `PermOn lo hi a b`
says that `b` is such a rearrangement of `a`, by a permutation of the positions
that fixes every position outside the segment. It holds across a swap of two
positions of the segment and composes, so a sort made of swaps keeps it; and it
keeps every count of the segment's entries.

Keys are compared as `memcmp` compares byte strings: lexicographically over a
window of positions. `windowCompare a b offset length` compares the entries
`offset, …, offset + length - 1` of `a` and `b`; being at most (`≠ .gt`) is a
total preorder, and a common prefix of the window can be skipped.
-/

namespace SegmentSort

open IndexCount

variable {α : Type*}

/-! ## Rearranging a segment -/

/-- `b` is `a` with the entries at the positions `[lo, hi)` rearranged among
themselves. -/
def PermOn (lo hi : ℕ) (a b : ℕ → α) : Prop :=
  ∃ σ : Equiv.Perm ℕ, (∀ i, (i < lo ∨ hi ≤ i) → σ i = i) ∧ ∀ i, b i = a (σ i)

namespace PermOn

variable {lo hi : ℕ} {a b c : ℕ → α}

theorem refl (a : ℕ → α) : PermOn lo hi a a :=
  ⟨1, fun _ _ => rfl, fun _ => rfl⟩

theorem trans (hab : PermOn lo hi a b) (hbc : PermOn lo hi b c) : PermOn lo hi a c := by
  obtain ⟨σ, hσ, hb⟩ := hab
  obtain ⟨τ, hτ, hc⟩ := hbc
  refine ⟨τ.trans σ, fun i hout => ?_, fun i => ?_⟩
  · rw [Equiv.trans_apply, hτ i hout, hσ i hout]
  · rw [hc, hb, Equiv.trans_apply]

/-- A permutation that fixes the positions outside the segment maps the segment
onto itself. -/
theorem perm_mem {σ : Equiv.Perm ℕ} (hσ : ∀ i, (i < lo ∨ hi ≤ i) → σ i = i) {i : ℕ}
    (hin : lo ≤ i ∧ i < hi) : lo ≤ σ i ∧ σ i < hi := by
  by_contra hout
  have hfix : σ (σ i) = σ i := hσ (σ i) (by omega)
  have hii : σ i = i := σ.injective hfix
  rw [hii] at hout
  exact hout hin

theorem symm (hab : PermOn lo hi a b) : PermOn lo hi b a := by
  obtain ⟨σ, hσ, hb⟩ := hab
  refine ⟨σ.symm, fun i hout => ?_, fun i => ?_⟩
  · rw [Equiv.symm_apply_eq, hσ i hout]
  · rw [hb, Equiv.apply_symm_apply]

/-- A rearrangement of a segment is one of every segment around it. -/
theorem mono {lo' hi' : ℕ} (hlo : lo' ≤ lo) (hhi : hi ≤ hi') (hab : PermOn lo hi a b) :
    PermOn lo' hi' a b := by
  obtain ⟨σ, hσ, hb⟩ := hab
  exact ⟨σ, fun i hout => hσ i (by omega), hb⟩

theorem eq_of_notMem (hab : PermOn lo hi a b) {i : ℕ} (hout : i < lo ∨ hi ≤ i) : b i = a i := by
  obtain ⟨σ, hσ, hb⟩ := hab
  rw [hb, hσ i hout]

/-- Every entry of the rearranged segment comes from the segment. -/
theorem exists_eq (hab : PermOn lo hi a b) {i : ℕ} (hin : lo ≤ i ∧ i < hi) :
    ∃ j, (lo ≤ j ∧ j < hi) ∧ b i = a j := by
  obtain ⟨σ, hσ, hb⟩ := hab
  exact ⟨σ i, perm_mem hσ hin, hb i⟩

/-- Swapping two positions of the segment rearranges it. -/
theorem swap {i j : ℕ} (hin : lo ≤ i ∧ i < hi) (hjn : lo ≤ j ∧ j < hi) :
    PermOn lo hi a (a ∘ Equiv.swap i j) := by
  refine ⟨Equiv.swap i j, fun k hk => ?_, fun _ => rfl⟩
  exact Equiv.swap_apply_of_ne_of_ne (by omega) (by omega)

/-- The entries of a rearranged segment, listed in position order, are a
permutation of the original ones. -/
theorem perm_map_range' (hab : PermOn lo hi a b) :
    ((List.range' lo (hi - lo)).map b).Perm ((List.range' lo (hi - lo)).map a) := by
  obtain ⟨σ, hσ, hb⟩ := hab
  have hσ' : ∀ k, (k < lo ∨ hi ≤ k) → σ.symm k = k := fun k hk => by
    rw [Equiv.symm_apply_eq, hσ k hk]
  have hmap : (List.range' lo (hi - lo)).map b = ((List.range' lo (hi - lo)).map σ).map a := by
    rw [List.map_map]
    exact List.map_congr_left fun i _ => hb i
  rw [hmap]
  refine List.Perm.map a ((List.perm_ext_iff_of_nodup
    ((List.nodup_range' (s := lo) (n := hi - lo)).map σ.injective) List.nodup_range').mpr
    fun i => ?_)
  simp only [List.mem_map, List.mem_range'_1]
  constructor
  · rintro ⟨j, hj, rfl⟩
    have := perm_mem hσ (i := j) ⟨hj.1, by omega⟩
    omega
  · intro hi'
    have := perm_mem hσ' (i := i) ⟨hi'.1, by omega⟩
    exact ⟨σ.symm i, by omega, σ.apply_symm_apply i⟩

/-- A rearranged segment has the same number of entries of every kind. -/
theorem countWhere_eq (hab : PermOn lo hi a b) (p : α → Prop) [DecidablePred p] :
    countWhere (Finset.Ico lo hi) p b = countWhere (Finset.Ico lo hi) p a := by
  obtain ⟨σ, hσ, hb⟩ := hab
  unfold countWhere
  apply Finset.card_nbij' σ σ.symm
  · intro i hin
    simp only [Finset.coe_filter, Finset.mem_Ico, Set.mem_ofPred_eq] at hin ⊢
    exact ⟨perm_mem hσ hin.1, by rw [← hb]; exact hin.2⟩
  · intro i hin
    have hσ' : ∀ k, (k < lo ∨ hi ≤ k) → σ.symm k = k := fun k hk => by
      rw [Equiv.symm_apply_eq, hσ k hk]
    simp only [Finset.coe_filter, Finset.mem_Ico, Set.mem_ofPred_eq] at hin ⊢
    exact ⟨perm_mem hσ' hin.1, by rw [hb, Equiv.apply_symm_apply]; exact hin.2⟩
  · intro i _
    exact σ.symm_apply_apply i
  · intro i _
    exact σ.apply_symm_apply i

end PermOn

/-! ## Comparing windows lexicographically -/

section Window

variable {β : Type*} [LinearOrder β]

/-- The lexicographic order of the windows `offset, …, offset + length - 1` of
`a` and `b`: the order of the first entries there that differ. -/
def windowCompare (a b : ℕ → β) (offset : ℕ) : ℕ → Ordering
  | 0 => .eq
  | length + 1 =>
    if a offset < b offset then .lt
    else if b offset < a offset then .gt
    else windowCompare a b (offset + 1) length

variable {a b c : ℕ → β}

@[simp]
theorem windowCompare_zero (offset : ℕ) : windowCompare a b offset 0 = .eq := rfl

theorem windowCompare_swap (offset length : ℕ) :
    windowCompare b a offset length = (windowCompare a b offset length).swap := by
  induction length generalizing offset with
  | zero => rfl
  | succ length ih =>
    simp only [windowCompare]
    split_ifs <;> first | rfl | exact ih (offset + 1) | exact absurd (lt_trans ‹_› ‹_›) (lt_irrefl _)

/-- Windows compare equal exactly when they hold the same entries. -/
theorem windowCompare_eq_eq_iff (offset length : ℕ) :
    windowCompare a b offset length = .eq ↔ ∀ i, offset ≤ i → i < offset + length → a i = b i := by
  induction length generalizing offset with
  | zero => exact ⟨fun _ i h1 h2 => absurd h2 (by omega), fun _ => rfl⟩
  | succ length ih =>
    simp only [windowCompare]
    split_ifs with hlt hgt
    · simp only [false_iff, not_forall]
      exact ⟨offset, le_rfl, by omega, hlt.ne⟩
    · simp only [false_iff, not_forall]
      exact ⟨offset, le_rfl, by omega, hgt.ne'⟩
    · have hhead : a offset = b offset := le_antisymm (not_lt.mp hgt) (not_lt.mp hlt)
      rw [ih (offset + 1)]
      constructor
      · intro h i hi hi'
        rcases Nat.eq_or_lt_of_le hi with rfl | hi
        · exact hhead
        · exact h i hi (by omega)
      · intro h i hi hi'
        exact h i (by omega) (by omega)

/-- A window is at most another when its first entry is below, or equal and the
rest of the window is at most the other's rest. -/
theorem windowCompare_succ_ne_gt_iff (offset length : ℕ) :
    windowCompare a b offset (length + 1) ≠ .gt ↔
      a offset < b offset ∨ a offset = b offset ∧ windowCompare a b (offset + 1) length ≠ .gt := by
  simp only [windowCompare]
  split_ifs with hlt hgt
  · simp [hlt]
  · simp [hgt.ne', not_lt.mpr hgt.le]
  · have hhead : a offset = b offset := le_antisymm (not_lt.mp hgt) (not_lt.mp hlt)
    simp [hhead]

/-- A window is below another when its first entry is below, or equal and the
rest of the window is below the other's rest. -/
theorem windowCompare_succ_eq_lt_iff (offset length : ℕ) :
    windowCompare a b offset (length + 1) = .lt ↔
      a offset < b offset ∨ a offset = b offset ∧ windowCompare a b (offset + 1) length = .lt := by
  simp only [windowCompare]
  split_ifs with hlt hgt
  · simp [hlt]
  · simp [hgt.ne', not_lt.mpr hgt.le]
  · have hhead : a offset = b offset := le_antisymm (not_lt.mp hgt) (not_lt.mp hlt)
    simp [hhead]

/-- A common prefix of the window can be skipped. -/
theorem windowCompare_of_agree {offset skip : ℕ}
    (h : ∀ i, offset ≤ i → i < offset + skip → a i = b i) (length : ℕ) :
    windowCompare a b offset (skip + length) = windowCompare a b (offset + skip) length := by
  induction skip generalizing offset with
  | zero => rw [Nat.zero_add, Nat.add_zero]
  | succ skip ih =>
    have hhead : a offset = b offset := h offset le_rfl (by omega)
    rw [show skip + 1 + length = (skip + length) + 1 by omega]
    simp only [windowCompare, hhead, lt_irrefl, if_false]
    rw [ih fun i hi hi' => h i (by omega) (by omega)]
    rw [show offset + 1 + skip = offset + (skip + 1) by omega]

/-- Being at most another window is transitive. -/
theorem windowCompare_trans (offset length : ℕ) (hab : windowCompare a b offset length ≠ .gt)
    (hbc : windowCompare b c offset length ≠ .gt) : windowCompare a c offset length ≠ .gt := by
  induction length generalizing offset with
  | zero => exact nofun
  | succ length ih =>
    rw [windowCompare_succ_ne_gt_iff] at hab hbc ⊢
    rcases hab with hab | ⟨hab, hab'⟩ <;> rcases hbc with hbc | ⟨hbc, hbc'⟩
    · exact Or.inl (hab.trans hbc)
    · exact Or.inl (hbc ▸ hab)
    · exact Or.inl (hab ▸ hbc)
    · exact Or.inr ⟨hab.trans hbc, ih (offset + 1) hab' hbc'⟩

/-- A window below another that is at most a third is below the third. -/
theorem windowCompare_lt_of_lt_of_le (offset length : ℕ)
    (hab : windowCompare a b offset length = .lt) (hbc : windowCompare b c offset length ≠ .gt) :
    windowCompare a c offset length = .lt := by
  induction length generalizing offset with
  | zero => exact absurd hab (by simp)
  | succ length ih =>
    rw [windowCompare_succ_eq_lt_iff] at hab ⊢
    rw [windowCompare_succ_ne_gt_iff] at hbc
    rcases hab with hab | ⟨hab, hab'⟩ <;> rcases hbc with hbc | ⟨hbc, hbc'⟩
    · exact Or.inl (hab.trans hbc)
    · exact Or.inl (hbc ▸ hab)
    · exact Or.inl (hab ▸ hbc)
    · exact Or.inr ⟨hab.trans hbc, ih (offset + 1) hab' hbc'⟩

end Window

end SegmentSort
