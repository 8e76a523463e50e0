import Mathlib.Data.Int.CardIntervalMod

/-!
# The numbers of an interval in one residue class

How many numbers of `[f, L)` leave the remainder `ρ` modulo `r`, and which
quotients they have: a table of `L - f` entries dealt out to `r` owners by
remainder, each owner numbering its entries by quotient, gives every owner
`(L - f) / r` entries, one more to the owners whose remainder comes first after
`f`'s, and numbers them without gaps. Shifting the interval to start at zero
turns the remainder `ρ` into `(ρ + r - f % r) % r`; the count over `[0, n)` is
Mathlib's `Nat.count_modEq_card`.
-/

namespace ResidueCount

open Finset

variable {r : ℕ}

/-- A number below twice the modulus loses the modulus at most once. -/
theorem mod_of_lt_add {s : ℕ} (h : s < r + r) : s % r = if s < r then s else s - r := by
  split_ifs with hs
  · exact Nat.mod_eq_of_lt hs
  · rw [Nat.mod_eq_sub_mod (by omega), Nat.mod_eq_of_lt (by omega)]

/-- The remainder of the number before a positive one. -/
theorem sub_one_mod {n : ℕ} (hn : 0 < n) (hr : 0 < r) :
    (n - 1) % r = if n % r = 0 then r - 1 else n % r - 1 := by
  have hdiv := Nat.div_add_mod n r
  have hlt := Nat.mod_lt n hr
  split_ifs with hs
  · have hq : 0 < n / r := Nat.pos_of_ne_zero fun hq => by rw [hq] at hdiv; omega
    have hsplit : n - 1 = (r - 1) + r * (n / r - 1) := by
      rw [Nat.mul_sub_one]
      have : r ≤ r * (n / r) := Nat.le_mul_of_pos_right r hq
      omega
    rw [hsplit, Nat.add_mul_mod_self_left, Nat.mod_eq_of_lt (by omega)]
  · have hsplit : n - 1 = (n % r - 1) + r * (n / r) := by omega
    rw [hsplit, Nat.add_mul_mod_self_left, Nat.mod_eq_of_lt (by omega)]

/-- Past `f`, the remainder `ρ` is the remainder `(ρ + r - f % r) % r` of the
distance from `f`. -/
theorem mod_eq_iff_sub_mod_eq {f p ρ : ℕ} (hr : 0 < r) (hρ : ρ < r) (hle : f ≤ p) :
    p % r = ρ ↔ (p - f) % r = (ρ + r - f % r) % r := by
  have hmod : p % r = (f % r + (p - f) % r) % r := by
    rw [← Nat.add_mod, Nat.add_sub_cancel' hle]
  have hf := Nat.mod_lt f hr
  have hx := Nat.mod_lt (p - f) hr
  rw [hmod, mod_of_lt_add (by omega : f % r + (p - f) % r < r + r),
    mod_of_lt_add (by omega : ρ + r - f % r < r + r)]
  split_ifs <;> omega

/-- The number of owners' entries `(L - f) / r`, one more when the owner's
shifted remainder comes before the remainder of the length. -/
def classCount (r f L ρ : ℕ) : ℕ :=
  (L - f) / r + if (ρ + r - f % r) % r < (L - f) % r then 1 else 0

/-- The numbers below `n` of remainder `d`: `n / r`, one more when `d` comes
before `n`'s remainder. -/
theorem card_filter_range_mod (hr : 0 < r) {d : ℕ} (hd : d < r) (n : ℕ) :
    ((range n).filter (· % r = d)).card = n / r + if d < n % r then 1 else 0 := by
  have hcount := Nat.count_modEq_card (b := n) hr d
  rw [Nat.count_eq_card_filter_range, Nat.mod_eq_of_lt hd] at hcount
  simpa only [Nat.ModEq, Nat.mod_eq_of_lt hd] using hcount

/-- The numbers of `[f, L)` of remainder `ρ` are `f` plus the numbers below
`L - f` of the shifted remainder. -/
theorem filter_Ico_mod_eq_map (hr : 0 < r) {f L ρ : ℕ} (hρ : ρ < r) :
    (Ico f L).filter (· % r = ρ) =
      ((range (L - f)).filter (· % r = (ρ + r - f % r) % r)).map (addLeftEmbedding f) := by
  ext p
  simp only [mem_filter, mem_Ico, mem_map, mem_range, addLeftEmbedding_apply]
  constructor
  · rintro ⟨⟨hfp, hpL⟩, hpρ⟩
    exact ⟨p - f, ⟨by omega, (mod_eq_iff_sub_mod_eq hr hρ hfp).1 hpρ⟩, by omega⟩
  · rintro ⟨x, ⟨hx, hxd⟩, rfl⟩
    refine ⟨⟨by omega, by omega⟩, (mod_eq_iff_sub_mod_eq hr hρ (Nat.le_add_right f x)).2 ?_⟩
    rwa [Nat.add_sub_cancel_left]

/-- Every owner gets its `classCount` of the numbers of `[f, L)`. -/
theorem card_filter_Ico_mod (hr : 0 < r) {f L ρ : ℕ} (hρ : ρ < r) :
    ((Ico f L).filter (· % r = ρ)).card = classCount r f L ρ := by
  rw [filter_Ico_mod_eq_map hr hρ, card_map, card_filter_range_mod hr (Nat.mod_lt _ hr), classCount]

end ResidueCount
