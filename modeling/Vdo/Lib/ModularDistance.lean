import Mathlib.Data.Nat.ModEq

/-!
# Distances modulo a number

`modDist m a b` is how far `a` lies after `b` counting modulo `m`: for `m` a
power of two that divides the word size it is `(a - b) & (m - 1)` computed in
unsigned arithmetic. It is the one `d < m` with `b + d ≡ a [MOD m]`, so moving
`b` forward by `k ≤ m` lowers it by `k`, wrapping round once when it was
below `k`.
-/

namespace ModDist

/-- How far `a` lies after `b`, modulo `m`. -/
def modDist (m a b : ℕ) : ℕ := (a + m - b % m) % m

variable {m a b : ℕ}

theorem modDist_lt (hm : 0 < m) : modDist m a b < m := Nat.mod_lt _ hm

/-- Going `modDist m a b` on from `b` reaches `a`, modulo `m`. -/
theorem add_modDist_mod (hm : 0 < m) : (b + modDist m a b) % m = a % m := by
  have hsplit := Nat.mod_add_div b m
  have hlt := Nat.mod_lt b hm
  have hsum : b + (a + m - b % m) = a + m * (b / m + 1) := by
    rw [Nat.mul_succ]
    generalize m * (b / m) = q at hsplit ⊢
    omega
  rw [modDist, Nat.add_mod_mod, hsum, Nat.add_mul_mod_self_left]

/-- The distance is the only one below `m` that reaches `a` from `b`. -/
theorem modDist_eq_of_add_mod {d : ℕ} (hd : d < m) (h : (b + d) % m = a % m) : modDist m a b = d := by
  have hm : 0 < m := by omega
  have hcongr : b + modDist m a b ≡ b + d [MOD m] := (add_modDist_mod hm).trans h.symm
  exact (Nat.ModEq.add_left_cancel' b hcongr).eq_of_lt_of_lt (modDist_lt hm) hd

@[simp]
theorem modDist_mod_right : modDist m a (b % m) = modDist m a b := by
  simp [modDist]

/-- Moving the origin forward past the point wraps its distance round. -/
theorem modDist_add_of_lt {k : ℕ} (hk : k ≤ m) (hd : modDist m a b < k) :
    modDist m a (b + k) = modDist m a b + m - k := by
  have hm : 0 < m := by omega
  apply modDist_eq_of_add_mod (by omega)
  have hsum : b + k + (modDist m a b + m - k) = b + modDist m a b + m * 1 := by omega
  rw [hsum, Nat.add_mul_mod_self_left, add_modDist_mod hm]

/-- Moving the origin forward up to the point shortens its distance. -/
theorem modDist_add_of_le {k : ℕ} (hm : 0 < m) (hd : k ≤ modDist m a b) :
    modDist m a (b + k) = modDist m a b - k := by
  have hlt : modDist m a b < m := modDist_lt hm
  apply modDist_eq_of_add_mod (by omega)
  have hsum : b + k + (modDist m a b - k) = b + modDist m a b := by omega
  rw [hsum, add_modDist_mod hm]

/-- After the origin moves forward by `k`, the points within the last `k` of
the circle are those that lay within `k` after the old origin. -/
theorem sub_le_modDist_add_iff {k : ℕ} (hk : k ≤ m) (hm : 0 < m) :
    m - k ≤ modDist m a (b + k) ↔ modDist m a b < k := by
  have hlt : modDist m a b < m := modDist_lt hm
  by_cases hd : modDist m a b < k
  · rw [modDist_add_of_lt hk hd]
    omega
  · rw [modDist_add_of_le hm (by omega)]
    omega

end ModDist
