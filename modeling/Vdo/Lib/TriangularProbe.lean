import Mathlib.Data.Nat.ModEq
import Mathlib.Algebra.Order.Group.Nat
import Mathlib.Data.Fintype.Card
import Mathlib.Data.Fintype.Fin
import Mathlib.Data.Nat.Prime.Basic
import Mathlib.Tactic.Ring
import Mathlib.Tactic.NormNum

/-!
# Triangular probing modulo a power of two

Quadratic probing that advances the probe by `1, 2, 3, …` visits the positions
`(start + triangle j) % size` for `j = 0, 1, 2, …`. When `size` is a power of
two the first `size` of them are distinct, so they are every position of the
table: a probe that stops at the first free position finds one within `size`
probes whenever the table is not full.
-/

namespace TriangularProbe

/-- The `j`-th triangular number, `0 + 1 + ⋯ + j`. -/
def triangle (j : ℕ) : ℕ := j * (j + 1) / 2

theorem two_mul_triangle (j : ℕ) : 2 * triangle j = j * (j + 1) := by
  unfold triangle
  have heven : 2 ∣ j * (j + 1) := (Nat.even_mul_succ_self j).two_dvd
  omega

@[simp] theorem triangle_zero : triangle 0 = 0 := rfl

theorem triangle_succ (j : ℕ) : triangle (j + 1) = triangle j + (j + 1) := by
  have h := two_mul_triangle j
  have h' := two_mul_triangle (j + 1)
  have hmul : (j + 1) * (j + 1 + 1) = j * (j + 1) + 2 * (j + 1) := by ring
  omega

theorem triangle_mono {i j : ℕ} (h : j ≤ i) : triangle j ≤ triangle i := by
  unfold triangle
  exact Nat.div_le_div_right (Nat.mul_le_mul h (Nat.succ_le_succ h))

/-- The difference of two triangular numbers factors as
`(i - j) * (i + j + 1) / 2`. -/
theorem two_mul_triangle_sub {i j : ℕ} (h : j ≤ i) :
    2 * (triangle i - triangle j) = (i - j) * (i + j + 1) := by
  obtain ⟨d, rfl⟩ := Nat.exists_eq_add_of_le h
  have hi := two_mul_triangle (j + d)
  have hj := two_mul_triangle j
  have hexpand : (j + d) * (j + d + 1) = j * (j + 1) + d * (j + d + j + 1) := by ring
  rw [Nat.add_sub_cancel_left, Nat.mul_sub, hi, hj, hexpand, Nat.add_sub_cancel_left]

/-- The first `2 ^ k` triangular numbers are distinct modulo `2 ^ k`: of
`i - j` and `i + j + 1` one is odd, so the other would take all `k + 1`
factors of two of `2 * (triangle i - triangle j)`, and both are too small. -/
theorem triangle_mod_injective {k i j : ℕ} (hi : i < 2 ^ k) (hj : j < 2 ^ k)
    (heq : triangle i % 2 ^ k = triangle j % 2 ^ k) : i = j := by
  wlog hlt : j < i generalizing i j
  · rcases Nat.lt_or_ge i j with hij | hji
    · exact (this hj hi heq.symm hij).symm
    · omega
  exfalso
  have hdvd : 2 ^ k ∣ triangle i - triangle j :=
    (Nat.modEq_iff_dvd' (triangle_mono hlt.le)).mp heq.symm
  have hdvd2 : 2 ^ (k + 1) ∣ (i - j) * (i + j + 1) := by
    rw [← two_mul_triangle_sub hlt.le, pow_succ, Nat.mul_comm (2 ^ k) 2]
    exact Nat.mul_dvd_mul_left 2 hdvd
  have hpow : 2 ^ k < 2 ^ (k + 1) := Nat.pow_lt_pow_right (by norm_num) (Nat.lt_succ_self k)
  rcases Nat.even_or_odd (i - j) with heven | hodd
  · have hodd' : Odd (i + j + 1) := by
      obtain ⟨m, hm⟩ := heven
      exact ⟨m + j, by omega⟩
    have hcop : Nat.Coprime (2 ^ (k + 1)) (i + j + 1) :=
      Nat.Coprime.pow_left _ (Nat.coprime_two_left.mpr hodd')
    have := Nat.le_of_dvd (by omega) (hcop.dvd_of_dvd_mul_right hdvd2)
    omega
  · have hcop : Nat.Coprime (2 ^ (k + 1)) (i - j) :=
      Nat.Coprime.pow_left _ (Nat.coprime_two_left.mpr hodd)
    have := Nat.le_of_dvd (by omega) (hcop.dvd_of_dvd_mul_left hdvd2)
    rw [pow_succ] at this
    omega

/-- Every position of a table of `2 ^ k` positions is among the first `2 ^ k`
positions of the probe sequence from any start. -/
theorem exists_probe_eq {k start s : ℕ} (hs : s < 2 ^ k) :
    ∃ j < 2 ^ k, (start + triangle j) % 2 ^ k = s := by
  let f : Fin (2 ^ k) → Fin (2 ^ k) := fun j =>
    ⟨(start + triangle j) % 2 ^ k, Nat.mod_lt _ (Nat.two_pow_pos k)⟩
  have hinj : Function.Injective f := by
    intro i j hij
    have hmod : (start + triangle i) % 2 ^ k = (start + triangle j) % 2 ^ k :=
      congrArg Fin.val hij
    exact Fin.ext (triangle_mod_injective i.isLt j.isLt (Nat.ModEq.add_left_cancel' start hmod))
  obtain ⟨j, hj⟩ := Finite.surjective_of_injective hinj ⟨s, hs⟩
  exact ⟨j, j.isLt, congrArg Fin.val hj⟩

/-- The code's step, add and reduce only when the sum reaches the size, is the
step modulo the size. -/
theorem probe_reduce_eq_mod (probe step size : ℕ) :
    (if size ≤ probe + step then (probe + step) % size else probe + step) = (probe + step) % size := by
  split_ifs with hge
  · rfl
  · exact (Nat.mod_eq_of_lt (Nat.lt_of_not_le hge)).symm

/-- Advancing the probe of attempt `j` by `j + 1` gives the probe of attempt
`j + 1`. -/
theorem probe_succ (start j size : ℕ) :
    ((start + triangle j) % size + (j + 1)) % size = (start + triangle (j + 1)) % size := by
  rw [triangle_succ, Nat.mod_add_mod, Nat.add_assoc]

end TriangularProbe
