import Mathlib

/-!
# Binary search trees laid out in heap order

A complete binary tree of `n` nodes is kept in an array in heap order: the root
at index `0`, the children of node `i` at `2 * i + 1` and `2 * i + 2`, and a node
exists when its index is below `n`. `inorder n node` lists the subtree at `node`
in order. Counting from one, the subtree of `node` holds the indices whose binary
digits start with those of `node + 1` (`mem_inorder`), and the in-order list of
the whole tree holds every index below `n` once (`inorder_zero_perm`).

`search cmp n node` walks down from `node`, comparing the target with each node
(`cmp`): on `.eq` it returns the node, on `.lt` it goes to the left child, on
`.gt` to the right one. When the comparisons run from `.gt` to `.lt` along the
in-order list (`SearchOrdered`, as when the keys increase along it), the search
finds a node that compares equal exactly when there is one (`search_eq_none_iff`).
It compares the target with at most `log₂ n + 1` nodes (`length_visits_le`),
since the index of the node at depth `d` is at least `2 ^ d - 1`.
-/

namespace HeapTree

/-! ## The in-order list of a subtree -/

/-- The nodes of the subtree at `node` in order: the left subtree, the node, the
right subtree. -/
def inorder (n node : ℕ) : List ℕ :=
  if node < n then inorder n (2 * node + 1) ++ node :: inorder n (2 * node + 2) else []
termination_by n - node

variable {n node : ℕ}

theorem inorder_of_lt (h : node < n) :
    inorder n node = inorder n (2 * node + 1) ++ node :: inorder n (2 * node + 2) := by
  rw [inorder, if_pos h]

@[simp]
theorem inorder_of_le (h : n ≤ node) : inorder n node = [] := by
  rw [inorder, if_neg (by omega)]

/-- Going up `j` levels is going up `k` levels and then `j - k` more. -/
theorem div_pow_of_le {x k j : ℕ} (h : k ≤ j) : x / 2 ^ j = x / 2 ^ k / 2 ^ (j - k) := by
  rw [Nat.div_div_eq_div_mul, ← Nat.pow_add, Nat.add_sub_cancel' h]

theorem div_pow_succ (x k : ℕ) : x / 2 ^ (k + 1) = x / 2 ^ k / 2 := by
  rw [Nat.pow_succ, Nat.div_div_eq_div_mul]

/-- The subtree of `node` holds the indices below `n` that have `node` as an
ancestor: going up from `x + 1` some number of levels reaches `node + 1`. -/
theorem mem_inorder {x : ℕ} :
    x ∈ inorder n node ↔ x < n ∧ ∃ k, (x + 1) / 2 ^ k = node + 1 := by
  fun_induction inorder n node with
  | case1 node hlt ihl ihr =>
    rw [List.mem_append, List.mem_cons, ihl, ihr]
    constructor
    · rintro (⟨hx, k, hk⟩ | rfl | ⟨hx, k, hk⟩)
      · exact ⟨hx, k + 1, by rw [div_pow_succ, hk]; omega⟩
      · exact ⟨hlt, 0, by simp⟩
      · exact ⟨hx, k + 1, by rw [div_pow_succ, hk]; omega⟩
    · rintro ⟨hx, k, hk⟩
      rcases k with _ | k
      · simp only [pow_zero, Nat.div_one, Nat.add_right_cancel_iff] at hk
        exact Or.inr (Or.inl hk)
      · rw [div_pow_succ] at hk
        rcases (by omega : (x + 1) / 2 ^ k = 2 * node + 1 + 1 ∨
            (x + 1) / 2 ^ k = 2 * node + 2 + 1) with h | h
        · exact Or.inl ⟨hx, k, h⟩
        · exact Or.inr (Or.inr ⟨hx, k, h⟩)
  | case2 node hge =>
    simp only [List.not_mem_nil, false_iff, not_and, not_exists]
    intro hx k hk
    have := Nat.div_le_self (x + 1) (2 ^ k)
    omega

/-- Going up at least one level at least halves. -/
theorem div_pow_le_half (a : ℕ) {c : ℕ} (hc : 0 < c) : a / 2 ^ c ≤ a / 2 :=
  Nat.div_le_div_left (by calc 2 = 2 ^ 1 := rfl
    _ ≤ 2 ^ c := Nat.pow_le_pow_right (by omega) hc) (by omega)

/-- Sibling subtrees are disjoint: going up from one index cannot reach both
children of a node. -/
theorem not_mem_both {x : ℕ} (hl : x ∈ inorder n (2 * node + 1))
    (hr : x ∈ inorder n (2 * node + 2)) : False := by
  obtain ⟨-, k, hk⟩ := mem_inorder.mp hl
  obtain ⟨-, j, hj⟩ := mem_inorder.mp hr
  rcases Nat.le_total k j with hkj | hjk
  · rw [div_pow_of_le hkj, hk] at hj
    rcases Nat.eq_zero_or_pos (j - k) with h0 | hpos
    · rw [h0] at hj
      omega
    · have := div_pow_le_half (2 * node + 1 + 1) hpos
      omega
  · rw [div_pow_of_le hjk, hj] at hk
    rcases Nat.eq_zero_or_pos (k - j) with h0 | hpos
    · rw [h0] at hk
      omega
    · have := div_pow_le_half (2 * node + 2 + 1) hpos
      omega

/-- A node is in neither of its subtrees. -/
theorem not_mem_children {i : ℕ} (hi : i = 1 ∨ i = 2) : node ∉ inorder n (2 * node + i) := by
  rw [mem_inorder]
  rintro ⟨-, k, hk⟩
  have := Nat.div_le_self (node + 1) (2 ^ k)
  omega

theorem nodup_inorder : (inorder n node).Nodup := by
  fun_induction inorder n node with
  | case1 node hlt ihl ihr =>
    refine List.nodup_append.mpr ⟨ihl, List.nodup_cons.mpr ⟨not_mem_children (Or.inr rfl), ihr⟩,
      fun x hx y hy hxy => ?_⟩
    subst hxy
    rcases List.mem_cons.mp hy with rfl | hy
    · exact not_mem_children (Or.inl rfl) hx
    · exact not_mem_both hx hy
  | case2 => exact List.nodup_nil

/-- Every index has the root as an ancestor. -/
theorem exists_div_pow_eq_one (x : ℕ) : ∃ k, (x + 1) / 2 ^ k = 1 := by
  refine ⟨Nat.log 2 (x + 1), Nat.div_eq_of_lt_le ?_ ?_⟩
  · rw [Nat.one_mul]
    exact Nat.pow_log_le_self 2 (by omega)
  · rw [show (1 + 1) * 2 ^ Nat.log 2 (x + 1) = 2 ^ (Nat.log 2 (x + 1)).succ by
      rw [Nat.pow_succ]; ring]
    exact Nat.lt_pow_succ_log_self (by omega) (x + 1)

/-- The in-order list of the whole tree holds each index below `n` once. -/
theorem inorder_zero_perm : (inorder n 0).Perm (List.range n) := by
  refine (List.perm_ext_iff_of_nodup nodup_inorder List.nodup_range).mpr fun x => ?_
  rw [mem_inorder, List.mem_range]
  exact ⟨fun h => h.1, fun h => ⟨h, exists_div_pow_eq_one x⟩⟩

@[simp]
theorem length_inorder_zero : (inorder n 0).length = n := by
  rw [inorder_zero_perm.length_eq, List.length_range]

/-! ## Searching down the tree -/

variable (cmp : ℕ → Ordering)

/-- Search down from `node`; `cmp` compares the target with a node's key. -/
def search (n node : ℕ) : Option ℕ :=
  if node < n then
    match cmp node with
    | .eq => some node
    | .lt => search n (2 * node + 1)
    | .gt => search n (2 * node + 2)
  else none
termination_by n - node

/-- The nodes `search` compares the target with, in order. -/
def visits (n node : ℕ) : List ℕ :=
  if node < n then
    match cmp node with
    | .eq => [node]
    | .lt => node :: visits n (2 * node + 1)
    | .gt => node :: visits n (2 * node + 2)
  else []
termination_by n - node

/-- Along a list of nodes, the comparisons with the target run from `.gt` to
`.lt`: the target is below every node after one it is below, and above every node
before one it is above. -/
def SearchOrdered (l : List ℕ) : Prop :=
  l.Pairwise fun x y => (cmp x = .lt → cmp y = .lt) ∧ (cmp y = .gt → cmp x = .gt)

variable {cmp}

/-- A node the search returns is in the subtree and compares equal. -/
theorem search_sound {m : ℕ} (h : search cmp n node = some m) :
    m ∈ inorder n node ∧ cmp m = .eq := by
  fun_induction search cmp n node with
  | case1 node hlt heq =>
    cases h
    exact ⟨by rw [inorder_of_lt hlt]; simp, heq⟩
  | case2 node hlt hcmp ih =>
    obtain ⟨hm, heq⟩ := ih h
    exact ⟨by rw [inorder_of_lt hlt]; exact List.mem_append_left _ hm, heq⟩
  | case3 node hlt hcmp ih =>
    obtain ⟨hm, heq⟩ := ih h
    exact ⟨by rw [inorder_of_lt hlt]; exact List.mem_append_right _ (List.mem_cons_of_mem _ hm),
      heq⟩
  | case4 node hge => cases h

/-- When the comparisons are ordered along the subtree, the search finds a node
whenever some node of the subtree compares equal: a target below a node is below
its whole right subtree, and one above it above its whole left subtree. -/
theorem search_complete (hordered : SearchOrdered cmp (inorder n node)) {m : ℕ}
    (hm : m ∈ inorder n node) (heq : cmp m = .eq) : (search cmp n node).isSome := by
  fun_induction search cmp n node with
  | case1 node hlt hcmp => simp
  | case2 node hlt hcmp ih =>
    rw [inorder_of_lt hlt] at hordered hm
    obtain ⟨hleft, hright, -⟩ := List.pairwise_append.mp hordered
    refine ih hleft ?_
    rcases List.mem_append.mp hm with hm | hm
    · exact hm
    · rcases List.mem_cons.mp hm with rfl | hm
      · rw [hcmp] at heq
        cases heq
      · rw [(List.pairwise_cons.mp hright).1 m hm |>.1 hcmp] at heq
        cases heq
  | case3 node hlt hcmp ih =>
    rw [inorder_of_lt hlt] at hordered hm
    obtain ⟨-, hright, hcross⟩ := List.pairwise_append.mp hordered
    refine ih (List.pairwise_cons.mp hright).2 ?_
    rcases List.mem_append.mp hm with hm | hm
    · rw [(hcross m hm node List.mem_cons_self).2 hcmp] at heq
      cases heq
    · rcases List.mem_cons.mp hm with rfl | hm
      · rw [hcmp] at heq
        cases heq
      · exact hm
  | case4 node hge => simp [inorder_of_le (Nat.le_of_not_lt hge)] at hm

/-- With the comparisons ordered, the search fails exactly when no node of the
subtree compares equal. -/
theorem search_eq_none_iff (hordered : SearchOrdered cmp (inorder n node)) :
    search cmp n node = none ↔ ∀ m ∈ inorder n node, cmp m ≠ .eq := by
  constructor
  · intro hnone m hm heq
    have := search_complete hordered hm heq
    rw [hnone] at this
    cases this
  · intro hne
    by_contra hsome
    obtain ⟨m, hm⟩ := Option.ne_none_iff_exists'.mp hsome
    exact hne m (search_sound hm).1 (search_sound hm).2

/-! ## The depth of a search -/

/-- One step down keeps the depth bound: the child's index counted from one is at
least twice the node's. -/
theorem pow_length_cons_le {l : List ℕ} {c : ℕ} (hlt : node < n) (hc : 2 * (node + 1) ≤ c + 1)
    (ih : l ≠ [] → 2 ^ (l.length - 1) * (c + 1) ≤ n) :
    2 ^ ((node :: l).length - 1) * (node + 1) ≤ n := by
  by_cases hl : l = []
  · subst hl
    simpa using hlt
  · have hpath := ih hl
    obtain ⟨d, hd⟩ : ∃ d, l.length = d + 1 :=
      ⟨l.length - 1, by have := List.length_pos_of_ne_nil hl; omega⟩
    rw [hd, Nat.add_sub_cancel] at hpath
    rw [List.length_cons, hd, Nat.add_sub_cancel]
    calc 2 ^ (d + 1) * (node + 1) = 2 ^ d * (2 * (node + 1)) := by ring
      _ ≤ 2 ^ d * (c + 1) := Nat.mul_le_mul_left _ hc
      _ ≤ n := hpath

/-- A path of `d + 1` nodes from `node` ends at an index of at least
`2 ^ d * (node + 1) - 1`, below `n`: each step down at least doubles the index
counted from one. -/
theorem pow_length_visits_le (hne : visits cmp n node ≠ []) :
    2 ^ ((visits cmp n node).length - 1) * (node + 1) ≤ n := by
  fun_induction visits cmp n node with
  | case1 node hlt hcmp => simpa using hlt
  | case2 node hlt hcmp ih => exact pow_length_cons_le hlt (by omega) ih
  | case3 node hlt hcmp ih => exact pow_length_cons_le hlt (by omega) ih
  | case4 node hge => exact absurd rfl hne

/-- A search compares the target with at most `log₂ n + 1` nodes. -/
theorem length_visits_le : (visits cmp n 0).length ≤ Nat.log 2 n + 1 := by
  by_cases hne : visits cmp n 0 = []
  · rw [hne, List.length_nil]
    omega
  · have hpow := pow_length_visits_le hne
    rw [Nat.mul_one] at hpow
    have := Nat.le_log_of_pow_le (by omega) hpow
    omega

end HeapTree
