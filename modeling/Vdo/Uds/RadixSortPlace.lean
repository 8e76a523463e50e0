import Mathlib
import Vdo.Uds.RadixSortPiles

/-!
# Moving the keys into their piles

The fence loop of `radixSort` moves every key of a task into the pile of its
byte at the task's offset. Below the fence every pile is complete; above it, the
slots of a pile from its pile pointer up hold keys of that pile. The key at the
fence is taken in hand and swapped into its pile just below the pile pointer,
and the key it displaces taken in hand, until the pointer of the key's pile
reaches the fence: the key then completes the pile at the fence and the fence
moves past that pile. The keys not yet placed have, bin by bin, as many slots
left in their piles as there are keys (`Placing.exists_unplaced`), which is why
a pile pointer always finds a slot of its own above the fence. The loop leaves
every key in its pile and the histogram cleared (`placePiles_spec`).
-/

namespace Vdo.Uds

namespace RadixSort

open SegmentSort IndexCount

variable {κ : Type*}

/-- The bin whose pile holds position `p`: the last bin whose pile starts at or
before `p`. -/
def pileOf (firstKey : ℕ) (size : ℕ → ℕ) (p : ℕ) : ℕ :=
  Nat.findGreatest (fun b => startOfPile firstKey size b ≤ p) 256

/-- What the fence loop takes from `measureBins`: the bin sizes count the task's
keys by their byte at `offset`, and `last` is the last nonempty bin. -/
structure Tally (bytes : κ → ℕ → UInt8) (keys : ℕ → κ) (offset firstKey lastKey : ℕ)
    (size : ℕ → ℕ) (last : ℕ) : Prop where
  size_eq : ∀ b, size b =
    countWhere (Finset.Ico firstKey (lastKey + 1)) (fun key => (bytes key offset).toNat = b) keys
  last_lt : last < 256
  size_last : size last ≠ 0
  above_last : ∀ b, last < b → size b = 0
  first_le : firstKey ≤ lastKey

namespace Tally

variable {bytes : κ → ℕ → UInt8} {keys : ℕ → κ} {offset firstKey lastKey : ℕ} {size : ℕ → ℕ}
  {last : ℕ}

/-- All the bins together hold every key of the task. -/
theorem startOfPile_top (ht : Tally bytes keys offset firstKey lastKey size last) :
    startOfPile firstKey size 256 = lastKey + 1 := by
  have hfiber := Finset.card_eq_sum_card_fiberwise (f := fun p => (bytes (keys p) offset).toNat)
    (s := Finset.Ico firstKey (lastKey + 1)) (t := Finset.range 256)
    fun p _ => Finset.mem_range.mpr (UInt8.toNat_lt _)
  rw [Nat.card_Ico] at hfiber
  have hsum : ∑ b ∈ Finset.range 256, size b =
      ∑ b ∈ Finset.range 256, {p ∈ Finset.Ico firstKey (lastKey + 1) |
        (bytes (keys p) offset).toNat = b}.card :=
    Finset.sum_congr rfl fun b _ => ht.size_eq b
  rw [startOfPile, hsum, ← hfiber]
  have := ht.first_le
  omega

/-- The piles end with the pile of `last`: the bins above it are empty. -/
theorem startOfPile_last_succ (ht : Tally bytes keys offset firstKey lastKey size last) :
    startOfPile firstKey size (last + 1) = lastKey + 1 := by
  have hempty : startOfPile firstKey size 256 = startOfPile firstKey size (last + 1) :=
    startOfPile_of_empty (by have := ht.last_lt; omega) fun b hb _ => ht.above_last b (by omega)
  rw [← hempty, ht.startOfPile_top]

/-- The pile of `last` ends the task. -/
theorem startOfPile_last (ht : Tally bytes keys offset firstKey lastKey size last) :
    startOfPile firstKey size last + size last = lastKey + 1 := by
  rw [← startOfPile_succ, ht.startOfPile_last_succ]

/-- A position lies in the pile of one bin only. -/
theorem pileOf_eq (ht : Tally bytes keys offset firstKey lastKey size last) {p b : ℕ}
    (hstart : startOfPile firstKey size b ≤ p) (hend : p < startOfPile firstKey size (b + 1)) :
    pileOf firstKey size p = b := by
  have hb : b < 256 := by
    by_contra hge
    have hempty := ht.above_last b (by have := ht.last_lt; omega)
    rw [startOfPile_succ, hempty] at hend
    omega
  rw [pileOf, Nat.findGreatest_eq_iff]
  refine ⟨hb.le, fun _ => hstart, fun n hn _ hle => ?_⟩
  have hmono : startOfPile firstKey size (b + 1) ≤ startOfPile firstKey size n :=
    startOfPile_mono (by omega)
  omega

/-- Every position of the task lies in the pile of `pileOf`. -/
theorem pileOf_spec (ht : Tally bytes keys offset firstKey lastKey size last) {p : ℕ}
    (hfirst : firstKey ≤ p) (hlast : p ≤ lastKey) :
    startOfPile firstKey size (pileOf firstKey size p) ≤ p ∧
      p < startOfPile firstKey size (pileOf firstKey size p + 1) := by
  have hzero : startOfPile firstKey size 0 ≤ p := by rwa [startOfPile_zero]
  have hstart : startOfPile firstKey size (pileOf firstKey size p) ≤ p :=
    Nat.findGreatest_spec (P := fun b => startOfPile firstKey size b ≤ p) (Nat.zero_le 256) hzero
  refine ⟨hstart, ?_⟩
  have hle : pileOf firstKey size p ≤ 256 := Nat.findGreatest_le 256
  by_contra hge
  rcases Nat.lt_or_ge (pileOf firstKey size p) 256 with hlt | heq
  · exact Nat.findGreatest_is_greatest (P := fun b => startOfPile firstKey size b ≤ p)
      (Nat.lt_succ_self _) (show pileOf firstKey size p + 1 ≤ 256 by omega) (not_lt.mp hge)
  · have htop : startOfPile firstKey size (last + 1) ≤
        startOfPile firstKey size (pileOf firstKey size p) :=
      startOfPile_mono (by have := ht.last_lt; omega)
    rw [ht.startOfPile_last_succ] at htop
    omega

/-- The pile of a bin has as many positions as the bin has keys. -/
theorem countWhere_pileOf (ht : Tally bytes keys offset firstKey lastKey size last) (b : ℕ) :
    countWhere (Finset.Ico firstKey (lastKey + 1)) (· = b) (pileOf firstKey size) = size b := by
  have hpile : (Finset.Ico firstKey (lastKey + 1)).filter (fun p => pileOf firstKey size p = b) =
      Finset.Ico (startOfPile firstKey size b) (startOfPile firstKey size (b + 1)) := by
    ext p
    simp only [Finset.mem_filter, Finset.mem_Ico]
    constructor
    · rintro ⟨⟨hfirst, hlast⟩, rfl⟩
      exact ht.pileOf_spec hfirst (by omega)
    · rintro ⟨hstart, hend⟩
      have hfirst : firstKey ≤ p := le_trans (by simp) (le_trans (startOfPile_mono
        (Nat.zero_le b)) hstart)
      have hlast : p < lastKey + 1 := by
        by_cases hb : b ≤ last
        · rw [← ht.startOfPile_last_succ]
          exact lt_of_lt_of_le hend (startOfPile_mono (by omega))
        · rw [startOfPile_succ, ht.above_last b (by omega)] at hend
          omega
      exact ⟨⟨hfirst, hlast⟩, ht.pileOf_eq hstart hend⟩
  rw [countWhere, hpile, Nat.card_Ico, startOfPile_succ]
  omega

end Tally

/-- The positions from the fence on that lie below their pile's pointer: the
slots still to fill. -/
def unplaced (firstKey lastKey : ℕ) (size pile : ℕ → ℕ) (fence : ℕ) : Finset ℕ :=
  (Finset.Ico fence (lastKey + 1)).filter fun p => p < pile (pileOf firstKey size p)

theorem mem_unplaced {firstKey lastKey fence p : ℕ} {size pile : ℕ → ℕ} :
    p ∈ unplaced firstKey lastKey size pile fence ↔
      fence ≤ p ∧ p ≤ lastKey ∧ p < pile (pileOf firstKey size p) := by
  simp only [unplaced, Finset.mem_filter, Finset.mem_Ico]
  omega

/-- The state of the fence loop at `fence`, with `keys` the array as it is with
the key in hand put back at the fence: a rearrangement of the task's keys
`keys0`; the fence at a pile boundary; every key below the fence, and every key
from its pile's pointer up, in its own pile; the pointers of the piles from the
fence on within their piles; and the sizes of the last pile and of the piles
behind the fence cleared. -/
structure Placing (bytes : κ → ℕ → UInt8) (keys0 : ℕ → κ) (offset firstKey lastKey : ℕ)
    (size : ℕ → ℕ) (last : ℕ) (keys : ℕ → κ) (pile sizeLeft : ℕ → ℕ) (fence : ℕ) : Prop where
  perm : PermOn firstKey (lastKey + 1) keys0 keys
  first_le : firstKey ≤ fence
  fence_le : fence ≤ startOfPile firstKey size last
  boundary : ∀ b, startOfPile firstKey size (b + 1) ≤ fence ∨ fence ≤ startOfPile firstKey size b
  pile_bounds : ∀ b, fence ≤ startOfPile firstKey size b → size b ≠ 0 →
    startOfPile firstKey size b ≤ pile b ∧ pile b ≤ startOfPile firstKey size (b + 1)
  placed : ∀ p, firstKey ≤ p → p ≤ lastKey → (p < fence ∨ pile (pileOf firstKey size p) ≤ p) →
    (bytes (keys p) offset).toNat = pileOf firstKey size p
  sizes_ahead : ∀ b, fence ≤ startOfPile firstKey size b → b ≠ last → sizeLeft b = size b
  sizes_behind : ∀ b, startOfPile firstKey size (b + 1) ≤ fence → sizeLeft b = 0
  size_last : sizeLeft last = 0

namespace Placing

variable {bytes : κ → ℕ → UInt8} {keys0 : ℕ → κ} {offset firstKey lastKey : ℕ} {size : ℕ → ℕ}
  {last : ℕ} {keys : ℕ → κ} {pile sizeLeft : ℕ → ℕ} {fence : ℕ}

/-- Every unplaced key has a slot left in its pile: bin by bin, the unplaced
keys are as many as the slots still to fill. -/
theorem exists_unplaced (ht : Tally bytes keys0 offset firstKey lastKey size last)
    (hp : Placing bytes keys0 offset firstKey lastKey size last keys pile sizeLeft fence) {p : ℕ}
    (hpu : p ∈ unplaced firstKey lastKey size pile fence) :
    ∃ q ∈ unplaced firstKey lastKey size pile fence,
      pileOf firstKey size q = (bytes (keys p) offset).toNat := by
  set x := (bytes (keys p) offset).toNat
  set task := Finset.Ico firstKey (lastKey + 1)
  set slots := unplaced firstKey lastKey size pile fence
  have hsub : slots ⊆ task := fun q hq => by
    rw [mem_unplaced] at hq
    have := hp.first_le
    exact Finset.mem_Ico.mpr ⟨by omega, by omega⟩
  have hsplit : task = slots ∪ (task \ slots) := (Finset.union_sdiff_of_subset hsub).symm
  have hkeys : countWhere task (fun key => (bytes key offset).toNat = x) keys = size x := by
    rw [hp.perm.countWhere_eq, ht.size_eq x]
  have hpiles : countWhere task (· = x) (pileOf firstKey size) = size x := ht.countWhere_pileOf x
  have hrest : countWhere (task \ slots) (fun key => (bytes key offset).toNat = x) keys =
      countWhere (task \ slots) (· = x) (pileOf firstKey size) := by
    refine countWhere_congr_iff fun q hq => ?_
    obtain ⟨hqt, hqo⟩ := Finset.mem_sdiff.mp hq
    have hq' := Finset.mem_Ico.mp hqt
    rw [hp.placed q hq'.1 (by omega) (by rw [mem_unplaced] at hqo; omega)]
  rw [hsplit, countWhere_union Finset.disjoint_sdiff] at hkeys hpiles
  have hpos : 0 < countWhere slots (fun key => (bytes key offset).toNat = x) keys :=
    countWhere_pos hpu rfl
  have hpos' : 0 < countWhere slots (· = x) (pileOf firstKey size) := by omega
  obtain ⟨q, hq⟩ := Finset.card_pos.mp hpos'
  exact ⟨q, (Finset.mem_filter.mp hq).1, (Finset.mem_filter.mp hq).2⟩

/-- An unplaced position lies in a pile from the fence on, below its pointer. -/
theorem pile_of_unplaced (ht : Tally bytes keys0 offset firstKey lastKey size last)
    (hp : Placing bytes keys0 offset firstKey lastKey size last keys pile sizeLeft fence) {p : ℕ}
    (hpu : p ∈ unplaced firstKey lastKey size pile fence) :
    fence ≤ startOfPile firstKey size (pileOf firstKey size p) ∧
      startOfPile firstKey size (pileOf firstKey size p) ≤ p ∧
      p < pile (pileOf firstKey size p) ∧
      pile (pileOf firstKey size p) ≤ startOfPile firstKey size (pileOf firstKey size p + 1) := by
  rw [mem_unplaced] at hpu
  obtain ⟨hstart, hend⟩ := ht.pileOf_spec (le_trans hp.first_le hpu.1) hpu.2.1
  have hahead : fence ≤ startOfPile firstKey size (pileOf firstKey size p) :=
    (hp.boundary _).resolve_left (by omega)
  have hsize : size (pileOf firstKey size p) ≠ 0 := by
    rw [startOfPile_succ] at hend
    omega
  exact ⟨hahead, hstart, hpu.2.2, (hp.pile_bounds _ hahead hsize).2⟩

/-- The fence is inside the task while the loop runs. -/
theorem fence_le_lastKey (ht : Tally bytes keys0 offset firstKey lastKey size last)
    (hfence : fence < startOfPile firstKey size last) : fence ≤ lastKey := by
  have := ht.startOfPile_last
  have := ht.size_last
  omega

/-- A placed key at the fence lies in the pile that starts at the fence, and that
pile's pointer is at the fence. -/
theorem placed_fence (ht : Tally bytes keys0 offset firstKey lastKey size last)
    (hp : Placing bytes keys0 offset firstKey lastKey size last keys pile sizeLeft fence)
    (hfence : fence < startOfPile firstKey size last)
    (hfu : fence ∉ unplaced firstKey lastKey size pile fence) :
    (bytes (keys fence) offset).toNat = pileOf firstKey size fence ∧
      startOfPile firstKey size (pileOf firstKey size fence) = fence ∧
      pile (pileOf firstKey size fence) = fence := by
  have hlast := fence_le_lastKey ht hfence
  have hfirst := hp.first_le
  rw [mem_unplaced] at hfu
  have hpile : pile (pileOf firstKey size fence) ≤ fence := by
    by_contra hlt
    exact hfu ⟨le_rfl, hlast, by omega⟩
  obtain ⟨hstart, hend⟩ := ht.pileOf_spec hfirst hlast
  have hat : startOfPile firstKey size (pileOf firstKey size fence) = fence := by
    rcases hp.boundary (pileOf firstKey size fence) with h | h <;> omega
  have hsize : size (pileOf firstKey size fence) ≠ 0 := by
    rw [startOfPile_succ] at hend
    omega
  have hbounds := hp.pile_bounds _ (by omega) hsize
  exact ⟨hp.placed fence hfirst hlast (Or.inr hpile), hat, by omega⟩

/-- A nonempty bin lies at or below `last`. -/
theorem le_last_of_size (ht : Tally bytes keys0 offset firstKey lastKey size last) {b : ℕ}
    (hsize : size b ≠ 0) : b ≤ last := by
  by_contra hlt
  exact hsize (ht.above_last b (by omega))

/-- A swap of the `while` loop: the key in hand, with its pile's pointer more than
one slot above the fence, goes into the slot below the pointer, which lies in its
pile above the fence, and the key there is taken in hand. -/
theorem swap (ht : Tally bytes keys0 offset firstKey lastKey size last) {key : κ}
    (hp : Placing bytes keys0 offset firstKey lastKey size last (Function.update keys fence key)
      pile sizeLeft fence)
    (hfence : fence < startOfPile firstKey size last)
    (hswap : fence < pile (bytes key offset).toNat - 1) :
    Placing bytes keys0 offset firstKey lastKey size last
      (Function.update (Function.update keys (pile (bytes key offset).toNat - 1) key) fence
        (keys (pile (bytes key offset).toNat - 1)))
      (Function.update pile (bytes key offset).toNat (pile (bytes key offset).toNat - 1))
      sizeLeft fence := by
  set b := (bytes key offset).toNat with hb
  set q := pile b - 1 with hq
  set hand := Function.update keys fence key
  have hlast := fence_le_lastKey ht hfence
  have hhand : hand fence = key := Function.update_self _ _ _
  have hfu : fence ∈ unplaced firstKey lastKey size pile fence := by
    by_contra hfu
    obtain ⟨hbyte, -, hpile⟩ := placed_fence ht hp hfence hfu
    rw [hhand, ← hb] at hbyte
    rw [← hbyte] at hpile
    omega
  obtain ⟨r, hr, hrb⟩ := exists_unplaced ht hp hfu
  rw [hhand, ← hb] at hrb
  obtain ⟨hahead, hstart, hrp, hpend⟩ := pile_of_unplaced ht hp hr
  rw [hrb] at hahead hstart hrp hpend
  have hrlast : r ≤ lastKey := (mem_unplaced.mp hr).2.1
  have hsizeb : size b ≠ 0 := by
    rw [startOfPile_succ] at hpend
    omega
  have hqend : q < startOfPile firstKey size (b + 1) := by omega
  have hqlast : q ≤ lastKey := by
    have hmono : startOfPile firstKey size (b + 1) ≤ startOfPile firstKey size (last + 1) :=
      startOfPile_mono (by have := le_last_of_size ht hsizeb; omega)
    rw [ht.startOfPile_last_succ] at hmono
    omega
  have hqpile : pileOf firstKey size q = b := ht.pileOf_eq (by omega) hqend
  have hqf : q ≠ fence := by omega
  have hswapped : Function.update (Function.update keys q key) fence (keys q) =
      hand ∘ Equiv.swap fence q := by
    rw [Equiv.comp_swap_eq_update, hhand]
    funext i
    simp only [hand, Function.update_apply]
    split_ifs <;> rfl
  have hfirst := hp.first_le
  rw [hswapped]
  refine ⟨hp.perm.trans (PermOn.swap ⟨hfirst, by omega⟩ ⟨by omega, by omega⟩), hfirst,
    hp.fence_le, hp.boundary, fun c hc hsize => ?_, fun p hp1 hp2 hplaced => ?_,
    hp.sizes_ahead, hp.sizes_behind, hp.size_last⟩
  · by_cases hcb : c = b
    · subst hcb
      rw [Function.update_self]
      exact ⟨by omega, by omega⟩
    · rw [Function.update_of_ne hcb]
      exact hp.pile_bounds c hc hsize
  · have hfu' := mem_unplaced.mp hfu
    rw [Function.comp_apply]
    by_cases hpq : p = q
    · rw [hpq, Equiv.swap_apply_right, hhand, hqpile, hb]
    · by_cases hpf : p = fence
      · exfalso
        subst hpf
        rcases hplaced with hlt | hle
        · omega
        · by_cases hfb : pileOf firstKey size p = b
          · rw [hfb, Function.update_self] at hle
            omega
          · rw [Function.update_of_ne hfb] at hle
            omega
      · rw [Equiv.swap_apply_of_ne_of_ne hpf hpq]
        refine hp.placed p hp1 hp2 (hplaced.imp_right fun hle => ?_)
        by_cases hpb : pileOf firstKey size p = b
        · rw [hpb, Function.update_self] at hle
          rw [hpb]
          omega
        · rwa [Function.update_of_ne hpb] at hle

/-- The end of a cycle: the pointer of the key at the fence is at most one slot
above the fence, so the key completes the pile that starts at the fence, and the
fence moves past that pile, clearing its size. -/
theorem advance (ht : Tally bytes keys0 offset firstKey lastKey size last)
    (hp : Placing bytes keys0 offset firstKey lastKey size last keys pile sizeLeft fence)
    (hfence : fence < startOfPile firstKey size last)
    (hstop : ¬fence < pile (bytes (keys fence) offset).toNat - 1) :
    fence < fence + sizeLeft (bytes (keys fence) offset).toNat ∧
      Placing bytes keys0 offset firstKey lastKey size last keys
        (Function.update pile (bytes (keys fence) offset).toNat
          (pile (bytes (keys fence) offset).toNat - 1))
        (Function.update sizeLeft (bytes (keys fence) offset).toNat 0)
        (fence + sizeLeft (bytes (keys fence) offset).toNat) := by
  set b := (bytes (keys fence) offset).toNat with hb
  have hlast := fence_le_lastKey ht hfence
  have hfirst := hp.first_le
  have hpileb : pileOf firstKey size fence = b ∧ pile b ≤ fence + 1 := by
    by_cases hfu : fence ∈ unplaced firstKey lastKey size pile fence
    · obtain ⟨r, hr, hrb⟩ := exists_unplaced ht hp hfu
      rw [← hb] at hrb
      obtain ⟨hahead, hstart, hrp, -⟩ := pile_of_unplaced ht hp hr
      rw [hrb] at hahead hstart hrp
      have hrf : r = fence := by
        have := (mem_unplaced.mp hr).1
        omega
      rw [← hrf]
      exact ⟨hrb, by omega⟩
    · obtain ⟨hbyte, -, hpile⟩ := placed_fence ht hp hfence hfu
      rw [← hb] at hbyte
      rw [← hbyte] at hpile ⊢
      exact ⟨rfl, by omega⟩
  obtain ⟨hpileOf, hpileLe⟩ := hpileb
  obtain ⟨hstart, hend⟩ := ht.pileOf_spec hfirst hlast
  rw [hpileOf] at hstart hend
  have hat : startOfPile firstKey size b = fence := by
    rcases hp.boundary b with h | h <;> omega
  have hsizeb : size b ≠ 0 := by
    rw [startOfPile_succ] at hend
    omega
  have hblast : b ≠ last := by
    rintro rfl
    omega
  have hbltlast : b + 1 ≤ last := by
    have := le_last_of_size ht hsizeb
    omega
  have hleft : sizeLeft b = size b := hp.sizes_ahead b (by omega) hblast
  have hnext : fence + sizeLeft b = startOfPile firstKey size (b + 1) := by
    rw [hleft, startOfPile_succ, hat]
  have hother : ∀ c, fence + sizeLeft b ≤ startOfPile firstKey size c → c ≠ b := by
    rintro c hc rfl
    omega
  refine ⟨by omega, hp.perm, by omega, ?_, fun c => ?_, fun c hc hsize => ?_,
    fun p hp1 hp2 hplaced => ?_, fun c hc hclast => ?_, fun c hc => ?_, ?_⟩
  · rw [hnext]
    exact startOfPile_mono hbltlast
  · rw [hnext]
    rcases Nat.lt_or_ge c (b + 1) with hcb | hcb
    · exact Or.inl (startOfPile_mono (by omega))
    · exact Or.inr (startOfPile_mono hcb)
  · rw [Function.update_of_ne (hother c hc)]
    exact hp.pile_bounds c (by omega) hsize
  · rcases Nat.lt_or_ge p (fence + sizeLeft b) with hlt | hge
    · rcases Nat.lt_or_ge p fence with hpf | hpf
      · exact hp.placed p hp1 hp2 (Or.inl hpf)
      · have hpb : pileOf firstKey size p = b := ht.pileOf_eq (by omega) (by omega)
        by_cases hpp : pile b ≤ p
        · exact hp.placed p hp1 hp2 (Or.inr (by rwa [hpb]))
        · have hpeq : p = fence := by omega
          rw [hpeq, hpileOf]
    · have hpb : pileOf firstKey size p ≠ b := by
        intro hpb
        have := (ht.pileOf_spec hp1 hp2).2
        rw [hpb] at this
        omega
      have hle := hplaced.resolve_left (by omega)
      rw [Function.update_of_ne hpb] at hle
      exact hp.placed p hp1 hp2 (Or.inr hle)
  · rw [Function.update_of_ne (hother c hc)]
    exact hp.sizes_ahead c (by omega) hclast
  · by_cases hcb : c = b
    · rw [hcb, Function.update_self]
    · rw [Function.update_of_ne hcb]
      by_cases hcf : startOfPile firstKey size (c + 1) ≤ fence
      · exact hp.sizes_behind c hcf
      · have hcgt : b < c := by
          by_contra hle
          have : startOfPile firstKey size (c + 1) ≤ startOfPile firstKey size b :=
            startOfPile_mono (by omega)
          omega
        have hmono : startOfPile firstKey size (b + 1) ≤ startOfPile firstKey size c :=
          startOfPile_mono hcgt
        have hsizec : size c = 0 := by
          rw [startOfPile_succ] at hc
          omega
        rw [hp.sizes_ahead c (by omega) fun h => ht.size_last (h ▸ hsizec), hsizec]
  · rw [Function.update_of_ne (Ne.symm hblast)]
    exact hp.size_last

end Placing

/-- The `while` loop of `radixSort`: it ends with the key in hand at most one slot
below its pile's pointer. -/
theorem swapIntoPile_spec {bytes : κ → ℕ → UInt8} {keys0 : ℕ → κ}
    {offset firstKey lastKey : ℕ} {size : ℕ → ℕ} {last : ℕ} {sizeLeft : ℕ → ℕ} {fence : ℕ}
    (ht : Tally bytes keys0 offset firstKey lastKey size last)
    (hfence : fence < startOfPile firstKey size last) (keys : ℕ → κ) (pile : ℕ → ℕ) (key : κ)
    (hp : Placing bytes keys0 offset firstKey lastKey size last (Function.update keys fence key)
      pile sizeLeft fence) :
    ∃ keys' pile' key', swapIntoPile bytes offset fence keys pile key =
        (keys', Function.update pile' (bytes key' offset).toNat
          (pile' (bytes key' offset).toNat - 1), key') ∧
      Placing bytes keys0 offset firstKey lastKey size last (Function.update keys' fence key') pile'
        sizeLeft fence ∧
      ¬fence < pile' (bytes key' offset).toNat - 1 := by
  fun_induction swapIntoPile bytes offset fence keys pile key with
  | case1 keys pile key bin lowered hlt ih =>
    have hlow : lowered bin = pile bin - 1 := Function.update_self _ _ _
    rw [hlow] at hlt ih ⊢
    exact ih (Placing.swap ht hp hfence hlt)
  | case2 keys pile key bin lowered hstop =>
    have hlow : lowered bin = pile bin - 1 := Function.update_self _ _ _
    rw [hlow] at hstop
    exact ⟨keys, pile, key, rfl, hp, hstop⟩

section Fence

variable {bytes : κ → ℕ → UInt8} {keys0 : ℕ → κ} {offset firstKey lastKey : ℕ} {size : ℕ → ℕ}
  {last : ℕ}

/-- The fence loop starts with no key placed: the fence at the first key, every
pile pointer at the end of its pile, and only the last pile's size cleared. -/
theorem Placing.start (ht : Tally bytes keys0 offset firstKey lastKey size last) {pile : ℕ → ℕ}
    (hpile : ∀ b, size b ≠ 0 → pile b = startOfPile firstKey size (b + 1)) :
    Placing bytes keys0 offset firstKey lastKey size last keys0 pile
      (Function.update size last 0) firstKey := by
  have hzero : ∀ b, firstKey ≤ startOfPile firstKey size b := fun b => by
    have hmono : startOfPile firstKey size 0 ≤ startOfPile firstKey size b :=
      startOfPile_mono (Nat.zero_le b)
    rwa [startOfPile_zero] at hmono
  refine ⟨PermOn.refl _, le_rfl, hzero last, fun b => Or.inr (hzero b), fun b _ hsize => ?_,
    fun p hp1 hp2 hplaced => ?_, fun b _ hb => Function.update_of_ne hb _ _, fun b hb => ?_,
    Function.update_self _ _ _⟩
  · rw [hpile b hsize, startOfPile_succ]
    omega
  · exfalso
    obtain ⟨hstart, hend⟩ := ht.pileOf_spec hp1 hp2
    have hsize : size (pileOf firstKey size p) ≠ 0 := by
      rw [startOfPile_succ] at hend
      omega
    rw [hpile _ hsize] at hplaced
    omega
  · have hsize : size b = 0 := by
      have := hzero b
      rw [startOfPile_succ] at hb
      omega
    by_cases hbl : b = last
    · rw [hbl, Function.update_self]
    · rw [Function.update_of_ne hbl, hsize]

/-- The fence loop with enough fuel: every key ends in its pile, as a
rearrangement of the task's keys, and every bin size is cleared. -/
theorem placePiles_spec (ht : Tally bytes keys0 offset firstKey lastKey size last) (fuel : ℕ) :
    ∀ (fence : ℕ) (keys : ℕ → κ) (pile sizeLeft : ℕ → ℕ),
      Placing bytes keys0 offset firstKey lastKey size last keys pile sizeLeft fence →
      startOfPile firstKey size last + 1 ≤ fence + fuel →
      ∃ keys' pile' sizeLeft',
        placePiles bytes offset (startOfPile firstKey size last) fuel fence keys pile sizeLeft =
          some (keys', pile', sizeLeft') ∧
        PermOn firstKey (lastKey + 1) keys0 keys' ∧
        (∀ p, firstKey ≤ p → p ≤ lastKey → (bytes (keys' p) offset).toNat = pileOf firstKey size p) ∧
        ∀ b, sizeLeft' b = 0 := by
  induction fuel with
  | zero =>
    intro fence keys pile sizeLeft hp hfuel
    have := hp.fence_le
    omega
  | succ fuel ih =>
    intro fence keys pile sizeLeft hp hfuel
    rw [placePiles]
    by_cases hfence : fence < startOfPile firstKey size last
    · rw [if_pos hfence]
      obtain ⟨keys', pile', key', hloop, hp', hstop⟩ := swapIntoPile_spec ht hfence keys pile
        (keys fence) (by rwa [Function.update_eq_self])
      rw [hloop]
      have hkey : Function.update keys' fence key' fence = key' := Function.update_self _ _ _
      have hadvance := Placing.advance ht hp' hfence (by rwa [hkey])
      rw [hkey] at hadvance
      exact ih _ _ _ _ hadvance.2 (by omega)
    · rw [if_neg hfence]
      have hat : fence = startOfPile firstKey size last := le_antisymm hp.fence_le (not_lt.mp hfence)
      have hend := ht.startOfPile_last_succ
      refine ⟨keys, pile, sizeLeft, rfl, hp.perm, fun p hp1 hp2 => ?_, fun b => ?_⟩
      · by_cases hplaced : p < fence ∨ pile (pileOf firstKey size p) ≤ p
        · exact hp.placed p hp1 hp2 hplaced
        · have hpu : p ∈ unplaced firstKey lastKey size pile fence :=
            mem_unplaced.mpr ⟨by omega, hp2, by omega⟩
          obtain ⟨q, hq, hqbyte⟩ := Placing.exists_unplaced ht hp hpu
          have hq' := mem_unplaced.mp hq
          have hplast : pileOf firstKey size p = last := ht.pileOf_eq (by omega) (by omega)
          have hqlast : pileOf firstKey size q = last := ht.pileOf_eq (by omega) (by omega)
          rw [← hqbyte, hqlast, hplast]
      · by_cases hbl : b = last
        · rw [hbl]
          exact hp.size_last
        · by_cases hbehind : startOfPile firstKey size (b + 1) ≤ fence
          · exact hp.sizes_behind b hbehind
          · have hgt : last < b := by
              by_contra hle
              have : startOfPile firstKey size (b + 1) ≤ startOfPile firstKey size last :=
                startOfPile_mono (by omega)
              omega
            have hsize := ht.above_last b hgt
            rw [hp.sizes_ahead b (by rw [hat]; exact startOfPile_mono hgt.le) hbl, hsize]

end Fence

end RadixSort

end Vdo.Uds
