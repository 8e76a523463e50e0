import Mathlib

/-!
# Combining the zones of the slab summary

The slab summary (`slabSummary.c`) keeps one region of `MAX_SLABS` entries per
physical zone in one buffer: zone `z`'s entry for slab `n` is at
`z * MAX_SLABS + n`. Each zone updates only the slabs of its allocator, and
`allocateSlabs` (`slabDepot.c`) gives slab `n` to allocator `n % zoneCount`, so
after a load of a summary written by `zonesToCombine` zones the entry of slab
`n` that counts is in region `n % zonesToCombine`. `combineZones` gathers those
entries into region 0, going round the zones with a cursor, and copies region 0
over every other region.

`combineZones_authoritative`: whatever the number of zones that wrote the
summary, every region ends up holding, for every slab, the entry of the zone
that owns it.
-/

namespace Vdo

/-- `MAX_SLABS`. -/
def maxSlabs : ℕ := 8192

/-- `MAX_PHYSICAL_ZONES`. -/
def maxPhysicalZones : ℕ := 16

/-- The zone whose allocator `allocateSlabs` gives slab `slabNumber`. -/
def slabZone (zoneCount slabNumber : ℕ) : ℕ := slabNumber % zoneCount

section Combine

variable {α : Type*}

/-- One turn of the combining loop of `combineZones`: the entry of
`entryNumber` copied from the region of the zone under the cursor (region 0
holds it already), and the cursor moved round to the next zone. -/
def combineEntry (zonesToCombine : ℕ) (state : ℕ × (ℕ → α)) (entryNumber : ℕ) : ℕ × (ℕ → α) :=
  let (zone, entries) := state
  let entries := if zone ≠ 0 then
      Function.update entries entryNumber (entries (zone * maxSlabs + entryNumber))
    else entries
  let zone := zone + 1
  (if zone = zonesToCombine then 0 else zone, entries)

/-- The `memcpy` of region 0 over the region of `zone`. -/
def copyRegion (entries : ℕ → α) (zone : ℕ) : ℕ → α :=
  fun i => if zone * maxSlabs ≤ i ∧ i < (zone + 1) * maxSlabs then entries (i - zone * maxSlabs)
    else entries i

/-- The first loop of `combineZones`: the entries of all the old summary data
combined into the region of the first zone. -/
def combineIntoFirstZone (zonesToCombine : ℕ) (entries : ℕ → α) : ℕ → α :=
  if zonesToCombine > 1 then
    ((List.range maxSlabs).foldl (combineEntry zonesToCombine) (0, entries)).2
  else entries

/-- `combineZones` on the summary's entries buffer: the zones combined into the
first zone's region, which is then copied to each zone's region. -/
def combineZones (zonesToCombine : ℕ) (entries : ℕ → α) : ℕ → α :=
  (List.range' 1 (maxPhysicalZones - 1)).foldl copyRegion
    (combineIntoFirstZone zonesToCombine entries)

theorem succ_mod_eq_ite {k z : ℕ} (hz : 0 < z) :
    (k + 1) % z = if k % z + 1 = z then 0 else k % z + 1 := by
  have hdecomp := Nat.div_add_mod k z
  split_ifs with h
  · have hmul : k + 1 = z * (k / z + 1) := by
      rw [Nat.mul_add, Nat.mul_one]
      omega
    rw [hmul, Nat.mul_mod_right]
  · have hlt := Nat.mod_lt k hz
    have hsplit : k + 1 = z * (k / z) + (k % z + 1) := by omega
    rw [hsplit, Nat.mul_add_mod, Nat.mod_eq_of_lt (by omega)]

/-- After the first `k` turns the cursor is at zone `k % zonesToCombine`, and
the entries before `k` are the ones of their zones' regions; the regions read
from lie past `k`, so no turn reads an entry an earlier turn wrote. -/
theorem foldl_combineEntry {zonesToCombine : ℕ} (hz : 0 < zonesToCombine) (entries : ℕ → α)
    (k : ℕ) :
    (List.range k).foldl (combineEntry zonesToCombine) (0, entries) =
      (k % zonesToCombine, fun i =>
        if i < k then entries (slabZone zonesToCombine i * maxSlabs + i) else entries i) := by
  induction k with
  | zero =>
    simp only [List.range_zero, List.foldl_nil, Nat.zero_mod, Nat.not_lt_zero, if_false]
  | succ k ih =>
    rw [List.range_succ, List.foldl_append, ih, List.foldl_cons, List.foldl_nil, combineEntry,
      succ_mod_eq_ite hz]
    refine Prod.ext rfl (funext fun i => ?_)
    dsimp only
    by_cases hzero : k % zonesToCombine = 0
    · simp only [hzero, ne_eq, not_true_eq_false, if_false, slabZone]
      by_cases hik : i = k
      · simp [hik, hzero]
      · by_cases hlt : i < k
        · simp [hlt, show i < k + 1 by omega]
        · simp [hlt, show ¬i < k + 1 by omega]
    · simp only [hzero, ne_eq, not_false_eq_true, if_true, Function.update_apply, slabZone]
      by_cases hik : i = k
      · simp [hik]
      · by_cases hlt : i < k
        · simp [hik, hlt, show i < k + 1 by omega]
        · simp [hik, hlt, show ¬i < k + 1 by omega]

/-- Copying region 0 over the regions of `zones`, none of them zone 0: each of
those regions reads as region 0, and every other index is unchanged. -/
theorem foldl_copyRegion (entries : ℕ → α) (zones : List ℕ) (hzones : ∀ z ∈ zones, 1 ≤ z)
    (i : ℕ) :
    zones.foldl copyRegion entries i =
      if i / maxSlabs ∈ zones then entries (i % maxSlabs) else entries i := by
  induction zones using List.reverseRecOn generalizing i with
  | nil => simp
  | append_singleton zones z ih =>
    have hz := hzones z (by simp)
    have hrest : ∀ z ∈ zones, 1 ≤ z := fun z' hz' => hzones z' (by simp [hz'])
    rw [List.foldl_append, List.foldl_cons, List.foldl_nil, copyRegion]
    simp only [maxSlabs] at ih ⊢
    by_cases hin : z * 8192 ≤ i ∧ i < (z + 1) * 8192
    · have hdiv : i / 8192 = z := by omega
      have hmod : i - z * 8192 = i % 8192 := by omega
      have hzero : i % 8192 / 8192 ∉ zones := fun hmem => by
        have := hrest _ hmem
        omega
      simp only [hin, and_self, if_true, hmod, ih hrest, hzero, if_false, Nat.mod_mod,
        List.mem_append, List.mem_singleton, hdiv, or_true]
    · have hdiv : i / 8192 ≠ z := by omega
      simp only [hin, if_false, ih hrest, List.mem_append, List.mem_singleton, hdiv, or_false]
      rfl

/-- The combined region 0: each slab's entry from its zone's region. -/
theorem combineIntoFirstZone_of_lt {zonesToCombine : ℕ} (hz : 0 < zonesToCombine)
    (entries : ℕ → α) {n : ℕ} (hn : n < maxSlabs) :
    combineIntoFirstZone zonesToCombine entries n =
      entries (slabZone zonesToCombine n * maxSlabs + n) := by
  unfold combineIntoFirstZone
  split_ifs with hgt
  · simp [foldl_combineEntry hz, hn]
  · have hone : zonesToCombine = 1 := by omega
    simp only [hone, slabZone, Nat.mod_one, Nat.zero_mul, Nat.zero_add]

/-- For every number of zones that wrote the summary, if the region of zone `n % zonesToCombine` holds the entry that counts for each
slab `n`, then after `combineZones` every region holds that entry for every
slab. -/
theorem combineZones_authoritative {zonesToCombine : ℕ} (hz : 1 ≤ zonesToCombine)
    (entries authoritative : ℕ → α)
    (hentries : ∀ n < maxSlabs,
      entries (slabZone zonesToCombine n * maxSlabs + n) = authoritative n) :
    ∀ j < maxPhysicalZones, ∀ n < maxSlabs,
      combineZones zonesToCombine entries (j * maxSlabs + n) = authoritative n := by
  intro j hj n hn
  have hzones : ∀ z ∈ List.range' 1 (maxPhysicalZones - 1), 1 ≤ z := fun z hmem =>
    (List.mem_range'_1.mp hmem).1
  have hregion := (combineIntoFirstZone_of_lt (by omega : 0 < zonesToCombine) entries hn).trans
    (hentries n hn)
  have hdiv : (j * maxSlabs + n) / maxSlabs = j := by
    simp only [maxSlabs] at hn ⊢
    omega
  have hmod : (j * maxSlabs + n) % maxSlabs = n := by
    simp only [maxSlabs] at hn ⊢
    omega
  rw [combineZones, foldl_copyRegion _ _ hzones, hdiv, hmod]
  split_ifs with hmem
  · exact hregion
  · have hj0 : j = 0 := by
      simp only [List.mem_range'_1, maxPhysicalZones] at hmem hj
      omega
    rw [hj0, Nat.zero_mul, Nat.zero_add]
    exact hregion

theorem combineZones_authoritative_two_zones :
    1 ≤ 2 ∧ (∀ n < maxSlabs,
      (id : ℕ → ℕ) (slabZone 2 n * maxSlabs + n) = slabZone 2 n * maxSlabs + n) ∧
    ∀ j < maxPhysicalZones, ∀ n < maxSlabs,
      combineZones 2 (id : ℕ → ℕ) (j * maxSlabs + n) = slabZone 2 n * maxSlabs + n :=
  ⟨by decide, fun _ _ => rfl, combineZones_authoritative (by decide) id
    (fun n => slabZone 2 n * maxSlabs + n) fun _ _ => rfl⟩

end Combine

/-! ## Fullness hints

An entry keeps a slab's free block count as a 6-bit `fullnessHint`, the
count shifted right by `hintShift`, with a non-empty slab never hinted as
empty. `getApproximateFreeBlocks` shifts a hint back, in the 64 bits of a
`BlockCount`. -/

/-- The `hintShift` `makeSlabSummary` sets for slabs of `2 ^ slabSizeShift`
blocks. -/
def slabSummaryHintShift (slabSizeShift : ℕ) : ℕ :=
  if slabSizeShift > 6 then slabSizeShift - 6 else 0

/-- `computeFullnessHint`: zero only for an empty slab; returned as a
`uint8_t`. -/
def computeFullnessHint (hintShift freeBlocks : ℕ) : ℕ :=
  if freeBlocks = 0 then 0
  else
    let hint := freeBlocks >>> hintShift
    (if hint = 0 then 1 else hint) % 2 ^ 8

/-- `getApproximateFreeBlocks`: the hint shifted back as a 64-bit count. -/
def getApproximateFreeBlocks (hintShift freeBlockHint : ℕ) : ℕ :=
  (freeBlockHint <<< hintShift) % 2 ^ 64

/-- A `SlabSummaryEntry`: an 8-bit tail block offset, the 6-bit fullness
hint and two flags. -/
structure SlabSummaryEntry where
  tailBlockOffset : ℕ
  fullnessHint : ℕ
  loadRefCounts : Bool
  isDirty : Bool
  deriving DecidableEq, Repr

/-- The entry `updateSlabSummaryEntry` writes when the zone takes updates,
each value stored into its bit field. -/
def updateSlabSummaryEntry (hintShift : ℕ) (entry : SlabSummaryEntry) (tailBlockOffset : ℕ)
    (loadRefCounts isClean : Bool) (freeBlocks : ℕ) : SlabSummaryEntry :=
  { tailBlockOffset := tailBlockOffset % 2 ^ 8
    fullnessHint := computeFullnessHint hintShift freeBlocks % 2 ^ 6
    loadRefCounts := entry.loadRefCounts || loadRefCounts
    isDirty := !isClean }

/-- `getSummarizedFreeBlockCount`. -/
def getSummarizedFreeBlockCount (hintShift : ℕ) (entry : SlabSummaryEntry) : ℕ :=
  getApproximateFreeBlocks hintShift entry.fullnessHint

/-- A count of a slab's blocks shifted by the summary's `hintShift` fits six
bits. -/
theorem shiftRight_slabSummaryHintShift_lt {slabSizeShift freeBlocks : ℕ}
    (hfree : freeBlocks < 2 ^ slabSizeShift) :
    freeBlocks >>> slabSummaryHintShift slabSizeShift < 2 ^ 6 := by
  rw [Nat.shiftRight_eq_div_pow, slabSummaryHintShift]
  split_ifs with hlarge
  · rw [Nat.div_lt_iff_lt_mul (Nat.two_pow_pos _), ← pow_add,
      Nat.add_sub_cancel' (by omega : 6 ≤ slabSizeShift)]
    exact hfree
  · rw [pow_zero, Nat.div_one]
    exact hfree.trans_le (Nat.pow_le_pow_right (by norm_num) (by omega))

/-- Below the `uint8_t` bound the hint of a non-empty slab is its shifted
count, or one. -/
theorem computeFullnessHint_of_pos {hintShift freeBlocks : ℕ} (hpos : 0 < freeBlocks)
    (hsmall : freeBlocks >>> hintShift < 2 ^ 8) :
    computeFullnessHint hintShift freeBlocks = max 1 (freeBlocks >>> hintShift) := by
  rw [computeFullnessHint, if_neg (by omega)]
  dsimp only
  generalize freeBlocks >>> hintShift = hint at hsmall ⊢
  split_ifs with hzero
  · rw [hzero]
    rfl
  · rw [Nat.mod_eq_of_lt hsmall]
    omega

/-- A hint of six bits survives the round trip through the 64-bit count
while the shifted hint fits the count. -/
theorem computeFullnessHint_getApproximateFreeBlocks {hintShift hint : ℕ} (hhint : hint < 2 ^ 6)
    (hshift : hintShift ≤ 58) :
    computeFullnessHint hintShift (getApproximateFreeBlocks hintShift hint) = hint := by
  have hfits : hint * 2 ^ hintShift < 2 ^ 64 :=
    calc hint * 2 ^ hintShift < 2 ^ 6 * 2 ^ 58 :=
          Nat.mul_lt_mul_of_lt_of_le hhint (Nat.pow_le_pow_right (by norm_num) hshift)
            (Nat.two_pow_pos _)
      _ = 2 ^ 64 := by norm_num
  rw [getApproximateFreeBlocks, Nat.shiftLeft_eq, Nat.mod_eq_of_lt hfits]
  rcases Nat.eq_zero_or_pos hint with rfl | hpos
  · simp [computeFullnessHint]
  · have hback : (hint * 2 ^ hintShift) >>> hintShift = hint := by
      rw [Nat.shiftRight_eq_div_pow, Nat.mul_div_cancel _ (Nat.two_pow_pos _)]
    rw [computeFullnessHint_of_pos (Nat.mul_pos hpos (Nat.two_pow_pos _))
      (by rw [hback]; omega), hback]
    omega

/-- The fullness hint of a slab of `2 ^ slabSizeShift` blocks fits the six
bits of its field, is zero only for an empty slab and grows with the free
count; and for slab size shifts up to 64 every six-bit hint is recovered
from the count `getApproximateFreeBlocks` gives for it. -/
theorem computeFullnessHint_fits_and_round_trips (slabSizeShift : ℕ) :
    (∀ freeBlocks < 2 ^ slabSizeShift,
      computeFullnessHint (slabSummaryHintShift slabSizeShift) freeBlocks ≤ 63 ∧
      (∀ (entry : SlabSummaryEntry) (tailBlockOffset : ℕ) (loadRefCounts isClean : Bool),
        (updateSlabSummaryEntry (slabSummaryHintShift slabSizeShift) entry tailBlockOffset
          loadRefCounts isClean freeBlocks).fullnessHint =
          computeFullnessHint (slabSummaryHintShift slabSizeShift) freeBlocks) ∧
      (computeFullnessHint (slabSummaryHintShift slabSizeShift) freeBlocks = 0 ↔ freeBlocks = 0) ∧
      ∀ freeBlocks' < 2 ^ slabSizeShift, freeBlocks ≤ freeBlocks' →
        computeFullnessHint (slabSummaryHintShift slabSizeShift) freeBlocks ≤
          computeFullnessHint (slabSummaryHintShift slabSizeShift) freeBlocks') ∧
    (slabSizeShift ≤ 64 → ∀ hint ≤ 63,
      computeFullnessHint (slabSummaryHintShift slabSizeShift)
        (getApproximateFreeBlocks (slabSummaryHintShift slabSizeShift) hint) = hint) := by
  have hhint : ∀ freeBlocks < 2 ^ slabSizeShift,
      computeFullnessHint (slabSummaryHintShift slabSizeShift) freeBlocks =
          (if freeBlocks = 0 then 0 else max 1 (freeBlocks >>> slabSummaryHintShift slabSizeShift)) ∧
        freeBlocks >>> slabSummaryHintShift slabSizeShift < 2 ^ 6 := by
    intro freeBlocks hfree
    have hsix := shiftRight_slabSummaryHintShift_lt hfree
    refine ⟨?_, hsix⟩
    split_ifs with hzero
    · subst hzero
      simp [computeFullnessHint]
    · exact computeFullnessHint_of_pos (Nat.pos_of_ne_zero hzero) (by omega)
  refine ⟨fun freeBlocks hfree => ⟨?_, fun entry tailBlockOffset loadRefCounts isClean => ?_, ?_,
    fun freeBlocks' hfree' hle => ?_⟩, fun hsmall hint hle => ?_⟩
  · obtain ⟨heq, hsix⟩ := hhint freeBlocks hfree
    rw [heq]
    split_ifs <;> omega
  · obtain ⟨heq, hsix⟩ := hhint freeBlocks hfree
    apply Nat.mod_eq_of_lt
    rw [heq]
    split_ifs <;> omega
  · obtain ⟨heq, hsix⟩ := hhint freeBlocks hfree
    rw [heq]
    split_ifs with hzero
    · exact iff_of_true rfl hzero
    · exact iff_of_false (by omega) hzero
  · have hmono : freeBlocks >>> slabSummaryHintShift slabSizeShift ≤
        freeBlocks' >>> slabSummaryHintShift slabSizeShift := by
      rw [Nat.shiftRight_eq_div_pow, Nat.shiftRight_eq_div_pow]
      exact Nat.div_le_div_right hle
    rw [(hhint freeBlocks hfree).1, (hhint freeBlocks' hfree').1]
    split_ifs <;> omega
  · have hshift : slabSummaryHintShift slabSizeShift ≤ 58 := by
      unfold slabSummaryHintShift
      split_ifs <;> omega
    exact computeFullnessHint_getApproximateFreeBlocks (by omega) hshift

/-- The slab sizes `makeSlabSummary` is given, at most `2 ^ 23` blocks. -/
theorem computeFullnessHint_fits_and_round_trips_slab23 :
    computeFullnessHint (slabSummaryHintShift 23) (2 ^ 23 - 1) ≤ 63 ∧
      computeFullnessHint (slabSummaryHintShift 23)
        (getApproximateFreeBlocks (slabSummaryHintShift 23) 63) = 63 :=
  ⟨((computeFullnessHint_fits_and_round_trips 23).1 (2 ^ 23 - 1) (by norm_num)).1,
    (computeFullnessHint_fits_and_round_trips 23).2 (by norm_num) 63 le_rfl⟩

end Vdo
