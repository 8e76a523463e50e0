import Vdo.Base.RefCounts
import Vdo.Lib.ResidueCount

/-!
# The block map forest: its boundary and its routing

The block map (`blockMap.c`) keeps its first `flatPageCount` leaf pages at
fixed places and the others in a forest of `rootCount` trees
(`forest.c`). `findBlockMapPagePBN` routes a leaf page number `p` past the
flat pages to tree `p % rootCount`, as its leaf number `(p - flatPageCount) /
rootCount`. `computeNewPages` sizes each tree for the leaf pages it may have to
address, and `computeBoundary` counts, per tree, the leaf pages of the
logical space and the pages above them, which `traverse` uses to erase the
mappings past that space.

`computeBoundary` gives a tree an extra leaf page when its index is in the
cyclic range from the tree of the first tree page to the tree of the last one.
When the tree pages divide evenly among the trees, that range wraps round to
take every tree, so every tree is counted one leaf page more than the routing
gives it (`computeBoundary_leafPages`); otherwise the count is exact and the
boundary stays within the pages `computeNewPages` allocated
(`computeBoundary_le_computeNewPages`).
-/

namespace Vdo

open ResidueCount

/-- `BLOCK_MAP_ENTRIES_PER_PAGE`. -/
def blockMapEntriesPerPage : ℕ := 812

/-- `BLOCK_MAP_TREE_HEIGHT`. -/
def blockMapTreeHeight : ℕ := 5

/-- The fields of a `BlockMap` its forest is measured by. -/
structure BlockMap where
  /-- The number of logical blocks mapped. -/
  entryCount : ℕ
  /-- The number of leaf pages kept flat, before the forest's. -/
  flatPageCount : ℕ
  /-- The number of trees. -/
  rootCount : ℕ
  deriving DecidableEq, Repr

/-- `computeBlockMapPageCount`: the leaf pages needed for `entries` mappings. -/
def computeBlockMapPageCount (entries : ℕ) : ℕ :=
  computeBucketCount entries blockMapEntriesPerPage

/-- `inCyclicRange`: whether `value` lies in the range from `lower` up to
`upper`, wrapping round at `modulus`. -/
def inCyclicRange (lower value upper modulus : ℕ) : Bool :=
  let value := if value < lower then value + modulus else value
  let upper := if upper < lower then upper + modulus else upper
  decide (value ≤ upper)

/-- `Boundary`: a page count for each height of a tree, heights past the tree's
counting none. -/
structure Boundary where
  levels : ℕ → ℕ

/-- One level up: the pages needed to address `pages` pages. -/
def levelAbove (pages : ℕ) : ℕ := computeBucketCount pages blockMapEntriesPerPage

/-- `computeNewPages`: the size of each tree at each height for `entries`
mappings (each tree addressing its share of the tree leaf pages, at least
one), and the number of pages the forest needs beyond `oldSizes`. -/
def computeNewPages (rootCount flatPageCount : ℕ) (oldSizes : Option Boundary) (entries : ℕ) :
    ℕ × Boundary :=
  let leafPages := max (computeBlockMapPageCount entries - flatPageCount) 1
  let levelSize := computeBucketCount leafPages rootCount
  let newSizes : Boundary :=
    ⟨fun height => if height < blockMapTreeHeight then levelAbove^[height + 1] levelSize else 0⟩
  let totalPages := ∑ height ∈ Finset.range blockMapTreeHeight,
    (newSizes.levels height - (oldSizes.map fun sizes => sizes.levels height).getD 0) * rootCount
  (totalPages, newSizes)

/-- `computeBoundary`: the leaf pages of the logical space in tree
`rootIndex`, the pages addressing them at each height above, and the root. -/
def computeBoundary (map : BlockMap) (rootIndex : ℕ) : Boundary :=
  let leafPages := computeBlockMapPageCount map.entryCount
  let treeLeafPages := leafPages - map.flatPageCount
  let firstTreeRoot := map.flatPageCount % map.rootCount
  let lastTreeRoot := (leafPages - 1) % map.rootCount
  let levelPages := treeLeafPages / map.rootCount +
    if inCyclicRange firstTreeRoot rootIndex lastTreeRoot map.rootCount then 1 else 0
  ⟨fun height =>
    if height < blockMapTreeHeight - 1 then levelAbove^[height] levelPages
    else if height = blockMapTreeHeight - 1 then 1 else 0⟩

/-- The first step of `findBlockMapPagePBN` for a page past the flat ones: the
tree, and the leaf number in it. -/
def treeLeafRoute (map : BlockMap) (pageNumber : ℕ) : ℕ × ℕ :=
  (pageNumber % map.rootCount, (pageNumber - map.flatPageCount) / map.rootCount)

/-- The leaf pages of the logical space that `findBlockMapPagePBN` routes to
tree `rootIndex`. -/
def routedLeafPages (map : BlockMap) (rootIndex : ℕ) : Finset ℕ :=
  (Finset.Ico map.flatPageCount (computeBlockMapPageCount map.entryCount)).filter
    fun pageNumber => (treeLeafRoute map pageNumber).1 = rootIndex

/-! ## Bucket counts -/

/-- A bucket count is at most `k` exactly when `k` buckets hold the objects. -/
theorem computeBucketCount_le_iff {objectCount bucketSize k : ℕ} (hsize : 0 < bucketSize) :
    computeBucketCount objectCount bucketSize ≤ k ↔ objectCount ≤ bucketSize * k := by
  have hdiv := Nat.div_add_mod objectCount bucketSize
  have hlt := Nat.mod_lt objectCount hsize
  unfold computeBucketCount
  split_ifs with hpart
  · constructor
    · intro hk
      have := Nat.mul_le_mul_left bucketSize hk
      rw [Nat.mul_add, Nat.mul_one] at this
      omega
    · intro hk
      by_contra hgt
      have := Nat.mul_le_mul_left bucketSize (show k ≤ objectCount / bucketSize by omega)
      omega
  · rw [Nat.add_zero, ← Nat.mul_le_mul_left_iff hsize]
    omega

theorem computeBucketCount_mono {bucketSize : ℕ} (hsize : 0 < bucketSize) :
    Monotone fun objectCount => computeBucketCount objectCount bucketSize := by
  intro small large hle
  exact (computeBucketCount_le_iff hsize).2
    (hle.trans ((computeBucketCount_le_iff hsize).1 le_rfl))

theorem levelAbove_mono : Monotone levelAbove :=
  computeBucketCount_mono (by decide)

/-! ## Cyclic ranges -/

/-- `inCyclicRange` compares distances from `lower`, going up round the
modulus. -/
theorem inCyclicRange_eq {lower value upper modulus : ℕ} (hlower : lower < modulus)
    (hvalue : value < modulus) (hupper : upper < modulus) :
    inCyclicRange lower value upper modulus =
      decide ((value + modulus - lower) % modulus ≤ (upper + modulus - lower) % modulus) := by
  unfold inCyclicRange
  rw [mod_of_lt_add (by omega), mod_of_lt_add (by omega), decide_eq_decide]
  split_ifs <;> omega

/-! ## Leaf pages per tree -/

section Routing

variable {map : BlockMap} {rootIndex : ℕ}

/-- The leaf pages routed to a tree are those of the logical space with the
tree's remainder. -/
theorem routedLeafPages_eq :
    routedLeafPages map rootIndex =
      (Finset.Ico map.flatPageCount (computeBlockMapPageCount map.entryCount)).filter
        (· % map.rootCount = rootIndex) := rfl

/-- The number of leaf pages routed to a tree, by residue counting. -/
theorem routedLeafPages_card (hroot : 0 < map.rootCount) (hindex : rootIndex < map.rootCount) :
    (routedLeafPages map rootIndex).card =
      classCount map.rootCount map.flatPageCount (computeBlockMapPageCount map.entryCount) rootIndex := by
  rw [routedLeafPages_eq, card_filter_Ico_mod hroot hindex]

/-- The boundary's leaf page count: the pages routed to the tree, and one more
for every tree when the tree pages divide evenly among the trees. -/
theorem computeBoundary_leafPages (hroot : 0 < map.rootCount) (hindex : rootIndex < map.rootCount)
    (hflat : map.flatPageCount < computeBlockMapPageCount map.entryCount) :
    (computeBoundary map rootIndex).levels 0 = (routedLeafPages map rootIndex).card +
      if (computeBlockMapPageCount map.entryCount - map.flatPageCount) % map.rootCount = 0 then 1 else 0 := by
  have hlast : ((computeBlockMapPageCount map.entryCount - 1) % map.rootCount + map.rootCount -
      map.flatPageCount % map.rootCount) % map.rootCount =
      (computeBlockMapPageCount map.entryCount - map.flatPageCount - 1) % map.rootCount := by
    rw [Nat.sub_right_comm]
    exact ((mod_eq_iff_sub_mod_eq hroot (Nat.mod_lt _ hroot) (by omega)).1 rfl).symm
  have hcyclic : inCyclicRange (map.flatPageCount % map.rootCount) rootIndex
      ((computeBlockMapPageCount map.entryCount - 1) % map.rootCount) map.rootCount =
      decide ((rootIndex + map.rootCount - map.flatPageCount % map.rootCount) % map.rootCount ≤
        (computeBlockMapPageCount map.entryCount - map.flatPageCount - 1) % map.rootCount) := by
    rw [inCyclicRange_eq (Nat.mod_lt _ hroot) hindex (Nat.mod_lt _ hroot), hlast]
  rw [routedLeafPages_card hroot hindex, classCount]
  simp only [computeBoundary, show 0 < blockMapTreeHeight - 1 from by decide, if_true,
    Function.iterate_zero, id, hcyclic]
  rw [sub_one_mod (by omega) hroot]
  have hshift := Nat.mod_lt (rootIndex + map.rootCount - map.flatPageCount % map.rootCount) hroot
  generalize (rootIndex + map.rootCount - map.flatPageCount % map.rootCount) % map.rootCount = shift
    at hshift ⊢
  by_cases heven : (computeBlockMapPageCount map.entryCount - map.flatPageCount) % map.rootCount = 0
  · simp only [heven, if_true, Nat.not_lt_zero, if_false]
    rw [if_pos (by simpa using (show shift ≤ map.rootCount - 1 by omega))]
  · simp only [heven, if_false, Nat.add_zero]
    congr 1
    by_cases hbefore : shift < (computeBlockMapPageCount map.entryCount - map.flatPageCount) % map.rootCount
    · rw [if_pos hbefore, if_pos (by simpa using (show shift ≤ _ - 1 by omega))]
    · rw [if_neg hbefore, if_neg (by simpa using (show ¬ shift ≤ _ - 1 by omega))]

/-- Where the tree pages do not divide evenly among the trees, each level of a
tree's boundary above the leaves is within the pages `computeNewPages`
allocated for the level below it. -/
theorem computeBoundary_le_computeNewPages (hroot : 0 < map.rootCount)
    (hindex : rootIndex < map.rootCount)
    (hflat : map.flatPageCount < computeBlockMapPageCount map.entryCount)
    (huneven : (computeBlockMapPageCount map.entryCount - map.flatPageCount) % map.rootCount ≠ 0)
    {height : ℕ} (hpos : 0 < height) (hheight : height < blockMapTreeHeight - 1) :
    (computeBoundary map rootIndex).levels height ≤
      (computeNewPages map.rootCount map.flatPageCount none map.entryCount).2.levels (height - 1) := by
  have hleaves : (computeBoundary map rootIndex).levels 0 ≤
      computeBucketCount (max (computeBlockMapPageCount map.entryCount - map.flatPageCount) 1)
        map.rootCount := by
    rw [computeBoundary_leafPages hroot hindex hflat, if_neg huneven, routedLeafPages_card hroot hindex,
      classCount, max_eq_left (by omega), computeBucketCount, Nat.add_zero]
    have : 0 < (computeBlockMapPageCount map.entryCount - map.flatPageCount) % map.rootCount :=
      Nat.pos_of_ne_zero huneven
    split_ifs <;> omega
  have hboundary : (computeBoundary map rootIndex).levels height =
      levelAbove^[height] ((computeBoundary map rootIndex).levels 0) := by
    simp only [computeBoundary, if_pos hheight, show 0 < blockMapTreeHeight - 1 from by decide, if_true,
      Function.iterate_zero, id]
  have hnew : (computeNewPages map.rootCount map.flatPageCount none map.entryCount).2.levels (height - 1) =
      levelAbove^[height] (computeBucketCount
        (max (computeBlockMapPageCount map.entryCount - map.flatPageCount) 1) map.rootCount) := by
    simp only [computeNewPages, if_pos (show height - 1 < blockMapTreeHeight by omega),
      Nat.sub_add_cancel hpos]
  rw [hboundary, hnew]
  exact levelAbove_mono.iterate height hleaves

end Routing

/-- A block map of `812 * 812` mappings in one tree, with no flat pages: its
812 tree leaf pages divide evenly among its one tree. -/
def evenForestMap : BlockMap := ⟨812 * 812, 0, 1⟩

theorem computeBoundary_counts_extra_leaf_page :
    (routedLeafPages evenForestMap 0).card = 812 ∧ (computeBoundary evenForestMap 0).levels 0 = 813 ∧
      (computeBoundary evenForestMap 0).levels 1 = 2 ∧
      (computeNewPages evenForestMap.rootCount evenForestMap.flatPageCount none
        evenForestMap.entryCount).2.levels 0 = 1 := by
  have hboundary : (computeBoundary evenForestMap 0).levels 0 = 813 := by decide
  have hleaf := @computeBoundary_leafPages evenForestMap 0 (by decide) (by decide) (by decide)
  rw [hboundary, if_pos (by decide)] at hleaf
  exact ⟨by omega, hboundary, by decide, by decide⟩

end Vdo
