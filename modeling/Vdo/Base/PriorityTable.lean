import Mathlib
import Vdo.Uds.OpenChapterZone

/-!
# The priority table

A priority table (`priorityTable.c`) queues entries in one bucket per priority
`0 .. maxPriority`; the bucket is a ring headed by its queue node, and bit `p` of
the 64-bit `searchVector` flags bucket `p` as non-empty, so that
`priorityTableDequeue` finds the highest non-empty bucket with `logBaseTwo`.

Rings are modelled by their members in order from the head's `next` on: a
bucket's ring is its queue head followed by its entries, and a node on no ring
points to itself. `resetPriorityTable` unsplices each queue head but leaves the
entries linked to one another (as its header says); those rings are kept as
`loose` rings, which no bucket owns. `priorityTableRemove` of an entry finds the
bucket to flag as empty from the node after the entry; when that node is an
entry, the cast `asBucket` reads an entry as a bucket, which the model leaves
undefined (`none`), as it does an index past the buckets.

`Wf` is the invariant: the search vector flags exactly the non-empty buckets, no
bucket lies past `maxPriority`, and every entry is on one ring at most. The
table refines per-priority FIFO queues (`Queues`): each operation, under the
preconditions its callers keep, does on the buckets what the queues do
(`enqueue_spec`, `dequeue_spec`, `remove_spec`, `reset_spec`), and `run_spec`
carries that over every run.
-/

namespace Vdo

/-- `logBaseTwo` (`numUtils.h`): the index of the highest set bit, and `-1` for
zero. -/
def logBaseTwo (n : ℕ) : ℤ := if n = 0 then -1 else n.log2

/-- `MAX_PRIORITY`: the search vector has 64 bits. -/
def maxPriorityLimit : ℕ := 63

/-- A node of the rings: the queue head of the bucket of a priority, or the
`RingNode` of an entry. -/
inductive RingRef (ε : Type*) where
  | head (priority : ℕ)
  | entry (e : ε)
  deriving DecidableEq

/-- The element after `x` in a ring listed from some node on: the next one in
the list, or the first after the last. -/
def cyclicNext {α : Type*} [DecidableEq α] (ring : List α) (x : α) : α :=
  match ((ring.dropWhile (· ≠ x)).drop 1) with
  | y :: _ => y
  | [] => ring.headD x

/-- A `PriorityTable`, with the rings of the entries it has queued. -/
structure PriorityTable (ε : Type*) where
  /-- The maximum priority of entries that may be stored in this table. -/
  maxPriority : ℕ
  /-- A bit vector flagging all buckets that are currently non-empty. -/
  searchVector : BitVec 64
  /-- The entries on the ring of each bucket, oldest first. -/
  buckets : ℕ → List ε
  /-- Rings of entries that `resetPriorityTable` left linked to each other. -/
  loose : List (List ε)

namespace PriorityTable

variable {ε : Type*} [DecidableEq ε]

/-- `makePriorityTable`: every bucket's ring empty and no bit set. -/
def makePriorityTable (maxPriority : ℕ) : Except Uds.UdsError (PriorityTable ε) :=
  if maxPriority > maxPriorityLimit then .error .invalidArgument
  else .ok ⟨maxPriority, 0, fun _ => [], []⟩

/-- The rings: each bucket's, headed by its queue node, and the loose ones. -/
def rings (table : PriorityTable ε) : List (List (RingRef ε)) :=
  (List.range (table.maxPriority + 1)).map (fun p => .head p :: (table.buckets p).map .entry) ++
    table.loose.map (·.map .entry)

/-- The ring a node is on; a node on no ring is a ring by itself. -/
def ringOf (table : PriorityTable ε) (node : RingRef ε) : List (RingRef ε) :=
  (table.rings.find? (node ∈ ·)).getD [node]

/-- `node->next`. -/
def next (table : PriorityTable ε) (node : RingRef ε) : RingRef ε :=
  cyclicNext (table.ringOf node) node

/-- `isRingEmpty`: the node points to itself. -/
def isRingEmpty (table : PriorityTable ε) (node : RingRef ε) : Bool :=
  table.next node = node

/-- `unspliceRingNode`: the node taken off its ring. The rest of a bucket whose
queue head is unspliced stays linked, as a loose ring. -/
def unspliceRingNode (table : PriorityTable ε) : RingRef ε → PriorityTable ε
  | .head p =>
    if table.buckets p = [] then table
    else { table with
      buckets := Function.update table.buckets p []
      loose := table.loose ++ [table.buckets p] }
  | .entry e =>
    { table with
      buckets := fun p => (table.buckets p).erase e
      loose := table.loose.map (·.erase e) }

/-- `markBucketEmpty`. -/
def markBucketEmpty (table : PriorityTable ε) (priority : ℕ) : PriorityTable ε :=
  { table with searchVector := table.searchVector &&& ~~~(1#64 <<< priority) }

/-- `priorityTableEnqueue`: the entry pushed on the end of its bucket's ring
(`pushRingNode` takes it off the ring it is on first) and the bucket flagged.
The priority is checked by a logging assertion only; a bucket past the table is
undefined. -/
def priorityTableEnqueue (table : PriorityTable ε) (priority : ℕ) (e : ε) :
    Option (PriorityTable ε) :=
  if priority ≤ table.maxPriority then
    let table := table.unspliceRingNode (.entry e)
    some { table with
      buckets := Function.update table.buckets priority (table.buckets priority ++ [e])
      searchVector := table.searchVector ||| 1#64 <<< priority }
  else none

/-- `priorityTableDequeue`: the node after the queue head of the highest flagged
bucket, unspliced, and the bucket's bit cleared once its ring is empty. `none`
as the node returned is `NULL`. -/
def priorityTableDequeue (table : PriorityTable ε) :
    Option (PriorityTable ε × Option (RingRef ε)) :=
  let topPriority := logBaseTwo table.searchVector.toNat
  if topPriority < 0 then some (table, none)
  else
    let priority := topPriority.toNat
    if priority ≤ table.maxPriority then
      let entry := table.next (.head priority)
      let table := table.unspliceRingNode entry
      let table := if table.isRingEmpty (.head priority) then table.markBucketEmpty priority
        else table
      some (table, some entry)
    else none

/-- `priorityTableRemove`: an entry on a ring is unspliced, and when the node
after it is then alone, that node is taken for the queue head of the entry's
bucket (`asBucket`) and the bucket marked empty. -/
def priorityTableRemove (table : PriorityTable ε) (e : ε) : Option (PriorityTable ε) :=
  if table.isRingEmpty (.entry e) then some table
  else
    let nextNode := table.next (.entry e)
    let table := table.unspliceRingNode (.entry e)
    if table.isRingEmpty nextNode then
      match nextNode with
      | .head priority => some (table.markBucketEmpty priority)
      | .entry _ => none
    else some table

/-- `resetPriorityTable`: no bit set, and every queue head unspliced. -/
def resetPriorityTable (table : PriorityTable ε) : PriorityTable ε :=
  (List.range (table.maxPriority + 1)).foldl (fun table p => table.unspliceRingNode (.head p))
    { table with searchVector := 0 }

end PriorityTable

/-! ## Following a ring -/

section Rings

variable {α : Type*} [DecidableEq α]

theorem dropWhile_ne_append {x : α} {pre : List α} (rest : List α) (h : x ∉ pre) :
    (pre ++ x :: rest).dropWhile (· ≠ x) = x :: rest := by
  induction pre with
  | nil => simp
  | cons y pre ih =>
    have hy : y ≠ x := fun hyx => h (hyx ▸ List.mem_cons_self)
    rw [List.cons_append, List.dropWhile_cons_of_pos (by simpa using hy)]
    exact ih fun hx => h (List.mem_cons_of_mem y hx)

/-- On a ring, the node after one that is followed by another is that other. -/
theorem cyclicNext_of_append {x y : α} {pre : List α} (post : List α) (h : x ∉ pre) :
    cyclicNext (pre ++ x :: y :: post) x = y := by
  rw [cyclicNext, dropWhile_ne_append _ h]
  rfl

/-- The node after the last one of a ring is its first. -/
theorem cyclicNext_of_last {x z : α} {pre : List α} (h : x ∉ z :: pre) :
    cyclicNext (z :: pre ++ [x]) x = z := by
  rw [cyclicNext, dropWhile_ne_append _ h]
  rfl

theorem cyclicNext_singleton (x : α) : cyclicNext [x] x = x := by
  simp [cyclicNext]

end Rings

namespace PriorityTable

variable {ε : Type*} [DecidableEq ε] {table : PriorityTable ε}

/-- A node on exactly one ring is on that ring. -/
theorem ringOf_eq {ring : List (RingRef ε)} {node : RingRef ε} (hring : ring ∈ table.rings)
    (hnode : node ∈ ring) (hunique : ∀ ring' ∈ table.rings, node ∈ ring' → ring' = ring) :
    table.ringOf node = ring := by
  unfold ringOf
  cases hfind : table.rings.find? (node ∈ ·) with
  | none =>
    rw [List.find?_eq_none] at hfind
    exact absurd hnode (by simpa using hfind ring hring)
  | some ring' =>
    have hmem := List.mem_of_find?_eq_some hfind
    have hin := List.find?_some hfind
    exact hunique ring' hmem (by simpa using hin)


/-! ## The invariant -/

/-- Every entry is on one ring at most, once, and no bucket lies past
`maxPriority`. -/
structure Separated (table : PriorityTable ε) : Prop where
  empty_above : ∀ p, table.maxPriority < p → table.buckets p = []
  bucket_nodup : ∀ p, (table.buckets p).Nodup
  bucket_unique : ∀ e p q, e ∈ table.buckets p → e ∈ table.buckets q → p = q
  loose_nodup : table.loose.flatten.Nodup
  bucket_loose : ∀ e p, e ∈ table.buckets p → e ∉ table.loose.flatten

/-- The invariant of a priority table: its rings are separated, and the search
vector flags exactly the non-empty buckets. -/
structure Wf (table : PriorityTable ε) : Prop extends table.Separated where
  maxPriority_le : table.maxPriority ≤ maxPriorityLimit
  bits : ∀ p, table.searchVector.getLsbD p = true ↔ table.buckets p ≠ []

omit [DecidableEq ε] in
theorem mem_rings {ring : List (RingRef ε)} :
    ring ∈ table.rings ↔ (∃ q ≤ table.maxPriority, ring = .head q :: (table.buckets q).map .entry) ∨
      ∃ r ∈ table.loose, ring = r.map .entry := by
  simp only [rings, List.mem_append, List.mem_map, List.mem_range, Nat.lt_succ_iff]
  constructor
  · rintro (⟨q, hq, rfl⟩ | ⟨r, hr, rfl⟩)
    · exact Or.inl ⟨q, hq, rfl⟩
    · exact Or.inr ⟨r, hr, rfl⟩
  · rintro (⟨q, hq, rfl⟩ | ⟨r, hr, rfl⟩)
    · exact Or.inl ⟨q, hq, rfl⟩
    · exact Or.inr ⟨r, hr, rfl⟩

/-- The ring of a queue head is its bucket's. -/
theorem ringOf_head {p : ℕ} (hp : p ≤ table.maxPriority) :
    table.ringOf (.head p) = .head p :: (table.buckets p).map .entry := by
  refine ringOf_eq (mem_rings.mpr (Or.inl ⟨p, hp, rfl⟩)) List.mem_cons_self fun ring hring hmem => ?_
  rcases mem_rings.mp hring with ⟨q, -, rfl⟩ | ⟨r, -, rfl⟩
  · simp only [List.mem_cons, RingRef.head.injEq, List.mem_map, reduceCtorEq, and_false,
      exists_false, or_false] at hmem
    rw [hmem]
  · simp at hmem

/-- The node after a queue head: the oldest entry of its bucket, or the head
itself when the bucket is empty. -/
theorem next_head {p : ℕ} (hp : p ≤ table.maxPriority) :
    table.next (.head p) = (((table.buckets p).head?).map .entry).getD (.head p) := by
  rw [next, ringOf_head hp]
  cases table.buckets p with
  | nil => exact cyclicNext_singleton _
  | cons e rest => exact @cyclicNext_of_append _ _ _ _ [] _ List.not_mem_nil

omit [DecidableEq ε] in
/-- A non-empty bucket lies within the table. -/
theorem Separated.le_maxPriority (hsep : table.Separated) {p : ℕ} (h : table.buckets p ≠ []) :
    p ≤ table.maxPriority := by
  by_contra hgt
  exact h (hsep.empty_above p (by omega))

omit [DecidableEq ε] in
/-- An entry is once in its bucket: neither before nor after itself. -/
theorem Separated.not_mem_of_split (hsep : table.Separated) {e : ε} {p : ℕ}
    {pre post : List ε} (hbucket : table.buckets p = pre ++ e :: post) : e ∉ pre ∧ e ∉ post := by
  have hnodup := hsep.bucket_nodup p
  rw [hbucket, List.nodup_append, List.nodup_cons] at hnodup
  exact ⟨fun hmem => hnodup.2.2 e hmem e List.mem_cons_self rfl, hnodup.2.1.1⟩

section Next

variable (hsep : table.Separated)
include hsep

/-- The ring of a queued entry is its bucket's. -/
theorem ringOf_entry {e : ε} {p : ℕ} (he : e ∈ table.buckets p) :
    table.ringOf (.entry e) = .head p :: (table.buckets p).map .entry := by
  have hp := hsep.le_maxPriority (List.ne_nil_of_mem he)
  refine ringOf_eq (mem_rings.mpr (Or.inl ⟨p, hp, rfl⟩))
    (List.mem_cons_of_mem _ (List.mem_map_of_mem he)) fun ring hring hmem => ?_
  rcases mem_rings.mp hring with ⟨q, -, rfl⟩ | ⟨r, hr, rfl⟩
  · simp only [List.mem_cons, reduceCtorEq, List.mem_map, RingRef.entry.injEq, exists_eq_right,
      false_or] at hmem
    rw [hsep.bucket_unique e q p hmem he]
  · simp only [List.mem_map, RingRef.entry.injEq, exists_eq_right] at hmem
    exact absurd (List.mem_flatten_of_mem hr hmem) (hsep.bucket_loose e p he)

/-- The node after a queued entry: the entry after it, or the queue head when it
is the newest. -/
theorem next_entry {e : ε} {p : ℕ} {pre post : List ε} (hbucket : table.buckets p = pre ++ e :: post) :
    table.next (.entry e) = ((post.head?).map .entry).getD (.head p) := by
  have he : e ∈ table.buckets p := by simp [hbucket]
  have hpre := (hsep.not_mem_of_split hbucket).1
  rw [next, ringOf_entry hsep he, hbucket, List.map_append, List.map_cons]
  have hnot : RingRef.entry e ∉ RingRef.head p :: pre.map RingRef.entry := by simpa using hpre
  cases post with
  | nil => exact cyclicNext_of_last (by simpa using hnot)
  | cons f post =>
    rw [List.map_cons, ← List.cons_append]
    exact cyclicNext_of_append _ hnot

/-- A queued entry is never alone on its ring. -/
theorem next_entry_ne {e : ε} {p : ℕ} (he : e ∈ table.buckets p) :
    table.next (.entry e) ≠ .entry e := by
  obtain ⟨pre, post, hbucket⟩ := List.append_of_mem he
  rw [next_entry hsep hbucket]
  cases post with
  | nil => simp
  | cons f post =>
    have hfe : f ≠ e := fun hfe => (hsep.not_mem_of_split hbucket).2 (hfe ▸ List.mem_cons_self)
    simpa using hfe

/-- An entry that points to itself is queued in no bucket. -/
theorem not_mem_of_isRingEmpty {e : ε} (h : table.isRingEmpty (.entry e) = true) (p : ℕ) :
    e ∉ table.buckets p := fun he =>
  next_entry_ne hsep he (by simpa [isRingEmpty] using h)

end Next

/-! ## The search vector -/

theorem getLsbD_bit {p : ℕ} (hp : p < 64) (q : ℕ) : (1#64 <<< p).getLsbD q = decide (q = p) := by
  simp only [BitVec.getLsbD_shiftLeft, BitVec.getLsbD_one]
  by_cases hqp : q = p
  · subst hqp
    simp [hp]
  · rcases Nat.lt_or_gt_of_ne hqp with hlt | hgt
    · simp [hlt, hqp]
    · simp [show ¬q < p by omega, show q - p ≠ 0 by omega, hqp]

theorem getLsbD_or_bit (searchVector : BitVec 64) {p : ℕ} (hp : p < 64) (q : ℕ) :
    (searchVector ||| 1#64 <<< p).getLsbD q = (searchVector.getLsbD q || decide (q = p)) := by
  rw [BitVec.getLsbD_or, getLsbD_bit hp]

theorem getLsbD_and_not_bit (searchVector : BitVec 64) {p : ℕ} (hp : p < 64) (q : ℕ) :
    (searchVector &&& ~~~(1#64 <<< p)).getLsbD q = (searchVector.getLsbD q && !decide (q = p)) := by
  rw [BitVec.getLsbD_and]
  by_cases hq : q < 64
  · rw [BitVec.getLsbD_not, getLsbD_bit hp]
    simp [hq]
  · simp [BitVec.getLsbD_of_ge searchVector q (by omega)]

/-- The highest set bit of a non-zero vector is set, and none above it. -/
theorem getLsbD_log2 {searchVector : BitVec 64} (hne : searchVector.toNat ≠ 0) :
    searchVector.getLsbD searchVector.toNat.log2 = true ∧
      ∀ q, searchVector.toNat.log2 < q → searchVector.getLsbD q = false := by
  refine ⟨Nat.testBit_log2 hne, fun q hq => Nat.testBit_lt_two_pow ?_⟩
  calc searchVector.toNat < 2 ^ (searchVector.toNat.log2 + 1) := Nat.lt_log2_self
    _ ≤ 2 ^ q := Nat.pow_le_pow_right (by omega) hq

theorem flatten_map_erase_sublist (rings : List (List ε)) (e : ε) :
    (rings.map (·.erase e)).flatten.Sublist rings.flatten := by
  induction rings with
  | nil => exact List.Sublist.refl _
  | cons ring rings ih =>
    simp only [List.map_cons, List.flatten_cons]
    exact (List.erase_sublist).append ih

omit [DecidableEq ε] in
/-- Marking a bucket empty changes no ring. -/
theorem Separated.markBucketEmpty (hsep : table.Separated) (p : ℕ) :
    (table.markBucketEmpty p).Separated :=
  ⟨hsep.1, hsep.2, hsep.3, hsep.4, hsep.5⟩

omit [DecidableEq ε] in
/-- Taking entries off rings keeps them separated. -/
theorem Separated.of_sublist {table' : PriorityTable ε} (hsep : table.Separated)
    (hmax : table'.maxPriority = table.maxPriority)
    (hbuckets : ∀ p, (table'.buckets p).Sublist (table.buckets p))
    (hloose : table'.loose.flatten.Sublist table.loose.flatten) : table'.Separated where
  empty_above p hp := List.eq_nil_of_sublist_nil (hsep.empty_above p (hmax ▸ hp) ▸ hbuckets p)
  bucket_nodup p := (hsep.bucket_nodup p).sublist (hbuckets p)
  bucket_unique e p q hp hq :=
    hsep.bucket_unique e p q ((hbuckets p).subset hp) ((hbuckets q).subset hq)
  loose_nodup := hsep.loose_nodup.sublist hloose
  bucket_loose e p hp hmem := hsep.bucket_loose e p ((hbuckets p).subset hp) (hloose.subset hmem)

/-- A queued entry is in its own bucket only. -/
theorem erase_eq_update (hsep : table.Separated) {e : ε} {p : ℕ} (he : e ∈ table.buckets p) :
    (fun q => (table.buckets q).erase e) =
      Function.update table.buckets p ((table.buckets p).erase e) := by
  funext q
  rcases eq_or_ne q p with rfl | hqp
  · rw [Function.update_self]
  · rw [Function.update_of_ne hqp]
    exact List.erase_of_not_mem fun hq => hqp (hsep.bucket_unique e q p hq he)

/-- Unsplicing a queued entry erases it from its bucket and changes no other ring. -/
theorem unspliceRingNode_entry_of_mem (hsep : table.Separated) {e : ε} {p : ℕ}
    (he : e ∈ table.buckets p) :
    table.unspliceRingNode (.entry e) =
      { table with buckets := Function.update table.buckets p ((table.buckets p).erase e) } := by
  have hloose : table.loose.map (·.erase e) = table.loose := by
    refine (List.map_congr_left fun ring hring => ?_).trans (List.map_id _)
    exact List.erase_of_not_mem fun hmem =>
      hsep.bucket_loose e p he (List.mem_flatten_of_mem hring hmem)
  simp only [unspliceRingNode, erase_eq_update hsep he, hloose]

omit [DecidableEq ε] in
/-- A bucket shrunk to some of its entries keeps the rings separated. -/
theorem Separated.update_sublist (hsep : table.Separated) {p : ℕ} {l : List ε}
    (hl : l.Sublist (table.buckets p)) :
    ({ table with buckets := Function.update table.buckets p l } : PriorityTable ε).Separated :=
  hsep.of_sublist rfl (fun q => by
    dsimp only
    by_cases hqp : q = p
    · rw [hqp, Function.update_self]
      exact hl
    · rw [Function.update_of_ne hqp]) (List.Sublist.refl _)

/-- Bucket `p` shrunk to `l` and its bit cleared when nothing is left, as
dequeue and remove leave it. -/
def shrinkBucket (table : PriorityTable ε) (p : ℕ) (l : List ε) : PriorityTable ε :=
  let table' := { table with buckets := Function.update table.buckets p l }
  if l = [] then table'.markBucketEmpty p else table'

omit [DecidableEq ε] in
@[simp] theorem shrinkBucket_buckets (p : ℕ) (l : List ε) :
    (table.shrinkBucket p l).buckets = Function.update table.buckets p l := by
  unfold shrinkBucket
  split_ifs <;> rfl

omit [DecidableEq ε] in
@[simp] theorem shrinkBucket_maxPriority (p : ℕ) (l : List ε) :
    (table.shrinkBucket p l).maxPriority = table.maxPriority := by
  unfold shrinkBucket
  split_ifs <;> rfl

/-- Removing a queued entry shrinks its bucket by it. The bit is cleared when the
entry was the last: the node after it is then the queue head, left alone. -/
theorem remove_of_mem (hsep : table.Separated) {e : ε} {p : ℕ} (he : e ∈ table.buckets p) :
    table.priorityTableRemove e = some (table.shrinkBucket p ((table.buckets p).erase e)) := by
  obtain ⟨pre, post, hbucket⟩ := List.append_of_mem he
  have herase : (table.buckets p).erase e = pre ++ post := by
    rw [hbucket, List.erase_append_right _ (hsep.not_mem_of_split hbucket).1, List.erase_cons_head]
  have hle := hsep.le_maxPriority (List.ne_nil_of_mem he)
  have hsep' := hsep.update_sublist (herase ▸ List.erase_sublist (l := table.buckets p))
  have hfirst : table.isRingEmpty (.entry e) = false := by
    simpa [isRingEmpty] using next_entry_ne hsep he
  simp only [priorityTableRemove, hfirst, Bool.false_eq_true, if_false, next_entry hsep hbucket,
    unspliceRingNode_entry_of_mem hsep he, herase, shrinkBucket]
  cases post with
  | nil =>
    have hhead := @next_head _ _
      { table with buckets := Function.update table.buckets p (pre ++ []) } _ hle
    simp only [List.head?_nil, Option.map_none, Option.getD_none, isRingEmpty, hhead,
      Function.update_self]
    cases pre <;> simp
  | cons f post =>
    have hf : f ∈ Function.update table.buckets p (pre ++ f :: post) p := by simp
    simp [isRingEmpty, next_entry_ne hsep' hf]

/-- The queue heads of `ps` unspliced in turn, as `resetPriorityTable` does. -/
def unspliceHeads (table : PriorityTable ε) (ps : List ℕ) : PriorityTable ε :=
  ps.foldl (fun table p => table.unspliceRingNode (.head p)) table

@[simp] theorem unspliceRingNode_maxPriority (node : RingRef ε) :
    (table.unspliceRingNode node).maxPriority = table.maxPriority := by
  cases node with
  | head p =>
    simp only [unspliceRingNode]
    split_ifs <;> rfl
  | entry e => rfl

@[simp] theorem unspliceRingNode_searchVector (node : RingRef ε) :
    (table.unspliceRingNode node).searchVector = table.searchVector := by
  cases node with
  | head p =>
    simp only [unspliceRingNode]
    split_ifs <;> rfl
  | entry e => rfl

theorem unspliceRingNode_head_buckets (p : ℕ) :
    (table.unspliceRingNode (.head p)).buckets = Function.update table.buckets p [] := by
  simp only [unspliceRingNode]
  split_ifs with hempty
  · rw [← hempty, Function.update_eq_self]
  · rfl

theorem unspliceRingNode_head_loose (p : ℕ) :
    (table.unspliceRingNode (.head p)).loose.flatten = table.loose.flatten ++ table.buckets p := by
  simp only [unspliceRingNode]
  split_ifs with hempty
  · rw [hempty, List.append_nil]
  · simp

/-- Unsplicing a queue head moves its bucket's entries to a loose ring. -/
theorem Separated.unspliceRingNode_head (hsep : table.Separated) (p : ℕ) :
    (table.unspliceRingNode (.head p)).Separated := by
  have hmem : ∀ {e q}, e ∈ (table.unspliceRingNode (.head p)).buckets q →
      q ≠ p ∧ e ∈ table.buckets q := fun {e q} he => by
    rw [unspliceRingNode_head_buckets, Function.update_apply] at he
    split_ifs at he with hqp
    · cases he
    · exact ⟨hqp, he⟩
  refine ⟨fun q hq => ?_, fun q => ?_, fun e q q' hq hq' => ?_, ?_, fun e q hq => ?_⟩
  · rw [unspliceRingNode_head_buckets, Function.update_apply]
    split_ifs
    · rfl
    · exact hsep.empty_above q (by simpa using hq)
  · rw [unspliceRingNode_head_buckets, Function.update_apply]
    split_ifs
    · exact List.nodup_nil
    · exact hsep.bucket_nodup q
  · exact hsep.bucket_unique e q q' (hmem hq).2 (hmem hq').2
  · rw [unspliceRingNode_head_loose]
    exact List.nodup_append.mpr ⟨hsep.loose_nodup, hsep.bucket_nodup p,
      fun a ha b hb hab => hsep.bucket_loose b p hb (hab ▸ ha)⟩
  · obtain ⟨hqp, he⟩ := hmem hq
    rw [unspliceRingNode_head_loose, List.mem_append, not_or]
    exact ⟨hsep.bucket_loose e q he, fun hp => hqp (hsep.bucket_unique e q p he hp)⟩

theorem unspliceHeads_maxPriority (ps : List ℕ) :
    (table.unspliceHeads ps).maxPriority = table.maxPriority := by
  induction ps generalizing table with
  | nil => rfl
  | cons p ps ih =>
    rw [unspliceHeads, List.foldl_cons, ← unspliceHeads, ih, unspliceRingNode_maxPriority]

theorem unspliceHeads_searchVector (ps : List ℕ) :
    (table.unspliceHeads ps).searchVector = table.searchVector := by
  induction ps generalizing table with
  | nil => rfl
  | cons p ps ih =>
    rw [unspliceHeads, List.foldl_cons, ← unspliceHeads, ih, unspliceRingNode_searchVector]

theorem unspliceHeads_buckets (ps : List ℕ) (q : ℕ) :
    (table.unspliceHeads ps).buckets q = if q ∈ ps then [] else table.buckets q := by
  induction ps generalizing table with
  | nil => simp [unspliceHeads]
  | cons p ps ih =>
    rw [unspliceHeads, List.foldl_cons, ← unspliceHeads, ih, unspliceRingNode_head_buckets,
      Function.update_apply]
    by_cases hqp : q = p <;> simp [hqp]

theorem Separated.unspliceHeads (hsep : table.Separated) (ps : List ℕ) :
    (table.unspliceHeads ps).Separated := by
  induction ps generalizing table with
  | nil => exact hsep
  | cons p ps ih => exact ih (hsep.unspliceRingNode_head p)

/-! ## The queues a table stands for -/

/-- The state a priority table stands for: a FIFO queue of entries for each
priority up to `maxPriority`. -/
structure Queues (ε : Type*) where
  maxPriority : ℕ
  queues : ℕ → List ε

namespace Queues

/-- The highest priority whose queue is non-empty, or `0`. -/
def topPriority (q : Queues ε) : ℕ := Nat.findGreatest (fun p => q.queues p ≠ []) q.maxPriority

/-- An entry put at the back of the queue of its priority. -/
def enqueue (q : Queues ε) (priority : ℕ) (e : ε) : Queues ε :=
  { q with queues := Function.update q.queues priority (q.queues priority ++ [e]) }

/-- The oldest entry of the highest non-empty priority taken off, or none when
every queue is empty. -/
def dequeue (q : Queues ε) : Queues ε × Option ε :=
  match q.queues q.topPriority with
  | [] => (q, none)
  | e :: rest => ({ q with queues := Function.update q.queues q.topPriority rest }, some e)

/-- An entry taken out of its queue. -/
def remove (q : Queues ε) (e : ε) : Queues ε :=
  { q with queues := fun p => (q.queues p).erase e }

/-- Every queue emptied. -/
def reset (q : Queues ε) : Queues ε := { q with queues := fun _ => [] }

omit [DecidableEq ε] in
/-- Dequeue returns nothing exactly when every queue is empty. -/
theorem dequeue_snd_eq_none_iff (q : Queues ε) :
    q.dequeue.2 = none ↔ ∀ p ≤ q.maxPriority, q.queues p = [] := by
  unfold dequeue
  constructor
  · intro hnone p hp
    by_contra hne
    have htop : q.queues q.topPriority ≠ [] := by
      exact Nat.findGreatest_spec (P := fun p => q.queues p ≠ []) hp hne
    obtain ⟨e, rest, hcons⟩ := List.exists_cons_of_ne_nil htop
    simp [hcons] at hnone
  · intro hempty
    rw [hempty q.topPriority (Nat.findGreatest_le _)]

omit [DecidableEq ε] in
/-- What dequeue returns is the oldest entry of the top priority's queue, and
every queue above it is empty. -/
theorem dequeue_snd_eq_some {q : Queues ε} {e : ε} (h : q.dequeue.2 = some e) :
    (q.queues q.topPriority).head? = some e ∧
      ∀ p, q.topPriority < p → p ≤ q.maxPriority → q.queues p = [] := by
  refine ⟨?_, fun p hlt hle => not_not.mp (Nat.findGreatest_is_greatest hlt hle)⟩
  unfold dequeue at h
  cases hq : q.queues q.topPriority with
  | nil => simp [hq] at h
  | cons f rest => simpa [hq] using h

end Queues

/-- The queues a table stands for: its buckets. -/
def toQueues (table : PriorityTable ε) : Queues ε := ⟨table.maxPriority, table.buckets⟩

/-! ## Each operation does what the queues do -/

section Specs

variable (hwf : table.Wf)
include hwf

omit [DecidableEq ε] in
theorem bit_lt {p : ℕ} (hp : p ≤ table.maxPriority) : p < 64 := by
  have := hwf.maxPriority_le
  simp only [maxPriorityLimit] at this
  omega

/-- An entry on no ring enqueued at a valid priority goes at the back of its
bucket, which is flagged. -/
theorem enqueue_spec {p : ℕ} {e : ε} (hp : p ≤ table.maxPriority)
    (hfree : table.isRingEmpty (.entry e) = true) :
    ∃ table', table.priorityTableEnqueue p e = some table' ∧ table'.Wf ∧
      table'.toQueues = table.toQueues.enqueue p e := by
  have hnot := not_mem_of_isRingEmpty hwf.toSeparated hfree
  have hbuckets : (fun q => (table.buckets q).erase e) = table.buckets :=
    funext fun q => List.erase_of_not_mem (hnot q)
  have hloose : e ∉ (table.loose.map (·.erase e)).flatten := by
    simp only [List.mem_flatten, List.mem_map, not_exists, not_and]
    rintro _ ⟨ring, hring, rfl⟩ hmem
    exact ((List.nodup_flatten.mp hwf.loose_nodup).1 ring hring).not_mem_erase hmem
  have hsub := flatten_map_erase_sublist table.loose e
  have hbit := bit_lt hwf hp
  refine ⟨_, if_pos hp, ⟨⟨fun q hq => ?_, fun q => ?_, fun x a b ha hb => ?_, ?_, fun x q hx => ?_⟩,
    hwf.maxPriority_le, fun q => ?_⟩, ?_⟩ <;>
    simp only [unspliceRingNode, hbuckets] at *
  · rw [Function.update_of_ne (by omega)]
    exact hwf.empty_above q hq
  · rcases eq_or_ne q p with rfl | hqp
    · rw [Function.update_self]
      exact (hwf.bucket_nodup q).append (List.nodup_singleton e)
        (List.disjoint_singleton.mpr (hnot q))
    · rw [Function.update_of_ne hqp]
      exact hwf.bucket_nodup q
  · have hmem : ∀ c, x ∈ Function.update table.buckets p (table.buckets p ++ [e]) c →
        x ∈ table.buckets c ∨ (x = e ∧ c = p) := fun c hc => by
      rcases eq_or_ne c p with rfl | hcp
      · rw [Function.update_self, List.mem_append, List.mem_singleton] at hc
        rcases hc with hc | rfl
        · exact Or.inl hc
        · exact Or.inr ⟨rfl, rfl⟩
      · rw [Function.update_of_ne hcp] at hc
        exact Or.inl hc
    rcases hmem a ha with ha | ⟨hxe, hap⟩ <;> rcases hmem b hb with hb | ⟨hxe', hbp⟩
    · exact hwf.bucket_unique x a b ha hb
    · exact absurd (hxe' ▸ ha) (hnot a)
    · exact absurd (hxe ▸ hb) (hnot b)
    · rw [hap, hbp]
  · exact hwf.loose_nodup.sublist hsub
  · rcases eq_or_ne q p with rfl | hqp
    · rw [Function.update_self, List.mem_append, List.mem_singleton] at hx
      rcases hx with hx | rfl
      · exact fun hmem => hwf.bucket_loose x q hx (hsub.subset hmem)
      · exact hloose
    · rw [Function.update_of_ne hqp] at hx
      exact fun hmem => hwf.bucket_loose x q hx (hsub.subset hmem)
  · rw [getLsbD_or_bit _ hbit]
    rcases eq_or_ne q p with rfl | hqp
    · simp
    · simp only [hqp, decide_false, Bool.or_false, Function.update_of_ne hqp]
      exact hwf.bits q
  · rfl

omit [DecidableEq ε] in
/-- The search vector is zero exactly when every bucket is empty. -/
theorem toNat_eq_zero_iff : table.searchVector.toNat = 0 ↔ ∀ p, table.buckets p = [] := by
  constructor
  · intro hzero p
    by_contra hne
    have hbit := (hwf.bits p).mpr hne
    rw [← BitVec.testBit_toNat, hzero, Nat.zero_testBit] at hbit
    cases hbit
  · intro hempty
    have hvector : table.searchVector = 0#64 := BitVec.eq_of_getLsbD_eq fun q _ => by
      rw [BitVec.getLsbD_zero]
      by_contra hbit
      exact (hwf.bits q).mp (Bool.eq_true_of_not_eq_false hbit) (hempty q)
    rw [hvector, BitVec.toNat_zero]

omit [DecidableEq ε] in
/-- The highest set bit of the search vector is the highest non-empty priority. -/
theorem log2_eq_topPriority (hne : table.searchVector.toNat ≠ 0) :
    table.searchVector.toNat.log2 = table.toQueues.topPriority ∧
      table.buckets table.searchVector.toNat.log2 ≠ [] := by
  obtain ⟨htop, habove⟩ := getLsbD_log2 hne
  have hbucket := (hwf.bits _).mp htop
  have hle := hwf.le_maxPriority hbucket
  refine ⟨(Nat.findGreatest_eq_iff.mpr ⟨hle, fun _ => hbucket, fun q hq _ hne' => ?_⟩).symm, hbucket⟩
  exact hne' (by simpa [toQueues, habove q hq] using hwf.bits q)

omit [DecidableEq ε] in
/-- Shrinking a bucket to some of its entries keeps the invariant. -/
theorem shrinkBucket_wf {p : ℕ} (hle : p ≤ table.maxPriority) {l : List ε}
    (hl : l.Sublist (table.buckets p)) : (table.shrinkBucket p l).Wf := by
  have hsep := hwf.toSeparated.update_sublist hl
  have hbit := bit_lt hwf hle
  unfold shrinkBucket
  split_ifs with hempty
  · refine ⟨hsep.markBucketEmpty p, hwf.maxPriority_le, fun q => ?_⟩
    simp only [markBucketEmpty, getLsbD_and_not_bit _ hbit]
    by_cases hqp : q = p
    · simp [hqp, hempty]
    · simp only [hqp, decide_false, Bool.not_false, Bool.and_true, Function.update_of_ne hqp]
      exact hwf.bits q
  · refine ⟨hsep, hwf.maxPriority_le, fun q => ?_⟩
    by_cases hqp : q = p
    · simp only [hqp, Function.update_self, ne_eq, hempty, not_false_eq_true, iff_true]
      exact (hwf.bits p).mpr fun hnil => hempty (List.eq_nil_of_sublist_nil (hnil ▸ hl))
    · simp only [Function.update_of_ne hqp]
      exact hwf.bits q

/-- Dequeue takes the oldest entry of the highest non-empty bucket, found from
the search vector, and returns `NULL` when every bucket is empty. -/
theorem dequeue_spec :
    ∃ table' node, table.priorityTableDequeue = some (table', node) ∧ table'.Wf ∧
      table'.toQueues = table.toQueues.dequeue.1 ∧ node = table.toQueues.dequeue.2.map .entry := by
  by_cases hzero : table.searchVector.toNat = 0
  · have hempty := (toNat_eq_zero_iff hwf).mp hzero
    have hdequeue : table.toQueues.dequeue = (table.toQueues, none) := by
      simp only [Queues.dequeue, toQueues, hempty]
    refine ⟨table, none, ?_, hwf, by rw [hdequeue], by rw [hdequeue]; rfl⟩
    simp [priorityTableDequeue, logBaseTwo, hzero]
  · obtain ⟨htop, hbucket⟩ := log2_eq_topPriority hwf hzero
    set p := table.searchVector.toNat.log2 with hp
    obtain ⟨e, rest, hcons⟩ := List.exists_cons_of_ne_nil hbucket
    have hle := hwf.le_maxPriority hbucket
    have hunsplice : table.unspliceRingNode (.entry e) =
        { table with buckets := Function.update table.buckets p rest } := by
      rw [unspliceRingNode_entry_of_mem hwf.toSeparated (by rw [hcons]; exact List.mem_cons_self),
        hcons, List.erase_cons_head]
    have hnext : table.next (.head p) = .entry e := by
      rw [next_head hle, hcons]
      rfl
    have hdequeue : table.priorityTableDequeue =
        some (table.shrinkBucket p rest, some (.entry e)) := by
      have hlog : logBaseTwo table.searchVector.toNat = p := by simp [logBaseTwo, hzero, hp]
      have hempty : ({ table with buckets := Function.update table.buckets p rest } :
          PriorityTable ε).isRingEmpty (.head p) = decide (rest = []) := by
        rw [isRingEmpty, next_head (by exact hle)]
        cases rest <;> simp
      simp only [priorityTableDequeue, hlog, Int.toNat_natCast, hle, if_true, hnext, hunsplice,
        hempty, decide_eq_true_eq, shrinkBucket, Int.natCast_nonneg, not_lt.mpr, if_false]
    have hqueues : table.toQueues.dequeue =
        (⟨table.maxPriority, Function.update table.buckets p rest⟩, some e) := by
      simp only [Queues.dequeue, ← htop]
      rw [show table.toQueues.queues p = e :: rest from hcons]
      rfl
    refine ⟨_, _, hdequeue, shrinkBucket_wf hwf hle (by rw [hcons]; exact List.sublist_cons_self e rest),
      ?_, by rw [hqueues]; rfl⟩
    rw [hqueues]
    simp [toQueues]

/-- Remove of an entry on no ring changes nothing; of a queued entry, it takes
the entry out of its bucket. -/
theorem remove_spec {e : ε}
    (hpre : table.isRingEmpty (.entry e) = true ∨ ∃ p, e ∈ table.buckets p) :
    ∃ table', table.priorityTableRemove e = some table' ∧ table'.Wf ∧
      table'.toQueues = table.toQueues.remove e := by
  rcases hpre with hfree | ⟨p, he⟩
  · have hnot := not_mem_of_isRingEmpty hwf.toSeparated hfree
    refine ⟨table, by simp [priorityTableRemove, hfree], hwf, ?_⟩
    simp only [toQueues, Queues.remove, List.erase_of_not_mem (hnot _)]
  · have hle := hwf.le_maxPriority (List.ne_nil_of_mem he)
    refine ⟨_, remove_of_mem hwf.toSeparated he, shrinkBucket_wf hwf hle List.erase_sublist, ?_⟩
    simp only [toQueues, Queues.remove, shrinkBucket_buckets, shrinkBucket_maxPriority,
      erase_eq_update hwf.toSeparated he]

/-- Reset empties every bucket and clears the search vector; the entries stay
linked to one another, on loose rings. -/
theorem reset_spec :
    table.resetPriorityTable.Wf ∧ table.resetPriorityTable.toQueues = table.toQueues.reset := by
  have hreset : table.resetPriorityTable =
      unspliceHeads { table with searchVector := 0 } (List.range (table.maxPriority + 1)) := rfl
  have hempty : ∀ q, table.resetPriorityTable.buckets q = [] := fun q => by
    rw [hreset, unspliceHeads_buckets]
    split_ifs with hq
    · rfl
    · exact hwf.empty_above q (by simpa [Nat.lt_succ_iff] using hq)
  have hsep : table.resetPriorityTable.Separated :=
    hreset ▸ @Separated.unspliceHeads _ _ { table with searchVector := 0 }
      (hwf.toSeparated.of_sublist rfl (fun _ => List.Sublist.refl _) (List.Sublist.refl _)) _
  have hmax : table.resetPriorityTable.maxPriority = table.maxPriority := by
    rw [hreset, unspliceHeads_maxPriority]
  refine ⟨⟨hsep, hmax ▸ hwf.maxPriority_le, fun q => ?_⟩, ?_⟩
  · rw [hempty, hreset, unspliceHeads_searchVector]
    simp
  · simp only [toQueues, Queues.reset, hmax]
    exact congrArg _ (funext hempty)

end Specs

/-! ## Runs -/

/-- A call on the table: `priorityTableEnqueue`, `priorityTableDequeue`,
`priorityTableRemove` or `resetPriorityTable`. -/
inductive Op (ε : Type*) where
  | enqueue (priority : ℕ) (e : ε)
  | dequeue
  | remove (e : ε)
  | reset

/-- One call on the table, with the node a dequeue returns. `none` is undefined
behaviour. -/
def step (table : PriorityTable ε) : Op ε → Option (PriorityTable ε × Option (RingRef ε))
  | .enqueue priority e => (table.priorityTableEnqueue priority e).map (·, none)
  | .dequeue => table.priorityTableDequeue
  | .remove e => (table.priorityTableRemove e).map (·, none)
  | .reset => some (table.resetPriorityTable, none)

/-- The calls in turn, with what each returns. -/
def run (table : PriorityTable ε) : List (Op ε) → Option (PriorityTable ε × List (Option (RingRef ε)))
  | [] => some (table, [])
  | op :: ops => do
    let (table, out) ← table.step op
    let (table, outs) ← table.run ops
    return (table, out :: outs)

/-- What the callers keep to: an entry enqueued at a valid priority is on no
ring (as `prioritizeSlab` asserts), and an entry removed is on no ring or
queued in the table. -/
def Allowed (table : PriorityTable ε) : Op ε → Prop
  | .enqueue priority e => priority ≤ table.maxPriority ∧ table.isRingEmpty (.entry e) = true
  | .dequeue => True
  | .remove e =>
    table.isRingEmpty (.entry e) = true ∨ ∃ p ≤ table.maxPriority, e ∈ table.buckets p
  | .reset => True

instance (table : PriorityTable ε) : DecidablePred table.Allowed
  | .enqueue _ _ => inferInstanceAs (Decidable (_ ∧ _))
  | .dequeue => inferInstanceAs (Decidable True)
  | .remove _ => inferInstanceAs (Decidable (_ ∨ _))
  | .reset => inferInstanceAs (Decidable True)

/-- Every call of a run is allowed in the table it is made on. -/
def RunAllowed : PriorityTable ε → List (Op ε) → Prop
  | _, [] => True
  | table, op :: ops =>
    table.Allowed op ∧
      match table.step op with
      | some (table', _) => table'.RunAllowed ops
      | none => False

instance decidableRunAllowed : (table : PriorityTable ε) → (ops : List (Op ε)) →
    Decidable (table.RunAllowed ops)
  | _, [] => isTrue trivial
  | table, op :: ops =>
    match hstep : table.step op with
    | some (table', _) =>
      have := decidableRunAllowed table' ops
      decidable_of_iff (table.Allowed op ∧ table'.RunAllowed ops) (by rw [RunAllowed, hstep])
    | none => isFalse (by simp [RunAllowed, hstep])

/-- One call on the queues, with the entry a dequeue returns. -/
def Queues.step (q : Queues ε) : Op ε → Queues ε × Option ε
  | .enqueue priority e => (q.enqueue priority e, none)
  | .dequeue => q.dequeue
  | .remove e => (q.remove e, none)
  | .reset => (q.reset, none)

/-- The calls in turn on the queues, with what each returns. -/
def Queues.run (q : Queues ε) : List (Op ε) → Queues ε × List (Option ε)
  | [] => (q, [])
  | op :: ops =>
    let (q', out) := q.step op
    let (q'', outs) := q'.run ops
    (q'', out :: outs)

/-- The empty queue of each priority up to `maxPriority`. -/
def Queues.empty (maxPriority : ℕ) : Queues ε := ⟨maxPriority, fun _ => []⟩

omit [DecidableEq ε] in
/-- A new table is well formed and stands for empty queues. -/
theorem makePriorityTable_wf {m : ℕ} (hmake : makePriorityTable m = .ok table) :
    table.Wf ∧ table.toQueues = Queues.empty m := by
  unfold makePriorityTable at hmake
  split_ifs at hmake with hm
  cases hmake
  refine ⟨⟨⟨fun _ _ => rfl, fun _ => List.nodup_nil, fun _ _ _ he => (List.not_mem_nil he).elim,
    List.nodup_nil, fun _ _ he => (List.not_mem_nil he).elim⟩, not_lt.mp hm, fun p => ?_⟩, rfl⟩
  simp

/-- An allowed call does on the buckets what it does on the queues, and keeps
the invariant. -/
theorem step_spec {op : Op ε} (hwf : table.Wf) (hallowed : table.Allowed op) :
    ∃ table' out, table.step op = some (table', out) ∧ table'.Wf ∧
      table'.toQueues = (table.toQueues.step op).1 ∧
      out = (table.toQueues.step op).2.map .entry := by
  cases op with
  | enqueue priority e =>
    obtain ⟨table', henqueue, hwf', hqueues⟩ := enqueue_spec hwf hallowed.1 hallowed.2
    exact ⟨table', none, by simp [step, henqueue], hwf', hqueues, rfl⟩
  | dequeue => exact dequeue_spec hwf
  | remove e =>
    have hpre : table.isRingEmpty (.entry e) = true ∨ ∃ p, e ∈ table.buckets p :=
      hallowed.imp_right fun ⟨p, _, he⟩ => ⟨p, he⟩
    obtain ⟨table', hremove, hwf', hqueues⟩ := remove_spec hwf hpre
    exact ⟨table', none, by simp [step, hremove], hwf', hqueues, rfl⟩
  | reset => exact ⟨_, none, rfl, (reset_spec hwf).1, (reset_spec hwf).2, rfl⟩

/-- Over every allowed run the table does what the queues do: each dequeue
returns the queues' entry, and the buckets are the queues. -/
theorem run_spec {ops : List (Op ε)} (hwf : table.Wf) (hallowed : table.RunAllowed ops) :
    ∃ table' outs, table.run ops = some (table', outs) ∧ table'.Wf ∧
      table'.toQueues = (table.toQueues.run ops).1 ∧
      outs = (table.toQueues.run ops).2.map (Option.map .entry) := by
  induction ops generalizing table with
  | nil => exact ⟨table, [], rfl, hwf, rfl, rfl⟩
  | cons op ops ih =>
    obtain ⟨table1, out, hstep, hwf1, hqueues1, hout⟩ := step_spec hwf hallowed.1
    have hrest : table1.RunAllowed ops := by
      have := hallowed.2
      rwa [hstep] at this
    obtain ⟨table', outs, hrun, hwf', hqueues', houts⟩ := ih hwf1 hrest
    refine ⟨table', out :: outs, by simp [run, hstep, hrun], hwf', ?_, ?_⟩
    · rw [hqueues', hqueues1]
      rfl
    · rw [houts, hqueues1, hout]
      rfl

/-- Started from `makePriorityTable`, every allowed run returns from each
dequeue what the per-priority FIFO queues return, and flags in the search vector
exactly the priorities whose queue is non-empty. -/
theorem run_makePriorityTable {m : ℕ} (hmake : makePriorityTable m = .ok table)
    {ops : List (Op ε)} (hallowed : table.RunAllowed ops) :
    ∃ table' outs, table.run ops = some (table', outs) ∧
      outs = ((Queues.empty m).run ops).2.map (Option.map .entry) ∧
      table'.toQueues = ((Queues.empty m).run ops).1 ∧
      ∀ p, table'.searchVector.getLsbD p = true ↔ ((Queues.empty m).run ops).1.queues p ≠ [] := by
  obtain ⟨hwf, hempty⟩ := makePriorityTable_wf hmake
  obtain ⟨table', outs, hrun, hwf', hqueues, houts⟩ := run_spec hwf hallowed
  rw [hempty] at hqueues houts
  refine ⟨table', outs, hrun, houts, hqueues, fun p => ?_⟩
  rw [← hqueues]
  exact hwf'.bits p

theorem run_makePriorityTable_two_buckets :
    makePriorityTable 1 = .ok (⟨1, 0, fun _ => [], []⟩ : PriorityTable ℕ) ∧
    (⟨1, 0, fun _ => [], []⟩ : PriorityTable ℕ).RunAllowed
      [.enqueue 0 5, .enqueue 1 7, .dequeue, .remove 5] ∧
    ∃ table' outs, (⟨1, 0, fun _ => [], []⟩ : PriorityTable ℕ).run
        [.enqueue 0 5, .enqueue 1 7, .dequeue, .remove 5] = some (table', outs) ∧
      outs = ((Queues.empty 1 : Queues ℕ).run
        [.enqueue 0 5, .enqueue 1 7, .dequeue, .remove 5]).2.map (Option.map .entry) ∧
      table'.toQueues = ((Queues.empty 1 : Queues ℕ).run
        [.enqueue 0 5, .enqueue 1 7, .dequeue, .remove 5]).1 ∧
      ∀ p, table'.searchVector.getLsbD p = true ↔ ((Queues.empty 1 : Queues ℕ).run
        [.enqueue 0 5, .enqueue 1 7, .dequeue, .remove 5]).1.queues p ≠ [] :=
  ⟨rfl, by decide, run_makePriorityTable rfl (by decide)⟩

/-- After a reset, two entries queued together are still linked to each other;
removing one leaves the other alone on its ring, and `priorityTableRemove` takes
that entry for a queue head (`asBucket`): the run is undefined. -/
theorem run_remove_after_reset :
    makePriorityTable 0 = .ok (⟨0, 0, fun _ => [], []⟩ : PriorityTable ℕ) ∧
    (⟨0, 0, fun _ => [], []⟩ : PriorityTable ℕ).run
      [.enqueue 0 0, .enqueue 0 1, .reset, .remove 0] = none :=
  ⟨rfl, rfl⟩

end PriorityTable

end Vdo
