import Mathlib

/-!
# Dirty lists

`dirtyLists.c` keeps the dirty elements of the block map (pages and tree
pages) on one ring per period of the last `maximumAge` periods, each element on
the ring of the oldest period that dirtied it. When the current period moves
past `oldestPeriod + maximumAge`, the oldest ring is spliced onto the ring of
expired elements, which is handed to the callback to be written out.

A ring is the list of its nodes, from the head's `next` round to its `prev`.
A node is linked into one ring at a time through its own `next` and `prev`, so
`pushRingNode` first takes it off the ring it is on; here that is removing it
from every ring. The callback is expected to take every node off the expired
ring, as the assertion after it says.
-/

namespace Vdo

/-- The rings of a `DirtyLists`: the expired ring and the ring of each offset. -/
inductive DirtyRing where
  | expired
  | list (offset : ℕ)
  deriving DecidableEq, Repr

/-- `struct dirtyLists`, without its callback and context. -/
structure DirtyLists (α : Type*) where
  /-- The number of periods after which an element will be expired. -/
  maximumAge : ℕ
  /-- The oldest period which has unexpired elements. -/
  oldestPeriod : ℕ
  /-- One more than the current period. -/
  nextPeriod : ℕ
  /-- The offset in the array of lists of the oldest period. -/
  offset : ℕ
  /-- The list of elements which are being expired. -/
  expired : List α
  /-- The lists of dirty elements. -/
  lists : ℕ → List α

namespace DirtyLists

variable {α : Type*}

/-- `makeDirtyLists`: the structure is allocated zeroed and every ring is
initialized empty. -/
def makeDirtyLists (maximumAge : ℕ) : DirtyLists α :=
  ⟨maximumAge, 0, 0, 0, [], fun _ => []⟩

/-- The nodes of a ring. -/
def ring (dirtyLists : DirtyLists α) : DirtyRing → List α
  | .expired => dirtyLists.expired
  | .list offset => dirtyLists.lists offset

/-- A ring replaced by `nodes`. -/
def setRing (dirtyLists : DirtyLists α) (nodes : List α) : DirtyRing → DirtyLists α
  | .expired => { dirtyLists with expired := nodes }
  | .list offset => { dirtyLists with lists := Function.update dirtyLists.lists offset nodes }

/-- `unspliceRingNode`: the node taken off the ring it is on. -/
def unspliceRingNode [DecidableEq α] (dirtyLists : DirtyLists α) (node : α) : DirtyLists α :=
  { dirtyLists with
    expired := dirtyLists.expired.erase node
    lists := fun offset => (dirtyLists.lists offset).erase node }

/-- `pushRingNode`: the node taken off its ring and put at the end of `head`. -/
def pushRingNode [DecidableEq α] (dirtyLists : DirtyLists α) (head : DirtyRing) (node : α) : DirtyLists α :=
  let unspliced := dirtyLists.unspliceRingNode node
  unspliced.setRing (unspliced.ring head ++ [node]) head

/-- `setCurrentPeriod`. -/
def setCurrentPeriod (dirtyLists : DirtyLists α) (period : ℕ) : DirtyLists α :=
  { dirtyLists with
    oldestPeriod := period
    nextPeriod := period + 1
    offset := period % dirtyLists.maximumAge }

/-- `expireOldestList`: the oldest ring spliced onto the end of the expired
ring. -/
def expireOldestList (dirtyLists : DirtyLists α) : DirtyLists α :=
  { dirtyLists with
    oldestPeriod := dirtyLists.oldestPeriod + 1
    offset := if dirtyLists.offset + 1 = dirtyLists.maximumAge then 0 else dirtyLists.offset + 1
    expired := dirtyLists.expired ++ dirtyLists.lists dirtyLists.offset
    lists := Function.update dirtyLists.lists dirtyLists.offset [] }

/-- One pass of the loop of `updatePeriod`. -/
def updatePeriodStep (dirtyLists : DirtyLists α) : DirtyLists α :=
  let aged :=
    if dirtyLists.nextPeriod - dirtyLists.oldestPeriod = dirtyLists.maximumAge then
      dirtyLists.expireOldestList
    else dirtyLists
  { aged with nextPeriod := aged.nextPeriod + 1 }

/-- `updatePeriod`: the loop runs while `nextPeriod ≤ period`, and each pass
increments `nextPeriod`, so it makes one pass per period up to `period`. -/
def updatePeriod (dirtyLists : DirtyLists α) (period : ℕ) : DirtyLists α :=
  updatePeriodStep^[period + 1 - dirtyLists.nextPeriod] dirtyLists

/-- `writeExpiredElements`: the expired ring, if it is not empty, handed to the
callback, which takes every node off it. -/
def writeExpiredElements (dirtyLists : DirtyLists α) : DirtyLists α × List α :=
  if dirtyLists.expired.isEmpty then (dirtyLists, [])
  else ({ dirtyLists with expired := [] }, dirtyLists.expired)

/-- `addToDirtyLists`, with the nodes handed to the callback. -/
def addToDirtyLists [DecidableEq α] (dirtyLists : DirtyLists α) (node : α) (oldPeriod newPeriod : ℕ) :
    DirtyLists α × List α :=
  if oldPeriod = newPeriod ∨ (oldPeriod ≠ 0 ∧ oldPeriod < newPeriod) then (dirtyLists, [])
  else
    let added :=
      if newPeriod < dirtyLists.oldestPeriod then dirtyLists.pushRingNode .expired node
      else (dirtyLists.updatePeriod newPeriod).pushRingNode (.list (newPeriod % dirtyLists.maximumAge)) node
    added.writeExpiredElements

/-- `advancePeriod`, with the nodes handed to the callback. -/
def advancePeriod (dirtyLists : DirtyLists α) (period : ℕ) : DirtyLists α × List α :=
  (dirtyLists.updatePeriod period).writeExpiredElements

/-- `flushDirtyLists`: the loop runs while `oldestPeriod < nextPeriod`, and
each pass increments `oldestPeriod`. -/
def flushDirtyLists (dirtyLists : DirtyLists α) : DirtyLists α × List α :=
  (expireOldestList^[dirtyLists.nextPeriod - dirtyLists.oldestPeriod] dirtyLists).writeExpiredElements

/-! ## The fields each operation changes -/

section Fields

variable (dirtyLists : DirtyLists α) (node : α)

@[simp] theorem setRing_maximumAge (nodes : List α) (head : DirtyRing) :
    (dirtyLists.setRing nodes head).maximumAge = dirtyLists.maximumAge := by
  cases head <;> rfl

@[simp] theorem setRing_oldestPeriod (nodes : List α) (head : DirtyRing) :
    (dirtyLists.setRing nodes head).oldestPeriod = dirtyLists.oldestPeriod := by
  cases head <;> rfl

@[simp] theorem setRing_nextPeriod (nodes : List α) (head : DirtyRing) :
    (dirtyLists.setRing nodes head).nextPeriod = dirtyLists.nextPeriod := by
  cases head <;> rfl

@[simp] theorem setRing_offset (nodes : List α) (head : DirtyRing) :
    (dirtyLists.setRing nodes head).offset = dirtyLists.offset := by
  cases head <;> rfl

theorem setRing_ring (nodes : List α) (head ring : DirtyRing) :
    (dirtyLists.setRing nodes head).ring ring = if ring = head then nodes else dirtyLists.ring ring := by
  cases head <;> cases ring <;> simp [setRing, DirtyLists.ring, Function.update_apply, eq_comm]

@[simp] theorem expireOldestList_maximumAge :
    dirtyLists.expireOldestList.maximumAge = dirtyLists.maximumAge := rfl

@[simp] theorem expireOldestList_oldestPeriod :
    dirtyLists.expireOldestList.oldestPeriod = dirtyLists.oldestPeriod + 1 := rfl

@[simp] theorem expireOldestList_nextPeriod :
    dirtyLists.expireOldestList.nextPeriod = dirtyLists.nextPeriod := rfl

@[simp] theorem updatePeriodStep_maximumAge :
    dirtyLists.updatePeriodStep.maximumAge = dirtyLists.maximumAge := by
  unfold updatePeriodStep
  split_ifs <;> rfl

@[simp] theorem updatePeriodStep_nextPeriod :
    dirtyLists.updatePeriodStep.nextPeriod = dirtyLists.nextPeriod + 1 := by
  unfold updatePeriodStep
  split_ifs <;> rfl

@[simp] theorem iterate_updatePeriodStep_maximumAge (passes : ℕ) :
    (updatePeriodStep^[passes] dirtyLists).maximumAge = dirtyLists.maximumAge := by
  induction passes generalizing dirtyLists with
  | zero => rfl
  | succ passes ih => rw [Function.iterate_succ_apply, ih, updatePeriodStep_maximumAge]

@[simp] theorem iterate_updatePeriodStep_nextPeriod (passes : ℕ) :
    (updatePeriodStep^[passes] dirtyLists).nextPeriod = dirtyLists.nextPeriod + passes := by
  induction passes generalizing dirtyLists with
  | zero => rfl
  | succ passes ih =>
    rw [Function.iterate_succ_apply, ih, updatePeriodStep_nextPeriod]
    omega

@[simp] theorem updatePeriod_maximumAge (period : ℕ) :
    (dirtyLists.updatePeriod period).maximumAge = dirtyLists.maximumAge :=
  iterate_updatePeriodStep_maximumAge _ _

/-- After `updatePeriod`, the current period is at least `period`. -/
theorem updatePeriod_nextPeriod (period : ℕ) :
    (dirtyLists.updatePeriod period).nextPeriod = max dirtyLists.nextPeriod (period + 1) := by
  rw [updatePeriod, iterate_updatePeriodStep_nextPeriod]
  omega

@[simp] theorem iterate_expireOldestList_nextPeriod (passes : ℕ) :
    (expireOldestList^[passes] dirtyLists).nextPeriod = dirtyLists.nextPeriod := by
  induction passes generalizing dirtyLists with
  | zero => rfl
  | succ passes ih => rw [Function.iterate_succ_apply, ih, expireOldestList_nextPeriod]

@[simp] theorem iterate_expireOldestList_oldestPeriod (passes : ℕ) :
    (expireOldestList^[passes] dirtyLists).oldestPeriod = dirtyLists.oldestPeriod + passes := by
  induction passes generalizing dirtyLists with
  | zero => rfl
  | succ passes ih =>
    rw [Function.iterate_succ_apply, ih, expireOldestList_oldestPeriod]
    omega

/-- The callback takes the whole expired ring, and nothing else changes. -/
theorem writeExpiredElements_eq :
    dirtyLists.writeExpiredElements = ({ dirtyLists with expired := [] }, dirtyLists.expired) := by
  unfold writeExpiredElements
  split_ifs with hempty
  · obtain ⟨maximumAge, oldestPeriod, nextPeriod, offset, expired, lists⟩ := dirtyLists
    obtain rfl : expired = [] := List.isEmpty_iff.mp hempty
    rfl
  · rfl

section Push

variable [DecidableEq α]

@[simp] theorem unspliceRingNode_maximumAge :
    (dirtyLists.unspliceRingNode node).maximumAge = dirtyLists.maximumAge := rfl

@[simp] theorem unspliceRingNode_oldestPeriod :
    (dirtyLists.unspliceRingNode node).oldestPeriod = dirtyLists.oldestPeriod := rfl

@[simp] theorem unspliceRingNode_nextPeriod :
    (dirtyLists.unspliceRingNode node).nextPeriod = dirtyLists.nextPeriod := rfl

@[simp] theorem unspliceRingNode_offset :
    (dirtyLists.unspliceRingNode node).offset = dirtyLists.offset := rfl

theorem unspliceRingNode_ring (ring : DirtyRing) :
    (dirtyLists.unspliceRingNode node).ring ring = (dirtyLists.ring ring).erase node := by
  cases ring <;> rfl

@[simp] theorem pushRingNode_maximumAge (head : DirtyRing) :
    (dirtyLists.pushRingNode head node).maximumAge = dirtyLists.maximumAge := by
  simp [pushRingNode]

@[simp] theorem pushRingNode_oldestPeriod (head : DirtyRing) :
    (dirtyLists.pushRingNode head node).oldestPeriod = dirtyLists.oldestPeriod := by
  simp [pushRingNode]

@[simp] theorem pushRingNode_nextPeriod (head : DirtyRing) :
    (dirtyLists.pushRingNode head node).nextPeriod = dirtyLists.nextPeriod := by
  simp [pushRingNode]

@[simp] theorem pushRingNode_offset (head : DirtyRing) :
    (dirtyLists.pushRingNode head node).offset = dirtyLists.offset := by
  simp [pushRingNode]

/-- A push takes the node off every ring and appends it to `head`. -/
theorem pushRingNode_ring (head ring : DirtyRing) :
    (dirtyLists.pushRingNode head node).ring ring =
      if ring = head then (dirtyLists.ring ring).erase node ++ [node]
      else (dirtyLists.ring ring).erase node := by
  rw [pushRingNode, setRing_ring, unspliceRingNode_ring, unspliceRingNode_ring]
  split_ifs with hhead
  · rw [hhead]
  · rfl

end Push

theorem writeExpiredElements_of_expired_eq_nil (h : dirtyLists.expired = []) :
    dirtyLists.writeExpiredElements = (dirtyLists, []) := by
  unfold writeExpiredElements
  rw [if_pos (by rw [h]; rfl)]

end Fields

end DirtyLists

end Vdo
