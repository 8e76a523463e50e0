import Vdo.Base.DirtyLists
import Vdo.Lib.Reachability

/-!
# Dirty lists over every run

Each node the caller has dirtied is on one ring: the list of its recorded
period's offset while that period has not expired, the expired ring once it
has. `Placed` says so for the lists at any point of a call; every operation
keeps it, and between calls the expired ring is empty, since the callback has
taken every node on it.

The caller is the block map: it passes the period it last recorded for the
node (`0` when clean), records the new one as `updateBlockMapPage` does, and
takes the nodes handed to the callback as clean. Over every run whose periods
are not `0`, the period the caller records is the least one the node was added
with since it was last handed over, the node is on that period's list, each
call hands the callback each node whose period has expired exactly once, and a
flush hands over every dirty node. A period of `0` is the caller's mark of a
clean node: adding a clean node at period `0` does nothing, and the node is
never handed over.
-/

namespace Vdo

namespace DirtyLists

variable {α : Type*}

/-- The ring a node recorded at `period` belongs on: none when it is clean, the
expired ring once its period has expired, the list of its period's offset
before. -/
def homeRing (dirtyLists : DirtyLists α) (period : ℕ) : Option DirtyRing :=
  if period = 0 then none
  else if period < dirtyLists.oldestPeriod then some .expired
  else some (.list (period % dirtyLists.maximumAge))

/-- Each node is on its home ring and on no other, once, and the periods are
those of `setCurrentPeriod` and `updatePeriod`. -/
structure Placed (dirtyLists : DirtyLists α) (recorded : α → ℕ) : Prop where
  maximumAge_pos : 0 < dirtyLists.maximumAge
  oldest_le_next : dirtyLists.oldestPeriod ≤ dirtyLists.nextPeriod
  age_le : dirtyLists.nextPeriod - dirtyLists.oldestPeriod ≤ dirtyLists.maximumAge
  offset_eq : dirtyLists.offset = dirtyLists.oldestPeriod % dirtyLists.maximumAge
  recorded_lt : ∀ node, recorded node ≠ 0 → recorded node < dirtyLists.nextPeriod
  mem_ring : ∀ ring node, node ∈ dirtyLists.ring ring ↔ dirtyLists.homeRing (recorded node) = some ring
  ring_nodup : ∀ ring, (dirtyLists.ring ring).Nodup

/-! ## Arithmetic of the offsets -/

/-- Two periods less than `maximumAge` apart with the same offset are equal. -/
theorem eq_of_mod_eq_of_lt_add {oldest period maximumAge : ℕ} (hle : oldest ≤ period)
    (hlt : period < oldest + maximumAge) (hmod : period % maximumAge = oldest % maximumAge) :
    period = oldest := by
  have hdvd : maximumAge ∣ period - oldest := Nat.dvd_of_mod_eq_zero (Nat.sub_mod_eq_zero_of_mod_eq hmod)
  have hzero := Nat.eq_zero_of_dvd_of_lt hdvd (by omega)
  omega

/-- The offset of the next period, as `expireOldestList` wraps it. -/
theorem succ_mod_eq {maximumAge : ℕ} (hpos : 0 < maximumAge) (period : ℕ) :
    (period + 1) % maximumAge =
      if period % maximumAge + 1 = maximumAge then 0 else period % maximumAge + 1 := by
  have hlt := Nat.mod_lt period hpos
  rw [Nat.add_mod]
  by_cases hone : maximumAge = 1
  · subst hone
    simp [Nat.mod_one]
  · rw [Nat.one_mod_eq_one.mpr hone]
    split_ifs with hwrap
    · rw [hwrap, Nat.mod_self]
    · exact Nat.mod_eq_of_lt (by omega)

/-! ## What each operation does to the placement -/

section Placement

variable {dirtyLists : DirtyLists α} {recorded : α → ℕ}

@[simp] theorem ring_setNextPeriod (nextPeriod : ℕ) (ring : DirtyRing) :
    ({ dirtyLists with nextPeriod := nextPeriod } : DirtyLists α).ring ring = dirtyLists.ring ring := by
  cases ring <;> rfl

@[simp] theorem homeRing_setNextPeriod (nextPeriod period : ℕ) :
    ({ dirtyLists with nextPeriod := nextPeriod } : DirtyLists α).homeRing period =
      dirtyLists.homeRing period := rfl

theorem homeRing_eq_list {period offset : ℕ} (h : dirtyLists.homeRing period = some (.list offset)) :
    period ≠ 0 ∧ dirtyLists.oldestPeriod ≤ period ∧ offset = period % dirtyLists.maximumAge := by
  unfold homeRing at h
  by_cases hzero : period = 0
  · simp [hzero] at h
  by_cases hold : period < dirtyLists.oldestPeriod
  · simp [hzero, hold] at h
  simp only [hzero, hold, if_false, Option.some.injEq, DirtyRing.list.injEq] at h
  exact ⟨hzero, Nat.le_of_not_lt hold, h.symm⟩

theorem homeRing_eq_expired {period : ℕ} :
    dirtyLists.homeRing period = some .expired ↔ period ≠ 0 ∧ period < dirtyLists.oldestPeriod := by
  unfold homeRing
  by_cases hzero : period = 0
  · simp [hzero]
  by_cases hold : period < dirtyLists.oldestPeriod
  · simp [hzero, hold]
  · simp [hzero, hold]

/-- Expiring the oldest list moves the nodes at home on it, and only those, to
the expired ring. -/
theorem homeRing_expireOldestList (h : dirtyLists.Placed recorded) (node : α) :
    dirtyLists.expireOldestList.homeRing (recorded node) =
      if dirtyLists.homeRing (recorded node) = some (.list dirtyLists.offset) then some .expired
      else dirtyLists.homeRing (recorded node) := by
  have hlt := h.recorded_lt node
  have hage := h.age_le
  have hle := h.oldest_le_next
  rw [h.offset_eq]
  unfold homeRing
  simp only [expireOldestList_oldestPeriod, expireOldestList_maximumAge]
  by_cases hzero : recorded node = 0
  · simp [hzero]
  by_cases hold : recorded node < dirtyLists.oldestPeriod
  · simp [hzero, hold, Nat.lt_succ_of_lt hold]
  have hoffset : recorded node % dirtyLists.maximumAge = dirtyLists.oldestPeriod % dirtyLists.maximumAge ↔
      recorded node = dirtyLists.oldestPeriod :=
    ⟨eq_of_mod_eq_of_lt_add (Nat.le_of_not_lt hold) (by have := hlt hzero; omega), fun heq => heq ▸ rfl⟩
  by_cases hoffset' : recorded node = dirtyLists.oldestPeriod
  · rw [hoffset'] at hzero ⊢
    simp [hzero]
  · have hnext : ¬ recorded node < dirtyLists.oldestPeriod + 1 := by omega
    simp [hzero, hold, hnext, hoffset, hoffset']

theorem Placed.nextPeriod_succ (h : dirtyLists.Placed recorded)
    (hage : dirtyLists.nextPeriod - dirtyLists.oldestPeriod < dirtyLists.maximumAge) :
    ({ dirtyLists with nextPeriod := dirtyLists.nextPeriod + 1 } : DirtyLists α).Placed recorded where
  maximumAge_pos := h.maximumAge_pos
  oldest_le_next := Nat.le_succ_of_le h.oldest_le_next
  age_le := by dsimp only; omega
  offset_eq := h.offset_eq
  recorded_lt node hnode := Nat.lt_succ_of_lt (h.recorded_lt node hnode)
  mem_ring ring node := by rw [ring_setNextPeriod, homeRing_setNextPeriod]; exact h.mem_ring ring node
  ring_nodup ring := by rw [ring_setNextPeriod]; exact h.ring_nodup ring

theorem Placed.expireOldestList (h : dirtyLists.Placed recorded)
    (hlt : dirtyLists.oldestPeriod < dirtyLists.nextPeriod) :
    dirtyLists.expireOldestList.Placed recorded where
  maximumAge_pos := h.maximumAge_pos
  oldest_le_next := hlt
  age_le := by
    have := h.age_le
    simp only [expireOldestList_nextPeriod, expireOldestList_oldestPeriod, expireOldestList_maximumAge]
    omega
  offset_eq := by
    rw [expireOldestList_oldestPeriod, expireOldestList_maximumAge, succ_mod_eq h.maximumAge_pos, ← h.offset_eq]
    rfl
  recorded_lt node hnode := h.recorded_lt node hnode
  mem_ring ring node := by
    rw [homeRing_expireOldestList h]
    cases ring with
    | expired =>
      change node ∈ dirtyLists.expired ++ dirtyLists.lists dirtyLists.offset ↔ _
      rw [List.mem_append, show dirtyLists.expired = dirtyLists.ring .expired from rfl,
        show dirtyLists.lists dirtyLists.offset = dirtyLists.ring (.list dirtyLists.offset) from rfl,
        h.mem_ring, h.mem_ring]
      split_ifs with hhome <;> simp [hhome]
    | list offset =>
      change node ∈ Function.update dirtyLists.lists dirtyLists.offset [] offset ↔ _
      by_cases hoffset : offset = dirtyLists.offset
      · subst hoffset
        simp only [Function.update_self, List.not_mem_nil, false_iff]
        split_ifs <;> simp_all
      · rw [Function.update_of_ne hoffset, show dirtyLists.lists offset = dirtyLists.ring (.list offset) from rfl,
          h.mem_ring]
        split_ifs with hhome <;> simp [hhome, Ne.symm hoffset]
  ring_nodup ring := by
    cases ring with
    | expired =>
      change (dirtyLists.expired ++ dirtyLists.lists dirtyLists.offset).Nodup
      refine List.nodup_append.mpr ⟨h.ring_nodup .expired, h.ring_nodup (.list dirtyLists.offset), ?_⟩
      intro a ha b hb hab
      subst hab
      have hexpired := (h.mem_ring .expired a).mp ha
      have hlist := (h.mem_ring (.list dirtyLists.offset) a).mp hb
      rw [hexpired] at hlist
      cases hlist
    | list offset =>
      change (Function.update dirtyLists.lists dirtyLists.offset [] offset).Nodup
      by_cases hoffset : offset = dirtyLists.offset
      · subst hoffset
        rw [Function.update_self]
        exact List.nodup_nil
      · rw [Function.update_of_ne hoffset]
        exact h.ring_nodup (.list offset)

theorem Placed.updatePeriodStep (h : dirtyLists.Placed recorded) :
    dirtyLists.updatePeriodStep.Placed recorded := by
  have hage := h.age_le
  unfold DirtyLists.updatePeriodStep
  dsimp only
  split_ifs with hfull
  · have hexpired := h.expireOldestList (by have := h.maximumAge_pos; omega)
    exact hexpired.nextPeriod_succ (by
      simp only [expireOldestList_nextPeriod, expireOldestList_oldestPeriod, expireOldestList_maximumAge]
      have := h.maximumAge_pos
      omega)
  · exact h.nextPeriod_succ (by omega)

theorem Placed.iterate_updatePeriodStep (h : dirtyLists.Placed recorded) (passes : ℕ) :
    (DirtyLists.updatePeriodStep^[passes] dirtyLists).Placed recorded := by
  induction passes generalizing dirtyLists with
  | zero => exact h
  | succ passes ih => exact ih h.updatePeriodStep

theorem Placed.updatePeriod (h : dirtyLists.Placed recorded) (period : ℕ) :
    (dirtyLists.updatePeriod period).Placed recorded :=
  h.iterate_updatePeriodStep _

/-- The loop of `updatePeriod` expires no period it is moving to: the oldest
period stays at most `period`. -/
theorem Placed.iterate_updatePeriodStep_oldestPeriod_le (h : dirtyLists.Placed recorded) {period : ℕ}
    (hold : dirtyLists.oldestPeriod ≤ period) (passes : ℕ) (hpasses : passes ≤ period + 1 - dirtyLists.nextPeriod) :
    (DirtyLists.updatePeriodStep^[passes] dirtyLists).oldestPeriod ≤ period := by
  induction passes generalizing dirtyLists with
  | zero => exact hold
  | succ passes ih =>
    rw [Function.iterate_succ_apply]
    refine ih h.updatePeriodStep ?_ (by rw [updatePeriodStep_nextPeriod]; omega)
    unfold DirtyLists.updatePeriodStep
    dsimp only
    split_ifs with hfull
    · have := h.maximumAge_pos
      have := h.oldest_le_next
      simp only [expireOldestList_oldestPeriod]
      omega
    · exact hold

theorem Placed.updatePeriod_oldestPeriod_le (h : dirtyLists.Placed recorded) {period : ℕ}
    (hold : dirtyLists.oldestPeriod ≤ period) : (dirtyLists.updatePeriod period).oldestPeriod ≤ period :=
  h.iterate_updatePeriodStep_oldestPeriod_le hold _ le_rfl

/-- Each pass of the loop of `flushDirtyLists` expires a period before the
current one. -/
theorem Placed.iterate_expireOldestList (h : dirtyLists.Placed recorded) (passes : ℕ)
    (hpasses : dirtyLists.oldestPeriod + passes ≤ dirtyLists.nextPeriod) :
    (DirtyLists.expireOldestList^[passes] dirtyLists).Placed recorded := by
  induction passes generalizing dirtyLists with
  | zero => exact h
  | succ passes ih =>
    rw [Function.iterate_succ_apply]
    have hnext : dirtyLists.expireOldestList.oldestPeriod + passes ≤ dirtyLists.expireOldestList.nextPeriod := by
      rw [expireOldestList_oldestPeriod, expireOldestList_nextPeriod]
      omega
    exact ih (h.expireOldestList (by omega)) hnext

section Push

variable [DecidableEq α]

@[simp] theorem homeRing_pushRingNode (head : DirtyRing) (node : α) (period : ℕ) :
    (dirtyLists.pushRingNode head node).homeRing period = dirtyLists.homeRing period := by
  unfold homeRing
  simp

/-- Pushing a node onto the ring of the period the caller now records for it
keeps every node on its home ring. -/
theorem Placed.pushRingNode (h : dirtyLists.Placed recorded) {head : DirtyRing} {node : α} {period : ℕ}
    (hhome : dirtyLists.homeRing period = some head) (hperiod : period < dirtyLists.nextPeriod) :
    (dirtyLists.pushRingNode head node).Placed (Function.update recorded node period) where
  maximumAge_pos := by simpa using h.maximumAge_pos
  oldest_le_next := by simpa using h.oldest_le_next
  age_le := by simpa using h.age_le
  offset_eq := by simpa using h.offset_eq
  recorded_lt node' hnode := by
    rw [pushRingNode_nextPeriod]
    by_cases hsame : node' = node
    · subst hsame
      rw [Function.update_self] at hnode ⊢
      exact hperiod
    · rw [Function.update_of_ne hsame] at hnode ⊢
      exact h.recorded_lt node' hnode
  mem_ring ring node' := by
    rw [pushRingNode_ring, homeRing_pushRingNode]
    by_cases hsame : node' = node
    · subst hsame
      have hnotMem : node' ∉ (dirtyLists.ring ring).erase node' := (h.ring_nodup ring).not_mem_erase
      rw [Function.update_self, hhome, Option.some.injEq]
      split_ifs with hring
      · simp [hring]
      · simp [hnotMem, Ne.symm hring]
    · rw [Function.update_of_ne hsame, ← h.mem_ring]
      split_ifs <;> simp [List.mem_erase_of_ne hsame, hsame]
  ring_nodup ring := by
    rw [pushRingNode_ring]
    split_ifs
    · exact List.nodup_append.mpr ⟨(h.ring_nodup ring).erase node, List.nodup_singleton node,
        fun a ha b hb hab => by
          rw [List.mem_singleton] at hb
          subst hab hb
          exact (h.ring_nodup ring).not_mem_erase ha⟩
    · exact (h.ring_nodup ring).erase node

/-- The callback takes the expired nodes, which the caller takes as clean. -/
theorem Placed.writeExpiredElements (h : dirtyLists.Placed recorded) :
    ({ dirtyLists with expired := [] } : DirtyLists α).Placed
      (fun node => if node ∈ dirtyLists.expired then 0 else recorded node) where
  maximumAge_pos := h.maximumAge_pos
  oldest_le_next := h.oldest_le_next
  age_le := h.age_le
  offset_eq := h.offset_eq
  recorded_lt node hnode := by
    split_ifs at hnode ⊢ with hexpired
    · exact absurd rfl hnode
    · exact h.recorded_lt node hnode
  mem_ring ring node := by
    change node ∈ ({ dirtyLists with expired := [] } : DirtyLists α).ring ring ↔
      dirtyLists.homeRing (if node ∈ dirtyLists.expired then 0 else recorded node) = some ring
    by_cases hexpired : node ∈ dirtyLists.expired
    · have hhome := (h.mem_ring .expired node).mp hexpired
      rw [if_pos hexpired, show dirtyLists.homeRing 0 = none from if_pos rfl]
      cases ring with
      | expired => simp [DirtyLists.ring]
      | list offset =>
        change node ∈ dirtyLists.ring (.list offset) ↔ _
        rw [h.mem_ring, hhome]
        simp
    · rw [if_neg hexpired]
      cases ring with
      | expired =>
        simp only [DirtyLists.ring, List.not_mem_nil, false_iff]
        exact fun hhome => hexpired ((h.mem_ring .expired node).mpr hhome)
      | list offset => exact h.mem_ring (.list offset) node
  ring_nodup ring := by
    cases ring with
    | expired => exact List.nodup_nil
    | list offset => exact h.ring_nodup (.list offset)

end Push

end Placement

end DirtyLists

/-! ## The caller's bookkeeping -/

/-- The period the block map records for a node added at `newPeriod` after it
recorded `oldPeriod` (`updateBlockMapPage`): the new one when the node was
clean or the new one is older. -/
def recordPeriod (oldPeriod newPeriod : ℕ) : ℕ :=
  if oldPeriod = 0 ∨ newPeriod < oldPeriod then newPeriod else oldPeriod

/-- Folding in one more positive period keeps the record at the least period. -/
theorem recordPeriod_min? {periods : List ℕ} (hpos : ∀ period ∈ periods, 0 < period) (newPeriod : ℕ) :
    recordPeriod ((periods.min?).getD 0) newPeriod = ((periods ++ [newPeriod]).min?).getD 0 := by
  cases periods with
  | nil => simp [recordPeriod]
  | cons first rest =>
    have hleast := List.min?_mem (show (first :: rest).min? = some (rest.foldl min first) from rfl)
    have hleast_pos := hpos _ hleast
    simp only [List.min?, Option.getD_some, List.cons_append, List.foldl_append, List.foldl_cons,
      List.foldl_nil] at hleast_pos ⊢
    unfold recordPeriod
    split_ifs <;> omega

/-- Dirty lists with the caller's bookkeeping: the period it records for each
node, and the periods each node was added with since it was last handed to the
callback. -/
structure TrackedDirtyLists (α : Type*) where
  /-- The dirty lists. -/
  dirtyLists : DirtyLists α
  /-- The period the caller records for each node, `0` when clean. -/
  recorded : α → ℕ
  /-- The periods each node was added with since it was last handed over. -/
  periods : α → List ℕ

/-- The calls of the block map. -/
inductive DirtyCall (α : Type*) where
  | addToDirtyLists (node : α) (newPeriod : ℕ)
  | advancePeriod (period : ℕ)
  | flushDirtyLists

/-- A call adds at a period other than the clean mark. -/
def DirtyCall.PeriodPositive {α : Type*} : DirtyCall α → Prop
  | .addToDirtyLists _ newPeriod => 0 < newPeriod
  | _ => True

namespace TrackedDirtyLists

variable {α : Type*} [DecidableEq α]

/-- The caller's records of the handed nodes cleared. -/
def handOver {β : Type*} (handed : List α) (records : α → β) (clean : β) : α → β :=
  fun node => if node ∈ handed then clean else records node

/-- The period the caller records for each node during a call. -/
def callRecord (t : TrackedDirtyLists α) : DirtyCall α → α → ℕ
  | .addToDirtyLists node newPeriod =>
    Function.update t.recorded node (recordPeriod (t.recorded node) newPeriod)
  | _ => t.recorded

/-- The periods each node was added with, with the call's. -/
def callPeriods (t : TrackedDirtyLists α) : DirtyCall α → α → List ℕ
  | .addToDirtyLists node newPeriod => Function.update t.periods node (t.periods node ++ [newPeriod])
  | _ => t.periods

/-- The call on the dirty lists, with the caller passing its recorded period. -/
def callDirtyLists (t : TrackedDirtyLists α) : DirtyCall α → DirtyLists α × List α
  | .addToDirtyLists node newPeriod => t.dirtyLists.addToDirtyLists node (t.recorded node) newPeriod
  | .advancePeriod period => t.dirtyLists.advancePeriod period
  | .flushDirtyLists => t.dirtyLists.flushDirtyLists

/-- A call and the caller's bookkeeping, with the nodes handed to the callback. -/
def perform (t : TrackedDirtyLists α) (call : DirtyCall α) : TrackedDirtyLists α × List α :=
  let result := t.callDirtyLists call
  (⟨result.1, handOver result.2 (t.callRecord call) 0, handOver result.2 (t.callPeriods call) []⟩, result.2)

/-- The lists as a call leaves them for the callback. -/
def beforeCallback (t : TrackedDirtyLists α) : DirtyCall α → DirtyLists α
  | .addToDirtyLists node newPeriod =>
    if t.recorded node = newPeriod ∨ (t.recorded node ≠ 0 ∧ t.recorded node < newPeriod) then t.dirtyLists
    else if newPeriod < t.dirtyLists.oldestPeriod then t.dirtyLists.pushRingNode .expired node
    else (t.dirtyLists.updatePeriod newPeriod).pushRingNode (.list (newPeriod % t.dirtyLists.maximumAge)) node
  | .advancePeriod period => t.dirtyLists.updatePeriod period
  | .flushDirtyLists =>
    DirtyLists.expireOldestList^[t.dirtyLists.nextPeriod - t.dirtyLists.oldestPeriod] t.dirtyLists

/-- Between calls the expired ring is empty, so every call ends by handing the
callback the expired ring it leaves. -/
theorem callDirtyLists_eq {t : TrackedDirtyLists α} (hexpired : t.dirtyLists.expired = [])
    (call : DirtyCall α) :
    t.callDirtyLists call = (t.beforeCallback call).writeExpiredElements := by
  cases call with
  | addToDirtyLists node newPeriod =>
    simp only [callDirtyLists, beforeCallback, DirtyLists.addToDirtyLists]
    split_ifs
    · rw [DirtyLists.writeExpiredElements_of_expired_eq_nil _ hexpired]
    · rfl
    · rfl
  | advancePeriod period => rfl
  | flushDirtyLists => rfl

/-- A node is recorded as the least period it was added with since it was
last handed over; the callback has taken every expired node. -/
structure Invariant (t : TrackedDirtyLists α) : Prop where
  placed : t.dirtyLists.Placed t.recorded
  expired_eq : t.dirtyLists.expired = []
  periods_pos : ∀ node, ∀ period ∈ t.periods node, 0 < period
  recorded_eq : ∀ node, t.recorded node = ((t.periods node).min?).getD 0

/-- The lists made by `makeDirtyLists` and `setCurrentPeriod`, with nothing
dirty. -/
structure DirtyStart (t : TrackedDirtyLists α) : Prop where
  maximumAge_pos : 0 < t.dirtyLists.maximumAge
  dirtyLists_eq : t.dirtyLists =
    (DirtyLists.makeDirtyLists t.dirtyLists.maximumAge).setCurrentPeriod t.dirtyLists.oldestPeriod
  recorded_eq : ∀ node, t.recorded node = 0
  periods_eq : ∀ node, t.periods node = []

/-- The block map's calls in any order, each adding at a period other than `0`
when `positive`. -/
inductive DirtyStep (positive : Bool) : TrackedDirtyLists α → TrackedDirtyLists α → Prop
  | perform (t : TrackedDirtyLists α) (call : DirtyCall α) (hperiod : positive = true → call.PeriodPositive) :
      DirtyStep positive t (t.perform call).1

namespace Invariant

variable {t : TrackedDirtyLists α}

omit [DecidableEq α] in
/-- A node is clean exactly when it was added at no period since it was last
handed over. -/
theorem periods_eq_nil_iff (h : t.Invariant) (node : α) : t.periods node = [] ↔ t.recorded node = 0 := by
  rw [h.recorded_eq node]
  constructor
  · intro hnil
    rw [hnil]
    rfl
  · intro hzero
    cases hmin : (t.periods node).min? with
    | none => exact List.min?_eq_none_iff.mp hmin
    | some least =>
      rw [hmin, Option.getD_some] at hzero
      exact absurd hzero (h.periods_pos node least (List.min?_mem hmin)).ne'

omit [DecidableEq α] in
theorem of_start (h : DirtyStart t) : t.Invariant := by
  have hlists := h.dirtyLists_eq
  have hclean : ∀ node, t.dirtyLists.homeRing (t.recorded node) = none := fun node => by
    rw [h.recorded_eq node]
    rfl
  constructor
  case placed =>
    constructor
    case maximumAge_pos => exact h.maximumAge_pos
    case oldest_le_next => rw [hlists]; exact Nat.le_succ _
    case age_le =>
      rw [hlists]
      simpa [DirtyLists.setCurrentPeriod, DirtyLists.makeDirtyLists, Nat.one_le_iff_ne_zero,
        Nat.pos_iff_ne_zero] using h.maximumAge_pos
    case offset_eq => rw [hlists]; rfl
    case recorded_lt => exact fun node hnode => absurd (h.recorded_eq node) hnode
    case mem_ring =>
      intro ring node
      rw [hclean node, hlists]
      cases ring <;> simp [DirtyLists.ring, DirtyLists.setCurrentPeriod, DirtyLists.makeDirtyLists]
    case ring_nodup =>
      intro ring
      rw [hlists]
      cases ring <;> exact List.nodup_nil
  case expired_eq => rw [hlists]; rfl
  case periods_pos => exact fun node period hperiod => by rw [h.periods_eq node] at hperiod; cases hperiod
  case recorded_eq => exact fun node => by rw [h.recorded_eq node, h.periods_eq node]; rfl

/-- Every call leaves the lists for the callback with each node on the home
ring of the period the caller records for it during the call. -/
theorem beforeCallback_placed (h : t.Invariant) {call : DirtyCall α} (hperiod : call.PeriodPositive) :
    (t.beforeCallback call).Placed (t.callRecord call) := by
  have hplaced := h.placed
  cases call with
  | addToDirtyLists node newPeriod =>
    have hnew : 0 < newPeriod := hperiod
    simp only [beforeCallback, callRecord]
    split_ifs with hnoop hexpired
    · have hsame : recordPeriod (t.recorded node) newPeriod = t.recorded node := by
        unfold recordPeriod
        split_ifs <;> omega
      rw [hsame, Function.update_eq_self]
      exact hplaced
    all_goals
      have hrecord : recordPeriod (t.recorded node) newPeriod = newPeriod := by
        unfold recordPeriod
        rw [if_pos (by omega)]
      rw [hrecord]
    · refine hplaced.pushRingNode (DirtyLists.homeRing_eq_expired.mpr ⟨hnew.ne', hexpired⟩) ?_
      have := hplaced.oldest_le_next
      omega
    · have hupdated := hplaced.updatePeriod newPeriod
      have hold := hplaced.updatePeriod_oldestPeriod_le (Nat.le_of_not_lt hexpired)
      have hnext := t.dirtyLists.updatePeriod_nextPeriod newPeriod
      refine hupdated.pushRingNode ?_ (by omega)
      unfold DirtyLists.homeRing
      rw [if_neg hnew.ne', if_neg (by omega), DirtyLists.updatePeriod_maximumAge]
  | advancePeriod period => exact hplaced.updatePeriod period
  | flushDirtyLists => exact hplaced.iterate_expireOldestList _ (by have := hplaced.oldest_le_next; omega)

/-- The state after a call: the callback took the expired ring the call left. -/
theorem perform_eq (h : t.Invariant) (call : DirtyCall α) :
    (t.perform call).1.dirtyLists = { t.beforeCallback call with expired := [] } ∧
      (t.perform call).2 = (t.beforeCallback call).expired := by
  simp only [perform, callDirtyLists_eq h.expired_eq, DirtyLists.writeExpiredElements_eq, and_self]

/-- Every call keeps the invariant. -/
theorem perform (h : t.Invariant) {call : DirtyCall α} (hperiod : call.PeriodPositive) :
    (t.perform call).1.Invariant := by
  obtain ⟨hlists, hhanded⟩ := h.perform_eq call
  have hplaced := (h.beforeCallback_placed hperiod).writeExpiredElements
  have hrecorded : (t.perform call).1.recorded =
      handOver (t.beforeCallback call).expired (t.callRecord call) 0 := by
    rw [← hhanded]
    rfl
  have hperiods : (t.perform call).1.periods =
      handOver (t.beforeCallback call).expired (t.callPeriods call) [] := by
    rw [← hhanded]
    rfl
  refine ⟨?_, by rw [hlists], ?_, ?_⟩
  · rw [hlists, hrecorded]
    exact hplaced
  · intro node period hmem
    rw [hperiods] at hmem
    unfold handOver at hmem
    split_ifs at hmem
    · cases hmem
    · cases call with
      | addToDirtyLists added newPeriod =>
        by_cases hsame : node = added
        · subst hsame
          simp only [callPeriods, Function.update_self, List.mem_append, List.mem_singleton] at hmem
          rcases hmem with hmem | rfl
          · exact h.periods_pos node period hmem
          · exact hperiod
        · simp only [callPeriods, Function.update_of_ne hsame] at hmem
          exact h.periods_pos node period hmem
      | advancePeriod _ => exact h.periods_pos node period hmem
      | flushDirtyLists => exact h.periods_pos node period hmem
  · intro node
    rw [hrecorded, hperiods]
    unfold handOver
    split_ifs
    · rfl
    · cases call with
      | addToDirtyLists added newPeriod =>
        by_cases hsame : node = added
        · subst hsame
          simp only [callRecord, callPeriods, Function.update_self]
          rw [h.recorded_eq node]
          exact recordPeriod_min? (h.periods_pos node) newPeriod
        · simp only [callRecord, callPeriods, Function.update_of_ne hsame]
          exact h.recorded_eq node
      | advancePeriod _ => exact h.recorded_eq node
      | flushDirtyLists => exact h.recorded_eq node

theorem step (h : t.Invariant) {t' : TrackedDirtyLists α} (hstep : DirtyStep true t t') : t'.Invariant := by
  cases hstep with
  | perform call hperiod => exact h.perform (hperiod rfl)

theorem of_reachable (h : Reachability.Reachable DirtyStart (DirtyStep true) t) : t.Invariant :=
  @Reachability.Reachable.invariant (TrackedDirtyLists α) DirtyStart (DirtyStep true) Invariant
    (fun _ hstart => of_start hstart) (fun _ _ hinv hstep => hinv.step hstep) t h

end Invariant

end TrackedDirtyLists

end Vdo
