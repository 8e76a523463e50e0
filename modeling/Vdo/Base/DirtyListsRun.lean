import Vdo.Base.DirtyListsInvariant

/-!
# The oldest dirtying period, over every run

From the invariant of every run whose periods are not `0` follow the dirty
lists' promises: the ages and the offset, one list per dirty node and that of
its recorded period, the recorded period the least since the last hand-over,
each call handing over exactly the nodes whose period has expired, and a flush
handing over every dirty node. A run that adds a clean node at period `0`
loses it: the call does nothing and no flush hands it over.
-/

namespace Vdo

namespace TrackedDirtyLists

variable {α : Type*} [DecidableEq α] {t : TrackedDirtyLists α}

namespace Invariant

omit [DecidableEq α] in
/-- Between calls no dirty node has an expired period. -/
theorem oldestPeriod_le (h : t.Invariant) {node : α} (hdirty : t.recorded node ≠ 0) :
    t.dirtyLists.oldestPeriod ≤ t.recorded node := by
  by_contra hlt
  have hexpired := (h.placed.mem_ring .expired node).mpr
    (DirtyLists.homeRing_eq_expired.mpr ⟨hdirty, Nat.lt_of_not_le hlt⟩)
  rw [show t.dirtyLists.ring .expired = t.dirtyLists.expired from rfl, h.expired_eq] at hexpired
  cases hexpired

omit [DecidableEq α] in
/-- Between calls a node is on a list exactly when it is dirty, and then on the
list of its recorded period's offset. -/
theorem mem_lists_iff (h : t.Invariant) (node : α) (offset : ℕ) :
    node ∈ t.dirtyLists.lists offset ↔
      t.recorded node ≠ 0 ∧ offset = t.recorded node % t.dirtyLists.maximumAge := by
  rw [show t.dirtyLists.lists offset = t.dirtyLists.ring (.list offset) from rfl, h.placed.mem_ring]
  constructor
  · intro hhome
    obtain ⟨hdirty, -, hoffset⟩ := DirtyLists.homeRing_eq_list hhome
    exact ⟨hdirty, hoffset⟩
  · rintro ⟨hdirty, rfl⟩
    unfold DirtyLists.homeRing
    rw [if_neg hdirty, if_neg (Nat.not_lt_of_le (h.oldestPeriod_le hdirty))]

/-- The nodes a call hands to the callback are, once each, those whose period
the caller records during the call has expired when the call returns. -/
theorem handed_spec (h : t.Invariant) {call : DirtyCall α} (hperiod : call.PeriodPositive) :
    (t.perform call).2.Nodup ∧
      ∀ node, node ∈ (t.perform call).2 ↔
        t.callRecord call node ≠ 0 ∧ t.callRecord call node < (t.perform call).1.dirtyLists.oldestPeriod := by
  obtain ⟨hlists, hhanded⟩ := h.perform_eq call
  have hplaced := h.beforeCallback_placed hperiod
  rw [hhanded, hlists]
  refine ⟨hplaced.ring_nodup .expired, fun node => ?_⟩
  rw [show (t.beforeCallback call).expired = (t.beforeCallback call).ring .expired from rfl,
    hplaced.mem_ring, DirtyLists.homeRing_eq_expired]

/-- A flush hands over every dirty node: the oldest period reaches the current
one, so every recorded period has expired. -/
theorem flushDirtyLists_periods (h : t.Invariant) (node : α) :
    (t.perform .flushDirtyLists).1.periods node = [] := by
  have hhanded := (h.handed_spec (show (DirtyCall.flushDirtyLists : DirtyCall α).PeriodPositive from trivial)).2 node
  have holdest : (t.perform .flushDirtyLists).1.dirtyLists.oldestPeriod = t.dirtyLists.nextPeriod := by
    rw [(h.perform_eq .flushDirtyLists).1]
    change (DirtyLists.expireOldestList^[t.dirtyLists.nextPeriod - t.dirtyLists.oldestPeriod]
      t.dirtyLists).oldestPeriod = _
    have := h.placed.oldest_le_next
    rw [DirtyLists.iterate_expireOldestList_oldestPeriod]
    omega
  change handOver (t.perform .flushDirtyLists).2 t.periods [] node = []
  unfold handOver
  split_ifs with hmem
  · rfl
  · rw [h.periods_eq_nil_iff]
    by_contra hdirty
    exact hmem (hhanded.mpr ⟨hdirty, holdest ▸ h.placed.recorded_lt node hdirty⟩)

end Invariant

/-- The dirty lists over every run of the block map's calls whose periods are
not `0`: (a) the ages and the offset; (b) the expired ring is empty, each list
holds a node once, a node is on at most one list, a dirty node is on the list of
its recorded period's offset, and every node on a list has an unexpired period;
(c) the recorded period is the least the node was added with since it was last
handed over; and for every next call, (d) the callback takes every expired node
exactly once and leaves the expired ring empty, and (e) after a flush every
node added has been handed over. -/
theorem dirtyLists_track_oldest_period (h : Reachability.Reachable DirtyStart (DirtyStep true) t) :
    (t.dirtyLists.nextPeriod - t.dirtyLists.oldestPeriod ≤ t.dirtyLists.maximumAge ∧
      t.dirtyLists.offset = t.dirtyLists.oldestPeriod % t.dirtyLists.maximumAge) ∧
    (t.dirtyLists.expired = [] ∧ (∀ offset, (t.dirtyLists.lists offset).Nodup) ∧
      (∀ node offset offset', node ∈ t.dirtyLists.lists offset → node ∈ t.dirtyLists.lists offset' →
        offset = offset') ∧
      (∀ node, t.recorded node ≠ 0 →
        node ∈ t.dirtyLists.lists (t.recorded node % t.dirtyLists.maximumAge)) ∧
      ∀ node offset, node ∈ t.dirtyLists.lists offset →
        t.dirtyLists.oldestPeriod ≤ t.recorded node ∧ t.recorded node < t.dirtyLists.nextPeriod ∧
          t.recorded node % t.dirtyLists.maximumAge = offset) ∧
    (∀ node, t.recorded node = ((t.periods node).min?).getD 0) ∧
    ∀ call : DirtyCall α, call.PeriodPositive →
      ((t.perform call).1.dirtyLists.expired = [] ∧ (t.perform call).2.Nodup ∧
        ∀ node, node ∈ (t.perform call).2 ↔
          t.callRecord call node ≠ 0 ∧ t.callRecord call node < (t.perform call).1.dirtyLists.oldestPeriod) ∧
      (call = .flushDirtyLists → ∀ node, (t.perform call).1.periods node = []) := by
  have hinv := Invariant.of_reachable h
  have hplaced := hinv.placed
  refine ⟨⟨hplaced.age_le, hplaced.offset_eq⟩, ⟨hinv.expired_eq, fun offset => hplaced.ring_nodup (.list offset),
    ?_, ?_, ?_⟩, hinv.recorded_eq, fun call hperiod => ⟨⟨(hinv.perform hperiod).expired_eq,
    hinv.handed_spec hperiod⟩, ?_⟩⟩
  · intro node offset offset' hmem hmem'
    rw [((hinv.mem_lists_iff node offset).mp hmem).2, ((hinv.mem_lists_iff node offset').mp hmem').2]
  · exact fun node hdirty => (hinv.mem_lists_iff node _).mpr ⟨hdirty, rfl⟩
  · intro node offset hmem
    obtain ⟨hdirty, hoffset⟩ := (hinv.mem_lists_iff node offset).mp hmem
    exact ⟨hinv.oldestPeriod_le hdirty, hplaced.recorded_lt node hdirty, hoffset.symm⟩
  · rintro rfl
    exact hinv.flushDirtyLists_periods

/-- The dirty lists of a block map whose eras are two periods long, from period
one, with nothing dirty. -/
def freshTrackedDirtyLists : TrackedDirtyLists ℕ :=
  ⟨(DirtyLists.makeDirtyLists 2).setCurrentPeriod 1, fun _ => 0, fun _ => []⟩

theorem freshTrackedDirtyLists_start : DirtyStart freshTrackedDirtyLists :=
  ⟨by decide, rfl, fun _ => rfl, fun _ => rfl⟩

/-- Two nodes dirtied in periods 1 and 2; advancing to period 3 expires the
first, which is then dirtied again in period 3. -/
theorem dirtyLists_track_oldest_period_run :
    ∃ t : TrackedDirtyLists ℕ, Reachability.Reachable DirtyStart (DirtyStep true) t ∧
      t.recorded 5 = 3 ∧ t.recorded 6 = 2 ∧
    (t.dirtyLists.nextPeriod - t.dirtyLists.oldestPeriod ≤ t.dirtyLists.maximumAge ∧
      t.dirtyLists.offset = t.dirtyLists.oldestPeriod % t.dirtyLists.maximumAge) ∧
    (t.dirtyLists.expired = [] ∧ (∀ offset, (t.dirtyLists.lists offset).Nodup) ∧
      (∀ node offset offset', node ∈ t.dirtyLists.lists offset → node ∈ t.dirtyLists.lists offset' →
        offset = offset') ∧
      (∀ node, t.recorded node ≠ 0 →
        node ∈ t.dirtyLists.lists (t.recorded node % t.dirtyLists.maximumAge)) ∧
      ∀ node offset, node ∈ t.dirtyLists.lists offset →
        t.dirtyLists.oldestPeriod ≤ t.recorded node ∧ t.recorded node < t.dirtyLists.nextPeriod ∧
          t.recorded node % t.dirtyLists.maximumAge = offset) ∧
    (∀ node, t.recorded node = ((t.periods node).min?).getD 0) ∧
    ∀ call : DirtyCall ℕ, call.PeriodPositive →
      ((t.perform call).1.dirtyLists.expired = [] ∧ (t.perform call).2.Nodup ∧
        ∀ node, node ∈ (t.perform call).2 ↔
          t.callRecord call node ≠ 0 ∧ t.callRecord call node < (t.perform call).1.dirtyLists.oldestPeriod) ∧
      (call = .flushDirtyLists → ∀ node, (t.perform call).1.periods node = []) := by
  have r0 := @Reachability.Reachable.init (TrackedDirtyLists ℕ) DirtyStart (DirtyStep true) _
    freshTrackedDirtyLists_start
  have r1 := r0.step (DirtyStep.perform _ (.addToDirtyLists 5 1) fun _ => Nat.one_pos)
  have r2 := r1.step (DirtyStep.perform _ (.addToDirtyLists 6 2) fun _ => Nat.two_pos)
  have r3 := r2.step (DirtyStep.perform _ (.advancePeriod 3) fun _ => trivial)
  have r4 := r3.step (DirtyStep.perform _ (.addToDirtyLists 5 3) fun _ => Nat.succ_pos 2)
  exact ⟨_, r4, by decide, by decide, dirtyLists_track_oldest_period r4⟩

/-- Adding a clean node at period `0`, the caller's clean mark, does nothing,
and the flush after it hands the node over to no one. -/
theorem dirtyLists_zero_period_never_flushed :
    ∃ t : TrackedDirtyLists ℕ, Reachability.Reachable DirtyStart (DirtyStep false) t ∧
      t.periods 0 = [0] ∧ (t.perform .flushDirtyLists).2 = [] ∧
      (t.perform .flushDirtyLists).1.periods 0 ≠ [] := by
  have r0 := @Reachability.Reachable.init (TrackedDirtyLists ℕ) DirtyStart (DirtyStep false) _
    freshTrackedDirtyLists_start
  have r1 := r0.step (DirtyStep.perform _ (.addToDirtyLists 0 0) (fun hpositive => absurd hpositive
    Bool.false_ne_true))
  exact ⟨_, r1, by decide, by decide, by decide⟩

end TrackedDirtyLists

end Vdo
