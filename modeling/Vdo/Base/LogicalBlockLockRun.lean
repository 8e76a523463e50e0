import Vdo.Base.LogicalBlockLockInvariant
import Mathlib.Data.List.Nodup

/-!
# Logical block locks are FIFO locks

A zone's lock table reads, for each lbn, the holder the LBN lock map gives and
that holder's wait queue. Under the invariant every call of the zone's thread
is a step of a table of FIFO locks (`FifoLock`): taking a free lock and queuing
on a holder are `acquire`, removing an uncontended lock and handing a lock over
are `release`, and every other call leaves the table as it was
(`LockInvariant.lockTable_step`).

From this and the invariant: the map's entry for an lbn is the one DataVIO
holding that lbn's lock, and every other DataVIO waiting for it is queued once,
on that holder alone (`lbnLock_exclusive`); a release hands the lock to the
oldest waiter with the others behind it in order, or removes the entry
(`releaseLogicalBlockLock_handOff`); a read is served from another DataVIO's
data only when that DataVIO holds the lock of the same lbn and has an allocation
(`attemptLogicalBlockLock_copied`); and along a run in which every holder
eventually releases, every waiter eventually holds its lock
(`waiter_eventually_locked`).
-/

namespace Vdo

open Reachability

variable {ι : Type*}

namespace LogicalZone

/-- The FIFO lock table a zone implements: each lbn's holder, with its queue. -/
def lockTable (zone : LogicalZone ι) : FifoLock.LockTable ℕ ι := fun lbn =>
  (zone.lbnLockMap lbn).map fun h => (h, (zone.dataVIOs h).logical.waiters)

theorem lockTable_eq_some {zone : LogicalZone ι} {lbn : ℕ} {h : ι} {waiters : List ι} :
    zone.lockTable lbn = some (h, waiters) ↔
      zone.lbnLockMap lbn = some h ∧ (zone.dataVIOs h).logical.waiters = waiters := by
  cases hmap : zone.lbnLockMap lbn with
  | none => simp [lockTable, hmap]
  | some h' =>
    simp only [lockTable, hmap, Option.map_some, Option.some.injEq, Prod.mk.injEq]
    constructor
    · rintro ⟨rfl, rfl⟩
      exact ⟨rfl, rfl⟩
    · rintro ⟨rfl, rfl⟩
      exact ⟨rfl, rfl⟩

variable [DecidableEq ι] {zone : LogicalZone ι}

/-- A change that leaves every wait queue as it was leaves the table as it was. -/
theorem lockTable_modify {d : ι} {f : DataVIO ι → DataVIO ι}
    (hwaiters : (f (zone.dataVIOs d)).logical.waiters = (zone.dataVIOs d).logical.waiters) :
    (zone.modify d f).lockTable = zone.lockTable := by
  funext lbn
  cases hmap : zone.lbnLockMap lbn with
  | none => simp [lockTable, hmap]
  | some h =>
    by_cases hhd : h = d
    · subst hhd
      simp [lockTable, hmap, hwaiters]
    · simp [lockTable, hmap, hhd]

namespace LockInvariant

/-- Taking a free lock is `acquire` on a free entry. -/
theorem lockTable_launch_of_free (hinv : zone.LockInvariant) {d : ι}
    (hd : (zone.dataVIOs d).request ≠ .pending)
    (hfree : zone.lbnLockMap (zone.dataVIOs d).logical.lbn = none) :
    (launchLockedRequest
      { zone with
        lbnLockMap := Function.update zone.lbnLockMap (zone.dataVIOs d).logical.lbn (some d) }
      d).lockTable = FifoLock.acquire zone.lockTable (zone.dataVIOs d).logical.lbn d := by
  funext lbn
  by_cases hlbn : lbn = (zone.dataVIOs d).logical.lbn
  · subst hlbn
    simp [lockTable, launchLockedRequest, hfree, hinv.waiters_of_not_pending hd]
  · rw [FifoLock.acquire_of_ne _ _ hlbn]
    cases hmap : zone.lbnLockMap lbn with
    | none => simp [lockTable, launchLockedRequest, Function.update_of_ne hlbn, hmap]
    | some h =>
      simp [lockTable, launchLockedRequest, Function.update_of_ne hlbn, hmap,
        hinv.ne_of_mapped hmap hd]

/-- Queuing on a holder is `acquire` on a held entry. -/
theorem lockTable_enqueue (hinv : zone.LockInvariant) {d h : ι}
    (hd : (zone.dataVIOs d).request ≠ .pending)
    (hmap : zone.lbnLockMap (zone.dataVIOs d).logical.lbn = some h) :
    ((zone.modify h fun v =>
      { v with logical :=
        { v.logical with waiters := (zone.dataVIOs h).logical.waiters ++ [d] } }).modify
      d fun v => { v with inWaitQueue := true, request := .pending }).lockTable =
      FifoLock.acquire zone.lockTable (zone.dataVIOs d).logical.lbn d := by
  have hhd : h ≠ d := hinv.ne_of_mapped hmap hd
  funext lbn
  by_cases hlbn : lbn = (zone.dataVIOs d).logical.lbn
  · subst hlbn
    simp [lockTable, hmap, hhd]
  · rw [FifoLock.acquire_of_ne _ _ hlbn]
    cases hmap' : zone.lbnLockMap lbn with
    | none => simp [lockTable, hmap']
    | some h' =>
      have hh'd : h' ≠ d := hinv.ne_of_mapped hmap' hd
      have hh' : h' ≠ h := by
        rintro rfl
        rw [← (hinv.mapped_locked lbn h' hmap').2, (hinv.mapped_locked _ h' hmap).2] at hlbn
        exact hlbn rfl
      simp [lockTable, hmap', hh'd, hh']

/-- Removing an uncontended lock is `release` of an entry without waiters. -/
theorem lockTable_remove (hinv : zone.LockInvariant) {d : ι}
    (hlocked : (zone.dataVIOs d).logical.locked = true)
    (hwaiters : (zone.dataVIOs d).logical.waiters = []) :
    (LogicalZone.modify
      { zone with
        lbnLockMap := Function.update zone.lbnLockMap (zone.dataVIOs d).logical.lbn none }
      d fun v => { v with request := .idle, logical := { v.logical with locked := false } }).lockTable =
      FifoLock.release zone.lockTable (zone.dataVIOs d).logical.lbn := by
  have hmap : zone.lbnLockMap (zone.dataVIOs d).logical.lbn = some d :=
    (hinv.locked_mapped d hlocked).1
  funext lbn
  by_cases hlbn : lbn = (zone.dataVIOs d).logical.lbn
  · subst hlbn
    rw [FifoLock.release_of_nil (lockTable_eq_some.mpr ⟨hmap, hwaiters⟩)]
    simp [lockTable]
  · rw [FifoLock.release_of_ne _ hlbn]
    cases hmap' : zone.lbnLockMap lbn with
    | none => simp [lockTable, Function.update_of_ne hlbn, hmap']
    | some h =>
      have hhd : h ≠ d := by
        rintro rfl
        exact hlbn (hinv.mapped_locked lbn h hmap').2.symm
      simp [lockTable, Function.update_of_ne hlbn, hmap', hhd]

/-- Handing a lock to the oldest waiter is `release` of an entry with waiters. -/
theorem lockTable_handOff (hinv : zone.LockInvariant) {d next : ι} {rest : List ι}
    (hlocked : (zone.dataVIOs d).logical.locked = true)
    (hwaiters : (zone.dataVIOs d).logical.waiters = next :: rest) :
    ((LogicalZone.modify
        { zone with
          lbnLockMap := Function.update zone.lbnLockMap (zone.dataVIOs d).logical.lbn (some next) }
        d fun v =>
          { v with request := .idle, logical := { v.logical with waiters := [], locked := false } }).modify
        next fun v =>
          { v with
            inWaitQueue := false
            request := .pending
            logical := { v.logical with waiters := rest, locked := true } }).lockTable =
      FifoLock.release zone.lockTable (zone.dataVIOs d).logical.lbn := by
  have hmem : next ∈ (zone.dataVIOs d).logical.waiters := by simp [hwaiters]
  have hne : next ≠ d := hinv.ne_of_mem_waiters hmem
  have hmap : zone.lbnLockMap (zone.dataVIOs d).logical.lbn = some d :=
    (hinv.locked_mapped d hlocked).1
  funext lbn
  by_cases hlbn : lbn = (zone.dataVIOs d).logical.lbn
  · subst hlbn
    rw [FifoLock.release_of_cons (lockTable_eq_some.mpr ⟨hmap, hwaiters⟩)]
    simp [lockTable]
  · rw [FifoLock.release_of_ne _ hlbn]
    cases hmap' : zone.lbnLockMap lbn with
    | none => simp [lockTable, Function.update_of_ne hlbn, hmap']
    | some h =>
      have hhd : h ≠ d := by
        rintro rfl
        exact hlbn (hinv.mapped_locked lbn h hmap').2.symm
      have hhn : h ≠ next :=
        Ne.symm (hinv.ne_of_mem_waiters_of_locked hmem (hinv.mapped_locked lbn h hmap').1)
      simp [lockTable, Function.update_of_ne hlbn, hmap', hhd, hhn]

/-- The refinement step: under the invariant, every call of the zone's thread
is a step of its FIFO lock table. -/
theorem lockTable_step {logicalBlocks : ℕ} {zone' : LogicalZone ι} (hinv : zone.LockInvariant)
    (hstep : LogicalZoneStep logicalBlocks zone zone') :
    FifoLock.Step zone.lockTable zone'.lockTable := by
  cases hstep with
  | @prepare d lbn operation hidle =>
    have hwaiters := hinv.waiters_of_not_pending (d := d) (by simp [hidle])
    rw [ prepareDataVIO, lockTable_modify (by simp [hwaiters])]
    exact .stutter _
  | @attempt d vacancy hprepared =>
    have hd : (zone.dataVIOs d).request ≠ .pending := by simp [hprepared]
    rcases attemptLogicalBlockLock_cases logicalBlocks vacancy zone d with
      ⟨result, heq, -⟩ | ⟨hfree, heq⟩ | ⟨lockHolder, hmap, -, -, heq⟩
    · rw [heq, finishDataVIO, lockTable_modify rfl]
      exact .stutter _
    · rw [heq, hinv.lockTable_launch_of_free hd hfree]
      exact .acquire _ _ _
    · rw [heq, hinv.lockTable_enqueue hd hmap]
      exact .acquire _ _ _
  | @release d vacancy _ =>
    cases hlocked : (zone.dataVIOs d).logical.locked with
    | false =>
      rw [releaseLogicalBlockLock_of_unlocked vacancy hlocked (hinv.waiters_of_unlocked d hlocked),
        lockTable_modify rfl]
      exact .stutter _
    | true =>
      cases hwaiters : (zone.dataVIOs d).logical.waiters with
      | nil =>
        rw [releaseLogicalBlockLock_of_nil vacancy hlocked hwaiters, hinv.lockTable_remove hlocked hwaiters]
        exact .release _ _
      | cons next rest =>
        have hmem : next ∈ (zone.dataVIOs d).logical.waiters := by simp [hwaiters]
        rw [releaseLogicalBlockLock_of_cons vacancy hwaiters (hinv.ne_of_mem_waiters hmem)
          (hinv.waiters_of_unlocked next (hinv.waiter_waiting d next hmem).2.2)
          (hinv.locked_mapped d hlocked).1, hinv.lockTable_handOff hlocked hwaiters]
        exact .release _ _
  | @allocate d hasAllocation =>
    rw [lockTable_modify rfl]
    exact .stutter _

end LockInvariant

end LogicalZone

open LogicalZone

variable [DecidableEq ι] {logicalBlocks : ℕ}

/-! ## Safety -/

/-- Mutual exclusion: in every reachable zone, the map sends an lbn to exactly
the DataVIO for it that holds the lock, and every other DataVIO waiting for that
lbn is queued exactly once on that holder's queue and on no other. -/
theorem lbnLock_exclusive {zone : LogicalZone ι}
    (hreach : Reachable Initial (LogicalZoneStep logicalBlocks) zone) (lbn : ℕ) (d : ι) :
    ((zone.dataVIOs d).logical.locked = true ∧ (zone.dataVIOs d).logical.lbn = lbn ↔
      zone.lbnLockMap lbn = some d) ∧
    ((zone.dataVIOs d).logical.lbn = lbn → (zone.dataVIOs d).request = .pending →
      (zone.dataVIOs d).logical.locked = false →
      ∃ h, zone.lbnLockMap lbn = some h ∧ h ≠ d ∧ (zone.dataVIOs h).logical.waiters.count d = 1 ∧
        ∀ h', d ∈ (zone.dataVIOs h').logical.waiters → h' = h) := by
  have hinv := lockInvariant_of_reachable hreach
  refine ⟨⟨fun ⟨hlocked, hlbn⟩ => hlbn ▸ (hinv.locked_mapped d hlocked).1,
    fun hmap => hinv.mapped_locked lbn d hmap⟩, ?_⟩
  rintro rfl hpending hunlocked
  obtain ⟨h, hmap, hmem⟩ := hinv.waiting_queued d hpending hunlocked
  exact ⟨h, hmap, Ne.symm (hinv.ne_of_mem_waiters hmem),
    List.count_eq_one_of_mem (hinv.waiters_nodup h) hmem,
    fun h' hmem' => hinv.eq_of_mem_waiters hmem' hmem⟩

/-- FIFO hand-off: a holder with waiters hands the lock to the oldest one, whose
queue then holds the other waiters in order, and no other DataVIO or lbn
changes; a holder without waiters removes its lbn from the map. -/
theorem releaseLogicalBlockLock_handOff {zone : LogicalZone ι}
    (hreach : Reachable Initial (LogicalZoneStep logicalBlocks) zone) (vacancy : Bool) {d : ι}
    (hlocked : (zone.dataVIOs d).logical.locked = true) :
    (∀ next rest, (zone.dataVIOs d).logical.waiters = next :: rest →
      let zone' := releaseLogicalBlockLock vacancy zone d
      zone'.lbnLockMap (zone.dataVIOs d).logical.lbn = some next ∧
        (zone'.dataVIOs next).logical.locked = true ∧ (zone'.dataVIOs next).logical.waiters = rest ∧
        (zone'.dataVIOs d).logical.locked = false ∧ (zone'.dataVIOs d).logical.waiters = [] ∧
        (∀ x, x ≠ d → x ≠ next → zone'.dataVIOs x = zone.dataVIOs x) ∧
        ∀ lbn, lbn ≠ (zone.dataVIOs d).logical.lbn → zone'.lbnLockMap lbn = zone.lbnLockMap lbn) ∧
    ((zone.dataVIOs d).logical.waiters = [] →
      (releaseLogicalBlockLock vacancy zone d).lbnLockMap (zone.dataVIOs d).logical.lbn = none ∧
        ((releaseLogicalBlockLock vacancy zone d).dataVIOs d).logical.locked = false) := by
  have hinv := lockInvariant_of_reachable hreach
  constructor
  · intro next rest hwaiters
    have hmem : next ∈ (zone.dataVIOs d).logical.waiters := by simp [hwaiters]
    have hne : next ≠ d := hinv.ne_of_mem_waiters hmem
    rw [releaseLogicalBlockLock_of_cons vacancy hwaiters hne
      (hinv.waiters_of_unlocked next (hinv.waiter_waiting d next hmem).2.2)
      (hinv.locked_mapped d hlocked).1]
    refine ⟨by simp, by simp, by simp, by simp [Ne.symm hne], by simp [Ne.symm hne],
      fun x hxd hxn => by simp [hxd, hxn], fun lbn hlbn => by simp [Function.update_of_ne hlbn]⟩
  · intro hwaiters
    rw [releaseLogicalBlockLock_of_nil vacancy hlocked hwaiters]
    simp

/-- The read short-cut: a pure read is finished with another DataVIO's data only
when that DataVIO holds the lock of the same lbn and has an allocation. -/
theorem attemptLogicalBlockLock_copied {zone : LogicalZone ι}
    (hreach : Reachable Initial (LogicalZoneStep logicalBlocks) zone) (vacancy : Bool)
    {d lockHolder : ι} (hprepared : (zone.dataVIOs d).request = .prepared)
    (hcopied : ((attemptLogicalBlockLock logicalBlocks vacancy zone d).dataVIOs d).request =
      .finished (.copied lockHolder)) :
    lockHolder ≠ d ∧ zone.lbnLockMap (zone.dataVIOs d).logical.lbn = some lockHolder ∧
      (zone.dataVIOs lockHolder).logical.locked = true ∧
      (zone.dataVIOs lockHolder).logical.lbn = (zone.dataVIOs d).logical.lbn ∧
      (zone.dataVIOs lockHolder).hasAllocation = true ∧ isReadDataVIO (zone.dataVIOs d) = true := by
  have hinv := lockInvariant_of_reachable hreach
  have hd : (zone.dataVIOs d).request ≠ .pending := by simp [hprepared]
  rcases attemptLogicalBlockLock_cases logicalBlocks vacancy zone d with
    ⟨result, heq, hserved⟩ | ⟨-, heq⟩ | ⟨_, -, -, -, heq⟩
  · rw [heq] at hcopied
    simp only [ finishDataVIO, modify_dataVIOs_self, LockRequest.finished.injEq] at hcopied
    obtain ⟨hmap, hlocked, hallocation, hread⟩ := hserved lockHolder hcopied
    exact ⟨hinv.ne_of_mapped hmap hd, hmap, hlocked, (hinv.mapped_locked _ _ hmap).2,
      hallocation, hread⟩
  · rw [heq] at hcopied
    simp [launchLockedRequest] at hcopied
  · rw [heq] at hcopied
    simp at hcopied

/-! ## Starvation freedom -/

/-- Every holder eventually releases: a DataVIO holding its lock at some point
of the run does not hold it at a later point. -/
def HoldersRelease (run : ℕ → LogicalZone ι) : Prop :=
  ∀ n h, ((run n).dataVIOs h).logical.locked = true →
    ∃ m, n ≤ m ∧ ((run m).dataVIOs h).logical.locked = false

/-- Along a run from a reachable zone in which every holder eventually
releases, every DataVIO waiting for its lock eventually holds the lock of its
lbn. The run is mapped onto its lock tables, where the FIFO argument is made. -/
theorem waiter_eventually_locked {run : ℕ → LogicalZone ι}
    (hstart : Reachable Initial (LogicalZoneStep logicalBlocks) (run 0))
    (hrun : ∀ n, LogicalZoneStep logicalBlocks (run n) (run (n + 1)))
    (hfair : HoldersRelease run) (n : ℕ) (d : ι)
    (hpending : ((run n).dataVIOs d).request = .pending)
    (hunlocked : ((run n).dataVIOs d).logical.locked = false) :
    ∃ m, n ≤ m ∧ ((run m).dataVIOs d).logical.locked = true ∧
      ((run m).dataVIOs d).logical.lbn = ((run n).dataVIOs d).logical.lbn := by
  have hreach : ∀ k, Reachable Initial (LogicalZoneStep logicalBlocks) (run k) := by
    intro k
    induction k with
    | zero => exact hstart
    | succ k ih => exact ih.tail (hrun k)
  have hinv : ∀ k, (run k).LockInvariant := fun k => lockInvariant_of_reachable (hreach k)
  have htable : ∀ k, FifoLock.Step (run k).lockTable (run (k + 1)).lockTable :=
    fun k => (hinv k).lockTable_step (hrun k)
  have hfair' : FifoLock.HoldersRelease fun k => (run k).lockTable := by
    rintro k lbn h ⟨waiters, hholds⟩
    have hlocked := ((hinv k).mapped_locked lbn h (lockTable_eq_some.mp hholds).1).1
    obtain ⟨m, hkm, hunlocked'⟩ := hfair k h hlocked
    refine ⟨m, hkm, fun ⟨waiters', hholds'⟩ => ?_⟩
    have := ((hinv m).mapped_locked lbn h (lockTable_eq_some.mp hholds').1).1
    simp [hunlocked'] at this
  obtain ⟨h, hmap, hmem⟩ := (hinv n).waiting_queued d hpending hunlocked
  obtain ⟨m, hnm, waiters, hholds⟩ := FifoLock.waiter_eventually_holds htable hfair' n _ h _ d
    (lockTable_eq_some.mpr ⟨hmap, rfl⟩) hmem
  exact ⟨m, hnm, (hinv m).mapped_locked _ d (lockTable_eq_some.mp hholds).1⟩

/-- A zone of two free DataVIOs, `true` and `false`, with no lbn locked. -/
def twoDataVIOZone : LogicalZone Bool :=
  ⟨fun _ => none, fun _ => ⟨⟨0, false, []⟩, .read, false, false, .idle⟩⟩

theorem twoDataVIOZone_initial : twoDataVIOZone.Initial :=
  ⟨fun _ => rfl, fun _ => ⟨rfl, rfl, rfl, rfl⟩⟩

/-- Two writers of lbn 3 in a zone of eight blocks: `true` takes the lock,
`false` queues on it, `true` releases and hands it over, `false` releases;
the zone then stays as it is. -/
def twoWritersRun (n : ℕ) : LogicalZone Bool :=
  ([fun zone => prepareDataVIO zone true 3 .write, fun zone => attemptLogicalBlockLock 8 true zone true,
      fun zone => prepareDataVIO zone false 3 .write, fun zone => attemptLogicalBlockLock 8 true zone false,
      fun zone => releaseLogicalBlockLock true zone true,
      fun zone => releaseLogicalBlockLock true zone false].take n).foldl
    (fun zone (call : LogicalZone Bool → LogicalZone Bool) => call zone) twoDataVIOZone

theorem twoWritersRun_of_le {n : ℕ} (h : 6 ≤ n) : twoWritersRun n = twoWritersRun 6 := by
  unfold twoWritersRun
  rw [List.take_of_length_le (by simpa using h)]
  rfl

theorem twoWritersRun_step (n : ℕ) : LogicalZoneStep 8 (twoWritersRun n) (twoWritersRun (n + 1)) := by
  rcases Nat.lt_or_ge n 6 with hlt | hge
  · interval_cases n
    · exact @LogicalZoneStep.prepare Bool _ 8 (twoWritersRun 0) true 3 .write (by decide)
    · exact @LogicalZoneStep.attempt Bool _ 8 (twoWritersRun 1) true true (by decide)
    · exact @LogicalZoneStep.prepare Bool _ 8 (twoWritersRun 2) false 3 .write (by decide)
    · exact @LogicalZoneStep.attempt Bool _ 8 (twoWritersRun 3) false true (by decide)
    · exact @LogicalZoneStep.release Bool _ 8 (twoWritersRun 4) true true (Or.inl (by decide))
    · exact @LogicalZoneStep.release Bool _ 8 (twoWritersRun 5) false true (Or.inl (by decide))
  · rw [twoWritersRun_of_le hge, twoWritersRun_of_le (show 6 ≤ n + 1 by omega)]
    have hstay : (twoWritersRun 6).modify false (fun v => { v with hasAllocation := false }) = twoWritersRun 6 :=
      LogicalZone.ext rfl (funext fun d => by cases d <;> decide)
    have hstep := @LogicalZoneStep.allocate Bool _ 8 (twoWritersRun 6) false false
    rwa [hstay] at hstep

theorem twoWritersRun_holdersRelease : HoldersRelease twoWritersRun := by
  intro n d _
  refine ⟨n + 6, by omega, ?_⟩
  rw [twoWritersRun_of_le (by omega)]
  cases d <;> decide

/-- Logical block locks give mutual exclusion with FIFO hand-off, over every
interleaving of the zone thread's calls: one holder per lbn, each other waiter
queued once on it; a release hands the lock to the oldest waiter with the rest
behind it in order, or removes the lbn; a read is served only from a locked
holder of its lbn with an allocation; and along a run where every holder
eventually releases, every waiter eventually holds the lock. -/
theorem logicalBlockLock_fifo_mutual_exclusion (logicalBlocks : ℕ) :
    (∀ zone : LogicalZone ι, Reachable Initial (LogicalZoneStep logicalBlocks) zone →
      ∀ lbn d,
        ((zone.dataVIOs d).logical.locked = true ∧ (zone.dataVIOs d).logical.lbn = lbn ↔
          zone.lbnLockMap lbn = some d) ∧
        ((zone.dataVIOs d).logical.lbn = lbn → (zone.dataVIOs d).request = .pending →
          (zone.dataVIOs d).logical.locked = false →
          ∃ h, zone.lbnLockMap lbn = some h ∧ h ≠ d ∧
            (zone.dataVIOs h).logical.waiters.count d = 1 ∧
            ∀ h', d ∈ (zone.dataVIOs h').logical.waiters → h' = h)) ∧
    (∀ zone : LogicalZone ι, Reachable Initial (LogicalZoneStep logicalBlocks) zone →
      ∀ vacancy d, (zone.dataVIOs d).logical.locked = true →
        (∀ next rest, (zone.dataVIOs d).logical.waiters = next :: rest →
          let zone' := releaseLogicalBlockLock vacancy zone d
          zone'.lbnLockMap (zone.dataVIOs d).logical.lbn = some next ∧
            (zone'.dataVIOs next).logical.locked = true ∧
            (zone'.dataVIOs next).logical.waiters = rest ∧
            (zone'.dataVIOs d).logical.locked = false ∧ (zone'.dataVIOs d).logical.waiters = [] ∧
            (∀ x, x ≠ d → x ≠ next → zone'.dataVIOs x = zone.dataVIOs x) ∧
            ∀ lbn, lbn ≠ (zone.dataVIOs d).logical.lbn → zone'.lbnLockMap lbn = zone.lbnLockMap lbn) ∧
        ((zone.dataVIOs d).logical.waiters = [] →
          (releaseLogicalBlockLock vacancy zone d).lbnLockMap (zone.dataVIOs d).logical.lbn = none ∧
            ((releaseLogicalBlockLock vacancy zone d).dataVIOs d).logical.locked = false)) ∧
    (∀ zone : LogicalZone ι, Reachable Initial (LogicalZoneStep logicalBlocks) zone →
      ∀ vacancy d lockHolder, (zone.dataVIOs d).request = .prepared →
        ((attemptLogicalBlockLock logicalBlocks vacancy zone d).dataVIOs d).request =
          .finished (.copied lockHolder) →
        lockHolder ≠ d ∧ zone.lbnLockMap (zone.dataVIOs d).logical.lbn = some lockHolder ∧
          (zone.dataVIOs lockHolder).logical.locked = true ∧
          (zone.dataVIOs lockHolder).logical.lbn = (zone.dataVIOs d).logical.lbn ∧
          (zone.dataVIOs lockHolder).hasAllocation = true ∧ isReadDataVIO (zone.dataVIOs d) = true) ∧
    (∀ run : ℕ → LogicalZone ι, Reachable Initial (LogicalZoneStep logicalBlocks) (run 0) →
      (∀ n, LogicalZoneStep logicalBlocks (run n) (run (n + 1))) → HoldersRelease run →
      ∀ n d, ((run n).dataVIOs d).request = .pending → ((run n).dataVIOs d).logical.locked = false →
        ∃ m, n ≤ m ∧ ((run m).dataVIOs d).logical.locked = true ∧
          ((run m).dataVIOs d).logical.lbn = ((run n).dataVIOs d).logical.lbn) :=
  ⟨fun _ hreach => lbnLock_exclusive hreach,
    fun _ hreach vacancy _ hlocked => releaseLogicalBlockLock_handOff hreach vacancy hlocked,
    fun _ hreach vacancy _ _ hprepared hcopied =>
      attemptLogicalBlockLock_copied hreach vacancy hprepared hcopied,
    fun _ hstart hrun hfair => waiter_eventually_locked hstart hrun hfair⟩

/-- Two writers of lbn 3: the second queues on the first, is handed the lock
when the first releases, and holds it later in the run. -/
theorem logicalBlockLock_fifo_two_writers :
    (∀ n, LogicalZoneStep 8 (twoWritersRun n) (twoWritersRun (n + 1))) ∧ HoldersRelease twoWritersRun ∧
      ((twoWritersRun 4).dataVIOs false).request = .pending ∧
      ((twoWritersRun 4).dataVIOs false).logical.locked = false ∧
      (∃ h, (twoWritersRun 4).lbnLockMap 3 = some h ∧ h ≠ false ∧
        ((twoWritersRun 4).dataVIOs h).logical.waiters.count false = 1 ∧
        ∀ h', false ∈ ((twoWritersRun 4).dataVIOs h').logical.waiters → h' = h) ∧
      (releaseLogicalBlockLock true (twoWritersRun 4) true).lbnLockMap 3 = some false ∧
      ((releaseLogicalBlockLock true (twoWritersRun 4) true).dataVIOs false).logical.locked = true ∧
      ∃ m, 4 ≤ m ∧ ((twoWritersRun m).dataVIOs false).logical.locked = true ∧
        ((twoWritersRun m).dataVIOs false).logical.lbn = ((twoWritersRun 4).dataVIOs false).logical.lbn := by
  have hstart : Reachable Initial (LogicalZoneStep 8) (twoWritersRun 0) := Reachable.init twoDataVIOZone_initial
  have hreach : Reachable Initial (LogicalZoneStep 8) (twoWritersRun 4) :=
    (((hstart.tail (twoWritersRun_step 0)).tail (twoWritersRun_step 1)).tail (twoWritersRun_step 2)).tail
      (twoWritersRun_step 3)
  obtain ⟨hexclusive, hrelease, -, hlive⟩ := @logicalBlockLock_fifo_mutual_exclusion Bool _ 8
  obtain ⟨hmap, hlocked, -⟩ := (hrelease _ hreach true true (by decide)).1 false [] (by decide)
  exact ⟨twoWritersRun_step, twoWritersRun_holdersRelease, by decide, by decide,
    (hexclusive _ hreach 3 false).2 (by decide) (by decide) (by decide), hmap, hlocked,
    hlive _ hstart twoWritersRun_step twoWritersRun_holdersRelease 4 false (by decide) (by decide)⟩

end Vdo
