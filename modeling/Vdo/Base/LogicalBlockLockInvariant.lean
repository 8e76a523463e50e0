import Vdo.Base.LogicalBlockLock

/-!
# The logical block lock invariant

`LogicalZone.LockInvariant` ties the three places the lock state lives in
together: the LBN lock map, the `logical.locked` flags and the holders' wait
queues. The map sends an lbn exactly to the DataVIO for that lbn whose flag is
set; only such a holder has waiters; the waiters of a holder are DataVIOs for
its lbn that wait, each once; every DataVIO that waits is on the queue of the
holder of its lbn; and a waiter's link is set exactly while it waits.

Each kind of change the lock code makes keeps the invariant: ending a request
that neither holds nor waits, taking a free lock, queuing on a holder, removing
an uncontended lock, and handing a lock to the oldest waiter. The step lemma
`LockInvariant.step` combines them through the spec lemmas of
`attemptLogicalBlockLock` and `releaseLogicalBlockLock`.
-/

namespace Vdo

variable {ι : Type*}

namespace LogicalZone

/-- The lock map, the lock flags and the wait queues agree. -/
structure LockInvariant (zone : LogicalZone ι) : Prop where
  mapped_locked : ∀ lbn h, zone.lbnLockMap lbn = some h →
    (zone.dataVIOs h).logical.locked = true ∧ (zone.dataVIOs h).logical.lbn = lbn
  locked_mapped : ∀ h, (zone.dataVIOs h).logical.locked = true →
    zone.lbnLockMap (zone.dataVIOs h).logical.lbn = some h ∧ (zone.dataVIOs h).request = .pending
  waiters_of_unlocked : ∀ h, (zone.dataVIOs h).logical.locked = false →
    (zone.dataVIOs h).logical.waiters = []
  waiter_waiting : ∀ h d, d ∈ (zone.dataVIOs h).logical.waiters →
    (zone.dataVIOs d).logical.lbn = (zone.dataVIOs h).logical.lbn ∧
      (zone.dataVIOs d).request = .pending ∧ (zone.dataVIOs d).logical.locked = false
  waiting_queued : ∀ d, (zone.dataVIOs d).request = .pending →
    (zone.dataVIOs d).logical.locked = false →
    ∃ h, zone.lbnLockMap (zone.dataVIOs d).logical.lbn = some h ∧
      d ∈ (zone.dataVIOs h).logical.waiters
  inWaitQueue_iff : ∀ d, (zone.dataVIOs d).inWaitQueue = true ↔
    (zone.dataVIOs d).request = .pending ∧ (zone.dataVIOs d).logical.locked = false
  waiters_nodup : ∀ h, (zone.dataVIOs h).logical.waiters.Nodup

variable {zone : LogicalZone ι}

namespace LockInvariant

/-! ## Consequences -/

theorem pending_of_mapped (hinv : zone.LockInvariant) {lbn : ℕ} {h : ι}
    (hmap : zone.lbnLockMap lbn = some h) : (zone.dataVIOs h).request = .pending :=
  (hinv.locked_mapped h (hinv.mapped_locked lbn h hmap).1).2

theorem unlocked_of_not_pending (hinv : zone.LockInvariant) {d : ι}
    (hd : (zone.dataVIOs d).request ≠ .pending) : (zone.dataVIOs d).logical.locked = false := by
  cases hlocked : (zone.dataVIOs d).logical.locked
  · rfl
  · exact absurd (hinv.locked_mapped d hlocked).2 hd

theorem waiters_of_not_pending (hinv : zone.LockInvariant) {d : ι}
    (hd : (zone.dataVIOs d).request ≠ .pending) : (zone.dataVIOs d).logical.waiters = [] :=
  hinv.waiters_of_unlocked d (hinv.unlocked_of_not_pending hd)

theorem inWaitQueue_of_not_pending (hinv : zone.LockInvariant) {d : ι}
    (hd : (zone.dataVIOs d).request ≠ .pending) : (zone.dataVIOs d).inWaitQueue = false := by
  cases hlink : (zone.dataVIOs d).inWaitQueue
  · rfl
  · exact absurd ((hinv.inWaitQueue_iff d).mp hlink).1 hd

theorem inWaitQueue_of_locked (hinv : zone.LockInvariant) {d : ι}
    (hlocked : (zone.dataVIOs d).logical.locked = true) : (zone.dataVIOs d).inWaitQueue = false := by
  cases hlink : (zone.dataVIOs d).inWaitQueue
  · rfl
  · have := ((hinv.inWaitQueue_iff d).mp hlink).2
    simp [hlocked] at this

/-- A DataVIO whose request is not pending is nobody's lock holder. -/
theorem ne_of_mapped (hinv : zone.LockInvariant) {lbn : ℕ} {h d : ι}
    (hmap : zone.lbnLockMap lbn = some h) (hd : (zone.dataVIOs d).request ≠ .pending) : h ≠ d := by
  rintro rfl
  exact hd (hinv.pending_of_mapped hmap)

/-- A DataVIO whose request is not pending is on no wait queue. -/
theorem not_mem_waiters (hinv : zone.LockInvariant) {d : ι}
    (hd : (zone.dataVIOs d).request ≠ .pending) (h : ι) :
    d ∉ (zone.dataVIOs h).logical.waiters := fun hmem =>
  hd (hinv.waiter_waiting h d hmem).2.1

theorem locked_of_mem_waiters (hinv : zone.LockInvariant) {h d : ι}
    (hmem : d ∈ (zone.dataVIOs h).logical.waiters) : (zone.dataVIOs h).logical.locked = true := by
  cases hlocked : (zone.dataVIOs h).logical.locked
  · rw [hinv.waiters_of_unlocked h hlocked] at hmem
    exact absurd hmem List.not_mem_nil
  · rfl

/-- A waiter is queued on the holder the map gives for its lbn. -/
theorem mapped_of_mem_waiters (hinv : zone.LockInvariant) {h d : ι}
    (hmem : d ∈ (zone.dataVIOs h).logical.waiters) :
    zone.lbnLockMap (zone.dataVIOs d).logical.lbn = some h := by
  rw [(hinv.waiter_waiting h d hmem).1]
  exact (hinv.locked_mapped h (hinv.locked_of_mem_waiters hmem)).1

/-- A waiter never holds a lock, so it differs from every locked DataVIO. -/
theorem ne_of_mem_waiters_of_locked (hinv : zone.LockInvariant) {h d h' : ι}
    (hmem : d ∈ (zone.dataVIOs h).logical.waiters)
    (hlocked : (zone.dataVIOs h').logical.locked = true) : d ≠ h' := by
  rintro rfl
  have := (hinv.waiter_waiting h d hmem).2.2
  simp [hlocked] at this

theorem ne_of_mem_waiters (hinv : zone.LockInvariant) {h d : ι}
    (hmem : d ∈ (zone.dataVIOs h).logical.waiters) : d ≠ h :=
  hinv.ne_of_mem_waiters_of_locked hmem (hinv.locked_of_mem_waiters hmem)

/-- The map has one holder per lbn, so a waiter is on one queue only. -/
theorem eq_of_mem_waiters (hinv : zone.LockInvariant) {h h' d : ι}
    (hmem : d ∈ (zone.dataVIOs h).logical.waiters) (hmem' : d ∈ (zone.dataVIOs h').logical.waiters) :
    h = h' := by
  have hmap := hinv.mapped_of_mem_waiters hmem
  rw [hinv.mapped_of_mem_waiters hmem'] at hmap
  exact (Option.some.inj hmap).symm

/-- The invariant reads only the map and each DataVIO's lock, link and
request. -/
theorem congr {zone' : LogicalZone ι} (hinv : zone.LockInvariant)
    (hmap : zone'.lbnLockMap = zone.lbnLockMap)
    (hlogical : ∀ x, (zone'.dataVIOs x).logical = (zone.dataVIOs x).logical)
    (hlink : ∀ x, (zone'.dataVIOs x).inWaitQueue = (zone.dataVIOs x).inWaitQueue)
    (hrequest : ∀ x, (zone'.dataVIOs x).request = (zone.dataVIOs x).request) :
    zone'.LockInvariant := by
  obtain ⟨h1, h2, h3, h4, h5, h6, h7⟩ := hinv
  constructor <;> simp only [hmap, hlogical, hlink, hrequest] <;> assumption

/-- A zone before any request satisfies the invariant. -/
theorem initial (hzone : zone.Initial) : zone.LockInvariant := by
  obtain ⟨hmap, hvios⟩ := hzone
  constructor
  · intro lbn h hmap'
    simp [hmap] at hmap'
  · intro h hh
    simp [(hvios h).1] at hh
  · intro h _
    exact (hvios h).2.1
  · intro h d hmem
    simp [(hvios h).2.1] at hmem
  · intro d hpending _
    simp [(hvios d).2.2.2] at hpending
  · intro d
    simp [(hvios d).2.2.1, (hvios d).2.2.2]
  · intro h
    simp [(hvios h).2.1]

/-! ## The changes the lock code makes -/

variable [DecidableEq ι]

/-- Changing a DataVIO that neither holds nor waits, into one that still neither
holds nor waits, keeps the invariant: this is how a request is prepared, how
`attemptLogicalBlockLock` finishes one, and how a DataVIO without the lock
releases. -/
theorem modify_of_not_pending (hinv : zone.LockInvariant) {d : ι}
    (hd : (zone.dataVIOs d).request ≠ .pending) (f : DataVIO ι → DataVIO ι)
    (hlocked : (f (zone.dataVIOs d)).logical.locked = false)
    (hwaiters : (f (zone.dataVIOs d)).logical.waiters = [])
    (hlink : (f (zone.dataVIOs d)).inWaitQueue = false)
    (hrequest : (f (zone.dataVIOs d)).request ≠ .pending) :
    (zone.modify d f).LockInvariant := by
  constructor
  · intro lbn h hmap
    rw [modify_dataVIOs_of_ne _ _ (hinv.ne_of_mapped hmap hd)]
    exact hinv.mapped_locked lbn h hmap
  · intro h hh
    by_cases hhd : h = d
    · subst hhd
      simp [hlocked] at hh
    · rw [modify_dataVIOs_of_ne _ _ hhd] at hh ⊢
      exact hinv.locked_mapped h hh
  · intro h hh
    by_cases hhd : h = d
    · subst hhd
      simpa using hwaiters
    · rw [modify_dataVIOs_of_ne _ _ hhd] at hh ⊢
      exact hinv.waiters_of_unlocked h hh
  · intro h d' hmem
    have hhd : h ≠ d := by
      rintro rfl
      simp [hwaiters] at hmem
    rw [modify_dataVIOs_of_ne _ _ hhd] at hmem ⊢
    have hd' : d' ≠ d := by
      rintro rfl
      exact hinv.not_mem_waiters hd h hmem
    rw [modify_dataVIOs_of_ne _ _ hd']
    exact hinv.waiter_waiting h d' hmem
  · intro d' hpending hunlocked
    have hd' : d' ≠ d := by
      rintro rfl
      exact hrequest (by simpa using hpending)
    rw [modify_dataVIOs_of_ne _ _ hd'] at hpending hunlocked ⊢
    obtain ⟨h, hmap, hmem⟩ := hinv.waiting_queued d' hpending hunlocked
    refine ⟨h, hmap, ?_⟩
    rwa [modify_dataVIOs_of_ne _ _ (hinv.ne_of_mapped hmap hd)]
  · intro d'
    by_cases hd' : d' = d
    · subst hd'
      simp [hlink, hrequest]
    · rw [modify_dataVIOs_of_ne _ _ hd']
      exact hinv.inWaitQueue_iff d'
  · intro h
    by_cases hhd : h = d
    · subst hhd
      simp [hwaiters]
    · rw [modify_dataVIOs_of_ne _ _ hhd]
      exact hinv.waiters_nodup h

/-- A DataVIO taking the free lock of its lbn keeps the invariant. -/
theorem launch_of_free (hinv : zone.LockInvariant) {d : ι}
    (hd : (zone.dataVIOs d).request ≠ .pending)
    (hfree : zone.lbnLockMap (zone.dataVIOs d).logical.lbn = none) :
    (launchLockedRequest
      { zone with
        lbnLockMap := Function.update zone.lbnLockMap (zone.dataVIOs d).logical.lbn (some d) }
      d).LockInvariant := by
  have hother : ∀ {lbn h}, zone.lbnLockMap lbn = some h → lbn ≠ (zone.dataVIOs d).logical.lbn :=
    fun hmap hlbn => by simp [← hlbn, hmap] at hfree
  have hwaiters := hinv.waiters_of_not_pending hd
  have hlink := hinv.inWaitQueue_of_not_pending hd
  constructor
  · intro lbn h hmap
    by_cases hlbn : lbn = (zone.dataVIOs d).logical.lbn
    · subst hlbn
      simp only [launchLockedRequest, modify_lbnLockMap, Function.update_self,
        Option.some.injEq] at hmap
      subst hmap
      simp [launchLockedRequest]
    · simp only [launchLockedRequest, modify_lbnLockMap, Function.update_of_ne hlbn] at hmap
      simpa [launchLockedRequest, hinv.ne_of_mapped hmap hd] using hinv.mapped_locked lbn h hmap
  · intro h hh
    by_cases hhd : h = d
    · subst hhd
      simp [launchLockedRequest]
    · simp only [launchLockedRequest, modify_dataVIOs_of_ne _ _ hhd, modify_lbnLockMap] at hh ⊢
      obtain ⟨hmap, hpending⟩ := hinv.locked_mapped h hh
      rw [Function.update_of_ne (hother hmap)]
      exact ⟨hmap, hpending⟩
  · intro h hh
    by_cases hhd : h = d
    · subst hhd
      simp [launchLockedRequest] at hh
    · simp only [launchLockedRequest, modify_dataVIOs_of_ne _ _ hhd] at hh ⊢
      exact hinv.waiters_of_unlocked h hh
  · intro h d' hmem
    have hd' : d' ≠ d := by
      rintro rfl
      by_cases hhd : h = d'
      · subst hhd
        simp [launchLockedRequest, hwaiters] at hmem
      · simp only [launchLockedRequest, modify_dataVIOs_of_ne _ _ hhd] at hmem
        exact hinv.not_mem_waiters hd h hmem
    have hhd : h ≠ d := by
      rintro rfl
      simp [launchLockedRequest, hwaiters] at hmem
    simp only [launchLockedRequest, modify_dataVIOs_of_ne _ _ hhd, modify_dataVIOs_of_ne _ _ hd']
      at hmem ⊢
    exact hinv.waiter_waiting h d' hmem
  · intro d' hpending hunlocked
    have hd' : d' ≠ d := by
      rintro rfl
      simp [launchLockedRequest] at hunlocked
    simp only [launchLockedRequest, modify_dataVIOs_of_ne _ _ hd', modify_lbnLockMap]
      at hpending hunlocked ⊢
    obtain ⟨h, hmap, hmem⟩ := hinv.waiting_queued d' hpending hunlocked
    refine ⟨h, by rw [Function.update_of_ne (hother hmap)]; exact hmap, ?_⟩
    rwa [modify_dataVIOs_of_ne _ _ (hinv.ne_of_mapped hmap hd)]
  · intro d'
    by_cases hd' : d' = d
    · subst hd'
      simp [launchLockedRequest, hlink]
    · simp only [launchLockedRequest, modify_dataVIOs_of_ne _ _ hd']
      exact hinv.inWaitQueue_iff d'
  · intro h
    by_cases hhd : h = d
    · subst hhd
      simp [launchLockedRequest, hwaiters]
    · simp only [launchLockedRequest, modify_dataVIOs_of_ne _ _ hhd]
      exact hinv.waiters_nodup h

/-- A DataVIO queuing behind the waiters of the holder of its lbn keeps the
invariant. -/
theorem enqueue (hinv : zone.LockInvariant) {d h : ι}
    (hd : (zone.dataVIOs d).request ≠ .pending)
    (hmap : zone.lbnLockMap (zone.dataVIOs d).logical.lbn = some h) :
    ((zone.modify h fun v =>
      { v with logical :=
        { v.logical with waiters := (zone.dataVIOs h).logical.waiters ++ [d] } }).modify
      d fun v => { v with inWaitQueue := true, request := .pending }).LockInvariant := by
  have hhd : h ≠ d := hinv.ne_of_mapped hmap hd
  obtain ⟨hlocked, hlbn⟩ := hinv.mapped_locked _ h hmap
  have hunlocked := hinv.unlocked_of_not_pending hd
  have hwaiters := hinv.waiters_of_not_pending hd
  have hnew := hinv.not_mem_waiters hd h
  constructor
  · intro lbn h' hmap'
    simp only [modify_lbnLockMap] at hmap'
    have hh'd : h' ≠ d := hinv.ne_of_mapped hmap' hd
    by_cases hh' : h' = h
    · subst hh'
      simpa [hh'd] using hinv.mapped_locked lbn h' hmap'
    · simpa [hh'd, hh'] using hinv.mapped_locked lbn h' hmap'
  · intro h' hh
    have hh'd : h' ≠ d := by
      rintro rfl
      simp [hhd.symm, hunlocked] at hh
    by_cases hh' : h' = h
    · subst hh'
      simpa [hh'd] using hinv.locked_mapped h' hlocked
    · simp only [modify_dataVIOs_of_ne _ _ hh'd, modify_dataVIOs_of_ne _ _ hh',
        modify_lbnLockMap] at hh ⊢
      exact hinv.locked_mapped h' hh
  · intro h' hh
    by_cases hh'd : h' = d
    · subst hh'd
      simp [hhd.symm, hwaiters]
    · have hh' : h' ≠ h := by
        rintro rfl
        simp [hh'd, hlocked] at hh
      simp only [modify_dataVIOs_of_ne _ _ hh'd, modify_dataVIOs_of_ne _ _ hh'] at hh ⊢
      exact hinv.waiters_of_unlocked h' hh
  · intro h' d' hmem
    by_cases hh'd : h' = d
    · subst hh'd
      simp [hhd.symm, hwaiters] at hmem
    by_cases hh' : h' = h
    · subst hh'
      simp only [modify_dataVIOs_of_ne _ _ hh'd, modify_dataVIOs_self, List.mem_append,
        List.mem_singleton] at hmem
      rcases hmem with hmem | rfl
      · have hd' : d' ≠ d := fun heq => hnew (heq ▸ hmem)
        have hd'h : d' ≠ h' := hinv.ne_of_mem_waiters hmem
        simpa [hd', hd'h, hh'd] using hinv.waiter_waiting h' d' hmem
      · simp [Ne.symm hhd, hhd, hlbn, hunlocked]
    · simp only [modify_dataVIOs_of_ne _ _ hh'd, modify_dataVIOs_of_ne _ _ hh'] at hmem ⊢
      have hd' : d' ≠ d := fun heq => hinv.not_mem_waiters hd h' (heq ▸ hmem)
      have hd'h : d' ≠ h := hinv.ne_of_mem_waiters_of_locked hmem hlocked
      simpa [hd', hd'h] using hinv.waiter_waiting h' d' hmem
  · intro d' hpending hunlocked'
    by_cases hd' : d' = d
    · subst hd'
      exact ⟨h, by simpa [Ne.symm hhd] using hmap, by simp [hhd]⟩
    have hd'h : d' ≠ h := by
      rintro rfl
      simp [hd', hlocked] at hunlocked'
    simp only [modify_dataVIOs_of_ne _ _ hd', modify_dataVIOs_of_ne _ _ hd'h, modify_lbnLockMap]
      at hpending hunlocked' ⊢
    obtain ⟨h', hmap', hmem⟩ := hinv.waiting_queued d' hpending hunlocked'
    refine ⟨h', hmap', ?_⟩
    rw [modify_dataVIOs_of_ne _ _ (hinv.ne_of_mapped hmap' hd)]
    by_cases hh' : h' = h
    · subst hh'
      simp [hmem]
    · rwa [modify_dataVIOs_of_ne _ _ hh']
  · intro d'
    by_cases hd' : d' = d
    · subst hd'
      simp [Ne.symm hhd, hunlocked]
    · by_cases hd'h : d' = h
      · subst hd'h
        simpa [hd'] using hinv.inWaitQueue_iff d'
      · simpa [hd', hd'h] using hinv.inWaitQueue_iff d'
  · intro h'
    by_cases hh'd : h' = d
    · subst hh'd
      simp [hhd.symm, hwaiters]
    · by_cases hh' : h' = h
      · subst hh'
        simpa [hh'd, List.concat_eq_append] using (hinv.waiters_nodup h').concat hnew
      · simpa [hh'd, hh'] using hinv.waiters_nodup h'

/-- A holder without waiters removing its lbn from the map keeps the invariant. -/
theorem remove (hinv : zone.LockInvariant) {d : ι}
    (hlocked : (zone.dataVIOs d).logical.locked = true)
    (hwaiters : (zone.dataVIOs d).logical.waiters = []) :
    (LogicalZone.modify
      { zone with
        lbnLockMap := Function.update zone.lbnLockMap (zone.dataVIOs d).logical.lbn none }
      d fun v => { v with request := .idle, logical := { v.logical with locked := false } }).LockInvariant := by
  have hmap : zone.lbnLockMap (zone.dataVIOs d).logical.lbn = some d := (hinv.locked_mapped d hlocked).1
  have hother : ∀ {lbn h}, zone.lbnLockMap lbn = some h → h ≠ d →
      lbn ≠ (zone.dataVIOs d).logical.lbn := fun hmap' hhd hlbn => by
    rw [hlbn, hmap] at hmap'
    exact hhd (Option.some.inj hmap').symm
  constructor
  · intro lbn h hmap'
    by_cases hlbn : lbn = (zone.dataVIOs d).logical.lbn
    · subst hlbn
      simp at hmap'
    · simp only [modify_lbnLockMap, Function.update_of_ne hlbn] at hmap'
      have hhd : h ≠ d := by
        rintro rfl
        exact hlbn (hinv.mapped_locked lbn h hmap').2.symm
      simpa [hhd] using hinv.mapped_locked lbn h hmap'
  · intro h hh
    have hhd : h ≠ d := by
      rintro rfl
      simp at hh
    simp only [modify_dataVIOs_of_ne _ _ hhd, modify_lbnLockMap] at hh ⊢
    obtain ⟨hmap', hpending⟩ := hinv.locked_mapped h hh
    rw [Function.update_of_ne (hother hmap' hhd)]
    exact ⟨hmap', hpending⟩
  · intro h hh
    by_cases hhd : h = d
    · subst hhd
      simpa using hwaiters
    · simp only [modify_dataVIOs_of_ne _ _ hhd] at hh ⊢
      exact hinv.waiters_of_unlocked h hh
  · intro h d' hmem
    have hhd : h ≠ d := by
      rintro rfl
      simp [hwaiters] at hmem
    simp only [modify_dataVIOs_of_ne _ _ hhd] at hmem ⊢
    have hd' : d' ≠ d := hinv.ne_of_mem_waiters_of_locked hmem hlocked
    simpa [hd'] using hinv.waiter_waiting h d' hmem
  · intro d' hpending hunlocked
    have hd' : d' ≠ d := by
      rintro rfl
      simp at hpending
    simp only [modify_dataVIOs_of_ne _ _ hd', modify_lbnLockMap] at hpending hunlocked ⊢
    obtain ⟨h, hmap', hmem⟩ := hinv.waiting_queued d' hpending hunlocked
    have hhd : h ≠ d := by
      rintro rfl
      simp [hwaiters] at hmem
    refine ⟨h, by rw [Function.update_of_ne (hother hmap' hhd)]; exact hmap', ?_⟩
    rwa [modify_dataVIOs_of_ne _ _ hhd]
  · intro d'
    by_cases hd' : d' = d
    · subst hd'
      simp [hinv.inWaitQueue_of_locked hlocked]
    · rw [modify_dataVIOs_of_ne _ _ hd']
      exact hinv.inWaitQueue_iff d'
  · intro h
    by_cases hhd : h = d
    · subst hhd
      simp [hwaiters]
    · rw [modify_dataVIOs_of_ne _ _ hhd]
      exact hinv.waiters_nodup h

/-- A holder handing its lock to the oldest waiter, with the other waiters
moved in order behind the new holder, keeps the invariant. -/
theorem handOff (hinv : zone.LockInvariant) {d next : ι} {rest : List ι}
    (hlocked : (zone.dataVIOs d).logical.locked = true)
    (hwaiters : (zone.dataVIOs d).logical.waiters = next :: rest) :
    ((LogicalZone.modify
        { zone with
          lbnLockMap := Function.update zone.lbnLockMap (zone.dataVIOs d).logical.lbn (some next) }
        d fun v =>
          { v with request := .idle, logical := { v.logical with waiters := [], locked := false } }).modify
        next fun v =>
          { v with
            inWaitQueue := false
            request := .pending
            logical := { v.logical with waiters := rest, locked := true } }).LockInvariant := by
  have hmem : next ∈ (zone.dataVIOs d).logical.waiters := by simp [hwaiters]
  have hne : next ≠ d := hinv.ne_of_mem_waiters hmem
  obtain ⟨hlbn, -, hunlocked⟩ := hinv.waiter_waiting d next hmem
  have hnodup : next ∉ rest ∧ rest.Nodup := by simpa [hwaiters] using hinv.waiters_nodup d
  have hmap : zone.lbnLockMap (zone.dataVIOs d).logical.lbn = some d :=
    (hinv.locked_mapped d hlocked).1
  have hrest : ∀ {x}, x ∈ rest → x ∈ (zone.dataVIOs d).logical.waiters := fun hx => by
    simp [hwaiters, hx]
  have hother : ∀ {lbn h}, zone.lbnLockMap lbn = some h → h ≠ d →
      lbn ≠ (zone.dataVIOs d).logical.lbn := fun hmap' hhd hlbn' => by
    rw [hlbn', hmap] at hmap'
    exact hhd (Option.some.inj hmap').symm
  constructor
  · intro lbn h hmap'
    by_cases hlbn' : lbn = (zone.dataVIOs d).logical.lbn
    · subst hlbn'
      simp only [modify_lbnLockMap, Function.update_self, Option.some.injEq] at hmap'
      subst hmap'
      simp [hlbn, hne]
    · simp only [modify_lbnLockMap, Function.update_of_ne hlbn'] at hmap'
      have hhd : h ≠ d := by
        rintro rfl
        exact hlbn' (hinv.mapped_locked lbn h hmap').2.symm
      have hhn : h ≠ next :=
        Ne.symm (hinv.ne_of_mem_waiters_of_locked hmem (hinv.mapped_locked lbn h hmap').1)
      simpa [hhd, hhn] using hinv.mapped_locked lbn h hmap'
  · intro h hh
    by_cases hhn : h = next
    · subst hhn
      simp [hlbn, hne]
    by_cases hhd : h = d
    · subst hhd
      simp [Ne.symm hne] at hh
    simp only [modify_dataVIOs_of_ne _ _ hhn, modify_dataVIOs_of_ne _ _ hhd, modify_lbnLockMap]
      at hh ⊢
    obtain ⟨hmap', hpending⟩ := hinv.locked_mapped h hh
    rw [Function.update_of_ne (hother hmap' hhd)]
    exact ⟨hmap', hpending⟩
  · intro h hh
    by_cases hhn : h = next
    · subst hhn
      simp [hne] at hh
    by_cases hhd : h = d
    · subst hhd
      simp [Ne.symm hne]
    simp only [modify_dataVIOs_of_ne _ _ hhn, modify_dataVIOs_of_ne _ _ hhd] at hh ⊢
    exact hinv.waiters_of_unlocked h hh
  · intro h d' hmem'
    by_cases hhn : h = next
    · subst hhn
      simp only [modify_dataVIOs_self] at hmem'
      obtain ⟨hlbn', hpending', hunlocked'⟩ := hinv.waiter_waiting d d' (hrest hmem')
      have hd'n : d' ≠ h := fun heq => hnodup.1 (heq ▸ hmem')
      have hd'd : d' ≠ d := hinv.ne_of_mem_waiters (hrest hmem')
      simp [hd'n, hd'd, hlbn', hlbn, hpending', hunlocked', hne]
    by_cases hhd : h = d
    · subst hhd
      simp [Ne.symm hne] at hmem'
    simp only [modify_dataVIOs_of_ne _ _ hhn, modify_dataVIOs_of_ne _ _ hhd] at hmem' ⊢
    have hd'd : d' ≠ d := hinv.ne_of_mem_waiters_of_locked hmem' hlocked
    have hd'n : d' ≠ next := by
      rintro rfl
      exact hhd (hinv.eq_of_mem_waiters hmem' hmem)
    simpa [hd'd, hd'n] using hinv.waiter_waiting h d' hmem'
  · intro d' hpending hunlocked'
    by_cases hd'n : d' = next
    · subst hd'n
      simp [hne] at hunlocked'
    by_cases hd'd : d' = d
    · subst hd'd
      simp [Ne.symm hne] at hpending
    simp only [modify_dataVIOs_of_ne _ _ hd'n, modify_dataVIOs_of_ne _ _ hd'd, modify_lbnLockMap]
      at hpending hunlocked' ⊢
    obtain ⟨h, hmap', hmem'⟩ := hinv.waiting_queued d' hpending hunlocked'
    by_cases hhd : h = d
    · subst hhd
      have hd'rest : d' ∈ rest := by
        rw [hwaiters] at hmem'
        exact (List.mem_cons.mp hmem').resolve_left hd'n
      refine ⟨next, ?_, by simp [hd'rest]⟩
      rw [(hinv.waiter_waiting h d' hmem').1, Function.update_self]
    · have hhn : h ≠ next := by
        rintro rfl
        rw [hinv.waiters_of_unlocked _ hunlocked] at hmem'
        exact absurd hmem' List.not_mem_nil
      refine ⟨h, by rw [Function.update_of_ne (hother hmap' hhd)]; exact hmap', ?_⟩
      simpa [hhd, hhn] using hmem'
  · intro d'
    by_cases hd'n : d' = next
    · subst hd'n
      simp [hne]
    by_cases hd'd : d' = d
    · subst hd'd
      simp [Ne.symm hne, hinv.inWaitQueue_of_locked hlocked]
    simpa [hd'n, hd'd] using hinv.inWaitQueue_iff d'
  · intro h
    by_cases hhn : h = next
    · subst hhn
      simpa [hne] using hnodup.2
    by_cases hhd : h = d
    · subst hhd
      simp [Ne.symm hne]
    simpa [hhn, hhd] using hinv.waiters_nodup h

/-- The step lemma: every call the zone's thread makes keeps the invariant. -/
theorem step {logicalBlocks : ℕ} {zone' : LogicalZone ι} (hinv : zone.LockInvariant)
    (hstep : LogicalZoneStep logicalBlocks zone zone') : zone'.LockInvariant := by
  cases hstep with
  | @prepare d lbn operation hidle =>
    have hd : (zone.dataVIOs d).request ≠ .pending := by simp [hidle]
    exact hinv.modify_of_not_pending hd _ rfl rfl (hinv.inWaitQueue_of_not_pending hd) (by simp)
  | @attempt d vacancy hprepared =>
    have hd : (zone.dataVIOs d).request ≠ .pending := by simp [hprepared]
    rcases attemptLogicalBlockLock_cases logicalBlocks vacancy zone d with
      ⟨result, heq, -⟩ | ⟨hfree, heq⟩ | ⟨lockHolder, hmap, -, -, heq⟩
    · rw [heq]
      exact hinv.modify_of_not_pending hd _ (hinv.unlocked_of_not_pending hd)
        (hinv.waiters_of_not_pending hd) (hinv.inWaitQueue_of_not_pending hd) (by simp)
    · rw [heq]
      exact hinv.launch_of_free hd hfree
    · rw [heq]
      exact hinv.enqueue hd hmap
  | @release d vacancy hallowed =>
    cases hlocked : (zone.dataVIOs d).logical.locked with
    | false =>
      have hd : (zone.dataVIOs d).request ≠ .pending := by
        obtain ⟨result, hresult⟩ := hallowed.resolve_left (by simp [hlocked])
        simp [hresult]
      rw [releaseLogicalBlockLock_of_unlocked vacancy hlocked (hinv.waiters_of_unlocked d hlocked)]
      exact hinv.modify_of_not_pending hd _ hlocked (hinv.waiters_of_unlocked d hlocked)
        (hinv.inWaitQueue_of_not_pending hd) (by simp)
    | true =>
      cases hwaiters : (zone.dataVIOs d).logical.waiters with
      | nil =>
        rw [releaseLogicalBlockLock_of_nil vacancy hlocked hwaiters]
        exact hinv.remove hlocked hwaiters
      | cons next rest =>
        have hmem : next ∈ (zone.dataVIOs d).logical.waiters := by simp [hwaiters]
        rw [releaseLogicalBlockLock_of_cons vacancy hwaiters (hinv.ne_of_mem_waiters hmem)
          (hinv.waiters_of_unlocked next (hinv.waiter_waiting d next hmem).2.2)
          (hinv.locked_mapped d hlocked).1]
        exact hinv.handOff hlocked hwaiters
  | @allocate d hasAllocation =>
    refine hinv.congr rfl (fun x => ?_) (fun x => ?_) (fun x => ?_) <;>
      by_cases hx : x = d <;> simp [hx]

end LockInvariant

variable [DecidableEq ι]

open Reachability in
/-- The run lemma: every zone reached from a zone before any request, by any
interleaving of the thread's calls, satisfies the invariant. -/
theorem lockInvariant_of_reachable {logicalBlocks : ℕ}
    (hreach : Reachable Initial (LogicalZoneStep logicalBlocks) zone) : zone.LockInvariant :=
  hreach.invariant (fun _ hzone => LockInvariant.initial hzone)
    (fun _ _ hinv hstep => hinv.step hstep)

end LogicalZone

end Vdo
