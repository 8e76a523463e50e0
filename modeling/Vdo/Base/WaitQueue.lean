import Vdo.Base.LogicalBlockLock
import Mathlib.Data.List.Chain

/-!
# Wait queues as rings

A `WaitQueue` (`waitQueue.c`) keeps its waiters on a singly linked ring
through their `nextWaiter` fields and holds only the last of them, whose
successor is the head. A waiter is on a queue exactly when its `nextWaiter` is
set. The model keeps the `nextWaiter` fields of all waiters as one function,
since one call may relink the rings of two queues, and a queue as its
`lastWaiter` and `queueLength`.

`Represents` says that a list is the ring of a queue read from its head. Each
function on one or two queues gets a lemma saying which lists it leaves and
which links it touches.
-/

namespace Vdo

/-- A `WaitQueue`: the last waiter of its ring, `NULL` when it is empty, and
its length. -/
structure WaitQueue (W : Type*) where
  lastWaiter : Option W
  queueLength : ℕ
  deriving DecidableEq, Repr

namespace WaitQueue

variable {W : Type*} [DecidableEq W]

/-- `initializeWaitQueue`. -/
def initializeWaitQueue : WaitQueue W := ⟨none, 0⟩

/-- `hasWaiters`. -/
def hasWaiters (queue : WaitQueue W) : Bool := queue.lastWaiter.isSome

/-- `isWaiting`: whether the waiter's `nextWaiter` is set. -/
def isWaiting (nextWaiter : W → Option W) (waiter : W) : Bool := (nextWaiter waiter).isSome

/-- `enqueueWaiter`: a waiter already on a ring is refused; otherwise it is
linked in after the last waiter, before the head, and becomes the last. -/
def enqueueWaiter (nextWaiter : W → Option W) (queue : WaitQueue W) (waiter : W) :
    Except VdoError ((W → Option W) × WaitQueue W) :=
  if nextWaiter waiter ≠ none then .error .assertionFailed
  else
    let nextWaiter := match queue.lastWaiter with
      | none => Function.update nextWaiter waiter (some waiter)
      | some lastWaiter =>
        let nextWaiter := Function.update nextWaiter waiter (nextWaiter lastWaiter)
        Function.update nextWaiter lastWaiter (some waiter)
    .ok (nextWaiter, ⟨some waiter, queue.queueLength + 1⟩)

/-- `getFirstWaiter`: the successor of the last waiter. -/
def getFirstWaiter (nextWaiter : W → Option W) (queue : WaitQueue W) : Option W :=
  queue.lastWaiter.bind nextWaiter

/-- `dequeueNextWaiter`: the head, unlinked from the ring; the links and the
queue after. -/
def dequeueNextWaiter (nextWaiter : W → Option W) (queue : WaitQueue W) :
    Option W × (W → Option W) × WaitQueue W :=
  match queue.lastWaiter, getFirstWaiter nextWaiter queue with
  | some lastWaiter, some firstWaiter =>
    let (nextWaiter, lastWaiter) :=
      if firstWaiter = lastWaiter then (nextWaiter, none)
      else (Function.update nextWaiter lastWaiter (nextWaiter firstWaiter), some lastWaiter)
    (some firstWaiter, Function.update nextWaiter firstWaiter none, ⟨lastWaiter, queue.queueLength - 1⟩)
  | _, _ => (none, nextWaiter, queue)

/-- `transferAllWaiters`: the links, and the source and destination queues
after. Two rings are spliced by swapping their last waiters' successors. -/
def transferAllWaiters (nextWaiter : W → Option W) (fromQueue toQueue : WaitQueue W) :
    (W → Option W) × WaitQueue W × WaitQueue W :=
  if !hasWaiters fromQueue then (nextWaiter, fromQueue, toQueue)
  else
    let nextWaiter := match fromQueue.lastWaiter, toQueue.lastWaiter with
      | some fromLast, some toLast =>
        let fromHead := nextWaiter fromLast
        let toHead := nextWaiter toLast
        let nextWaiter := Function.update nextWaiter toLast fromHead
        Function.update nextWaiter fromLast toHead
      | _, _ => nextWaiter
    (nextWaiter, initializeWaitQueue,
      ⟨fromQueue.lastWaiter, toQueue.queueLength + fromQueue.queueLength⟩)

/-- `getNextWaiter`: the first waiter after `NULL`, the successor of a waiter,
and `NULL` after the last. -/
def getNextWaiter (nextWaiter : W → Option W) (queue : WaitQueue W) : Option W → Option W
  | none => getFirstWaiter nextWaiter queue
  | some waiter => if nextWaiter waiter ≠ getFirstWaiter nextWaiter queue then nextWaiter waiter else none

/-! ## Rings -/

/-- `waiters` is the ring of `queue` read from its head: its last waiter is
`lastWaiter`, each waiter links to the one after it and the last to the head,
and `queueLength` counts them. -/
structure Represents (nextWaiter : W → Option W) (queue : WaitQueue W) (waiters : List W) : Prop where
  last : queue.lastWaiter = waiters.getLast?
  length : queue.queueLength = waiters.length
  chain : waiters.IsChain (fun a b => nextWaiter a = some b)
  close : ∀ last ∈ waiters.getLast?, ∀ head ∈ waiters.head?, nextWaiter last = some head

variable {nextWaiter nextWaiter' : W → Option W} {queue : WaitQueue W} {waiters : List W}

omit [DecidableEq W] in
/-- A chain of links reads the links of all its waiters but the last. -/
theorem isChain_linked_congr {waiters : List W}
    (hchain : waiters.IsChain (fun a b => nextWaiter a = some b))
    (hsame : ∀ v ∈ waiters.dropLast, nextWaiter' v = nextWaiter v) :
    waiters.IsChain (fun a b => nextWaiter' a = some b) := by
  induction waiters with
  | nil => exact .nil
  | cons a rest ih =>
    cases rest with
    | nil => exact .singleton a
    | cons b rest =>
      rw [List.isChain_cons_cons] at hchain ⊢
      refine ⟨by rw [hsame a (by simp)]; exact hchain.1, ih hchain.2 fun v hv => hsame v ?_⟩
      rw [List.dropLast_cons_cons]
      exact List.mem_cons_of_mem a hv

omit [DecidableEq W] in
theorem Represents.congr (h : Represents nextWaiter queue waiters)
    (hsame : ∀ v ∈ waiters, nextWaiter' v = nextWaiter v) : Represents nextWaiter' queue waiters where
  last := h.last
  length := h.length
  chain := isChain_linked_congr h.chain fun v hv => hsame v (List.dropLast_subset _ hv)
  close last hlast head hhead := by
    rw [hsame last (List.mem_of_getLast? hlast)]
    exact h.close last hlast head hhead

omit [DecidableEq W] in
/-- Every waiter on a ring has its `nextWaiter` set. -/
theorem Represents.isSome_of_mem (h : Represents nextWaiter queue waiters) {v : W} (hv : v ∈ waiters) :
    (nextWaiter v).isSome := by
  obtain ⟨mid, last, rfl⟩ := List.eq_nil_or_concat waiters |>.resolve_left (List.ne_nil_of_mem hv)
  rw [List.concat_eq_append] at h hv
  rcases List.mem_append.mp hv with hmid | hlast
  · obtain ⟨i, hi, rfl⟩ := List.getElem_of_mem hmid
    have hlink := h.chain.getElem i (by simp; omega)
    rw [List.getElem_append_left hi] at hlink
    simp [hlink]
  · rw [List.mem_singleton.mp hlast]
    simp [h.close last (by simp) _ (List.head?_eq_some_head (by simp))]

omit [DecidableEq W] in
/-- The empty queue is the empty ring. -/
theorem represents_initializeWaitQueue : Represents nextWaiter initializeWaitQueue [] :=
  ⟨rfl, rfl, .nil, by simp⟩

omit [DecidableEq W] in
/-- A queue's first waiter is the head of its ring. -/
theorem Represents.getFirstWaiter_eq (h : Represents nextWaiter queue waiters) :
    getFirstWaiter nextWaiter queue = waiters.head? := by
  rcases List.eq_nil_or_concat waiters with rfl | ⟨mid, last, rfl⟩
  · simp [getFirstWaiter, h.last]
  · rw [List.concat_eq_append] at h ⊢
    have hlast : (mid ++ [last]).getLast? = some last := by simp
    rw [getFirstWaiter, h.last, hlast, Option.bind_some,
      h.close last hlast _ (List.head?_eq_some_head (by simp)), List.head?_eq_some_head (by simp)]

omit [DecidableEq W] in
/-- The last waiter of a ring without repeats is not before the last. -/
theorem not_mem_of_nodup_concat {mid : List W} {last : W} (hnodup : (mid ++ [last]).Nodup) :
    last ∉ mid := fun hmem =>
  (List.nodup_append.mp hnodup).2.2 last hmem last (List.mem_singleton_self last) rfl

/-! ## One queue -/

/-- `enqueueWaiter` of an unlinked waiter: the ring gains it at the end, and
only the links of the waiter and of the old last waiter change. -/
theorem Represents.enqueueWaiter (h : Represents nextWaiter queue waiters) (hnodup : waiters.Nodup)
    {waiter : W} (hwaiter : nextWaiter waiter = none) :
    ∃ nextWaiter', enqueueWaiter nextWaiter queue waiter = .ok (nextWaiter', ⟨some waiter, queue.queueLength + 1⟩) ∧
      Represents nextWaiter' ⟨some waiter, queue.queueLength + 1⟩ (waiters ++ [waiter]) ∧
      ∀ v ∉ waiters, v ≠ waiter → nextWaiter' v = nextWaiter v := by
  have hnot : waiter ∉ waiters := fun hmem => by simpa [hwaiter] using h.isSome_of_mem hmem
  rcases List.eq_nil_or_concat waiters with rfl | ⟨mid, last, rfl⟩
  · have hempty : queue.lastWaiter = none := by simp [h.last]
    refine ⟨Function.update nextWaiter waiter (some waiter), by simp [WaitQueue.enqueueWaiter, hwaiter, hempty],
      ⟨rfl, by simp [h.length], .singleton _, by simp⟩, fun v _ hv => by simp [hv]⟩
  · rw [List.concat_eq_append] at h hnodup hnot ⊢
    have hlast : queue.lastWaiter = some last := by simp [h.last]
    have hne : waiter ≠ last := fun heq => hnot (heq ▸ List.mem_append_right mid (List.mem_singleton_self _))
    have hmid : ∀ v ∈ mid, v ≠ last ∧ v ≠ waiter := fun v hv =>
      ⟨fun heq => not_mem_of_nodup_concat hnodup (heq ▸ hv),
        fun heq => hnot (heq ▸ List.mem_append_left _ hv)⟩
    refine ⟨Function.update (Function.update nextWaiter waiter (nextWaiter last)) last (some waiter),
      by simp [WaitQueue.enqueueWaiter, hwaiter, hlast], ⟨by simp, by simp [h.length], ?_, ?_⟩, ?_⟩
    · refine List.IsChain.append (isChain_linked_congr h.chain fun v hv => ?_) (.singleton _) ?_
      · rw [List.dropLast_concat] at hv
        simp [(hmid v hv).1, (hmid v hv).2]
      · simp
    · intro v hv head hhead
      simp only [List.getLast?_append, List.getLast?_singleton, Option.some_or, Option.mem_def,
        Option.some.injEq] at hv
      subst hv
      rw [List.head?_append_of_ne_nil _ (by simp)] at hhead
      simp [Function.update_of_ne hne, h.close last (by simp) head hhead]
    · intro v hv hvw
      have hvl : v ≠ last := fun heq => hv (heq ▸ List.mem_append_right mid (List.mem_singleton_self _))
      simp [hvl, hvw]

/-- `dequeueNextWaiter` returns the head of the ring, which loses it; only the
links of the head, now unset, and of the last waiter change. -/
theorem Represents.dequeueNextWaiter (h : Represents nextWaiter queue waiters) (hnodup : waiters.Nodup) :
    ∃ nextWaiter' queue', dequeueNextWaiter nextWaiter queue = (waiters.head?, nextWaiter', queue') ∧
      Represents nextWaiter' queue' waiters.tail ∧ (∀ v ∈ waiters.head?, nextWaiter' v = none) ∧
      ∀ v ∉ waiters, nextWaiter' v = nextWaiter v := by
  have hfirst := h.getFirstWaiter_eq
  cases waiters with
  | nil =>
    have hempty : queue.lastWaiter = none := by simp [h.last]
    exact ⟨nextWaiter, queue, by simp [WaitQueue.dequeueNextWaiter, hempty], h, by simp, fun _ _ => rfl⟩
  | cons first rest =>
    rcases List.eq_nil_or_concat rest with rfl | ⟨mid, last, rfl⟩
    · have hlast : queue.lastWaiter = some first := by simp [h.last]
      refine ⟨Function.update nextWaiter first none, ⟨none, queue.queueLength - 1⟩,
        by simp [WaitQueue.dequeueNextWaiter, hlast, hfirst], ⟨rfl, by simp [h.length], .nil, by simp⟩,
        by simp, fun v hv => ?_⟩
      simp [List.mem_singleton.not.mp hv]
    · rw [List.concat_eq_append] at h hnodup hfirst ⊢
      have hlast : queue.lastWaiter = some last := by
        rw [h.last, ← List.cons_append, List.getLast?_concat]
      have hnotFirst : first ∉ mid ++ [last] := (List.nodup_cons.mp hnodup).1
      have hne : first ≠ last := fun heq => hnotFirst (heq ▸ List.mem_append_right mid (List.mem_singleton_self _))
      have hmid : ∀ v ∈ mid, v ≠ last ∧ v ≠ first := fun v hv =>
        ⟨fun heq => not_mem_of_nodup_concat (List.nodup_cons.mp hnodup).2 (heq ▸ hv),
          fun heq => hnotFirst (heq ▸ List.mem_append_left _ hv)⟩
      have hlink : nextWaiter first = (mid ++ [last]).head? := by
        rw [List.head?_eq_some_head (by simp)]
        exact (List.isChain_cons.mp h.chain).1 _ (List.head?_eq_some_head (by simp))
      refine ⟨Function.update (Function.update nextWaiter last (nextWaiter first)) first none,
        ⟨some last, queue.queueLength - 1⟩, by simp [WaitQueue.dequeueNextWaiter, hlast, hfirst, hne],
        ⟨by simp, by simp [h.length], ?_, ?_⟩, by simp, fun v hv => ?_⟩
      · refine isChain_linked_congr (List.isChain_cons.mp h.chain).2 fun v hv => ?_
        rw [List.tail_cons, List.dropLast_concat] at hv
        simp [(hmid v hv).1, (hmid v hv).2]
      · intro v hv head hhead
        simp only [List.tail_cons, List.getLast?_concat, Option.mem_def, Option.some.injEq] at hv hhead
        subst hv
        simp [Function.update_of_ne hne.symm, hlink, hhead]
      · have hvFirst : v ≠ first := fun heq => hv (heq ▸ List.mem_cons_self)
        have hvLast : v ≠ last := fun heq => hv (heq ▸ List.mem_cons_of_mem _ (List.mem_append_right mid (List.mem_singleton_self _)))
        simp [hvFirst, hvLast]

/-- `transferAllWaiters` between two disjoint rings: the destination's ring
is followed by the source's, the source is empty, and only the links of the
two last waiters change. -/
theorem Represents.transferAllWaiters {fromQueue toQueue : WaitQueue W} {fromWaiters toWaiters : List W}
    (hfrom : Represents nextWaiter fromQueue fromWaiters) (hto : Represents nextWaiter toQueue toWaiters)
    (hfromNodup : fromWaiters.Nodup) (htoNodup : toWaiters.Nodup)
    (hdisjoint : ∀ v ∈ fromWaiters, v ∉ toWaiters) :
    ∃ nextWaiter' fromQueue' toQueue',
      transferAllWaiters nextWaiter fromQueue toQueue = (nextWaiter', fromQueue', toQueue') ∧
      Represents nextWaiter' fromQueue' [] ∧ Represents nextWaiter' toQueue' (toWaiters ++ fromWaiters) ∧
      ∀ v ∉ fromWaiters, v ∉ toWaiters → nextWaiter' v = nextWaiter v := by
  rcases List.eq_nil_or_concat fromWaiters with rfl | ⟨fromMid, fromLast, rfl⟩
  · have hempty : fromQueue.lastWaiter = none := by simp [hfrom.last]
    exact ⟨nextWaiter, fromQueue, toQueue, by simp [WaitQueue.transferAllWaiters, hasWaiters, hempty], hfrom,
      by simpa using hto, fun _ _ _ => rfl⟩
  rw [List.concat_eq_append] at hfrom hfromNodup hdisjoint ⊢
  have hfromLast : fromQueue.lastWaiter = some fromLast := by simp [hfrom.last]
  rcases List.eq_nil_or_concat toWaiters with rfl | ⟨toMid, toLast, rfl⟩
  · have hempty : toQueue.lastWaiter = none := by simp [hto.last]
    refine ⟨nextWaiter, initializeWaitQueue, ⟨some fromLast, toQueue.queueLength + fromQueue.queueLength⟩,
      by simp [WaitQueue.transferAllWaiters, hasWaiters, hfromLast, hempty], represents_initializeWaitQueue,
      ⟨by simp, by simp [hto.length, hfrom.length], by simpa using hfrom.chain, by simpa using hfrom.close⟩,
      fun _ _ _ => rfl⟩
  rw [List.concat_eq_append] at hto htoNodup hdisjoint ⊢
  have htoLast : toQueue.lastWaiter = some toLast := by simp [hto.last]
  have hmem {l : List W} {a : W} : a ∈ l ++ [a] := List.mem_append_right l (List.mem_singleton_self a)
  have hne : fromLast ≠ toLast := fun heq => hdisjoint fromLast hmem (heq ▸ hmem)
  have hfromMid : ∀ v ∈ fromMid, v ≠ fromLast ∧ v ≠ toLast := fun v hv =>
    ⟨fun heq => not_mem_of_nodup_concat hfromNodup (heq ▸ hv),
      fun heq => hdisjoint v (List.mem_append_left _ hv) (heq ▸ hmem)⟩
  have htoMid : ∀ v ∈ toMid, v ≠ fromLast ∧ v ≠ toLast := fun v hv =>
    ⟨fun heq => hdisjoint fromLast hmem (heq ▸ List.mem_append_left _ hv),
      fun heq => not_mem_of_nodup_concat htoNodup (heq ▸ hv)⟩
  have hfromHead := hfrom.close fromLast (by simp) _ (List.head?_eq_some_head (by simp))
  have htoHead := hto.close toLast (by simp) _ (List.head?_eq_some_head (by simp))
  refine ⟨Function.update (Function.update nextWaiter toLast (nextWaiter fromLast)) fromLast (nextWaiter toLast),
    initializeWaitQueue, ⟨some fromLast, toQueue.queueLength + fromQueue.queueLength⟩,
    by simp [WaitQueue.transferAllWaiters, hasWaiters, hfromLast, htoLast], represents_initializeWaitQueue,
    ⟨by rw [List.getLast?_append_of_ne_nil _ (by simp), List.getLast?_concat],
      by simp [hto.length, hfrom.length]; omega, ?_, ?_⟩, fun v hvFrom hvTo => ?_⟩
  · refine List.IsChain.append (isChain_linked_congr hto.chain fun v hv => ?_)
      (isChain_linked_congr hfrom.chain fun v hv => ?_) ?_
    · rw [List.dropLast_concat] at hv
      simp [(htoMid v hv).1, (htoMid v hv).2]
    · rw [List.dropLast_concat] at hv
      simp [(hfromMid v hv).1, (hfromMid v hv).2]
    · intro x hx y hy
      simp only [List.getLast?_concat, Option.mem_def, Option.some.injEq] at hx
      subst hx
      rw [List.head?_eq_some_head (by simp), Option.mem_def, Option.some.injEq] at hy
      simp [Function.update_of_ne hne.symm, hfromHead, hy]
  · intro x hx y hy
    rw [List.getLast?_append_of_ne_nil _ (by simp), List.getLast?_concat, Option.mem_def, Option.some.injEq] at hx
    subst hx
    rw [List.head?_append_of_ne_nil _ (by simp), List.head?_eq_some_head (by simp), Option.mem_def,
      Option.some.injEq] at hy
    simp [htoHead, hy]
  · have hvFromLast : v ≠ fromLast := fun heq => hvFrom (heq ▸ hmem)
    have hvToLast : v ≠ toLast := fun heq => hvTo (heq ▸ hmem)
    simp [hvFromLast, hvToLast]

/-- The waiters read by following `nextWaiter` from `start`, `count` of them. -/
def walkWaiters (nextWaiter : W → Option W) : Option W → ℕ → List W
  | _, 0 => []
  | none, _ + 1 => []
  | some waiter, count + 1 => waiter :: walkWaiters nextWaiter (nextWaiter waiter) count

/-- The waiters of a queue in order: from `getFirstWaiter` round the ring, as
many as `queueLength` says. -/
def ringWaiters (nextWaiter : W → Option W) (queue : WaitQueue W) : List W :=
  walkWaiters nextWaiter (getFirstWaiter nextWaiter queue) queue.queueLength

omit [DecidableEq W] in
/-- Following the links of a chain from its head reads the chain. -/
theorem walkWaiters_of_isChain (hchain : waiters.IsChain (fun a b => nextWaiter a = some b)) :
    walkWaiters nextWaiter waiters.head? waiters.length = waiters := by
  induction waiters with
  | nil => rfl
  | cons a rest ih =>
    cases rest with
    | nil => rfl
    | cons b rest =>
      rw [List.isChain_cons_cons] at hchain
      have hrest := ih hchain.2
      simp only [List.head?_cons, List.length_cons] at hrest ⊢
      rw [walkWaiters, hchain.1, hrest]

omit [DecidableEq W] in
/-- The ring a queue represents is the one `ringWaiters` reads. -/
theorem Represents.ringWaiters_eq (h : Represents nextWaiter queue waiters) :
    ringWaiters nextWaiter queue = waiters := by
  rw [ringWaiters, h.getFirstWaiter_eq, h.length, walkWaiters_of_isChain h.chain]

/-! ## Families of queues -/

section Family

variable {ι : Type*} [DecidableEq ι] {queues : ι → WaitQueue W} {views : ι → List W}

/-- The queues of a family hold the rings of their views, which repeat no
waiter and share none, and a waiter on none of them is unlinked. -/
structure Wf (nextWaiter : W → Option W) (queues : ι → WaitQueue W) (views : ι → List W) : Prop where
  represents : ∀ i, Represents nextWaiter (queues i) (views i)
  nodup : ∀ i, (views i).Nodup
  disjoint : ∀ i j, i ≠ j → ∀ v ∈ views i, v ∉ views j
  unlinked : ∀ v, (∀ i, v ∉ views i) → nextWaiter v = none

omit [DecidableEq W] [DecidableEq ι] in
/-- A waiter is unlinked exactly when it is on no queue. -/
theorem Wf.eq_none_iff (hwf : Wf nextWaiter queues views) (v : W) :
    nextWaiter v = none ↔ ∀ i, v ∉ views i :=
  ⟨fun hnone i hv => by simpa [hnone] using (hwf.represents i).isSome_of_mem hv, hwf.unlinked v⟩

omit [DecidableEq W] in
/-- The queues other than `i` keep their rings when their waiters keep their links. -/
theorem Wf.represents_of_ne (hwf : Wf nextWaiter queues views) {i j : ι} (hji : j ≠ i)
    (hframe : ∀ v ∈ views j, nextWaiter' v = nextWaiter v) (queue : WaitQueue W) (waiters : List W) :
    Represents nextWaiter' (Function.update queues i queue j) (Function.update views i waiters j) := by
  rw [Function.update_of_ne hji, Function.update_of_ne hji]
  exact (hwf.represents j).congr hframe

/-- `enqueueWaiter` of an unlinked waiter on queue `i` appends it to its view. -/
theorem Wf.enqueueWaiter (hwf : Wf nextWaiter queues views) (i : ι) {waiter : W}
    (hwaiter : nextWaiter waiter = none) :
    ∃ nextWaiter', enqueueWaiter nextWaiter (queues i) waiter =
        .ok (nextWaiter', ⟨some waiter, (queues i).queueLength + 1⟩) ∧
      Wf nextWaiter' (Function.update queues i ⟨some waiter, (queues i).queueLength + 1⟩)
        (Function.update views i (views i ++ [waiter])) := by
  obtain ⟨nextWaiter', henqueue, hrep, hframe⟩ := (hwf.represents i).enqueueWaiter (hwf.nodup i) hwaiter
  have hnot : ∀ j, waiter ∉ views j := (hwf.eq_none_iff waiter).mp hwaiter
  have hother : ∀ j ≠ i, ∀ v ∈ views j, nextWaiter' v = nextWaiter v := fun j hji v hv =>
    hframe v (hwf.disjoint j i hji v hv) fun heq => hnot j (heq ▸ hv)
  refine ⟨nextWaiter', henqueue, ⟨fun j => ?_, fun j => ?_, fun j k hjk v hv => ?_, fun v hv => ?_⟩⟩
  · by_cases hji : j = i
    · subst hji
      simpa using hrep
    · exact hwf.represents_of_ne hji (hother j hji) _ _
  · by_cases hji : j = i
    · subst hji
      simpa [List.nodup_append, hwf.nodup j] using fun v (hv : v ∈ views j) (heq : v = waiter) =>
        hnot j (heq ▸ hv)
    · simpa [hji] using hwf.nodup j
  · by_cases hji : j = i
    · subst hji
      have hki : k ≠ j := Ne.symm hjk
      simp only [Function.update_self, List.mem_append, List.mem_singleton] at hv
      simp only [Function.update_of_ne hki]
      rcases hv with hv | rfl
      · exact hwf.disjoint j k hjk v hv
      · exact hnot k
    · simp only [Function.update_of_ne hji] at hv
      by_cases hki : k = i
      · subst hki
        simp only [Function.update_self, List.mem_append, List.mem_singleton, not_or]
        exact ⟨hwf.disjoint j k hjk v hv, fun heq => hnot j (heq ▸ hv)⟩
      · simpa [hki] using hwf.disjoint j k hjk v hv
  · have hvi := hv i
    simp only [Function.update_self, List.mem_append, List.mem_singleton, not_or] at hvi
    have hvj : ∀ j, v ∉ views j := fun j => by
      by_cases hji : j = i
      · exact hji ▸ hvi.1
      · simpa [hji] using hv j
    rw [hframe v hvi.1 hvi.2]
    exact hwf.unlinked v hvj

/-- `dequeueNextWaiter` of queue `i` returns the head of its view, drops it,
and unlinks it. -/
theorem Wf.dequeueNextWaiter (hwf : Wf nextWaiter queues views) (i : ι) :
    ∃ nextWaiter' queue', dequeueNextWaiter nextWaiter (queues i) = ((views i).head?, nextWaiter', queue') ∧
      Wf nextWaiter' (Function.update queues i queue') (Function.update views i (views i).tail) := by
  obtain ⟨nextWaiter', queue', hdequeue, hrep, hhead, hframe⟩ :=
    (hwf.represents i).dequeueNextWaiter (hwf.nodup i)
  have hother : ∀ j ≠ i, ∀ v ∈ views j, nextWaiter' v = nextWaiter v := fun j hji v hv =>
    hframe v (hwf.disjoint j i hji v hv)
  refine ⟨nextWaiter', queue', hdequeue, ⟨fun j => ?_, fun j => ?_, fun j k hjk v hv => ?_, fun v hv => ?_⟩⟩
  · by_cases hji : j = i
    · subst hji
      simpa using hrep
    · exact hwf.represents_of_ne hji (hother j hji) _ _
  · by_cases hji : j = i
    · subst hji
      simpa using (hwf.nodup j).sublist (List.tail_sublist _)
    · simpa [hji] using hwf.nodup j
  · have hsub : ∀ j, ∀ v ∈ Function.update views i (views i).tail j, v ∈ views j := fun j v hv => by
      by_cases hji : j = i
      · subst hji
        simpa using List.mem_of_mem_tail (by simpa using hv)
      · simpa [hji] using hv
    exact fun hvk => hwf.disjoint j k hjk v (hsub j v hv) (hsub k v hvk)
  · by_cases hvi : v ∈ views i
    · have hvhead : v ∈ (views i).head? := by
        cases hviews : views i with
        | nil => simp [hviews] at hvi
        | cons head rest =>
          have := hv i
          simp only [Function.update_self, hviews, List.tail_cons] at this
          rw [hviews] at hvi
          simp [List.mem_cons.mp hvi |>.resolve_right this]
      exact hhead v hvhead
    · have hvj : ∀ j, v ∉ views j := fun j => by
        by_cases hji : j = i
        · exact hji ▸ hvi
        · simpa [hji] using hv j
      rw [hframe v hvi]
      exact hwf.unlinked v hvj

omit [DecidableEq W] in
/-- The views after a transfer from `f` to `t`: `f` empty, and `t` holding both. -/
theorem mem_transferViews {f t j : ι} {v : W} (hft : f ≠ t) :
    v ∈ Function.update (Function.update views t (views t ++ views f)) f [] j ↔
      j ≠ f ∧ (v ∈ views j ∨ j = t ∧ v ∈ views f) := by
  by_cases hjf : j = f
  · subst hjf
    simp
  · by_cases hjt : j = t
    · subst hjt
      simp [hjf]
    · simp [hjf, hjt]

/-- `transferAllWaiters` from queue `f` to another queue `t` appends `f`'s view
to `t`'s and empties `f`. -/
theorem Wf.transferAllWaiters (hwf : Wf nextWaiter queues views) {f t : ι} (hft : f ≠ t) :
    ∃ nextWaiter' fromQueue' toQueue',
      transferAllWaiters nextWaiter (queues f) (queues t) = (nextWaiter', fromQueue', toQueue') ∧
      Wf nextWaiter' (Function.update (Function.update queues t toQueue') f fromQueue')
        (Function.update (Function.update views t (views t ++ views f)) f []) := by
  obtain ⟨nextWaiter', fromQueue', toQueue', htransfer, hfromRep, htoRep, hframe⟩ :=
    (hwf.represents f).transferAllWaiters (hwf.represents t) (hwf.nodup f) (hwf.nodup t) (hwf.disjoint f t hft)
  refine ⟨nextWaiter', fromQueue', toQueue', htransfer, ⟨fun j => ?_, fun j => ?_, fun j k hjk v hv hvk => ?_,
    fun v hv => ?_⟩⟩
  · by_cases hjf : j = f
    · subst hjf
      simpa using hfromRep
    · by_cases hjt : j = t
      · subst hjt
        simpa [hjf] using htoRep
      · simp only [Function.update_of_ne hjf, Function.update_of_ne hjt]
        exact (hwf.represents j).congr fun v hv =>
          hframe v (hwf.disjoint j f hjf v hv) (hwf.disjoint j t hjt v hv)
  · by_cases hjf : j = f
    · subst hjf
      simp
    · by_cases hjt : j = t
      · subst hjt
        simpa [hjf, List.nodup_append, hwf.nodup j, hwf.nodup f] using
          fun v (hv : v ∈ views j) w (hw : w ∈ views f) (heq : v = w) => hwf.disjoint f j hft w hw (heq ▸ hv)
      · simpa [hjf, hjt] using hwf.nodup j
  · rw [mem_transferViews hft] at hv hvk
    obtain ⟨hjf, hvj | ⟨rfl, hvf⟩⟩ := hv <;> obtain ⟨hkf, hvk | ⟨rfl, hvf'⟩⟩ := hvk
    · exact hwf.disjoint j k hjk v hvj hvk
    · exact hwf.disjoint j f hjf v hvj hvf'
    · exact hwf.disjoint f k (Ne.symm hkf) v hvf hvk
    · exact hjk rfl
  · have hvf : v ∉ views f := fun hvf => hv t ((mem_transferViews hft).mpr ⟨hft.symm, .inr ⟨rfl, hvf⟩⟩)
    have hvt : v ∉ views t := fun hvt => hv t ((mem_transferViews hft).mpr ⟨hft.symm, .inl hvt⟩)
    have hvj : ∀ j, v ∉ views j := fun j hvj => by
      by_cases hjf : j = f
      · exact hvf (hjf ▸ hvj)
      · exact hv j ((mem_transferViews hft).mpr ⟨hjf, .inl hvj⟩)
    rw [hframe v hvf hvt]
    exact hwf.unlinked v hvj

end Family

end WaitQueue

end Vdo
