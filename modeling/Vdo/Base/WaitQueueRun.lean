import Vdo.Base.WaitQueue

/-!
# Runs of wait queue calls

The calls of `waitQueue.c` on a family of queues sharing the waiters' links,
and what they mean on lists: `enqueueWaiter` appends, `dequeueNextWaiter`
takes the head, `transferAllWaiters` concatenates, `dequeueMatchingWaiters`
splits a queue by a predicate keeping the order, and `notifyAllWaiters` runs a
callback on each waiter the queue held when it was called. The callbacks are
modelled as the calls they make, which may be any of the others.

`dequeueMatchingWaiters` and `notifyAllWaiters` work through queues on their
stack. The proofs see such a queue as one more member of the family
(`withLocal`), which no call of the callbacks can name.

`waitQueues_refine_fifo`: from empty queues, every run whose transfers are between
two different queues keeps every queue a well-formed ring, and reading each
ring from its head gives the lists of the FIFO meaning; every call returns what
that meaning says.
-/

namespace Vdo

namespace WaitQueue

/-- The links of all waiters and the queues of a run. -/
structure WaitState (ι W : Type*) where
  nextWaiter : W → Option W
  queues : ι → WaitQueue W

/-- A call on the queues that runs no callback. -/
inductive WaitOp (ι W : Type*)
  | enqueue (queue : ι) (waiter : W)
  | dequeueNext (queue : ι)
  | transferAll (fromQueue toQueue : ι)
  | dequeueMatching (queue : ι) (matchMethod : W → Bool) (matchedQueue : ι)

/-- A call, or `notifyAllWaiters` with the calls its callback makes for each
waiter. The callbacks do not notify in turn. -/
inductive WaitCall (ι W : Type*)
  | op (op : WaitOp ι W)
  | notifyAll (queue : ι) (callback : W → List (WaitOp ι W))

/-- What a call returns. -/
inductive WaitResult (W : Type*)
  | status (result : Except VdoError Unit)
  | waiter (waiter : Option W)
  | done
  | notified (waiters : List W)

variable {ι W : Type*} [DecidableEq ι] [DecidableEq W]

namespace WaitState

/-- `enqueueWaiter` on queue `queue`. -/
def enqueueWaiter (s : WaitState ι W) (queue : ι) (waiter : W) : WaitState ι W × Except VdoError Unit :=
  match WaitQueue.enqueueWaiter s.nextWaiter (s.queues queue) waiter with
  | .ok (nextWaiter, queue') => (⟨nextWaiter, Function.update s.queues queue queue'⟩, .ok ())
  | .error result => (s, .error result)

/-- `dequeueNextWaiter` on queue `queue`. -/
def dequeueNextWaiter (s : WaitState ι W) (queue : ι) : WaitState ι W × Option W :=
  match WaitQueue.dequeueNextWaiter s.nextWaiter (s.queues queue) with
  | (waiter, nextWaiter, queue') => (⟨nextWaiter, Function.update s.queues queue queue'⟩, waiter)

/-- `transferAllWaiters` between queues `fromQueue` and `toQueue`; the source
is written last, as `initializeWaitQueue` is the last store. -/
def transferAllWaiters (s : WaitState ι W) (fromQueue toQueue : ι) : WaitState ι W :=
  match WaitQueue.transferAllWaiters s.nextWaiter (s.queues fromQueue) (s.queues toQueue) with
  | (nextWaiter, fromQueue', toQueue') =>
    ⟨nextWaiter, Function.update (Function.update s.queues toQueue toQueue') fromQueue fromQueue'⟩

/-- The loop of `dequeueMatchingWaiters` over its stack queue `iteration`, for
at most `fuel` waiters: each waiter goes back on `queue`, or onto the stack
queue `matched` when it matches. -/
def matchWaiters (matchMethod : W → Bool) (queue : ι) :
    ℕ → WaitState ι W → WaitQueue W → WaitQueue W →
      WaitState ι W × WaitQueue W × WaitQueue W × Except VdoError Unit
  | 0, s, iteration, matched => (s, iteration, matched, .ok ())
  | fuel + 1, s, iteration, matched =>
    if !hasWaiters iteration then (s, iteration, matched, .ok ())
    else
      match WaitQueue.dequeueNextWaiter s.nextWaiter iteration with
      | (none, nextWaiter, iteration) => (⟨nextWaiter, s.queues⟩, iteration, matched, .ok ())
      | (some waiter, nextWaiter, iteration) =>
        let s : WaitState ι W := ⟨nextWaiter, s.queues⟩
        if !matchMethod waiter then
          match s.enqueueWaiter queue waiter with
          | (s, .ok ()) => matchWaiters matchMethod queue fuel s iteration matched
          | (s, .error result) => (s, iteration, matched, .error result)
        else
          match WaitQueue.enqueueWaiter s.nextWaiter matched waiter with
          | .ok (nextWaiter, matched) => matchWaiters matchMethod queue fuel ⟨nextWaiter, s.queues⟩ iteration matched
          | .error result => (s, iteration, matched, .error result)

/-- `dequeueMatchingWaiters`: the queue moved to a stack queue, its waiters
sorted back onto it or onto a second stack queue, and that one transferred to
`matchedQueue`; on a failure both stack queues go back onto `queue`. -/
def dequeueMatchingWaiters (s : WaitState ι W) (queue : ι) (matchMethod : W → Bool) (matchedQueue : ι) :
    WaitState ι W × Except VdoError Unit :=
  match WaitQueue.transferAllWaiters s.nextWaiter (s.queues queue) initializeWaitQueue with
  | (nextWaiter, queue', iteration) =>
    match matchWaiters matchMethod queue iteration.queueLength ⟨nextWaiter, Function.update s.queues queue queue'⟩
        iteration initializeWaitQueue with
    | (s, iteration, matched, .error result) =>
      match WaitQueue.transferAllWaiters s.nextWaiter matched (s.queues queue) with
      | (nextWaiter, _, queue') =>
        match WaitQueue.transferAllWaiters nextWaiter iteration queue' with
        | (nextWaiter, _, queue') => (⟨nextWaiter, Function.update s.queues queue queue'⟩, .error result)
    | (s, _, matched, .ok ()) =>
      match WaitQueue.transferAllWaiters s.nextWaiter matched (s.queues matchedQueue) with
      | (nextWaiter, _, matchedQueue') =>
        (⟨nextWaiter, Function.update s.queues matchedQueue matchedQueue'⟩, .ok ())

/-- One call that runs no callback. -/
def step (s : WaitState ι W) : WaitOp ι W → WaitState ι W × WaitResult W
  | .enqueue queue waiter => match s.enqueueWaiter queue waiter with | (s, result) => (s, .status result)
  | .dequeueNext queue => match s.dequeueNextWaiter queue with | (s, waiter) => (s, .waiter waiter)
  | .transferAll fromQueue toQueue => (s.transferAllWaiters fromQueue toQueue, .done)
  | .dequeueMatching queue matchMethod matchedQueue =>
    match s.dequeueMatchingWaiters queue matchMethod matchedQueue with | (s, result) => (s, .status result)

/-- Calls that run no callback, one after another. -/
def run (s : WaitState ι W) : List (WaitOp ι W) → WaitState ι W × List (WaitResult W)
  | [] => (s, [])
  | op :: ops =>
    match s.step op with
    | (s, result) => match s.run ops with | (s, results) => (s, result :: results)

/-- `notifyNextWaiter` on the stack queue `waiters`: its head dequeued, and the
calls of the callback for it made. -/
def notifyNextWaiter (callback : W → List (WaitOp ι W)) (s : WaitState ι W) (waiters : WaitQueue W) :
    Option (W × WaitState ι W × WaitQueue W) :=
  match WaitQueue.dequeueNextWaiter s.nextWaiter waiters with
  | (some waiter, nextWaiter, waiters) => some (waiter, (run ⟨nextWaiter, s.queues⟩ (callback waiter)).1, waiters)
  | (none, _, _) => none

/-- The loop of `notifyAllWaiters`, for at most `fuel` waiters: the waiters
notified, in order. -/
def notifyWaiters (callback : W → List (WaitOp ι W)) :
    ℕ → WaitState ι W → WaitQueue W → WaitState ι W × WaitQueue W × List W
  | 0, s, waiters => (s, waiters, [])
  | fuel + 1, s, waiters =>
    match notifyNextWaiter callback s waiters with
    | none => (s, waiters, [])
    | some (waiter, s, waiters) =>
      match notifyWaiters callback fuel s waiters with
      | (s, waiters, notified) => (s, waiters, waiter :: notified)

/-- `notifyAllWaiters`: the queue moved to a stack queue first, so that the
waiters the callbacks put back on it wait for the next notification. -/
def notifyAllWaiters (s : WaitState ι W) (queue : ι) (callback : W → List (WaitOp ι W)) :
    WaitState ι W × List W :=
  match WaitQueue.transferAllWaiters s.nextWaiter (s.queues queue) initializeWaitQueue with
  | (nextWaiter, queue', waiters) =>
    match notifyWaiters callback waiters.queueLength ⟨nextWaiter, Function.update s.queues queue queue'⟩ waiters with
    | (s, _, notified) => (s, notified)

/-- One call. -/
def callStep (s : WaitState ι W) : WaitCall ι W → WaitState ι W × WaitResult W
  | .op op => s.step op
  | .notifyAll queue callback => match s.notifyAllWaiters queue callback with
    | (s, notified) => (s, .notified notified)

/-- Calls one after another. -/
def runCalls (s : WaitState ι W) : List (WaitCall ι W) → WaitState ι W × List (WaitResult W)
  | [] => (s, [])
  | call :: calls =>
    match s.callStep call with
    | (s, result) => match s.runCalls calls with | (s, results) => (s, result :: results)

/-- No waiter linked, and every queue empty. -/
def empty : WaitState ι W := ⟨fun _ => none, fun _ => initializeWaitQueue⟩

end WaitState

/-- The queues of a call, renamed. -/
def WaitOp.map {κ : Type*} (f : ι → κ) : WaitOp ι W → WaitOp κ W
  | .enqueue queue waiter => .enqueue (f queue) waiter
  | .dequeueNext queue => .dequeueNext (f queue)
  | .transferAll fromQueue toQueue => .transferAll (f fromQueue) (f toQueue)
  | .dequeueMatching queue matchMethod matchedQueue => .dequeueMatching (f queue) matchMethod (f matchedQueue)

/-- A transfer is between two different queues. -/
def WaitOp.Allowed : WaitOp ι W → Prop
  | .transferAll fromQueue toQueue => fromQueue ≠ toQueue
  | _ => True

/-- A call, and each call of a callback, is allowed. -/
def WaitCall.Allowed : WaitCall ι W → Prop
  | .op call => call.Allowed
  | .notifyAll _ callback => ∀ waiter, ∀ call ∈ callback waiter, WaitOp.Allowed call

/-! ## The FIFO meaning -/

/-- A family with one member more, at `none`. -/
def withLocal {α : Type*} (family : ι → α) (extra : α) : Option ι → α
  | none => extra
  | some i => family i

section Abstract

open Classical

/-- What a call does to the lists of waiters: `enqueueWaiter` is the list
model of `logicalZone.c`'s queues, refusing a waiter that is on any queue. -/
noncomputable def absStep (views : ι → List W) : WaitOp ι W → (ι → List W) × WaitResult W
  | .enqueue queue waiter =>
    match Vdo.enqueueWaiter (views queue) waiter (decide (∃ i, waiter ∈ views i)) with
    | .ok waiters => (Function.update views queue waiters, .status (.ok ()))
    | .error result => (views, .status (.error result))
  | .dequeueNext queue => (Function.update views queue (views queue).tail, .waiter (views queue).head?)
  | .transferAll fromQueue toQueue =>
    (Function.update (Function.update views toQueue (views toQueue ++ views fromQueue)) fromQueue [], .done)
  | .dequeueMatching queue matchMethod matchedQueue =>
    let kept := Function.update views queue ((views queue).filter fun waiter => !matchMethod waiter)
    (Function.update kept matchedQueue (kept matchedQueue ++ (views queue).filter matchMethod), .status (.ok ()))

/-- The calls one after another on lists. -/
noncomputable def absRun (views : ι → List W) : List (WaitOp ι W) → (ι → List W) × List (WaitResult W)
  | [] => (views, [])
  | op :: ops =>
    match absStep views op with
    | (views, result) => match absRun views ops with | (views, results) => (views, result :: results)

/-- The loop of `notifyAllWaiters` on lists: the calls of the callback for each
waiter of `pending` in turn, the waiters not yet notified kept on a list of
their own at `none`, which no call names. -/
noncomputable def absNotify (callback : W → List (WaitOp ι W)) :
    (Option ι → List W) → List W → Option ι → List W
  | views, [] => views
  | views, waiter :: pending =>
    absNotify callback (absRun (Function.update views none pending) ((callback waiter).map (WaitOp.map some))).1
      pending

/-- What a call does to the lists: `notifyAllWaiters` notifies the waiters
the queue holds when it is called, in order. -/
noncomputable def absCallStep (views : ι → List W) : WaitCall ι W → (ι → List W) × WaitResult W
  | .op op => absStep views op
  | .notifyAll queue callback =>
    let notified := absNotify callback (withLocal (Function.update views queue []) (views queue)) (views queue)
    (fun i => notified (some i), .notified (views queue))

/-- Calls one after another on lists. -/
noncomputable def absRunCalls (views : ι → List W) :
    List (WaitCall ι W) → (ι → List W) × List (WaitResult W)
  | [] => (views, [])
  | call :: calls =>
    match absCallStep views call with
    | (views, result) => match absRunCalls views calls with | (views, results) => (views, result :: results)

end Abstract

/-! ## Stack queues -/

section Local

variable {α : Type*}

omit [DecidableEq ι] [DecidableEq W] in
@[simp]
theorem withLocal_none (family : ι → α) (extra : α) : withLocal family extra none = extra := rfl

omit [DecidableEq ι] [DecidableEq W] in
@[simp]
theorem withLocal_some (family : ι → α) (extra : α) (i : ι) : withLocal family extra (some i) = family i := rfl

omit [DecidableEq W] in
@[simp]
theorem update_withLocal_none (family : ι → α) (extra a : α) :
    Function.update (withLocal family extra) none a = withLocal family a := by
  funext j
  cases j <;> simp [withLocal]

omit [DecidableEq W] in
@[simp]
theorem update_withLocal_some (family : ι → α) (extra a : α) (i : ι) :
    Function.update (withLocal family extra) (some i) a = withLocal (Function.update family i a) extra := by
  funext j
  cases j with
  | none => simp [withLocal]
  | some j => by_cases hj : j = i <;> simp [withLocal, hj]

variable {nextWaiter : W → Option W} {queues : ι → WaitQueue W} {views : ι → List W}

omit [DecidableEq ι] [DecidableEq W] in
/-- An empty stack queue joins a well-formed family. -/
theorem Wf.withLocal_nil (hwf : Wf nextWaiter queues views) :
    Wf nextWaiter (withLocal queues initializeWaitQueue) (withLocal views []) where
  represents
    | none => represents_initializeWaitQueue
    | some i => hwf.represents i
  nodup
    | none => List.nodup_nil
    | some i => hwf.nodup i
  disjoint
    | none, _, _, _, hv => absurd hv List.not_mem_nil
    | some _, none, _, _, _ => List.not_mem_nil
    | some i, some j, hij, v, hv => hwf.disjoint i j (fun h => hij (congrArg some h)) v hv
  unlinked v hv := hwf.unlinked v fun i => hv (some i)

omit [DecidableEq ι] [DecidableEq W] in
/-- An empty stack queue leaves a well-formed family. -/
theorem Wf.of_withLocal {queue : WaitQueue W} (hwf : Wf nextWaiter (withLocal queues queue) (withLocal views [])) :
    Wf nextWaiter queues views where
  represents i := hwf.represents (some i)
  nodup i := hwf.nodup (some i)
  disjoint i j hij := hwf.disjoint (some i) (some j) (fun h => hij (Option.some_injective _ h))
  unlinked v hv := hwf.unlinked v fun
    | none => List.not_mem_nil
    | some i => hv i

end Local

/-! ## One call -/

section Step

variable {s : WaitState ι W} {views : ι → List W}

theorem step_enqueue_refines (hwf : Wf s.nextWaiter s.queues views) (queue : ι) (waiter : W) :
    Wf (s.step (.enqueue queue waiter)).1.nextWaiter (s.step (.enqueue queue waiter)).1.queues
        (absStep views (.enqueue queue waiter)).1 ∧
      (s.step (.enqueue queue waiter)).2 = (absStep views (.enqueue queue waiter)).2 := by
  by_cases hwaiter : s.nextWaiter waiter = none
  · obtain ⟨nextWaiter', henqueue, hwf'⟩ := hwf.enqueueWaiter queue hwaiter
    have hnot : ¬∃ i, waiter ∈ views i := by simpa using (hwf.eq_none_iff waiter).mp hwaiter
    simp only [WaitState.step, WaitState.enqueueWaiter, henqueue, absStep, Vdo.enqueueWaiter, hnot,
      decide_false, Bool.false_eq_true, if_false]
    exact ⟨hwf', trivial⟩
  · have hqueued : ∃ i, waiter ∈ views i := by
      by_contra hnone
      exact hwaiter (hwf.unlinked waiter fun i hv => hnone ⟨i, hv⟩)
    have henqueue : WaitQueue.enqueueWaiter s.nextWaiter (s.queues queue) waiter = .error .assertionFailed := by
      simp [WaitQueue.enqueueWaiter, hwaiter]
    simp only [WaitState.step, WaitState.enqueueWaiter, henqueue, absStep, Vdo.enqueueWaiter, hqueued,
      decide_true, if_true]
    exact ⟨hwf, trivial⟩

theorem step_dequeueNext_refines (hwf : Wf s.nextWaiter s.queues views) (queue : ι) :
    Wf (s.step (.dequeueNext queue)).1.nextWaiter (s.step (.dequeueNext queue)).1.queues
        (absStep views (.dequeueNext queue)).1 ∧
      (s.step (.dequeueNext queue)).2 = (absStep views (.dequeueNext queue)).2 := by
  obtain ⟨nextWaiter', queue', hdequeue, hwf'⟩ := hwf.dequeueNextWaiter queue
  simp only [WaitState.step, WaitState.dequeueNextWaiter, hdequeue, absStep]
  exact ⟨hwf', trivial⟩

theorem step_transferAll_refines (hwf : Wf s.nextWaiter s.queues views) {fromQueue toQueue : ι}
    (hqueues : fromQueue ≠ toQueue) :
    Wf (s.step (.transferAll fromQueue toQueue)).1.nextWaiter (s.step (.transferAll fromQueue toQueue)).1.queues
        (absStep views (.transferAll fromQueue toQueue)).1 ∧
      (s.step (.transferAll fromQueue toQueue)).2 = (absStep views (.transferAll fromQueue toQueue)).2 := by
  obtain ⟨nextWaiter', fromQueue', toQueue', htransfer, hwf'⟩ := hwf.transferAllWaiters hqueues
  simp only [WaitState.step, WaitState.transferAllWaiters, htransfer, absStep]
  exact ⟨hwf', trivial⟩

/-- The loop of `dequeueMatchingWaiters`, on the family with its two stack
queues, `iteration` at `none` and `matched` at `some none`: each pending waiter
goes back onto `queue` or onto `matched`, in order. -/
theorem matchWaiters_refines (matchMethod : W → Bool) (queue : ι) {pending : List W} :
    ∀ {fuel : ℕ} {s : WaitState ι W} {iteration matched : WaitQueue W} {views : ι → List W}
      {matchedWaiters : List W}, pending.length ≤ fuel →
    Wf s.nextWaiter (withLocal (withLocal s.queues matched) iteration)
      (withLocal (withLocal views matchedWaiters) pending) →
    ∃ s' iteration' matched',
      s.matchWaiters matchMethod queue fuel iteration matched = (s', iteration', matched', .ok ()) ∧
      Wf s'.nextWaiter (withLocal (withLocal s'.queues matched') iteration')
        (withLocal (withLocal (Function.update views queue (views queue ++ pending.filter fun w => !matchMethod w))
          (matchedWaiters ++ pending.filter matchMethod)) []) := by
  induction pending with
  | nil =>
    intro fuel s iteration matched views matchedWaiters _ hwf
    have hempty : hasWaiters iteration = false := by
      have hlast := (hwf.represents none).last
      simp only [withLocal_none] at hlast
      simp [hasWaiters, hlast]
    refine ⟨s, iteration, matched, ?_, by simpa using hwf⟩
    cases fuel <;> simp [WaitState.matchWaiters, hempty]
  | cons waiter pending ih =>
    intro fuel s iteration matched views matchedWaiters hfuel hwf
    obtain ⟨fuel, rfl⟩ : ∃ f, fuel = f + 1 := ⟨fuel - 1, by simp at hfuel; omega⟩
    have hwaiters : hasWaiters iteration = true := by
      have hlast := (hwf.represents none).last
      simp only [withLocal_none] at hlast
      simp [hasWaiters, hlast]
    obtain ⟨nextWaiter₁, iteration₁, hdequeue, hwf₁⟩ := hwf.dequeueNextWaiter none
    simp only [withLocal_none, update_withLocal_none, List.head?_cons, List.tail_cons] at hdequeue hwf₁
    have hunlinked : nextWaiter₁ waiter = none := by
      rw [hwf₁.eq_none_iff]
      rintro (_ | _ | i) hmem
      · exact (List.nodup_cons.mp (hwf.nodup none)).1 hmem
      · exact hwf.disjoint none (some none) (by simp) waiter (by simp) hmem
      · exact hwf.disjoint none (some (some i)) (by simp) waiter (by simp) hmem
    by_cases hmatch : matchMethod waiter
    · obtain ⟨nextWaiter₂, henqueue, hwf₂⟩ := hwf₁.enqueueWaiter (some none) hunlinked
      simp only [withLocal_some, withLocal_none, update_withLocal_some, update_withLocal_none] at henqueue hwf₂
      obtain ⟨s', iteration', matched', hloop, hwf'⟩ :=
        ih (s := ⟨nextWaiter₂, s.queues⟩) (by simp at hfuel; omega) hwf₂
      refine ⟨s', iteration', matched', ?_, ?_⟩
      · simp [WaitState.matchWaiters, hwaiters, hdequeue, hmatch, henqueue, hloop]
      · simpa [List.filter_cons, hmatch] using hwf'
    · obtain ⟨nextWaiter₂, henqueue, hwf₂⟩ := hwf₁.enqueueWaiter (some (some queue)) hunlinked
      simp only [withLocal_some, update_withLocal_some] at henqueue hwf₂
      obtain ⟨s', iteration', matched', hloop, hwf'⟩ :=
        ih (s := ⟨nextWaiter₂, Function.update s.queues queue ⟨some waiter, (s.queues queue).queueLength + 1⟩⟩)
          (by simp at hfuel; omega) hwf₂
      refine ⟨s', iteration', matched', ?_, ?_⟩
      · simp [WaitState.matchWaiters, WaitState.enqueueWaiter, hwaiters, hdequeue, hmatch, henqueue, hloop]
      · simpa [List.filter_cons, hmatch] using hwf'

theorem step_dequeueMatching_refines (hwf : Wf s.nextWaiter s.queues views) (queue : ι) (matchMethod : W → Bool)
    (matchedQueue : ι) :
    Wf (s.step (.dequeueMatching queue matchMethod matchedQueue)).1.nextWaiter
        (s.step (.dequeueMatching queue matchMethod matchedQueue)).1.queues
        (absStep views (.dequeueMatching queue matchMethod matchedQueue)).1 ∧
      (s.step (.dequeueMatching queue matchMethod matchedQueue)).2 =
        (absStep views (.dequeueMatching queue matchMethod matchedQueue)).2 := by
  obtain ⟨nextWaiter₁, queue₁, iteration, htransfer, hwf₁⟩ :=
    hwf.withLocal_nil.withLocal_nil.transferAllWaiters (f := some (some queue)) (t := none) (by simp)
  simp only [withLocal_some, withLocal_none, update_withLocal_none, update_withLocal_some, List.nil_append]
    at htransfer hwf₁
  have hlength : iteration.queueLength = (views queue).length := by
    simpa using (hwf₁.represents none).length
  obtain ⟨s₂, iteration₂, matched₂, hloop, hwf₂⟩ :=
    matchWaiters_refines matchMethod queue (s := ⟨nextWaiter₁, Function.update s.queues queue queue₁⟩)
      (le_of_eq hlength.symm) hwf₁
  obtain ⟨nextWaiter₃, matched₃, matchedQueue₃, htransfer₃, hwf₃⟩ :=
    hwf₂.transferAllWaiters (f := some none) (t := some (some matchedQueue)) (by simp)
  simp only [withLocal_some, withLocal_none, update_withLocal_none, update_withLocal_some] at htransfer₃ hwf₃
  simp only [WaitState.step, WaitState.dequeueMatchingWaiters, htransfer, hloop, htransfer₃, absStep]
  refine ⟨?_, trivial⟩
  simpa [Function.update_idem] using hwf₃.of_withLocal.of_withLocal

/-- Every call keeps the family well formed and does on the rings what it does
on the lists. -/
theorem step_refines (hwf : Wf s.nextWaiter s.queues views) {op : WaitOp ι W} (hallowed : op.Allowed) :
    Wf (s.step op).1.nextWaiter (s.step op).1.queues (absStep views op).1 ∧
      (s.step op).2 = (absStep views op).2 := by
  cases op with
  | enqueue queue waiter => exact step_enqueue_refines hwf queue waiter
  | dequeueNext queue => exact step_dequeueNext_refines hwf queue
  | transferAll fromQueue toQueue => exact step_transferAll_refines hwf hallowed
  | dequeueMatching queue matchMethod matchedQueue =>
    exact step_dequeueMatching_refines hwf queue matchMethod matchedQueue

/-- A run of calls keeps the family well formed and follows the lists. -/
theorem run_refines {ops : List (WaitOp ι W)} (hallowed : ∀ op ∈ ops, op.Allowed) :
    ∀ {s : WaitState ι W} {views : ι → List W}, Wf s.nextWaiter s.queues views →
      Wf (s.run ops).1.nextWaiter (s.run ops).1.queues (absRun views ops).1 ∧
        (s.run ops).2 = (absRun views ops).2 := by
  induction ops with
  | nil => exact fun hwf => ⟨hwf, rfl⟩
  | cons op ops ih =>
    intro s views hwf
    obtain ⟨hwf₁, hresult⟩ := step_refines hwf (hallowed op List.mem_cons_self)
    obtain ⟨hwf₂, hresults⟩ := ih (fun op hop => hallowed op (List.mem_cons_of_mem _ hop)) hwf₁
    simp only [WaitState.run, absRun]
    exact ⟨hwf₂, by rw [hresult, hresults]⟩

end Step

/-! ## A stack queue beside the queues -/

section Lift

variable {extra : WaitQueue W}

theorem enqueueWaiter_withLocal (s : WaitState ι W) (queue : ι) (waiter : W) :
    WaitState.enqueueWaiter ⟨s.nextWaiter, withLocal s.queues extra⟩ (some queue) waiter =
      (⟨(s.enqueueWaiter queue waiter).1.nextWaiter, withLocal (s.enqueueWaiter queue waiter).1.queues extra⟩,
        (s.enqueueWaiter queue waiter).2) := by
  simp only [WaitState.enqueueWaiter, withLocal_some]
  rcases henqueue : WaitQueue.enqueueWaiter s.nextWaiter (s.queues queue) waiter with _ | ⟨nextWaiter, queue'⟩
  · rfl
  · simp

theorem matchWaiters_withLocal (matchMethod : W → Bool) (queue : ι) :
    ∀ (fuel : ℕ) (s : WaitState ι W) (iteration matched : WaitQueue W),
      WaitState.matchWaiters matchMethod (some queue) fuel ⟨s.nextWaiter, withLocal s.queues extra⟩ iteration matched =
        (⟨(s.matchWaiters matchMethod queue fuel iteration matched).1.nextWaiter,
          withLocal (s.matchWaiters matchMethod queue fuel iteration matched).1.queues extra⟩,
          (s.matchWaiters matchMethod queue fuel iteration matched).2)
  | 0, s, iteration, matched => rfl
  | fuel + 1, s, iteration, matched => by
    simp only [WaitState.matchWaiters]
    split_ifs with hempty
    · rfl
    · rcases hdequeue : WaitQueue.dequeueNextWaiter s.nextWaiter iteration with ⟨_ | waiter, nextWaiter, iteration'⟩
      · rfl
      · simp only
        split_ifs with hmatch
        · rw [enqueueWaiter_withLocal ⟨nextWaiter, s.queues⟩]
          rcases henqueue : WaitState.enqueueWaiter ⟨nextWaiter, s.queues⟩ queue waiter with ⟨s', _ | ⟨⟩⟩
          · rfl
          · exact matchWaiters_withLocal matchMethod queue fuel s' iteration' matched
        · rcases henqueue : WaitQueue.enqueueWaiter nextWaiter matched waiter with _ | ⟨nextWaiter', matched'⟩
          · rfl
          · exact matchWaiters_withLocal matchMethod queue fuel ⟨nextWaiter', s.queues⟩ iteration' matched'

theorem step_withLocal (s : WaitState ι W) (op : WaitOp ι W) :
    WaitState.step ⟨s.nextWaiter, withLocal s.queues extra⟩ (op.map some) =
      (⟨(s.step op).1.nextWaiter, withLocal (s.step op).1.queues extra⟩, (s.step op).2) := by
  cases op with
  | enqueue queue waiter =>
    simp only [WaitOp.map, WaitState.step]
    rw [enqueueWaiter_withLocal]
  | dequeueNext queue =>
    simp only [WaitOp.map, WaitState.step, WaitState.dequeueNextWaiter, withLocal_some]
    rcases WaitQueue.dequeueNextWaiter s.nextWaiter (s.queues queue) with ⟨waiter, nextWaiter, queue'⟩
    simp
  | transferAll fromQueue toQueue =>
    simp only [WaitOp.map, WaitState.step, WaitState.transferAllWaiters, withLocal_some]
    rcases WaitQueue.transferAllWaiters s.nextWaiter (s.queues fromQueue) (s.queues toQueue) with
      ⟨nextWaiter, fromQueue', toQueue'⟩
    simp
  | dequeueMatching queue matchMethod matchedQueue =>
    simp only [WaitOp.map, WaitState.step, WaitState.dequeueMatchingWaiters, withLocal_some]
    rcases WaitQueue.transferAllWaiters s.nextWaiter (s.queues queue) initializeWaitQueue with
      ⟨nextWaiter, queue', iteration⟩
    simp only [update_withLocal_some]
    rw [matchWaiters_withLocal matchMethod queue _ ⟨nextWaiter, Function.update s.queues queue queue'⟩]
    rcases WaitState.matchWaiters matchMethod queue iteration.queueLength
      ⟨nextWaiter, Function.update s.queues queue queue'⟩ iteration initializeWaitQueue with
      ⟨s', iteration', matched, _ | ⟨⟩⟩
    · simp
    · simp

theorem run_withLocal (ops : List (WaitOp ι W)) :
    ∀ s : WaitState ι W, WaitState.run ⟨s.nextWaiter, withLocal s.queues extra⟩ (ops.map (WaitOp.map some)) =
      (⟨(s.run ops).1.nextWaiter, withLocal (s.run ops).1.queues extra⟩, (s.run ops).2) := by
  induction ops with
  | nil => exact fun _ => rfl
  | cons op ops ih =>
    intro s
    simp only [List.map_cons, WaitState.run, step_withLocal]
    rcases s.step op with ⟨s', result⟩
    simp only [ih]

end Lift

omit [DecidableEq ι] [DecidableEq W] in
theorem WaitOp.allowed_map_some (op : WaitOp ι W) : (op.map some).Allowed ↔ op.Allowed := by
  cases op <;> simp [WaitOp.map, WaitOp.Allowed]

omit [DecidableEq W] in
/-- The calls of a callback do not touch the list of the waiters still to be
notified. -/
theorem absRun_map_some_none (ops : List (WaitOp ι W)) :
    ∀ views : Option ι → List W, (absRun views (ops.map (WaitOp.map some))).1 none = views none := by
  induction ops with
  | nil => exact fun _ => rfl
  | cons op ops ih =>
    intro views
    have hstep : (absStep views (op.map some)).1 none = views none := by
      cases op with
      | enqueue queue waiter =>
        simp only [WaitOp.map, absStep]
        split <;> simp
      | _ => simp [WaitOp.map, absStep]
    simp only [List.map_cons, absRun]
    rw [ih, hstep]

omit [DecidableEq W] in
/-- After the loop of `notifyAllWaiters` no waiter is left to notify. -/
theorem absNotify_none (callback : W → List (WaitOp ι W)) {pending : List W} :
    ∀ {views : Option ι → List W}, views none = pending → absNotify callback views pending none = [] := by
  induction pending with
  | nil => exact fun hpending => hpending
  | cons waiter pending ih =>
    intro views _
    exact ih (by rw [absRun_map_some_none]; simp)

section Notify

variable {s : WaitState ι W}

/-- The loop of `notifyAllWaiters`, on the family with its stack queue at
`none`: it notifies the pending waiters in order, each callback's calls doing
on the rings what they do on the lists. -/
theorem notifyWaiters_refines (callback : W → List (WaitOp ι W))
    (hallowed : ∀ waiter, ∀ op ∈ callback waiter, op.Allowed) {pending : List W} :
    ∀ {fuel : ℕ} {s : WaitState ι W} {waiters : WaitQueue W} {views : Option ι → List W},
      pending.length ≤ fuel → views none = pending →
      Wf s.nextWaiter (withLocal s.queues waiters) views →
      ∃ s' waiters', s.notifyWaiters callback fuel waiters = (s', waiters', pending) ∧
        Wf s'.nextWaiter (withLocal s'.queues waiters') (absNotify callback views pending) := by
  induction pending with
  | nil =>
    intro fuel s waiters views _ hpending hwf
    have hlast : waiters.lastWaiter = none := by
      simpa [hpending] using (hwf.represents none).last
    have hdequeue : WaitQueue.dequeueNextWaiter s.nextWaiter waiters = (none, s.nextWaiter, waiters) := by
      simp [WaitQueue.dequeueNextWaiter, getFirstWaiter, hlast]
    refine ⟨s, waiters, ?_, hwf⟩
    cases fuel <;> simp [WaitState.notifyWaiters, WaitState.notifyNextWaiter, hdequeue]
  | cons waiter pending ih =>
    intro fuel s waiters views hfuel hpending hwf
    obtain ⟨fuel, rfl⟩ : ∃ f, fuel = f + 1 := ⟨fuel - 1, by simp at hfuel; omega⟩
    obtain ⟨nextWaiter₁, waiters₁, hdequeue, hwf₁⟩ := hwf.dequeueNextWaiter none
    simp only [withLocal_none, hpending, List.head?_cons, List.tail_cons, update_withLocal_none]
      at hdequeue hwf₁
    have hcallback : ∀ op ∈ (callback waiter).map (WaitOp.map some), op.Allowed := by
      intro op hop
      obtain ⟨call, hcall, rfl⟩ := List.mem_map.mp hop
      exact (WaitOp.allowed_map_some call).mpr (hallowed waiter call hcall)
    have hrun := run_refines hcallback (s := ⟨nextWaiter₁, withLocal s.queues waiters₁⟩) hwf₁
    rw [run_withLocal (callback waiter) ⟨nextWaiter₁, s.queues⟩] at hrun
    obtain ⟨s', waiters', hloop, hwf'⟩ :=
      ih (by simp at hfuel; omega) (by rw [absRun_map_some_none]; simp) hrun.1
    exact ⟨s', waiters', by simp [WaitState.notifyWaiters, WaitState.notifyNextWaiter, hdequeue, hloop], hwf'⟩

theorem callStep_notifyAll_refines {views : ι → List W} (hwf : Wf s.nextWaiter s.queues views) (queue : ι)
    {callback : W → List (WaitOp ι W)} (hallowed : ∀ waiter, ∀ op ∈ callback waiter, op.Allowed) :
    Wf (s.callStep (.notifyAll queue callback)).1.nextWaiter (s.callStep (.notifyAll queue callback)).1.queues
        (absCallStep views (.notifyAll queue callback)).1 ∧
      (s.callStep (.notifyAll queue callback)).2 = (absCallStep views (.notifyAll queue callback)).2 := by
  obtain ⟨nextWaiter₁, queue₁, waiters, htransfer, hwf₁⟩ :=
    hwf.withLocal_nil.transferAllWaiters (f := some queue) (t := none) (by simp)
  simp only [withLocal_some, withLocal_none, update_withLocal_none, update_withLocal_some, List.nil_append]
    at htransfer hwf₁
  have hlength : waiters.queueLength = (views queue).length := by
    simpa using (hwf₁.represents none).length
  obtain ⟨s', waiters', hloop, hwf'⟩ :=
    notifyWaiters_refines callback hallowed (s := ⟨nextWaiter₁, Function.update s.queues queue queue₁⟩)
      (le_of_eq hlength.symm) rfl hwf₁
  simp only [WaitState.callStep, WaitState.notifyAllWaiters, htransfer, hloop, absCallStep]
  refine ⟨?_, trivial⟩
  have hviews : absNotify callback (withLocal (Function.update views queue []) (views queue)) (views queue) =
      withLocal (fun i => absNotify callback (withLocal (Function.update views queue []) (views queue))
        (views queue) (some i)) [] := by
    funext i
    cases i with
    | none => exact absNotify_none callback rfl
    | some i => rfl
  rw [hviews] at hwf'
  exact hwf'.of_withLocal

/-- Every call, `notifyAllWaiters` with its callbacks included, keeps the
family well formed and does on the rings what it does on the lists. -/
theorem callStep_refines {views : ι → List W} (hwf : Wf s.nextWaiter s.queues views) {call : WaitCall ι W}
    (hallowed : call.Allowed) :
    Wf (s.callStep call).1.nextWaiter (s.callStep call).1.queues (absCallStep views call).1 ∧
      (s.callStep call).2 = (absCallStep views call).2 := by
  cases call with
  | op op => exact step_refines hwf hallowed
  | notifyAll queue callback => exact callStep_notifyAll_refines hwf queue hallowed

theorem runCalls_refines {calls : List (WaitCall ι W)} (hallowed : ∀ call ∈ calls, call.Allowed) :
    ∀ {s : WaitState ι W} {views : ι → List W}, Wf s.nextWaiter s.queues views →
      Wf (s.runCalls calls).1.nextWaiter (s.runCalls calls).1.queues (absRunCalls views calls).1 ∧
        (s.runCalls calls).2 = (absRunCalls views calls).2 := by
  induction calls with
  | nil => exact fun hwf => ⟨hwf, rfl⟩
  | cons call calls ih =>
    intro s views hwf
    obtain ⟨hwf₁, hresult⟩ := callStep_refines hwf (hallowed call List.mem_cons_self)
    obtain ⟨hwf₂, hresults⟩ := ih (fun call hcall => hallowed call (List.mem_cons_of_mem _ hcall)) hwf₁
    simp only [WaitState.runCalls, absRunCalls]
    exact ⟨hwf₂, by rw [hresult, hresults]⟩

end Notify

omit [DecidableEq ι] [DecidableEq W] in
/-- No waiter linked and every queue empty is the family of empty lists. -/
theorem wf_empty :
    Wf (WaitState.empty : WaitState ι W).nextWaiter (WaitState.empty : WaitState ι W).queues fun _ => [] where
  represents _ := represents_initializeWaitQueue
  nodup _ := List.nodup_nil
  disjoint _ _ _ _ hv := absurd hv List.not_mem_nil
  unlinked _ _ := rfl

/-- From empty queues, every run of calls whose transfers, the callbacks'
included, are between two different queues keeps the queues disjoint
well-formed rings with every waiter on none of them unlinked; reading each ring
from `getFirstWaiter` gives the lists of the FIFO meaning, and every call
returns what that meaning says. -/
theorem waitQueues_refine_fifo (calls : List (WaitCall ι W)) (hallowed : ∀ call ∈ calls, call.Allowed) :
    Wf (WaitState.empty.runCalls calls).1.nextWaiter (WaitState.empty.runCalls calls).1.queues
        (absRunCalls (fun _ => []) calls).1 ∧
      (∀ queue, ringWaiters (WaitState.empty.runCalls calls).1.nextWaiter
        ((WaitState.empty.runCalls calls).1.queues queue) = (absRunCalls (fun _ => []) calls).1 queue) ∧
      (WaitState.empty.runCalls calls).2 = (absRunCalls (fun _ => []) calls).2 := by
  obtain ⟨hwf, hresults⟩ := runCalls_refines hallowed wf_empty
  exact ⟨hwf, fun queue => (hwf.represents queue).ringWaiters_eq, hresults⟩

theorem waitQueues_refine_fifo_two_queues :
    let calls : List (WaitCall ℕ ℕ) :=
      [.op (.enqueue 0 1), .op (.enqueue 0 2), .op (.transferAll 0 1), .notifyAll 1 fun waiter => [.enqueue 1 waiter]]
    (∀ call ∈ calls, call.Allowed) ∧
      (Wf (WaitState.empty.runCalls calls).1.nextWaiter (WaitState.empty.runCalls calls).1.queues
          (absRunCalls (fun _ => []) calls).1 ∧
        (∀ queue, ringWaiters (WaitState.empty.runCalls calls).1.nextWaiter
          ((WaitState.empty.runCalls calls).1.queues queue) = (absRunCalls (fun _ => []) calls).1 queue) ∧
        (WaitState.empty.runCalls calls).2 = (absRunCalls (fun _ => []) calls).2) :=
  ⟨by simp [WaitCall.Allowed, WaitOp.Allowed],
    waitQueues_refine_fifo _ (by simp [WaitCall.Allowed, WaitOp.Allowed])⟩

/-- A transfer from a queue to itself empties the queue but leaves its waiter
linked: it is on no ring, and can never be queued again. -/
theorem transferAll_to_itself_strands_waiter :
    let run := (WaitState.empty : WaitState ℕ ℕ).runCalls
      [.op (.enqueue 0 0), .op (.transferAll 0 0), .op (.enqueue 0 0)]
    ringWaiters run.1.nextWaiter (run.1.queues 0) = [] ∧ run.1.nextWaiter 0 = some 0 ∧
      run.2 = [.status (.ok ()), .done, .status (.error .assertionFailed)] :=
  ⟨rfl, rfl, rfl⟩

end WaitQueue

end Vdo
