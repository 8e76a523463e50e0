import Vdo.Lib.Reachability
import Mathlib.Data.List.Infix

/-!
# Funnel queues

A funnel queue (`funnelQueue.c`) is a queue of many producers and one
consumer. A producer puts an entry by exchanging it into `newest` and then
storing it into the `next` field of the entry the exchange returned; between
the two, the entries after it are cut off from the consumer. The consumer
takes entries from `oldest`, skipping the queue's own `stub` entry, and puts
the stub back on the queue before it takes the last entry it can see, so that
`oldest` always has an entry to move to.

The functions are given twice. Run alone they are plain functions on the
queue. Run at once, each producer and the consumer are threads whose steps
are the single reads and writes of the shared fields, `newest` and every
entry's `next`, interleaved in any order under sequentially consistent memory
(`FunnelSystem.step`). The system records, beside the queue, the entries in
the order their exchange on `newest` took effect and the entries
`funnelQueuePoll` returned.

Pointers are `Option`s: `NULL` is `none`. A read or write through `NULL`
does nothing; the invariant shows none happens.
-/

namespace Vdo.Uds

/-- A `FunnelQueueEntry` a pointer of the queue can name: the queue's own
`stub`, or an entry a producer put. -/
inductive FunnelQueueEntry (E : Type)
  | stub
  | entry (entry : E)
  deriving DecidableEq, Repr

/-- A `FunnelQueue`: the `next` field of every entry, and the two ends. -/
structure FunnelQueue (E : Type) where
  next : FunnelQueueEntry E → Option (FunnelQueueEntry E)
  newest : Option (FunnelQueueEntry E)
  oldest : Option (FunnelQueueEntry E)

variable {E : Type} [DecidableEq E]

namespace FunnelQueue

/-- `pointer->next`. -/
def nextOf (queue : FunnelQueue E) : Option (FunnelQueueEntry E) → Option (FunnelQueueEntry E)
  | none => none
  | some node => queue.next node

/-- `pointer->next = value`. -/
def setNext (queue : FunnelQueue E) :
    Option (FunnelQueueEntry E) → Option (FunnelQueueEntry E) → FunnelQueue E
  | none, _ => queue
  | some node, value => { queue with next := Function.update queue.next node value }

/-- `xchg(&queue->newest, entry)`: the entry becomes the newest, and the old
newest is returned. -/
def exchangeNewest (queue : FunnelQueue E) (entry : FunnelQueueEntry E) :
    FunnelQueue E × Option (FunnelQueueEntry E) :=
  ({ queue with newest := some entry }, queue.newest)

end FunnelQueue

/-- `makeFunnelQueue`: the stub alone, both the oldest and the newest. -/
def makeFunnelQueue : FunnelQueue E := ⟨fun _ => none, some .stub, some .stub⟩

/-! ## The functions run alone -/

/-- `funnelQueuePut`: the entry's `next` cleared, the entry exchanged into
`newest`, and linked after the entry the exchange returned. -/
def funnelQueuePut (queue : FunnelQueue E) (entry : FunnelQueueEntry E) : FunnelQueue E :=
  let (queue, previous) := (queue.setNext (some entry) none).exchangeNewest entry
  queue.setNext previous (some entry)

/-- The part of `getOldest` after the stub: a candidate with a successor is
taken; one without is taken only if it is the newest, after the stub is put
back behind it and has become its successor. -/
def claimOldest (queue : FunnelQueue E) (oldest next : Option (FunnelQueueEntry E)) :
    FunnelQueue E × Option (FunnelQueueEntry E) :=
  match next with
  | some _ => (queue, oldest)
  | none =>
    if oldest ≠ queue.newest then (queue, none)
    else
      let queue := funnelQueuePut queue .stub
      match queue.nextOf oldest with
      | none => (queue, none)
      | some _ => (queue, oldest)

/-- `getOldest`: the oldest entry that can be taken, if any; the stub, when it
is the oldest and has a successor, is dequeued on the way. -/
def getOldest (queue : FunnelQueue E) : FunnelQueue E × Option (FunnelQueueEntry E) :=
  let oldest := queue.oldest
  let next := queue.nextOf oldest
  if oldest = some .stub then
    match next with
    | none => (queue, none)
    | some _ => claimOldest { queue with oldest := next } next (queue.nextOf next)
  else claimOldest queue oldest next

/-- `funnelQueuePoll`: the oldest entry dequeued and returned. -/
def funnelQueuePoll (queue : FunnelQueue E) : FunnelQueue E × Option (FunnelQueueEntry E) :=
  match getOldest queue with
  | (queue, none) => (queue, none)
  | (queue, some oldest) =>
    (({ queue with oldest := queue.next oldest } : FunnelQueue E).setNext (some oldest) none, some oldest)

/-- `isFunnelQueueEmpty`. -/
def isFunnelQueueEmpty (queue : FunnelQueue E) : FunnelQueue E × Bool :=
  ((getOldest queue).1, (getOldest queue).2.isNone)

/-! ## The functions run at once -/

/-- Where a producer is in `funnelQueuePut`. -/
inductive PutPhase (E : Type)
  /-- Not putting. -/
  | idle
  /-- The entry's `next` cleared; the exchange on `newest` comes next. -/
  | cleared (entry : E)
  /-- Exchanged, with the entry the exchange returned; the store into its
  `next` comes next. -/
  | exchanged (entry : E) (previous : Option (FunnelQueueEntry E))

/-- The entry a producer is putting. -/
def PutPhase.putting : PutPhase E → Option E
  | .idle => none
  | .cleared entry => some entry
  | .exchanged entry _ => some entry

/-- The two functions of the consumer. -/
inductive ConsumerCall
  | poll
  | isEmpty
  deriving DecidableEq, Repr

/-- Where the consumer is in `funnelQueuePoll` or `isFunnelQueueEmpty`, with
its locals: each phase is the point before one read or write of a shared
field. -/
inductive ConsumerPhase (E : Type)
  | idle
  /-- The stub was dequeued; the new oldest's `next` is read next. -/
  | rereadNext (call : ConsumerCall) (oldest : Option (FunnelQueueEntry E))
  /-- The candidate has no successor; `newest` is read next. -/
  | readNewest (call : ConsumerCall) (oldest : Option (FunnelQueueEntry E))
  /-- Putting the stub back: its `next` is cleared next. -/
  | clearStub (call : ConsumerCall) (oldest : Option (FunnelQueueEntry E))
  /-- The exchange of the stub on `newest` comes next. -/
  | exchangeStub (call : ConsumerCall) (oldest : Option (FunnelQueueEntry E))
  /-- The store of the stub into the `next` of the entry the exchange
  returned comes next. -/
  | linkStub (call : ConsumerCall) (oldest previous : Option (FunnelQueueEntry E))
  /-- The candidate's `next` is read again. -/
  | recheckNext (call : ConsumerCall) (oldest : Option (FunnelQueueEntry E))
  /-- `funnelQueuePoll`: `queue->oldest = oldest->next` comes next. -/
  | advance (oldest : Option (FunnelQueueEntry E))
  /-- `funnelQueuePoll`: `oldest->next = NULL` comes next, and the return. -/
  | detach (oldest : Option (FunnelQueueEntry E))

/-- A funnel queue with producers `P` and one consumer. -/
structure FunnelSystem (E P : Type) where
  queue : FunnelQueue E
  producers : P → PutPhase E
  consumer : ConsumerPhase E
  /-- The entries in the order their exchange on `newest` took effect. -/
  exchanged : List E
  /-- The entries each producer's exchanges put, in its own order. -/
  putsBy : P → List E
  /-- The entries `funnelQueuePoll` returned, in order. -/
  polled : List (FunnelQueueEntry E)

/-- A step of one thread. -/
inductive FunnelAction (E P : Type)
  /-- A producer starts `funnelQueuePut` and clears the entry's `next`. -/
  | put (producer : P) (entry : E)
  /-- A producer's exchange on `newest`. -/
  | exchange (producer : P)
  /-- A producer's store into the `next` of the entry before its own. -/
  | link (producer : P)
  /-- The consumer starts a call, reading `oldest` and its `next`. -/
  | call (call : ConsumerCall)
  /-- The consumer's next read or write. -/
  | consume

namespace FunnelSystem

variable {P : Type} [DecidableEq P]

/-- The queue as made, with every thread idle. -/
def initial : FunnelSystem E P := ⟨makeFunnelQueue, fun _ => .idle, .idle, [], fun _ => [], []⟩

/-- The consumer's call returns `result`. -/
def finish (s : FunnelSystem E P) (call : ConsumerCall) (result : Option (FunnelQueueEntry E)) :
    FunnelSystem E P :=
  { s with
    consumer := .idle
    polled := match call, result with
      | .poll, some node => s.polled ++ [node]
      | _, _ => s.polled }

/-- `getOldest` has its candidate: a poll goes on to dequeue it,
`isFunnelQueueEmpty` returns. -/
def claim (s : FunnelSystem E P) (call : ConsumerCall) (oldest : Option (FunnelQueueEntry E)) :
    FunnelSystem E P :=
  match call with
  | .poll => { s with consumer := .advance oldest }
  | .isEmpty => s.finish .isEmpty oldest

/-- The candidate's `next` has been read. -/
def found (s : FunnelSystem E P) (call : ConsumerCall) (oldest next : Option (FunnelQueueEntry E)) :
    FunnelSystem E P :=
  match next with
  | some _ => s.claim call oldest
  | none => { s with consumer := .readNewest call oldest }

/-- The first step of a call: `oldest` and its `next` read, and the stub
dequeued if it is the oldest and has a successor. -/
def startCall (s : FunnelSystem E P) (call : ConsumerCall) : FunnelSystem E P :=
  let oldest := s.queue.oldest
  let next := s.queue.nextOf oldest
  if oldest = some .stub then
    match next with
    | none => s.finish call none
    | some _ => { s with queue := { s.queue with oldest := next }, consumer := .rereadNext call next }
  else s.found call oldest next

/-- The consumer's next step within a call. -/
def consumerStep (s : FunnelSystem E P) : Option (FunnelSystem E P) :=
  match s.consumer with
  | .idle => none
  | .rereadNext call oldest => some (s.found call oldest (s.queue.nextOf oldest))
  | .readNewest call oldest =>
    some (if oldest ≠ s.queue.newest then s.finish call none else { s with consumer := .clearStub call oldest })
  | .clearStub call oldest =>
    some { s with queue := s.queue.setNext (some .stub) none, consumer := .exchangeStub call oldest }
  | .exchangeStub call oldest =>
    let (queue, previous) := s.queue.exchangeNewest .stub
    some { s with queue := queue, consumer := .linkStub call oldest previous }
  | .linkStub call oldest previous =>
    some { s with queue := s.queue.setNext previous (some .stub), consumer := .recheckNext call oldest }
  | .recheckNext call oldest =>
    some (match s.queue.nextOf oldest with
      | none => s.finish call none
      | some _ => s.claim call oldest)
  | .advance oldest =>
    some { s with queue := { s.queue with oldest := s.queue.nextOf oldest }, consumer := .detach oldest }
  | .detach oldest => some (({ s with queue := s.queue.setNext oldest none } : FunnelSystem E P).finish .poll oldest)

/-- One step of one thread; `none` when that thread cannot take it. -/
def step (s : FunnelSystem E P) : FunnelAction E P → Option (FunnelSystem E P)
  | .put producer entry =>
    match s.producers producer with
    | .idle => some { s with
        queue := s.queue.setNext (some (.entry entry)) none
        producers := Function.update s.producers producer (.cleared entry) }
    | _ => none
  | .exchange producer =>
    match s.producers producer with
    | .cleared entry =>
      let (queue, previous) := s.queue.exchangeNewest (.entry entry)
      some { s with
        queue := queue
        producers := Function.update s.producers producer (.exchanged entry previous)
        exchanged := s.exchanged ++ [entry]
        putsBy := Function.update s.putsBy producer (s.putsBy producer ++ [entry]) }
    | _ => none
  | .link producer =>
    match s.producers producer with
    | .exchanged entry previous => some { s with
        queue := s.queue.setNext previous (some (.entry entry))
        producers := Function.update s.producers producer .idle }
    | _ => none
  | .call call =>
    match s.consumer with
    | .idle => some (s.startCall call)
    | _ => none
  | .consume => s.consumerStep

/-- The callers' side of the contract: an entry is put only when it is not
in the queue, that is when no producer is putting it and every put of it so
far has been returned by `funnelQueuePoll`. -/
def Allowed (s : FunnelSystem E P) : FunnelAction E P → Prop
  | .put _ entry =>
    (∀ producer, (s.producers producer).putting ≠ some entry) ∧
      s.exchanged.count entry = s.polled.count (.entry entry)
  | _ => True

/-- One step of one thread, within the callers' contract. -/
def Steps (s t : FunnelSystem E P) : Prop :=
  ∃ action, s.Allowed action ∧ s.step action = some t

/-- The states of every interleaving of the threads from the queue as made. -/
def Reachable : FunnelSystem E P → Prop :=
  Reachability.Reachable (· = initial) Steps

end FunnelSystem

end Vdo.Uds
