import Vdo.Uds.FunnelQueue
import Vdo.Lib.Adjacent
import Mathlib.Data.List.Count

/-!
# The funnel queue under every interleaving

The invariant `FunnelSystem.Chain` names the list of nodes the queue holds,
from `oldest` to `newest`, and says how the shared fields stand to it: each
node's `next` is its successor on the list, except where the thread that
exchanged the successor in has still to store it; the entries on the list
(with the one the consumer is detaching) are the exchanged entries not yet
returned, in exchange order; and what each thread is about to do fits the
list. One lemma per kind of step shows the step keeps it, and
`Reachable.exists_chain` carries it over every interleaving from `initial`.
-/

namespace Vdo.Uds

variable {E P : Type}

namespace FunnelQueue

@[simp]
theorem nextOf_some (queue : FunnelQueue E) (node : FunnelQueueEntry E) :
    queue.nextOf (some node) = queue.next node := rfl

@[simp]
theorem nextOf_none (queue : FunnelQueue E) : queue.nextOf none = none := rfl

@[simp]
theorem exchangeNewest_eq (queue : FunnelQueue E) (entry : FunnelQueueEntry E) :
    queue.exchangeNewest entry = ({ queue with newest := some entry }, queue.newest) := rfl

variable [DecidableEq E]

@[simp]
theorem setNext_none (queue : FunnelQueue E) (value : Option (FunnelQueueEntry E)) :
    queue.setNext none value = queue := rfl

@[simp]
theorem next_setNext_some (queue : FunnelQueue E) (node : FunnelQueueEntry E)
    (value : Option (FunnelQueueEntry E)) :
    (queue.setNext (some node) value).next = Function.update queue.next node value := rfl

@[simp]
theorem newest_setNext (queue : FunnelQueue E) (pointer value : Option (FunnelQueueEntry E)) :
    (queue.setNext pointer value).newest = queue.newest := by
  cases pointer <;> rfl

@[simp]
theorem oldest_setNext (queue : FunnelQueue E) (pointer value : Option (FunnelQueueEntry E)) :
    (queue.setNext pointer value).oldest = queue.oldest := by
  cases pointer <;> rfl

end FunnelQueue

/-- The entry a node holds; the stub holds none. -/
def FunnelQueueEntry.value? : FunnelQueueEntry E → Option E
  | .stub => none
  | .entry value => some value

@[simp]
theorem FunnelQueueEntry.value?_stub : (FunnelQueueEntry.stub : FunnelQueueEntry E).value? = none :=
  rfl

@[simp]
theorem FunnelQueueEntry.value?_entry (value : E) : (FunnelQueueEntry.entry value).value? = some value :=
  rfl

/-- The node whose `next` the consumer is about to point at the stub. -/
def ConsumerPhase.stubPrevious : ConsumerPhase E → Option (FunnelQueueEntry E)
  | .linkStub _ _ previous => previous
  | _ => none

/-- The entry the consumer has taken off the chain and not yet returned. -/
def ConsumerPhase.inflight : ConsumerPhase E → List E
  | .detach (some (.entry entry)) => [entry]
  | _ => []

namespace FunnelSystem

variable {s t : FunnelSystem E P} {chain : List (FunnelQueueEntry E)}

/-- The link from `node` to `successor` is not stored yet: the thread that
exchanged `successor` in after `node` has still to store it. -/
def Pending (s : FunnelSystem E P) (node successor : FunnelQueueEntry E) : Prop :=
  (∃ producer entry, s.producers producer = .exchanged entry (some node) ∧ successor = .entry entry) ∨
    (successor = .stub ∧ s.consumer.stubPrevious = some node)

/-- Adjacent nodes of the chain: linked, or about to be. -/
def Linked (s : FunnelSystem E P) (node successor : FunnelQueueEntry E) : Prop :=
  s.queue.next node = some successor ∨ (s.queue.next node = none ∧ s.Pending node successor)

/-- A call's candidate is the first node of the chain, and not the stub. -/
def Leads (chain : List (FunnelQueueEntry E)) (oldest : Option (FunnelQueueEntry E)) : Prop :=
  oldest = chain.head? ∧ oldest ≠ some .stub

/-- What a producer's phase needs of the chain. -/
def ProducerFits (s : FunnelSystem E P) (chain : List (FunnelQueueEntry E)) : PutPhase E → Prop
  | .idle => True
  | .cleared entry =>
    .entry entry ∉ chain ∧ s.queue.next (.entry entry) = none ∧ entry ∉ s.consumer.inflight
  | .exchanged entry previous =>
    ∃ node, previous = some node ∧ [node, .entry entry] <:+: chain ∧ s.queue.next node = none

/-- What the consumer's phase needs of the chain. -/
def ConsumerFits (s : FunnelSystem E P) (chain : List (FunnelQueueEntry E)) : ConsumerPhase E → Prop
  | .idle => True
  | .rereadNext _ oldest | .readNewest _ oldest | .recheckNext _ oldest => Leads chain oldest
  | .clearStub _ oldest => Leads chain oldest ∧ .stub ∉ chain
  | .exchangeStub _ oldest => Leads chain oldest ∧ .stub ∉ chain ∧ s.queue.next .stub = none
  | .linkStub _ oldest previous => Leads chain oldest ∧
    ∃ node, previous = some node ∧ [node, .stub] <:+: chain ∧ s.queue.next node = none
  | .advance oldest => Leads chain oldest ∧ s.queue.nextOf oldest ≠ none
  | .detach oldest => ∃ entry, oldest = some (.entry entry) ∧ .entry entry ∉ chain

/-- The nodes of the queue, from `oldest` to `newest`, and how every shared
field and every thread stands to them. -/
structure Chain (s : FunnelSystem E P) (chain : List (FunnelQueueEntry E)) : Prop where
  oldest : s.queue.oldest = chain.head?
  newest : s.queue.newest = chain.getLast?
  ne_nil : chain ≠ []
  /-- In particular the stub is on the chain at most once. -/
  nodup : chain.Nodup
  linked : chain.IsChain s.Linked
  newest_next : ∀ node ∈ chain.getLast?, s.queue.next node = none
  producers : ∀ producer, s.ProducerFits chain (s.producers producer)
  distinct : ∀ producer producer' entry, (s.producers producer).putting = some entry →
    (s.producers producer').putting = some entry → producer = producer'
  consumer : s.ConsumerFits chain s.consumer
  /-- The entries not yet returned, in exchange order. -/
  history : s.consumer.inflight ++ chain.filterMap FunnelQueueEntry.value? =
    s.exchanged.drop s.polled.length
  /-- The entries returned are the first ones exchanged, in order. -/
  polled : s.polled = (s.exchanged.take s.polled.length).map .entry

theorem chain_initial : (initial : FunnelSystem E P).Chain [.stub] where
  oldest := rfl
  newest := rfl
  ne_nil := by simp
  nodup := by simp
  linked := List.isChain_singleton _
  newest_next := by
    intro node hnode
    rfl
  producers := fun _ => trivial
  distinct := by
    intro _ _ _ hidle
    cases hidle
  consumer := trivial
  history := rfl
  polled := rfl

/-! ## What the invariant gives -/

theorem Chain.length_polled_le (h : s.Chain chain) : s.polled.length ≤ s.exchanged.length := by
  have hlength := congrArg List.length h.polled
  rw [List.length_map, List.length_take] at hlength
  omega

/-- A node with a successor is not the newest. -/
theorem Chain.ne_newest (h : s.Chain chain) {node successor : FunnelQueueEntry E}
    (hadjacent : [node, successor] <:+: chain) : s.queue.newest ≠ some node := by
  rw [h.newest]
  exact Adjacent.ne_getLast h.nodup hadjacent

/-- A node of the chain whose `next` is stored points at its successor. -/
theorem Chain.pending_next (h : s.Chain chain) {node successor : FunnelQueueEntry E}
    (hadjacent : [node, successor] <:+: chain) (hnext : s.queue.next node ≠ none) :
    s.queue.next node = some successor := by
  rcases Adjacent.rel_of_isChain h.linked hadjacent with hlinked | ⟨hnone, -⟩
  · exact hlinked
  · exact absurd hnone hnext

/-- A link still pending stays pending while the thread that owes it keeps
its phase. -/
theorem Pending.frame {a b : FunnelQueueEntry E} (hpending : s.Pending a b)
    (hproducers : ∀ producer entry, s.producers producer = .exchanged entry (some a) →
      t.producers producer = s.producers producer)
    (hconsumer : s.consumer.stubPrevious = some a → t.consumer.stubPrevious = some a) :
    t.Pending a b := by
  rcases hpending with ⟨producer, entry, hphase, rfl⟩ | ⟨rfl, hstub⟩
  · exact .inl ⟨producer, entry, (hproducers producer entry hphase).trans hphase, rfl⟩
  · exact .inr ⟨rfl, hconsumer hstub⟩

theorem Linked.frame {a b : FunnelQueueEntry E} (hlinked : s.Linked a b)
    (hnext : t.queue.next a = s.queue.next a) (hpending : s.Pending a b → t.Pending a b) :
    t.Linked a b := by
  rcases hlinked with hstored | ⟨hnone, hpending'⟩
  · exact .inl (hnext.trans hstored)
  · exact .inr ⟨hnext.trans hnone, hpending hpending'⟩

/-- A producer's phase still fits when the entry it cleared stays cleared
and off the chain, and the link it owes is still owed. -/
theorem ProducerFits.frame {phase : PutPhase E} {chain' : List (FunnelQueueEntry E)}
    (hfits : s.ProducerFits chain phase)
    (hcleared : ∀ entry, phase = .cleared entry → .entry entry ∉ chain →
      s.queue.next (.entry entry) = none → entry ∉ s.consumer.inflight →
      .entry entry ∉ chain' ∧ t.queue.next (.entry entry) = none ∧ entry ∉ t.consumer.inflight)
    (hexchanged : ∀ entry node, phase = .exchanged entry (some node) →
      [node, .entry entry] <:+: chain → s.queue.next node = none →
      [node, .entry entry] <:+: chain' ∧ t.queue.next node = none) :
    t.ProducerFits chain' phase := by
  cases phase with
  | idle => trivial
  | cleared entry =>
    obtain ⟨hoff, hnone, hinflight⟩ := hfits
    exact hcleared entry rfl hoff hnone hinflight
  | exchanged entry previous =>
    obtain ⟨node, rfl, hadjacent, hnone⟩ := hfits
    exact ⟨node, rfl, hexchanged entry node rfl hadjacent hnone⟩

/-- What the consumer is about to do still fits when no `next` it reads has
changed, but for a link stored from a node of the chain whose `next` was
`NULL` and that the consumer does not link itself. -/
theorem ConsumerFits.frame {phase : ConsumerPhase E} (hfits : s.ConsumerFits chain phase)
    (hnext : ∀ node, node ∈ chain ∨ node = .stub →
      t.queue.next node = s.queue.next node ∨ (node ∈ chain ∧ s.queue.next node = none ∧
        t.queue.next node ≠ none ∧ phase.stubPrevious ≠ some node)) :
    t.ConsumerFits chain phase := by
  cases phase with
  | exchangeStub call oldest =>
    obtain ⟨hleads, hoff, hstub⟩ := hfits
    refine ⟨hleads, hoff, ?_⟩
    rcases hnext .stub (.inr rfl) with hsame | ⟨hmem, -⟩
    · exact hsame.trans hstub
    · exact absurd hmem hoff
  | linkStub call oldest previous =>
    obtain ⟨hleads, node, rfl, hadjacent, hnone⟩ := hfits
    refine ⟨hleads, node, rfl, hadjacent, ?_⟩
    rcases hnext node (.inl (Adjacent.mem_left hadjacent)) with hsame | ⟨-, -, -, hprevious⟩
    · exact hsame.trans hnone
    · exact absurd rfl hprevious
  | advance oldest =>
    obtain ⟨hleads, hsome⟩ := hfits
    refine ⟨hleads, ?_⟩
    obtain ⟨node, rfl⟩ : ∃ node, oldest = some node := by
      cases oldest with
      | none => exact absurd rfl hsome
      | some node => exact ⟨node, rfl⟩
    have hmem : node ∈ chain := List.mem_of_mem_head? hleads.1.symm
    rcases hnext node (.inl hmem) with hsame | ⟨-, -, hsome', -⟩
    · simpa [hsame] using hsome
    · simpa using hsome'
  | _ => exact hfits

theorem Leads.append {oldest : Option (FunnelQueueEntry E)} (hleads : Leads chain oldest)
    (hne : chain ≠ []) (node : FunnelQueueEntry E) : Leads (chain ++ [node]) oldest := by
  obtain ⟨first, rest, rfl⟩ := List.exists_cons_of_ne_nil hne
  simpa [Leads] using hleads

/-- A node appended behind the chain, other than the stub and the entry the
consumer is detaching, leaves what the consumer is about to do fitting. -/
theorem ConsumerFits.append {phase : ConsumerPhase E} {node : FunnelQueueEntry E}
    (hfits : s.ConsumerFits chain phase) (hne : chain ≠ [])
    (hnext : t.queue.next = s.queue.next) (hstub : node ≠ .stub)
    (hinflight : ∀ entry, node = .entry entry → entry ∉ phase.inflight) :
    t.ConsumerFits (chain ++ [node]) phase := by
  cases phase with
  | idle => trivial
  | rereadNext call oldest => exact Leads.append hfits hne node
  | readNewest call oldest => exact Leads.append hfits hne node
  | recheckNext call oldest => exact Leads.append hfits hne node
  | clearStub call oldest =>
    obtain ⟨hleads, hoff⟩ := hfits
    exact ⟨hleads.append hne node, by simpa [hoff] using hstub.symm⟩
  | exchangeStub call oldest =>
    obtain ⟨hleads, hoff, hnone⟩ := hfits
    exact ⟨hleads.append hne node, by simpa [hoff] using hstub.symm, by rw [hnext]; exact hnone⟩
  | linkStub call oldest previous =>
    obtain ⟨hleads, previous, rfl, hadjacent, hnone⟩ := hfits
    exact ⟨hleads.append hne node, previous, rfl, Adjacent.append_right hadjacent _,
      by rw [hnext]; exact hnone⟩
  | advance oldest =>
    obtain ⟨hleads, hsome⟩ := hfits
    refine ⟨hleads.append hne node, ?_⟩
    cases oldest with
    | none => simp at hsome
    | some oldest => simpa [hnext] using hsome
  | detach oldest =>
    obtain ⟨entry, rfl, hoff⟩ := hfits
    have hne' : node ≠ .entry entry := fun hnode => hinflight entry hnode (by simp [ConsumerPhase.inflight])
    exact ⟨entry, rfl, by simpa [hoff] using hne'.symm⟩

/-- The node the consumer is about to link to the stub is the stub's
predecessor on the chain. -/
theorem Chain.stubPrevious_adjacent (h : s.Chain chain) {node : FunnelQueueEntry E}
    (hprevious : s.consumer.stubPrevious = some node) : [node, .stub] <:+: chain := by
  have hfits := h.consumer
  cases hphase : s.consumer with
  | linkStub call oldest previous =>
    rw [hphase] at hfits hprevious
    obtain ⟨-, node', rfl, hadjacent, -⟩ := hfits
    cases hprevious
    exact hadjacent
  | _ => simp [hphase, ConsumerPhase.stubPrevious] at hprevious

variable [DecidableEq E]

/-- An entry put as often as it was returned is off the chain and not being
detached. -/
theorem Chain.free (h : s.Chain chain) {entry : E}
    (hcount : s.exchanged.count entry = s.polled.count (.entry entry)) :
    .entry entry ∉ chain ∧ entry ∉ s.consumer.inflight := by
  have hpolled : s.polled.count (.entry entry) = (s.exchanged.take s.polled.length).count entry := by
    conv_lhs => rw [h.polled]
    exact List.count_map_of_injective _ _ (fun _ _ h => by cases h; rfl) _
  have hsplit : s.exchanged.count entry = (s.exchanged.take s.polled.length).count entry +
      (s.exchanged.drop s.polled.length).count entry := by
    rw [← List.count_append, List.take_append_drop]
  have hzero : (s.exchanged.drop s.polled.length).count entry = 0 := by omega
  rw [← h.history, List.count_eq_zero, List.mem_append, not_or] at hzero
  refine ⟨fun hmem => hzero.2 ?_, hzero.1⟩
  exact List.mem_filterMap.mpr ⟨_, hmem, rfl⟩

/-! ## One step of each kind -/

variable [DecidableEq P]

theorem step_put_eq {producer : P} {entry : E} (h : s.step (.put producer entry) = some t) :
    s.producers producer = .idle ∧ t = { s with
      queue := s.queue.setNext (some (.entry entry)) none
      producers := Function.update s.producers producer (.cleared entry) } := by
  cases hphase : s.producers producer with
  | idle =>
    simp only [step, hphase, Option.some.injEq] at h
    exact ⟨rfl, h.symm⟩
  | cleared _ => simp [step, hphase] at h
  | exchanged _ _ => simp [step, hphase] at h

/-- A producer clears the `next` of an entry off the chain. -/
theorem Chain.put (h : s.Chain chain) {producer : P} {entry : E}
    (hidle : s.producers producer = .idle) (hallowed : s.Allowed (.put producer entry)) :
    Chain { s with
      queue := s.queue.setNext (some (.entry entry)) none
      producers := Function.update s.producers producer (.cleared entry) } chain := by
  obtain ⟨hfresh, hcount⟩ := hallowed
  obtain ⟨hoff, hinflight⟩ := h.free hcount
  have hkeep : ∀ node ∈ chain,
      Function.update s.queue.next (.entry entry) none node = s.queue.next node :=
    fun node hnode => Function.update_of_ne (by rintro rfl; exact hoff hnode) _ _
  have hothers : ∀ producer', producer' ≠ producer →
      Function.update s.producers producer (.cleared entry) producer' = s.producers producer' :=
    fun _ hne => Function.update_of_ne hne _ _
  refine {
    oldest := by simpa using h.oldest
    newest := by simpa using h.newest
    ne_nil := h.ne_nil
    nodup := h.nodup
    linked := Adjacent.isChain_imp h.linked fun a b hadjacent hlinked => ?linked
    newest_next := fun node hnode => ?newest_next
    producers := fun producer' => ?producers
    distinct := fun producer₁ producer₂ entry' h₁ h₂ => ?distinct
    consumer := ?consumer
    history := h.history
    polled := h.polled }
  case linked =>
    refine hlinked.frame (by simpa using hkeep a (Adjacent.mem_left hadjacent)) fun hpending => ?_
    refine hpending.frame (fun producer' entry' hphase => hothers producer' ?_) id
    rintro rfl
    simp [hidle] at hphase
  case newest_next =>
    simpa using (hkeep node (List.mem_of_getLast? hnode)).trans (h.newest_next node hnode)
  case producers =>
    by_cases hproducer : producer' = producer
    · subst hproducer
      simpa [ProducerFits] using ⟨hoff, hinflight⟩
    dsimp only
    rw [hothers producer' hproducer]
    refine (h.producers producer').frame (fun entry' hphase hoff' hnone hinflight' => ?_)
      fun _ node _ hadjacent hnone =>
        ⟨hadjacent, by simpa [hnone] using hkeep node (Adjacent.mem_left hadjacent)⟩
    have hne : FunnelQueueEntry.entry entry' ≠ .entry entry := by
      rintro ⟨⟩
      exact hfresh producer' (by rw [hphase]; rfl)
    exact ⟨hoff', by simpa [Function.update_of_ne hne] using hnone, hinflight'⟩
  case distinct =>
    by_cases h₁' : producer₁ = producer <;> by_cases h₂' : producer₂ = producer
    · rw [h₁', h₂']
    · subst h₁'
      simp only [Function.update_self, PutPhase.putting, Option.some.injEq] at h₁
      subst h₁
      exact absurd (by simpa [hothers producer₂ h₂'] using h₂) (hfresh producer₂)
    · subst h₂'
      simp only [Function.update_self, PutPhase.putting, Option.some.injEq] at h₂
      subst h₂
      exact absurd (by simpa [hothers producer₁ h₁'] using h₁) (hfresh producer₁)
    · dsimp only at h₁ h₂
      rw [hothers producer₁ h₁'] at h₁
      rw [hothers producer₂ h₂'] at h₂
      exact h.distinct producer₁ producer₂ entry' h₁ h₂
  case consumer =>
    refine h.consumer.frame fun node hnode => .inl ?_
    have hne : node ≠ .entry entry := by
      rintro rfl
      rcases hnode with hmem | hstub
      · exact hoff hmem
      · cases hstub
    simp [Function.update_of_ne hne]

theorem step_exchange_eq {producer : P} (h : s.step (.exchange producer) = some t) :
    ∃ entry, s.producers producer = .cleared entry ∧ t = { s with
      queue := { s.queue with newest := some (.entry entry) }
      producers := Function.update s.producers producer (.exchanged entry s.queue.newest)
      exchanged := s.exchanged ++ [entry]
      putsBy := Function.update s.putsBy producer (s.putsBy producer ++ [entry]) } := by
  cases hphase : s.producers producer with
  | cleared entry =>
    simp only [step, hphase, FunnelQueue.exchangeNewest_eq, Option.some.injEq] at h
    exact ⟨entry, rfl, h.symm⟩
  | idle => simp [step, hphase] at h
  | exchanged _ _ => simp [step, hphase] at h

omit [DecidableEq E] in
/-- A producer's exchange on `newest` appends its entry behind the chain, the
link to it owed by the producer. -/
theorem Chain.exchange (h : s.Chain chain) {producer : P} {entry : E}
    (hphase : s.producers producer = .cleared entry) :
    Chain { s with
      queue := { s.queue with newest := some (.entry entry) }
      producers := Function.update s.producers producer (.exchanged entry s.queue.newest)
      exchanged := s.exchanged ++ [entry]
      putsBy := Function.update s.putsBy producer (s.putsBy producer ++ [entry]) }
      (chain ++ [.entry entry]) := by
  obtain ⟨hoff, hcleared, hinflight⟩ : .entry entry ∉ chain ∧
      s.queue.next (.entry entry) = none ∧ entry ∉ s.consumer.inflight := by
    simpa [hphase, ProducerFits] using h.producers producer
  obtain ⟨last, hlast⟩ : ∃ last, chain.getLast? = some last :=
    ⟨_, List.getLast?_eq_some_getLast h.ne_nil⟩
  obtain ⟨first, hfirst⟩ : ∃ first, chain.head? = some first :=
    ⟨_, List.head?_eq_some_head h.ne_nil⟩
  have hothers : ∀ producer', producer' ≠ producer →
      Function.update s.producers producer (.exchanged entry s.queue.newest) producer' =
        s.producers producer' :=
    fun _ hne => Function.update_of_ne hne _ _
  have hentries : ∀ producer',
      (Function.update s.producers producer (.exchanged entry s.queue.newest) producer').putting =
        (s.producers producer').putting := by
    intro producer'
    by_cases hproducer : producer' = producer
    · subst hproducer
      simp [hphase, PutPhase.putting]
    · rw [hothers producer' hproducer]
  refine {
    oldest := by simp [h.oldest, hfirst]
    newest := by simp
    ne_nil := by simp
    nodup := Adjacent.nodup_append_singleton h.nodup hoff
    linked := Adjacent.isChain_append_singleton ?linked fun a ha => ?last
    newest_next := fun node hnode => ?newest_next
    producers := fun producer' => ?producers
    distinct := fun producer₁ producer₂ entry' h₁ h₂ => ?distinct
    consumer := h.consumer.append h.ne_nil rfl (by simp) fun entry' hentry => by
      cases hentry
      exact hinflight
    history := ?history
    polled := ?polled }
  case linked =>
    refine Adjacent.isChain_imp h.linked fun a b hadjacent hlinked => hlinked.frame rfl fun hpending => ?_
    refine hpending.frame (fun producer' entry' hphase' => hothers producer' ?_) id
    rintro rfl
    simp [hphase] at hphase'
  case last =>
    rw [hlast, Option.mem_some_iff] at ha
    subst ha
    refine .inr ⟨h.newest_next last hlast, .inl ⟨producer, entry, ?_, rfl⟩⟩
    simp [h.newest, hlast]
  case newest_next =>
    simp only [List.getLast?_append, List.getLast?_singleton, Option.some_or,
      Option.mem_some_iff] at hnode
    subst hnode
    exact hcleared
  case producers =>
    by_cases hproducer : producer' = producer
    · subst hproducer
      dsimp only
      rw [Function.update_self]
      exact ⟨last, by rw [h.newest, hlast], Adjacent.getLast_append hlast _, h.newest_next last hlast⟩
    dsimp only
    rw [hothers producer' hproducer]
    refine (h.producers producer').frame (fun entry' hphase' hoff' hnone hinflight' => ?_)
      fun _ _ _ hadjacent hnone => ⟨Adjacent.append_right hadjacent _, hnone⟩
    have hne : entry' ≠ entry := by
      rintro rfl
      exact hproducer (h.distinct _ _ entry' (by rw [hphase']; rfl) (by rw [hphase]; rfl))
    exact ⟨by simpa [hoff'] using hne, hnone, hinflight'⟩
  case distinct =>
    rw [hentries] at h₁ h₂
    exact h.distinct producer₁ producer₂ entry' h₁ h₂
  case history =>
    dsimp only
    rw [List.filterMap_append, ← List.append_assoc, h.history,
      List.drop_append_of_le_length h.length_polled_le]
    simp
  case polled =>
    dsimp only
    rw [List.take_append_of_le_length h.length_polled_le]
    exact h.polled

theorem step_link_eq {producer : P} (h : s.step (.link producer) = some t) :
    ∃ entry previous, s.producers producer = .exchanged entry previous ∧ t = { s with
      queue := s.queue.setNext previous (some (.entry entry))
      producers := Function.update s.producers producer .idle } := by
  cases hphase : s.producers producer with
  | exchanged entry previous =>
    simp only [step, hphase, Option.some.injEq] at h
    exact ⟨entry, previous, rfl, h.symm⟩
  | idle => simp [step, hphase] at h
  | cleared _ => simp [step, hphase] at h

/-- A producer's store links its entry to the node before it, the one link
it owed. -/
theorem Chain.link (h : s.Chain chain) {producer : P} {entry : E}
    {previous : Option (FunnelQueueEntry E)}
    (hphase : s.producers producer = .exchanged entry previous) :
    Chain { s with
      queue := s.queue.setNext previous (some (.entry entry))
      producers := Function.update s.producers producer .idle } chain := by
  obtain ⟨node, rfl, hadjacent, hnone⟩ : ∃ node, previous = some node ∧
      [node, .entry entry] <:+: chain ∧ s.queue.next node = none := by
    simpa [hphase, ProducerFits] using h.producers producer
  have hothers : ∀ producer', producer' ≠ producer →
      Function.update s.producers producer .idle producer' = s.producers producer' :=
    fun _ hne => Function.update_of_ne hne _ _
  have hkeep : ∀ node', node' ≠ node →
      Function.update s.queue.next node (some (.entry entry)) node' = s.queue.next node' :=
    fun _ hne => Function.update_of_ne hne _ _
  have howed : ∀ producer' entry', s.producers producer' = .exchanged entry' (some node) →
      producer' = producer := by
    intro producer' entry' hphase'
    obtain ⟨node', hprevious, hadjacent', -⟩ : ∃ node', some node = some node' ∧
        [node', .entry entry'] <:+: chain ∧ s.queue.next node' = none := by
      simpa [hphase', ProducerFits] using h.producers producer'
    cases hprevious
    have hentry : entry' = entry := by
      simpa using Adjacent.eq_of_nodup h.nodup hadjacent' hadjacent
    subst hentry
    exact h.distinct _ _ entry' (by rw [hphase']; rfl) (by rw [hphase]; rfl)
  have hstub : s.consumer.stubPrevious ≠ some node := by
    intro hprevious
    cases Adjacent.eq_of_nodup h.nodup (h.stubPrevious_adjacent hprevious) hadjacent
  refine {
    oldest := by simpa using h.oldest
    newest := by simpa using h.newest
    ne_nil := h.ne_nil
    nodup := h.nodup
    linked := Adjacent.isChain_imp h.linked fun a b hadjacent' hlinked => ?linked
    newest_next := fun last hlast => ?newest_next
    producers := fun producer' => ?producers
    distinct := fun producer₁ producer₂ entry' h₁ h₂ => ?distinct
    consumer := h.consumer.frame fun node' hnode' => ?consumer
    history := h.history
    polled := h.polled }
  case linked =>
    by_cases ha : a = node
    · subst ha
      have hb : b = .entry entry := Adjacent.eq_of_nodup h.nodup hadjacent' hadjacent
      subst hb
      exact .inl (by simp)
    refine hlinked.frame (by simpa using hkeep a ha) fun hpending => ?_
    refine hpending.frame (fun producer' entry' hphase' => hothers producer' ?_) id
    rintro rfl
    rw [hphase] at hphase'
    cases hphase'
    exact ha rfl
  case newest_next =>
    have hne : last ≠ node := by
      rintro rfl
      exact Adjacent.ne_getLast h.nodup hadjacent hlast
    simpa [hkeep last hne] using h.newest_next last hlast
  case producers =>
    by_cases hproducer : producer' = producer
    · subst hproducer
      simp [ProducerFits]
    dsimp only
    rw [hothers producer' hproducer]
    refine (h.producers producer').frame (fun entry' _ hoff hcleared hinflight => ?_)
      fun entry' node' hphase' hadjacent' hnone' => ?_
    · have hne : FunnelQueueEntry.entry entry' ≠ node := by
        rintro rfl
        exact hoff (Adjacent.mem_left hadjacent)
      exact ⟨hoff, by simpa [hkeep _ hne] using hcleared, hinflight⟩
    · have hne : node' ≠ node := by
        rintro rfl
        exact hproducer (howed producer' entry' hphase')
      exact ⟨hadjacent', by simpa [hkeep _ hne] using hnone'⟩
  case distinct =>
    have hentry : ∀ producer', (Function.update s.producers producer .idle producer').putting =
        some entry' → (s.producers producer').putting = some entry' := by
      intro producer' hsome
      by_cases hproducer : producer' = producer
      · subst hproducer
        simp [PutPhase.putting] at hsome
      · rwa [hothers producer' hproducer] at hsome
    exact h.distinct producer₁ producer₂ entry' (hentry _ h₁) (hentry _ h₂)
  case consumer =>
    by_cases hne : node' = node
    · subst hne
      exact .inr ⟨Adjacent.mem_left hadjacent, hnone, by simp, hstub⟩
    · exact .inl (by simpa using hkeep node' hne)

/-! ### The consumer -/

omit [DecidableEq E] [DecidableEq P] in
/-- The consumer moving between phases that owe no link and hold no entry,
having only read shared fields. -/
theorem Chain.setConsumer (h : s.Chain chain) {phase : ConsumerPhase E}
    (hold : s.consumer.stubPrevious = none ∧ s.consumer.inflight = [])
    (hnew : phase.stubPrevious = none ∧ phase.inflight = [])
    (hfits : s.ConsumerFits chain phase) : Chain { s with consumer := phase } chain where
  oldest := h.oldest
  newest := h.newest
  ne_nil := h.ne_nil
  nodup := h.nodup
  linked := Adjacent.isChain_imp h.linked fun _ _ _ hlinked =>
    hlinked.frame rfl fun hpending => hpending.frame (fun _ _ _ => rfl) fun hprevious => by
      simp [hold.1] at hprevious
  newest_next := h.newest_next
  producers := fun producer => (h.producers producer).frame
    (fun _ _ hoff hnone _ => ⟨hoff, hnone, by simp [hnew.2]⟩)
    fun _ _ _ hadjacent hnone => ⟨hadjacent, hnone⟩
  distinct := h.distinct
  consumer := hfits
  history := by simpa [hold.2, hnew.2] using h.history
  polled := h.polled

omit [DecidableEq E] [DecidableEq P] in
theorem finish_none (s : FunnelSystem E P) (call : ConsumerCall) :
    s.finish call none = { s with consumer := .idle } := by
  cases call <;> rfl

omit [DecidableEq E] [DecidableEq P] in
/-- `getOldest` claims a candidate that has a successor. -/
theorem Chain.claim (h : s.Chain chain) (hold : s.consumer.stubPrevious = none ∧ s.consumer.inflight = [])
    {call : ConsumerCall} {oldest : Option (FunnelQueueEntry E)} (hleads : Leads chain oldest)
    (hsome : s.queue.nextOf oldest ≠ none) : (s.claim call oldest).Chain chain := by
  cases call with
  | poll => exact h.setConsumer hold ⟨rfl, rfl⟩ ⟨hleads, hsome⟩
  | isEmpty => exact h.setConsumer hold ⟨rfl, rfl⟩ trivial

omit [DecidableEq E] [DecidableEq P] in
/-- `getOldest` has read its candidate's `next`. -/
theorem Chain.found (h : s.Chain chain) (hold : s.consumer.stubPrevious = none ∧ s.consumer.inflight = [])
    {call : ConsumerCall} {oldest : Option (FunnelQueueEntry E)} (hleads : Leads chain oldest) :
    (s.found call oldest (s.queue.nextOf oldest)).Chain chain := by
  cases hnext : s.queue.nextOf oldest with
  | none => exact h.setConsumer hold ⟨rfl, rfl⟩ hleads
  | some next => exact h.claim hold hleads (by simp [hnext])

omit [DecidableEq E] [DecidableEq P] in
/-- A first node whose `next` is stored has a successor on the chain, and it
is that one. -/
theorem Chain.eq_cons_cons (h : s.Chain chain) {first next : FunnelQueueEntry E}
    (hfirst : chain.head? = some first) (hnext : s.queue.next first = some next) :
    ∃ rest, chain = first :: next :: rest := by
  obtain ⟨rest, rfl⟩ : ∃ rest, chain = first :: rest := by
    cases chain with
    | nil => cases hfirst
    | cons head rest =>
      cases hfirst
      exact ⟨rest, rfl⟩
  cases rest with
  | nil => simp [h.newest_next first (by simp)] at hnext
  | cons second rest =>
    have hadjacent : [first, second] <:+: first :: second :: rest := ⟨[], rest, rfl⟩
    have hsecond := h.pending_next hadjacent (by simp [hnext])
    rw [hnext, Option.some.injEq] at hsecond
    exact ⟨rest, by rw [hsecond]⟩

omit [DecidableEq E] [DecidableEq P] in
/-- The consumer moves `oldest` past a first node whose link is stored; the
chain loses its first node, which the consumer now holds if it is an entry. -/
theorem Chain.dropFirst (h : s.Chain chain) {first next : FunnelQueueEntry E}
    {rest : List (FunnelQueueEntry E)} (hchain : chain = first :: next :: rest)
    (hnext : s.queue.next first = some next) (hold : s.consumer.stubPrevious = none)
    {phase : ConsumerPhase E} (hinflight : ∀ entry ∈ phase.inflight, .entry entry = first)
    (hfits : s.ConsumerFits (next :: rest) phase)
    (hhistory : phase.inflight ++ (next :: rest).filterMap FunnelQueueEntry.value? =
      s.consumer.inflight ++ chain.filterMap FunnelQueueEntry.value?) :
    Chain { s with queue := { s.queue with oldest := some next }, consumer := phase } (next :: rest) := by
  subst hchain
  have hnodup := h.nodup
  rw [List.nodup_cons] at hnodup
  have htail : ∀ node b, [node, b] <:+: first :: next :: rest → s.queue.next node = none →
      [node, b] <:+: next :: rest := by
    intro node b hadjacent hnone
    refine Adjacent.of_cons hadjacent ?_
    rintro rfl
    simp [hnext] at hnone
  refine {
    oldest := rfl
    newest := by simpa using h.newest
    ne_nil := by simp
    nodup := hnodup.2
    linked := ?linked
    newest_next := by simpa using h.newest_next
    producers := fun producer => ?producers
    distinct := h.distinct
    consumer := hfits
    history := by simpa [hhistory] using h.history
    polled := h.polled }
  case linked =>
    refine Adjacent.isChain_imp (List.isChain_cons.mp h.linked).2 fun _ _ _ hlinked => ?_
    refine hlinked.frame rfl fun hpending => hpending.frame (fun _ _ _ => rfl) fun hprevious => ?_
    simp [hold] at hprevious
  case producers =>
    refine (h.producers producer).frame (fun entry _ hoff hnone _ => ?_)
      fun _ node _ hadjacent hnone => ⟨htail node _ hadjacent hnone, hnone⟩
    refine ⟨fun hmem => hoff (List.mem_cons_of_mem _ hmem), hnone, fun hmem => ?_⟩
    exact hoff (hinflight entry hmem ▸ List.mem_cons_self)

omit [DecidableEq E] [DecidableEq P] in
/-- A call finding the stub first, with a successor, dequeues it. -/
theorem Chain.dequeueStub (h : s.Chain chain) (hidle : s.consumer = .idle) {call : ConsumerCall}
    (hstub : s.queue.oldest = some .stub) {next : FunnelQueueEntry E}
    (hnext : s.queue.next .stub = some next) :
    ∃ chain', Chain { s with
      queue := { s.queue with oldest := some next }
      consumer := .rereadNext call (some next) } chain' := by
  obtain ⟨rest, hchain⟩ := h.eq_cons_cons (h.oldest ▸ hstub) hnext
  have hnodup := h.nodup
  rw [hchain, List.nodup_cons] at hnodup
  refine ⟨next :: rest, h.dropFirst hchain hnext (by simp [hidle, ConsumerPhase.stubPrevious])
    (fun _ hmem => by simp [ConsumerPhase.inflight] at hmem) ⟨rfl, ?_⟩
    (by simp [hchain, hidle, ConsumerPhase.inflight, List.filterMap_cons])⟩
  rintro ⟨⟩
  exact hnodup.1 List.mem_cons_self

omit [DecidableEq E] [DecidableEq P] in
/-- A candidate that is also the newest is the chain's one node, so the stub
is off the chain. -/
theorem Chain.stub_not_mem (h : s.Chain chain) {oldest : Option (FunnelQueueEntry E)}
    (hleads : Leads chain oldest) (hnewest : oldest = s.queue.newest) : .stub ∉ chain := by
  obtain ⟨first, rest, rfl⟩ := List.exists_cons_of_ne_nil h.ne_nil
  obtain ⟨hfirst, hne⟩ := hleads
  cases rest with
  | nil =>
    simp only [List.head?_cons] at hfirst
    subst hfirst
    simpa [eq_comm] using hne
  | cons second rest =>
    have hadjacent : [first, second] <:+: first :: second :: rest := ⟨[], rest, rfl⟩
    exact absurd (by rw [← hnewest, hfirst]; rfl) (h.ne_newest hadjacent)

omit [DecidableEq P] in
/-- Putting the stub back: its `next` cleared while it is off the chain. -/
theorem Chain.clearStub (h : s.Chain chain) {call : ConsumerCall} {oldest : Option (FunnelQueueEntry E)}
    (hphase : s.consumer = .clearStub call oldest) :
    Chain { s with
      queue := s.queue.setNext (some .stub) none
      consumer := .exchangeStub call oldest } chain := by
  obtain ⟨hleads, hoff⟩ : Leads chain oldest ∧ .stub ∉ chain := by
    simpa [hphase, ConsumerFits] using h.consumer
  have hkeep : ∀ node ∈ chain, Function.update s.queue.next .stub none node = s.queue.next node :=
    fun node hnode => Function.update_of_ne (by rintro rfl; exact hoff hnode) _ _
  refine {
    oldest := by simpa using h.oldest
    newest := by simpa using h.newest
    ne_nil := h.ne_nil
    nodup := h.nodup
    linked := Adjacent.isChain_imp h.linked fun a _ hadjacent hlinked => ?linked
    newest_next := fun node hnode => by
      simpa [hkeep node (List.mem_of_getLast? hnode)] using h.newest_next node hnode
    producers := fun producer => ?producers
    distinct := h.distinct
    consumer := ⟨hleads, hoff, by simp⟩
    history := by simpa [hphase, ConsumerPhase.inflight] using h.history
    polled := h.polled }
  case linked =>
    refine hlinked.frame (by simpa using hkeep a (Adjacent.mem_left hadjacent)) fun hpending => ?_
    refine hpending.frame (fun _ _ _ => rfl) fun hprevious => ?_
    simp [hphase, ConsumerPhase.stubPrevious] at hprevious
  case producers =>
    refine (h.producers producer).frame
      (fun _ _ hoff' hnone _ => ⟨hoff', by simpa using hnone, by simp [ConsumerPhase.inflight]⟩)
      fun _ node _ hadjacent hnone =>
        ⟨hadjacent, by simpa [hkeep node (Adjacent.mem_left hadjacent)] using hnone⟩

omit [DecidableEq E] [DecidableEq P] in
/-- The consumer's exchange on `newest` appends the stub behind the chain,
the link to it owed by the consumer. -/
theorem Chain.exchangeStub (h : s.Chain chain) {call : ConsumerCall}
    {oldest : Option (FunnelQueueEntry E)} (hphase : s.consumer = .exchangeStub call oldest) :
    Chain { s with
      queue := { s.queue with newest := some .stub }
      consumer := .linkStub call oldest s.queue.newest } (chain ++ [.stub]) := by
  obtain ⟨hleads, hoff, hstub⟩ :
      Leads chain oldest ∧ .stub ∉ chain ∧ s.queue.next .stub = none := by
    simpa [hphase, ConsumerFits] using h.consumer
  obtain ⟨last, hlast⟩ : ∃ last, chain.getLast? = some last :=
    ⟨_, List.getLast?_eq_some_getLast h.ne_nil⟩
  obtain ⟨first, hfirst⟩ : ∃ first, chain.head? = some first :=
    ⟨_, List.head?_eq_some_head h.ne_nil⟩
  refine {
    oldest := by simp [h.oldest, hfirst]
    newest := by simp
    ne_nil := by simp
    nodup := Adjacent.nodup_append_singleton h.nodup hoff
    linked := Adjacent.isChain_append_singleton ?linked fun a ha => ?last
    newest_next := fun node hnode => ?newest_next
    producers := fun producer => ?producers
    distinct := h.distinct
    consumer := ⟨hleads.append h.ne_nil _, last, by rw [h.newest, hlast],
      Adjacent.getLast_append hlast _, h.newest_next last hlast⟩
    history := by simpa [hphase, ConsumerPhase.inflight, List.filterMap_cons] using h.history
    polled := h.polled }
  case linked =>
    refine Adjacent.isChain_imp h.linked fun _ _ _ hlinked => hlinked.frame rfl fun hpending => ?_
    refine hpending.frame (fun _ _ _ => rfl) fun hprevious => ?_
    simp [hphase, ConsumerPhase.stubPrevious] at hprevious
  case last =>
    rw [hlast, Option.mem_some_iff] at ha
    subst ha
    exact .inr ⟨h.newest_next last hlast,
      .inr ⟨rfl, by simp [ConsumerPhase.stubPrevious, h.newest, hlast]⟩⟩
  case newest_next =>
    simp only [List.getLast?_append, List.getLast?_singleton, Option.some_or,
      Option.mem_some_iff] at hnode
    subst hnode
    exact hstub
  case producers =>
    refine (h.producers producer).frame
      (fun _ _ hoff' hnone _ => ⟨by simpa using hoff', hnone, by simp [ConsumerPhase.inflight]⟩)
      fun _ _ _ hadjacent hnone => ⟨Adjacent.append_right hadjacent _, hnone⟩

omit [DecidableEq P] in
/-- The consumer's store links the stub to the node before it. -/
theorem Chain.linkStub (h : s.Chain chain) {call : ConsumerCall}
    {oldest previous : Option (FunnelQueueEntry E)}
    (hphase : s.consumer = .linkStub call oldest previous) :
    Chain { s with
      queue := s.queue.setNext previous (some .stub)
      consumer := .recheckNext call oldest } chain := by
  obtain ⟨hleads, node, rfl, hadjacent, hnone⟩ : Leads chain oldest ∧ ∃ node, previous = some node ∧
      [node, .stub] <:+: chain ∧ s.queue.next node = none := by
    simpa [hphase, ConsumerFits] using h.consumer
  have hkeep : ∀ node', node' ≠ node →
      Function.update s.queue.next node (some .stub) node' = s.queue.next node' :=
    fun _ hne => Function.update_of_ne hne _ _
  refine {
    oldest := by simpa using h.oldest
    newest := by simpa using h.newest
    ne_nil := h.ne_nil
    nodup := h.nodup
    linked := Adjacent.isChain_imp h.linked fun a b hadjacent' hlinked => ?linked
    newest_next := fun last hlast => ?newest_next
    producers := fun producer => ?producers
    distinct := h.distinct
    consumer := hleads
    history := by simpa [hphase, ConsumerPhase.inflight] using h.history
    polled := h.polled }
  case linked =>
    by_cases ha : a = node
    · subst ha
      have hb : b = .stub := Adjacent.eq_of_nodup h.nodup hadjacent' hadjacent
      subst hb
      exact .inl (by simp)
    refine hlinked.frame (by simpa using hkeep a ha) fun hpending => ?_
    refine hpending.frame (fun _ _ _ => rfl) fun hprevious => ?_
    simp [hphase, ConsumerPhase.stubPrevious] at hprevious
    exact absurd hprevious.symm ha
  case newest_next =>
    have hne : last ≠ node := by
      rintro rfl
      exact Adjacent.ne_getLast h.nodup hadjacent hlast
    simpa [hkeep last hne] using h.newest_next last hlast
  case producers =>
    refine (h.producers producer).frame (fun entry _ hoff hcleared _ => ?_)
      fun _ node' _ hadjacent' hnone' => ?_
    · have hne : FunnelQueueEntry.entry entry ≠ node := by
        rintro rfl
        exact hoff (Adjacent.mem_left hadjacent)
      exact ⟨hoff, by simpa [hkeep _ hne] using hcleared, by simp [ConsumerPhase.inflight]⟩
    · have hne : node' ≠ node := by
        rintro rfl
        cases Adjacent.eq_of_nodup h.nodup hadjacent' hadjacent
      exact ⟨hadjacent', by simpa [hkeep _ hne] using hnone'⟩

omit [DecidableEq E] [DecidableEq P] in
/-- `funnelQueuePoll` moves `oldest` past its candidate, which it now holds. -/
theorem Chain.advance (h : s.Chain chain) {oldest : Option (FunnelQueueEntry E)}
    (hphase : s.consumer = .advance oldest) :
    ∃ chain', Chain { s with
      queue := { s.queue with oldest := s.queue.nextOf oldest }
      consumer := .detach oldest } chain' := by
  obtain ⟨⟨hfirst, hne⟩, hsome⟩ : Leads chain oldest ∧ s.queue.nextOf oldest ≠ none := by
    simpa [hphase, ConsumerFits] using h.consumer
  obtain ⟨first, rfl⟩ : ∃ first, oldest = some first :=
    ⟨_, hfirst.trans (List.head?_eq_some_head h.ne_nil)⟩
  obtain ⟨next, hnext⟩ := Option.ne_none_iff_exists'.mp hsome
  rw [FunnelQueue.nextOf_some] at hnext
  obtain ⟨rest, hchain⟩ := h.eq_cons_cons hfirst.symm hnext
  obtain ⟨entry, rfl⟩ : ∃ entry, first = .entry entry := by
    cases first with
    | stub => exact absurd rfl hne
    | entry entry => exact ⟨entry, rfl⟩
  have hoff : FunnelQueueEntry.entry entry ∉ next :: rest := by
    have hnodup := h.nodup
    rw [hchain, List.nodup_cons] at hnodup
    exact hnodup.1
  refine ⟨next :: rest, ?_⟩
  rw [FunnelQueue.nextOf_some, hnext]
  refine h.dropFirst hchain hnext (by simp [hphase, ConsumerPhase.stubPrevious]) ?_ ⟨entry, rfl, hoff⟩
    (by simp [hchain, hphase, ConsumerPhase.inflight, List.filterMap_cons])
  intro entry' hmem
  simp only [ConsumerPhase.inflight, List.mem_singleton] at hmem
  rw [hmem]

omit [DecidableEq P] in
/-- `funnelQueuePoll` clears the `next` of the entry it holds and returns it. -/
theorem Chain.detach (h : s.Chain chain) {oldest : Option (FunnelQueueEntry E)}
    (hphase : s.consumer = .detach oldest) :
    (({ s with queue := s.queue.setNext oldest none } : FunnelSystem E P).finish .poll oldest).Chain
      chain := by
  obtain ⟨entry, rfl, hoff⟩ : ∃ entry, oldest = some (.entry entry) ∧ .entry entry ∉ chain := by
    simpa [hphase, ConsumerFits] using h.consumer
  have hkeep : ∀ node ∈ chain,
      Function.update s.queue.next (.entry entry) none node = s.queue.next node :=
    fun node hnode => Function.update_of_ne (by rintro rfl; exact hoff hnode) _ _
  have hdrop : s.exchanged.drop s.polled.length = entry :: chain.filterMap FunnelQueueEntry.value? := by
    rw [← h.history, hphase]
    rfl
  have htake : s.exchanged.take (s.polled.length + 1) = s.exchanged.take s.polled.length ++ [entry] := by
    rw [List.take_add_one, ← List.head?_drop, hdrop]
    rfl
  refine {
    oldest := by simpa [finish] using h.oldest
    newest := by simpa [finish] using h.newest
    ne_nil := h.ne_nil
    nodup := h.nodup
    linked := Adjacent.isChain_imp h.linked fun a _ hadjacent hlinked => ?linked
    newest_next := fun node hnode => by
      simpa [finish, hkeep node (List.mem_of_getLast? hnode)] using h.newest_next node hnode
    producers := fun producer => ?producers
    distinct := h.distinct
    consumer := trivial
    history := ?history
    polled := ?polled }
  case linked =>
    refine hlinked.frame (by simpa [finish] using hkeep a (Adjacent.mem_left hadjacent)) fun hpending => ?_
    refine hpending.frame (fun _ _ _ => rfl) fun hprevious => ?_
    simp [hphase, ConsumerPhase.stubPrevious] at hprevious
  case producers =>
    refine (h.producers producer).frame (fun entry' _ hoff' hnone hinflight => ?_)
      fun _ node _ hadjacent hnone =>
        ⟨hadjacent, by simpa [finish, hkeep node (Adjacent.mem_left hadjacent)] using hnone⟩
    have hne : FunnelQueueEntry.entry entry' ≠ .entry entry := by
      rintro ⟨⟩
      simp [hphase, ConsumerPhase.inflight] at hinflight
    exact ⟨hoff', by simpa [finish, Function.update_of_ne hne] using hnone,
      by simp [finish, ConsumerPhase.inflight]⟩
  case history =>
    dsimp only [finish]
    rw [List.length_append, List.length_singleton, ← List.tail_drop, hdrop]
    rfl
  case polled =>
    dsimp only [finish]
    rw [List.length_append, List.length_singleton, htake, List.map_append, ← h.polled]
    rfl

omit [DecidableEq P] in
/-- The first step of a call. -/
theorem Chain.startCall (h : s.Chain chain) (hidle : s.consumer = .idle) (call : ConsumerCall) :
    ∃ chain', (s.startCall call).Chain chain' := by
  have hold : s.consumer.stubPrevious = none ∧ s.consumer.inflight = [] := by
    simp [hidle, ConsumerPhase.stubPrevious, ConsumerPhase.inflight]
  dsimp only [FunnelSystem.startCall]
  split_ifs with hstub
  · cases hnext : s.queue.nextOf s.queue.oldest with
    | none =>
      rw [finish_none]
      exact ⟨chain, h.setConsumer hold ⟨rfl, rfl⟩ trivial⟩
    | some next =>
      rw [hstub, FunnelQueue.nextOf_some] at hnext
      exact h.dequeueStub hidle hstub hnext
  · exact ⟨chain, h.found hold ⟨h.oldest, hstub⟩⟩

omit [DecidableEq P] in
/-- A step of the consumer within a call. -/
theorem Chain.consumerStep (h : s.Chain chain) (hstep : s.consumerStep = some t) :
    ∃ chain', t.Chain chain' := by
  cases hphase : s.consumer with
  | idle => simp [FunnelSystem.consumerStep, hphase] at hstep
  | rereadNext call oldest =>
    simp only [FunnelSystem.consumerStep, hphase, Option.some.injEq] at hstep
    subst hstep
    refine ⟨chain, h.found (by simp [hphase, ConsumerPhase.stubPrevious, ConsumerPhase.inflight]) ?_⟩
    simpa [hphase, ConsumerFits] using h.consumer
  | readNewest call oldest =>
    simp only [FunnelSystem.consumerStep, hphase, Option.some.injEq] at hstep
    subst hstep
    have hold : s.consumer.stubPrevious = none ∧ s.consumer.inflight = [] := by
      simp [hphase, ConsumerPhase.stubPrevious, ConsumerPhase.inflight]
    have hleads : Leads chain oldest := by simpa [hphase, ConsumerFits] using h.consumer
    split_ifs with hnewest
    · rw [finish_none]
      exact ⟨chain, h.setConsumer hold ⟨rfl, rfl⟩ trivial⟩
    · have hoff := h.stub_not_mem hleads (not_not.mp hnewest)
      exact ⟨chain, h.setConsumer hold ⟨rfl, rfl⟩ ⟨hleads, hoff⟩⟩
  | clearStub call oldest =>
    simp only [FunnelSystem.consumerStep, hphase, Option.some.injEq] at hstep
    subst hstep
    exact ⟨chain, h.clearStub hphase⟩
  | exchangeStub call oldest =>
    simp only [FunnelSystem.consumerStep, hphase, FunnelQueue.exchangeNewest_eq, Option.some.injEq] at hstep
    subst hstep
    exact ⟨_, h.exchangeStub hphase⟩
  | linkStub call oldest previous =>
    simp only [FunnelSystem.consumerStep, hphase, Option.some.injEq] at hstep
    subst hstep
    exact ⟨chain, h.linkStub hphase⟩
  | recheckNext call oldest =>
    simp only [FunnelSystem.consumerStep, hphase, Option.some.injEq] at hstep
    subst hstep
    have hold : s.consumer.stubPrevious = none ∧ s.consumer.inflight = [] := by
      simp [hphase, ConsumerPhase.stubPrevious, ConsumerPhase.inflight]
    have hleads : Leads chain oldest := by simpa [hphase, ConsumerFits] using h.consumer
    cases hnext : s.queue.nextOf oldest with
    | none =>
      rw [finish_none]
      exact ⟨chain, h.setConsumer hold ⟨rfl, rfl⟩ trivial⟩
    | some next => exact ⟨chain, h.claim hold hleads (by simp [hnext])⟩
  | advance oldest =>
    simp only [FunnelSystem.consumerStep, hphase, Option.some.injEq] at hstep
    subst hstep
    exact h.advance hphase
  | detach oldest =>
    simp only [FunnelSystem.consumerStep, hphase, Option.some.injEq] at hstep
    subst hstep
    exact ⟨chain, h.detach hphase⟩

/-- Every allowed step of every thread keeps a chain. -/
theorem Chain.step (h : s.Chain chain) {action : FunnelAction E P} (hallowed : s.Allowed action)
    (hstep : s.step action = some t) : ∃ chain', t.Chain chain' := by
  cases action with
  | put producer entry =>
    obtain ⟨hidle, rfl⟩ := step_put_eq hstep
    exact ⟨chain, h.put hidle hallowed⟩
  | exchange producer =>
    obtain ⟨entry, hphase, rfl⟩ := step_exchange_eq hstep
    exact ⟨_, h.exchange hphase⟩
  | link producer =>
    obtain ⟨entry, previous, hphase, rfl⟩ := step_link_eq hstep
    exact ⟨chain, h.link hphase⟩
  | call call =>
    cases hidle : s.consumer with
    | idle =>
      simp only [FunnelSystem.step, hidle, Option.some.injEq] at hstep
      subst hstep
      exact h.startCall hidle call
    | _ => simp [FunnelSystem.step, hidle] at hstep
  | consume => exact h.consumerStep hstep

/-- Every state of every interleaving has a chain. -/
theorem Reachable.exists_chain (hs : s.Reachable) : ∃ chain, s.Chain chain := by
  refine @Reachability.Reachable.invariant _ _ _ (fun s => ∃ chain, s.Chain chain) ?_ ?_ s hs
  · rintro _ rfl
    exact ⟨_, chain_initial⟩
  · rintro _ _ ⟨chain, h⟩ ⟨action, hallowed, hstep⟩
    exact h.step hallowed hstep

end FunnelSystem

/-! ## The queue once every put has completed -/

namespace FunnelQueue

variable {queue : FunnelQueue E} {chain : List (FunnelQueueEntry E)}

/-- A queue no thread is changing: a chain from `oldest` to `newest` with
every link stored. -/
structure Settled (queue : FunnelQueue E) (chain : List (FunnelQueueEntry E)) : Prop where
  oldest : queue.oldest = chain.head?
  newest : queue.newest = chain.getLast?
  ne_nil : chain ≠ []
  nodup : chain.Nodup
  linked : chain.IsChain fun node successor => queue.next node = some successor
  newest_next : ∀ node ∈ chain.getLast?, queue.next node = none

variable [DecidableEq E]

/-- `funnelQueuePoll` past a first entry that has a successor. -/
theorem Settled.dequeue {entry : E} {next : FunnelQueueEntry E} {rest : List (FunnelQueueEntry E)}
    (h : queue.Settled (.entry entry :: next :: rest)) :
    Settled (({ queue with oldest := queue.next (.entry entry) } : FunnelQueue E).setNext
      (some (.entry entry)) none) (next :: rest) := by
  obtain ⟨hnext, hlinked⟩ := List.isChain_cons_cons.mp h.linked
  have hoff : FunnelQueueEntry.entry entry ∉ next :: rest := (List.nodup_cons.mp h.nodup).1
  have hkeep : ∀ node ∈ next :: rest,
      Function.update queue.next (.entry entry) none node = queue.next node :=
    fun node hnode => Function.update_of_ne (by rintro rfl; exact hoff hnode) _ _
  refine {
    oldest := by simpa using hnext
    newest := by simpa using h.newest
    ne_nil := by simp
    nodup := (List.nodup_cons.mp h.nodup).2
    linked := ?linked
    newest_next := fun node hnode => ?newest_next }
  case linked =>
    refine hlinked.imp_of_mem_imp fun a b ha _ hab => ?_
    simpa [hkeep a ha] using hab
  case newest_next =>
    have hmem : node ∈ next :: rest := List.mem_of_getLast? hnode
    simpa [hkeep node hmem] using h.newest_next node (by simpa using hnode)

/-- `funnelQueuePut` of the stub behind a chain it is not on, with every
link stored. -/
theorem Settled.putStub (h : queue.Settled chain) (hne : chain ≠ []) (hoff : .stub ∉ chain) :
    (funnelQueuePut queue .stub).Settled (chain ++ [.stub]) := by
  obtain ⟨last, hlast⟩ : ∃ last, chain.getLast? = some last :=
    ⟨_, List.getLast?_eq_some_getLast hne⟩
  obtain ⟨first, hfirst⟩ : ∃ first, chain.head? = some first :=
    ⟨_, List.head?_eq_some_head hne⟩
  have hlast_ne : last ≠ .stub := by
    rintro rfl
    exact hoff (List.mem_of_getLast? hlast)
  have hput : funnelQueuePut queue .stub = ⟨Function.update (Function.update queue.next .stub none)
      last (some .stub), some .stub, queue.oldest⟩ := by
    simp [funnelQueuePut, setNext, h.newest, hlast]
  have hnext : ∀ node, (funnelQueuePut queue .stub).next node =
      if node = last then some .stub else if node = .stub then none else queue.next node := by
    intro node
    rw [hput]
    by_cases hnode : node = last
    · simp [hnode]
    · by_cases hstub : node = .stub
      · simp [hstub, Ne.symm hlast_ne]
      · simp [hnode, hstub]
  refine {
    oldest := by simp [hput, h.oldest, hfirst]
    newest := by simp [hput]
    ne_nil := by simp
    nodup := Adjacent.nodup_append_singleton h.nodup hoff
    linked := Adjacent.isChain_append_singleton ?linked fun a ha => ?last
    newest_next := fun node hnode => ?newest_next }
  case linked =>
    refine h.linked.imp_of_mem_imp fun a b ha _ hab => ?_
    have hstub : a ≠ .stub := by
      rintro rfl
      exact hoff ha
    have hlast' : a ≠ last := by
      rintro rfl
      simp [h.newest_next a hlast] at hab
    simpa [hnext, hlast', hstub] using hab
  case last =>
    rw [hlast, Option.mem_some_iff] at ha
    subst ha
    simp [hnext]
  case newest_next =>
    simp only [List.getLast?_append, List.getLast?_singleton, Option.some_or,
      Option.mem_some_iff] at hnode
    subst hnode
    simp [hnext, Ne.symm hlast_ne]

/-- `getOldest` on a first entry: taken at once if it has a successor;
otherwise, the newest, taken after the stub is put back behind it. -/
theorem Settled.claimOldest {entry : E} {rest : List (FunnelQueueEntry E)}
    (h : queue.Settled (.entry entry :: rest)) :
    ∃ queue' rest', claimOldest queue (some (.entry entry)) (queue.next (.entry entry)) =
      (queue', some (.entry entry)) ∧ queue'.Settled (.entry entry :: rest') ∧ rest' ≠ [] ∧
      rest'.filterMap FunnelQueueEntry.value? = rest.filterMap FunnelQueueEntry.value? := by
  cases rest with
  | nil =>
    have hnone : queue.next (.entry entry) = none := h.newest_next _ (by simp)
    have hput := h.putStub (by simp) (by simp)
    refine ⟨funnelQueuePut queue .stub, [.stub], ?_, hput, by simp, by simp⟩
    have hlinked : (funnelQueuePut queue .stub).next (.entry entry) = some .stub :=
      (List.isChain_cons_cons.mp hput.linked).1
    simp [Vdo.Uds.claimOldest, hnone, h.newest, hlinked]
  | cons next rest =>
    have hnext : queue.next (.entry entry) = some next := (List.isChain_cons_cons.mp h.linked).1
    exact ⟨queue, next :: rest, by simp [Vdo.Uds.claimOldest, hnext], h, by simp, rfl⟩

/-- `getOldest` on a queue no thread is changing: nothing when the chain holds
no entry, and otherwise its first entry, with a successor behind it. -/
theorem Settled.getOldest (h : queue.Settled chain) :
    (chain.filterMap FunnelQueueEntry.value? = [] ∧ getOldest queue = (queue, none)) ∨
      ∃ entry rest queue', getOldest queue = (queue', some (.entry entry)) ∧
        queue'.Settled (.entry entry :: rest) ∧ rest ≠ [] ∧
        chain.filterMap FunnelQueueEntry.value? = entry :: rest.filterMap FunnelQueueEntry.value? := by
  obtain ⟨first, rest, rfl⟩ := List.exists_cons_of_ne_nil h.ne_nil
  have holdest : queue.oldest = some first := by simpa using h.oldest
  cases first with
  | stub =>
    cases rest with
    | nil =>
      have hnone : queue.next .stub = none := h.newest_next _ (by simp)
      exact .inl ⟨by simp, by simp [Vdo.Uds.getOldest, holdest, hnone]⟩
    | cons next rest =>
      obtain ⟨hnext, hlinked⟩ := List.isChain_cons_cons.mp h.linked
      obtain ⟨hoff, hnodup⟩ := List.nodup_cons.mp h.nodup
      obtain ⟨entry, rfl⟩ : ∃ entry, next = .entry entry := by
        cases next with
        | stub => exact absurd List.mem_cons_self hoff
        | entry entry => exact ⟨entry, rfl⟩
      have hsettled : Settled { queue with oldest := some (.entry entry) } (.entry entry :: rest) :=
        { oldest := rfl
          newest := by simpa using h.newest
          ne_nil := by simp
          nodup := hnodup
          linked := hlinked
          newest_next := by simpa using h.newest_next }
      obtain ⟨queue', rest', hclaim, hsettled', hne, hentries⟩ := hsettled.claimOldest
      refine .inr ⟨entry, rest', queue', ?_, hsettled', hne, by simp [List.filterMap_cons, hentries]⟩
      simpa [Vdo.Uds.getOldest, holdest, hnext] using hclaim
  | entry entry =>
    obtain ⟨queue', rest', hclaim, hsettled', hne, hentries⟩ := h.claimOldest
    refine .inr ⟨entry, rest', queue', ?_, hsettled', hne, by simp [hentries]⟩
    simpa [Vdo.Uds.getOldest, holdest] using hclaim

/-- `funnelQueuePoll` on a queue no thread is changing returns its first
entry, if any, and leaves a queue no thread is changing that holds the rest. -/
theorem Settled.funnelQueuePoll (h : queue.Settled chain) :
    ∃ chain', (funnelQueuePoll queue).1.Settled chain' ∧
      (funnelQueuePoll queue).2 = (chain.filterMap FunnelQueueEntry.value?).head?.map .entry ∧
      chain'.filterMap FunnelQueueEntry.value? = (chain.filterMap FunnelQueueEntry.value?).tail := by
  rcases h.getOldest with ⟨hempty, holdest⟩ | ⟨entry, rest, queue', holdest, hsettled, hne, hentries⟩
  · refine ⟨chain, ?_, ?_, ?_⟩ <;> simp [Vdo.Uds.funnelQueuePoll, holdest, hempty, h]
  · obtain ⟨next, rest, rfl⟩ := List.exists_cons_of_ne_nil hne
    refine ⟨next :: rest, ?_, ?_, ?_⟩
    · simpa [Vdo.Uds.funnelQueuePoll, holdest] using hsettled.dequeue
    · simp [Vdo.Uds.funnelQueuePoll, holdest, hentries]
    · simp [hentries]

end FunnelQueue

/-- `funnelQueuePoll` called `count` times in a row, with what each call returned. -/
def pollTimes [DecidableEq E] : ℕ → FunnelQueue E → List (Option (FunnelQueueEntry E))
  | 0, _ => []
  | count + 1, queue => (funnelQueuePoll queue).2 :: pollTimes count (funnelQueuePoll queue).1

/-- Polls of a queue no thread is changing return its entries in order, and
then `NULL`. -/
theorem FunnelQueue.Settled.pollTimes [DecidableEq E] {queue : FunnelQueue E}
    {chain : List (FunnelQueueEntry E)} (h : queue.Settled chain) :
    pollTimes ((chain.filterMap FunnelQueueEntry.value?).length + 1) queue =
      (chain.filterMap FunnelQueueEntry.value?).map (some ∘ .entry) ++ [none] := by
  generalize hentries : chain.filterMap FunnelQueueEntry.value? = entries
  induction entries generalizing queue chain with
  | nil =>
    obtain ⟨chain', -, hpoll, -⟩ := h.funnelQueuePoll
    simp [Vdo.Uds.pollTimes, hpoll, hentries]
  | cons entry entries ih =>
    obtain ⟨chain', hsettled, hpoll, hrest⟩ := h.funnelQueuePoll
    rw [hentries, List.tail_cons] at hrest
    rw [hentries] at hpoll
    simp [Vdo.Uds.pollTimes, hpoll, ih hsettled hrest]

namespace FunnelSystem

variable [DecidableEq E] {P : Type} [DecidableEq P] {s : FunnelSystem E P}
  {chain : List (FunnelQueueEntry E)}

omit [DecidableEq E] [DecidableEq P] in
/-- With every thread idle, every link of the chain is stored. -/
theorem Chain.settled (h : s.Chain chain) (hproducers : ∀ producer, s.producers producer = .idle)
    (hconsumer : s.consumer = .idle) : s.queue.Settled chain where
  oldest := h.oldest
  newest := h.newest
  ne_nil := h.ne_nil
  nodup := h.nodup
  linked := h.linked.imp fun a b hlinked => by
    rcases hlinked with hstored | ⟨-, ⟨producer, entry, hphase, -⟩ | ⟨-, hprevious⟩⟩
    · exact hstored
    · simp [hproducers producer] at hphase
    · simp [hconsumer, ConsumerPhase.stubPrevious] at hprevious
  newest_next := h.newest_next

/-! ## Each producer's order -/

omit [DecidableEq E] [DecidableEq P] in
theorem found_logs (s : FunnelSystem E P) (call : ConsumerCall) (oldest next : Option (FunnelQueueEntry E)) :
    (s.found call oldest next).exchanged = s.exchanged ∧ (s.found call oldest next).putsBy = s.putsBy := by
  cases next <;> cases call <;> simp [found, claim, finish]

omit [DecidableEq P] in
/-- The consumer's steps change neither exchange log. -/
theorem startCall_logs (s : FunnelSystem E P) (call : ConsumerCall) :
    (s.startCall call).exchanged = s.exchanged ∧ (s.startCall call).putsBy = s.putsBy := by
  dsimp only [FunnelSystem.startCall]
  split_ifs
  · split <;> simp [finish]
  · exact found_logs _ _ _ _

omit [DecidableEq P] in
theorem consumerStep_logs (hstep : s.consumerStep = some t) :
    t.exchanged = s.exchanged ∧ t.putsBy = s.putsBy := by
  cases hphase : s.consumer with
  | idle => simp [FunnelSystem.consumerStep, hphase] at hstep
  | rereadNext call oldest =>
    simp only [FunnelSystem.consumerStep, hphase, Option.some.injEq] at hstep
    subst hstep
    exact found_logs _ _ _ _
  | readNewest call oldest =>
    simp only [FunnelSystem.consumerStep, hphase, Option.some.injEq] at hstep
    subst hstep
    split_ifs <;> simp [finish]
  | recheckNext call oldest =>
    simp only [FunnelSystem.consumerStep, hphase, Option.some.injEq] at hstep
    subst hstep
    split
    · simp [finish]
    · cases call <;> simp [claim, finish]
  | _ =>
    simp only [FunnelSystem.consumerStep, hphase, Option.some.injEq, FunnelQueue.exchangeNewest] at hstep
    subst hstep
    simp [finish]

/-- Each producer's entries are exchanged in its own order, among those of
every producer. -/
theorem Reachable.putsBy_sublist (hs : s.Reachable) (producer : P) :
    (s.putsBy producer).Sublist s.exchanged := by
  refine @Reachability.Reachable.invariant _ _ _
    (fun s => ∀ producer, (s.putsBy producer).Sublist s.exchanged) ?_ ?_ s hs producer
  · rintro _ rfl producer
    exact List.nil_sublist _
  · rintro s t hsublist ⟨action, -, hstep⟩ producer
    cases action with
    | put producer' entry =>
      obtain ⟨-, rfl⟩ := step_put_eq hstep
      exact hsublist producer
    | exchange producer' =>
      obtain ⟨entry, -, rfl⟩ := step_exchange_eq hstep
      by_cases hproducer : producer = producer'
      · subst hproducer
        simpa using (hsublist producer).append (List.Sublist.refl [entry])
      · simpa [Function.update_of_ne hproducer] using
          (hsublist producer).trans (List.sublist_append_left _ [entry])
    | link producer' =>
      obtain ⟨entry, previous, -, rfl⟩ := step_link_eq hstep
      exact hsublist producer
    | call call =>
      cases hidle : s.consumer with
      | idle =>
        simp only [FunnelSystem.step, hidle, Option.some.injEq] at hstep
        subst hstep
        rw [(startCall_logs s call).1, (startCall_logs s call).2]
        exact hsublist producer
      | _ => simp [FunnelSystem.step, hidle] at hstep
    | consume =>
      rw [(consumerStep_logs hstep).1, (consumerStep_logs hstep).2]
      exact hsublist producer

/-! ## The funnel queue is a FIFO queue -/

/-- In every state of every interleaving of any number of producers and the
consumer, the entries `funnelQueuePoll` returned are entries, not the stub,
and are the first ones exchanged into `newest`, in that order and each once,
each producer's entries being exchanged in its own order;
`oldest` and `newest` are set and are the ends of a chain of distinct nodes
(so the stub is on it at most once) in which every node's `next` is its
successor unless the thread that exchanged the successor in has still to
store it, and whose entries, after the one a poll is returning, are the
exchanged entries not yet returned, in exchange order; and once every thread
is idle, polls return each of those in order and then `NULL`. -/
theorem reachable_polls_follow_exchange_order (s : FunnelSystem E P) (hs : s.Reachable) :
    (s.polled = (s.exchanged.take s.polled.length).map .entry ∧ .stub ∉ s.polled ∧
      ∀ producer, (s.putsBy producer).Sublist s.exchanged) ∧
    (∃ chain, s.queue.oldest = chain.head? ∧ s.queue.newest = chain.getLast? ∧ chain ≠ [] ∧
      chain.Nodup ∧ chain.IsChain s.Linked ∧
      s.consumer.inflight ++ chain.filterMap FunnelQueueEntry.value? =
        s.exchanged.drop s.polled.length) ∧
    ((∀ producer, s.producers producer = .idle) → s.consumer = .idle →
      pollTimes ((s.exchanged.drop s.polled.length).length + 1) s.queue =
        (s.exchanged.drop s.polled.length).map (some ∘ .entry) ++ [none]) := by
  obtain ⟨chain, h⟩ := Reachable.exists_chain hs
  refine ⟨⟨h.polled, ?_, hs.putsBy_sublist⟩,
    ⟨chain, h.oldest, h.newest, h.ne_nil, h.nodup, h.linked, h.history⟩, ?_⟩
  · intro hmem
    rw [h.polled] at hmem
    obtain ⟨entry, -, hentry⟩ := List.mem_map.mp hmem
    cases hentry
  · intro hproducers hconsumer
    have hentries : chain.filterMap FunnelQueueEntry.value? = s.exchanged.drop s.polled.length := by
      simpa [hconsumer, ConsumerPhase.inflight] using h.history
    rw [← hentries]
    exact (h.settled hproducers hconsumer).pollTimes

/-- Two producers put 7 and 8, overlapping their exchanges, and a poll returns
7: 8 is left in the queue for the next poll. -/
theorem reachable_polls_follow_exchange_order_two_producers :
    ∃ s : FunnelSystem ℕ Bool, s.Reachable ∧ s.exchanged = [7, 8] ∧ s.polled = [.entry 7] ∧
      (s.polled = (s.exchanged.take s.polled.length).map .entry ∧ .stub ∉ s.polled ∧
        ∀ producer, (s.putsBy producer).Sublist s.exchanged) ∧
      (∃ chain, s.queue.oldest = chain.head? ∧ s.queue.newest = chain.getLast? ∧ chain ≠ [] ∧
        chain.Nodup ∧ chain.IsChain s.Linked ∧
        s.consumer.inflight ++ chain.filterMap FunnelQueueEntry.value? =
          s.exchanged.drop s.polled.length) ∧
      ((∀ producer, s.producers producer = .idle) → s.consumer = .idle →
        pollTimes ((s.exchanged.drop s.polled.length).length + 1) s.queue =
          (s.exchanged.drop s.polled.length).map (some ∘ .entry) ++ [none]) := by
  have r0 : (initial : FunnelSystem ℕ Bool).Reachable := Reachability.Reachable.init rfl
  have r1 := r0.step ⟨.put true 7, ⟨by decide, by decide⟩, rfl⟩
  have r2 := r1.step ⟨.exchange true, trivial, rfl⟩
  have r3 := r2.step ⟨.put false 8, ⟨by decide, by decide⟩, rfl⟩
  have r4 := r3.step ⟨.exchange false, trivial, rfl⟩
  have r5 := r4.step ⟨.link false, trivial, rfl⟩
  have r6 := r5.step ⟨.link true, trivial, rfl⟩
  have r7 := r6.step ⟨.call .poll, trivial, rfl⟩
  have r8 := r7.step ⟨.consume, trivial, rfl⟩
  have r9 := r8.step ⟨.consume, trivial, rfl⟩
  have r10 := r9.step ⟨.consume, trivial, rfl⟩
  exact ⟨_, r10, by decide, by decide, reachable_polls_follow_exchange_order _ r10⟩

end FunnelSystem

end Vdo.Uds
