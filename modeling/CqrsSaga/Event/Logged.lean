import CqrsSaga.App.Frame
import CqrsSaga.App.Vocabulary
import CqrsSaga.Async.Budget

/-!
# Events are stored before they are sent

Seven handlers each store their event and then send it to Kafka, copying its fields into two
records. Whichever operations fail and however the handlers interleave, no event reaches Kafka
without its row, and a delivery stores one row and sends one message at most.

## Main definitions

* `EventStore.Logs` — the row has the values of the event, field by field.
* `World.Logged` — every event in Kafka has its row.
* `Job.stores` — how many rows an activity may store.

## Main results

* `logged_before_sent` — **every event in Kafka, and every event that is about to be sent, has its
  row; a delivered event is stored once and sent once at most.**
-/

namespace CqrsSaga

open SagaManager KafkaService OrderProcessingSaga

/-! ### Rows and events -/

/-- What an event's row has as its aggregate: the payment, for the events of payments. -/
def Event.aggregateId : Event → String
  | orderCreated e => e.orderId
  | orderCancelled e => e.orderId
  | orderConfirmed e => e.orderId
  | orderStatusChanged e => e.orderId
  | paymentProcessed e => e.paymentId
  | paymentFailed e => e.paymentId
  | paymentRefunded e => e.paymentId

/-- What `publish` is called with to send an event. -/
def Event.topic : Event → String
  | paymentProcessed _ => "payment-events"
  | paymentFailed _ => "payment-events"
  | paymentRefunded _ => "payment-events"
  | _ => "order-events"

/-- Every field of the column has the value it has in the event. -/
def EventData.Copies : EventData → Event → Prop
  | .orderCreated orderId userId totalAmount items shippingAddress, .orderCreated e =>
    orderId = e.orderId ∧ userId = e.userId ∧ totalAmount = e.totalAmount ∧ items = e.items ∧
      shippingAddress = e.shippingAddress
  | .orderCancelled orderId userId reason, .orderCancelled e =>
    orderId = e.orderId ∧ userId = e.userId ∧ reason = e.reason
  | .orderConfirmed orderId paymentId totalAmount, .orderConfirmed e =>
    orderId = e.orderId ∧ paymentId = e.paymentId ∧ totalAmount = e.totalAmount
  | .orderStatusChanged orderId previousStatus newStatus, .orderStatusChanged e =>
    orderId = e.orderId ∧ previousStatus = e.previousStatus ∧ newStatus = e.newStatus
  | .paymentProcessed paymentId orderId userId amount externalTransactionId, .paymentProcessed e =>
    paymentId = e.paymentId ∧ orderId = e.orderId ∧ userId = e.userId ∧ amount = e.amount ∧
      externalTransactionId = e.externalTransactionId
  | .paymentFailed paymentId orderId userId amount failureReason, .paymentFailed e =>
    paymentId = e.paymentId ∧ orderId = e.orderId ∧ userId = e.userId ∧ amount = e.amount ∧
      failureReason = e.failureReason
  | .paymentRefunded paymentId orderId refundAmount reason, .paymentRefunded e =>
    paymentId = e.paymentId ∧ orderId = e.orderId ∧ refundAmount = e.refundAmount ∧
      reason = e.reason
  | _, _ => False

/-- The row is the one of the event `e`, sent with this type. -/
structure EventStore.Logs (row : EventStore) (type : String) (e : Event) : Prop where
  eventType : row.eventType = type
  aggregateId : row.aggregateId = e.aggregateId
  correlationId : row.correlationId = e.correlationId
  eventData : row.eventData.Copies e

/-- The event has its row. -/
def World.HasRow (w : World) (type : String) (e : Event) : Prop :=
  ∃ row ∈ w.eventStore, row.Logs type e

/-- Every event in Kafka has its row. -/
def World.Logged (w : World) : Prop :=
  ∀ record ∈ w.kafka, ∀ type e, record.message = .domain type e → w.HasRow type e

theorem World.HasRow.mono {w w' : World} {type : String} {e : Event} (h : w.HasRow type e)
    (hsub : w.eventStore ⊆ w'.eventStore) : w'.HasRow type e := by
  obtain ⟨row, hrow, hlogs⟩ := h
  exact ⟨row, hsub hrow, hlogs⟩

/-! ### Who stores and sends events -/

/-- The operation stores an event. -/
def Op.storesEvent : Op → Bool
  | .eventStoreSave _ => true
  | _ => false

/-- The operation sends an event. -/
def Op.sendsEvent : Op → Bool
  | .kafkaSend _ _ message => message.isDomain
  | _ => false

/-- What is to be sent aside is not an event. -/
def Task.Regular : Task → Prop
  | .publishSagaEvent message => message.isDomain = false
  | _ => True

/-- The rows an activity may store, and the events it may send: only a delivery to one of the
seven handlers stores and sends its event. -/
def Job.stores : Job → ℕ
  | .task (.deliver (.paymentProcessedSagaHandler _)) => 0
  | .task (.deliver (.paymentFailedSagaHandler _)) => 0
  | .task (.deliver _) => 1
  | _ => 0

theorem Job.stores_le_one (t : Job) : t.stores ≤ 1 := by
  unfold stores
  split <;> omega

/-- The activity sends no event aside. -/
def Job.Regular (t : Job) : Prop := ∀ u, t = .task u → u.Regular

/-- What an activity may send, whether or not it is as it should be. -/
def Job.sends : Job → ℕ
  | .task (.publishSagaEvent message) => message.isDomain.toNat
  | t => t.stores

theorem Job.Regular.sends {t : Job} (h : t.Regular) : t.sends = t.stores := by
  unfold Job.sends
  split
  · next m =>
    have hm : m.isDomain = false := h _ rfl
    simp [hm, stores]
  · rfl

/-- A published event is delivered to one handler that stores it. -/
theorem Event.stores_deliveries (e : Event) :
    (e.deliveries.map fun d => (Job.task (.deliver d)).stores).sum = 1 := by
  cases e <;> rfl

section Programs

variable [Hashes]

/-- The operation neither stores nor sends an event, nor hands one over to be sent; a message of a
saga it sends as the saga manager does. -/
def Op.Unlogged : Op → Prop
  | .eventStoreSave _ => False
  | .kafkaSend topic key message => message.isDomain = false ∧
    topic = selectTopic "saga-events" message ∧ key = messageKey message
  | .setImmediate task => task.Regular
  | _ => True

theorem Op.Unlogged.storesEvent {o : Op} (h : o.Unlogged) : o.storesEvent = false := by
  cases o with
  | eventStoreSave e => exact absurd h id
  | _ => rfl

theorem Op.Unlogged.sendsEvent {o : Op} (h : o.Unlogged) : o.sendsEvent = false := by
  cases o with
  | kafkaSend topic key m => exact h.1
  | _ => rfl

theorem Op.Common.unlogged {o : Op} (h : o.Common) : o.Unlogged := by
  cases o with
  | setImmediate task =>
    obtain ⟨m, rfl, hm⟩ := h
    exact Message.isDomain_of_isAside hm
  | kafkaSend topic key m => exact h
  | eventStoreSave e => exact h
  | _ => exact trivial

theorem indifferent_unlogged : Indifferent Op.Unlogged where
  common _ := Op.Common.unlogged
  set _ _ _ := trivial
  orderSave _ := trivial
  sagaInsert _ := trivial
  paymentInsert _ := trivial
  paymentSave _ := trivial
  announce _ _ := trivial
  charge _ _ := trivial
  report _ _ _ _ := trivial

/-- **Nobody but the seven handlers stores or sends an event.** -/
theorem Job.run_unlogged {t : Job} (hs : t.stores = 0) (ht : t.Regular) :
    t.run.Only Op.Unlogged := by
  cases t with
  | request r =>
    cases r with
    | createOrder dto userId | createTestOrder dto userId =>
      exact .bind (placeOrder_along (L := fun _ => True) trivial trivial (fun _ _ => trivial)
        fun _ _ => trivial).only fun _ => trivial
    | _ => exact indifferent_unlogged.request (by simp [Request.Places])
  | task u =>
    have hu := ht u rfl
    suffices h : u.run.Only Op.Unlogged from .bind h fun _ => trivial
    cases u with
    | publishAll events => exact .perform trivial
    | publishSagaEvent m => exact .perform ⟨hu, rfl, rfl⟩
    | externalPayment p c => exact indifferent_unlogged.externalPayment p c
    | deliver d =>
      cases d with
      | paymentProcessedSagaHandler e => exact indifferent_unlogged.handlePaymentProcessed e
      | paymentFailedSagaHandler e => exact indifferent_unlogged.handlePaymentFailed e
      | _ => simp [stores] at hs

/-! ### The seven handlers -/

/-- In the light of `W`, an event that is sent has its row. -/
def Op.Backed (W : World) : Op → Prop
  | .kafkaSend _ _ message => ∀ type e, message = .domain type e → W.HasRow type e
  | .setImmediate task => task.Regular
  | _ => True

theorem Op.Unlogged.backed {o : Op} (W : World) (h : o.Unlogged) : o.Backed W := by
  cases o with
  | kafkaSend topic key m =>
    rintro type e rfl
    exact nomatch (show true = false from h.1)
  | setImmediate task => exact h
  | _ => exact trivial

/-- What is known of an answer: a row that was stored is there. -/
def Op.StoredIn (W : World) (o : Op) (r : Except Err (Op.Val o)) : Prop :=
  ∀ row, o = .eventStoreSave row → (∃ v, r = .ok v) → row ∈ W.eventStore

/-- **An event is stored before it is sent.** -/
theorem storeAndPublish_along {W : World} {topic aggregateId aggregateType eventType : String}
    {eventData : EventData} {e : Event}
    (hlogs : (⟨aggregateId, aggregateType, eventType, eventData, e.correlationId⟩ :
      EventStore).Logs eventType e) :
    (storeAndPublish topic aggregateId aggregateType eventType eventData e).Along (Op.Backed W)
      (Op.StoredIn W) fun _ => True := by
  refine .bind (fun r => ∀ v, r = .ok v → W.HasRow eventType e) (call_told trivial ?_) ?_
    fun _ _ => trivial
  · exact fun r hr v hv => ⟨_, hr _ rfl ⟨v, hv⟩, hlogs⟩
  · refine fun v hrow => call_along fun type f hf => ?_
    obtain ⟨rfl, rfl⟩ := Message.domain.inj hf
    exact hrow v rfl

omit [Hashes] in
theorem call_atMost {P : Op → Bool} {n : ℕ} {o : Op} (h : (P o).toNat ≤ n) : (call o).AtMost P n :=
  .perform h

/-- An event is stored once and sent once, at most. -/
theorem storeAndPublish_atMost {topic aggregateId aggregateType eventType : String}
    {eventData : EventData} {e : Event} :
    (storeAndPublish topic aggregateId aggregateType eventType eventData e).AtMost
        (S := App) Op.storesEvent 1 ∧
      (storeAndPublish topic aggregateId aggregateType eventType eventData e).AtMost
        (S := App) Op.sendsEvent 1 :=
  ⟨.bind (m := 1) (n := 0) (call_atMost (Nat.le_refl 1)) fun _ => call_atMost (Nat.le_refl 0),
    .bind (m := 0) (n := 1) (call_atMost (Nat.le_refl 0)) fun _ => call_atMost (Nat.le_refl 1)⟩

/-- **A handler that stores an event sends it next**, and what it goes on to does neither. -/
theorem Job.run_stores {t : Job} (hs : t.stores ≠ 0) :
    ∃ aggregateId aggregateType eventType eventData, ∃ e : Event, ∃ rest,
      t.run = (storeAndPublish e.topic aggregateId aggregateType eventType eventData e).bind rest ∧
      (⟨aggregateId, aggregateType, eventType, eventData, e.correlationId⟩ :
        EventStore).Logs eventType e ∧ ∀ a, (rest a).Only Op.Unlogged := by
  cases t with
  | request r => exact absurd rfl hs
  | task u =>
    cases u with
    | deliver d =>
      -- each handler of events builds the entry from the fields of its event
      cases d with
      | orderCreatedHandler e =>
        refine ⟨_, _, _, _, .orderCreated e, _, Async.bind_assoc _ _ _,
          ⟨rfl, rfl, rfl, rfl, rfl, rfl, rfl, rfl⟩, fun _ => ?_⟩
        exact .bind (indifferent_unlogged.handleOrderCreated e) fun _ => trivial
      | orderCancelledHandler e =>
        exact ⟨_, _, _, _, .orderCancelled e, _, rfl, ⟨rfl, rfl, rfl, rfl, rfl, rfl⟩,
          fun _ => trivial⟩
      | orderConfirmedHandler e =>
        exact ⟨_, _, _, _, .orderConfirmed e, _, rfl, ⟨rfl, rfl, rfl, rfl, rfl, rfl⟩,
          fun _ => trivial⟩
      | orderStatusChangedHandler e =>
        exact ⟨_, _, _, _, .orderStatusChanged e, _, rfl, ⟨rfl, rfl, rfl, rfl, rfl, rfl⟩,
          fun _ => trivial⟩
      | paymentProcessedHandler e =>
        exact ⟨_, _, _, _, .paymentProcessed e, _, rfl, ⟨rfl, rfl, rfl, rfl, rfl, rfl, rfl, rfl⟩,
          fun _ => trivial⟩
      | paymentFailedHandler e =>
        exact ⟨_, _, _, _, .paymentFailed e, _, rfl, ⟨rfl, rfl, rfl, rfl, rfl, rfl, rfl, rfl⟩,
          fun _ => trivial⟩
      | paymentRefundedHandler e =>
        exact ⟨_, _, _, _, .paymentRefunded e, _, rfl, ⟨rfl, rfl, rfl, rfl, rfl, rfl, rfl⟩,
          fun _ => trivial⟩
      | paymentProcessedSagaHandler e => exact absurd rfl hs
      | paymentFailedSagaHandler e => exact absurd rfl hs
    | _ => exact absurd rfl hs

/-- What an activity stores and sends. -/
theorem Job.run_atMost (t : Job) :
    t.run.AtMost (S := App) Op.storesEvent t.stores ∧
      t.run.AtMost (S := App) Op.sendsEvent t.sends := by
  by_cases ht : t.Regular
  · rw [ht.sends]
    by_cases hs : t.stores = 0
    · have honly := Job.run_unlogged hs ht
      exact ⟨.of_only (honly.mono fun _ => Op.Unlogged.storesEvent),
        .of_only (honly.mono fun _ => Op.Unlogged.sendsEvent)⟩
    · obtain ⟨aggregateId, aggregateType, eventType, eventData, e, rest, hrun, -, hrest⟩ :=
        Job.run_stores hs
      have hone : t.stores = 1 + 0 := by
        have := t.stores_le_one
        omega
      rw [hrun, hone]
      exact ⟨.bind storeAndPublish_atMost.1 fun a => .of_only ((hrest a).mono fun _ =>
          Op.Unlogged.storesEvent),
        .bind storeAndPublish_atMost.2 fun a => .of_only ((hrest a).mono fun _ =>
          Op.Unlogged.sendsEvent)⟩
  · obtain ⟨m, rfl⟩ : ∃ m, t = .task (.publishSagaEvent m) := by
      by_contra hne
      refine ht fun u hu => ?_
      cases u with
      | publishSagaEvent m => exact absurd ⟨m, hu⟩ hne
      | _ => exact trivial
    exact ⟨.bind (m := 0) (n := 0) (call_atMost (Nat.le_refl 0)) fun _ => trivial,
      .bind (n := 0) (call_atMost (Nat.le_refl _)) fun _ => trivial⟩

/-- The activities, in the light of a later world. -/
def logging : Outlook application where
  Before := fun w W => w.eventStore ⊆ W.eventStore
  Born := fun _ t => t.Regular
  Does := fun W _ _ o => o.Backed W
  Told := fun W _ _ o r => o.StoredIn W r
  Ends := fun _ _ _ => True
  trans := fun h h' => List.Subset.trans h h'
  body := by
    intro W t ht i
    by_cases hs : t.stores = 0
    · exact .of_only ((Job.run_unlogged hs ht).mono fun o => Op.Unlogged.backed W) fun _ => trivial
    · obtain ⟨aggregateId, aggregateType, eventType, eventData, e, rest, hrun, hlogs, hrest⟩ :=
        Job.run_stores hs
      change t.run.Along _ _ _
      rw [hrun]
      exact .seq (storeAndPublish_along hlogs) fun a =>
        .of_only ((hrest a).mono fun o => Op.Unlogged.backed W) fun _ => trivial

/-! ### Runs -/

/-- Anything may be started; what is sent aside in the name of a saga is not an event. -/
def Delivering (_ : Pool application) : Action application → Prop
  | .start (.task (.publishSagaEvent message)) => message.isDomain = false
  | _ => True

variable {w : World} {p : Pool application} {i : ℕ}

omit [Hashes] in
/-- What one operation does: rows stay, and the one that is stored is there. -/
theorem World.exec_logged {w w' : World} {i : ℕ} {o : Op} {c : Choice} {r : Except Err (Op.Val o)}
    {ts : List Task} (he : w.exec i o c = some (w', r, ts)) :
    w.eventStore ⊆ w'.eventStore ∧ o.StoredIn w' r := by
  by_cases ho : .eventStore ∈ o.writes
  · cases o with
    | eventStoreSave row =>
      rcases World.exec_cases_of_not_redis he rfl with ⟨-, hp⟩ | ⟨m, -, rfl, rfl, -⟩
      · simp only [World.perform, Option.some.injEq, Prod.mk.injEq] at hp
        obtain ⟨rfl, rfl, -⟩ := hp
        refine ⟨List.subset_append_left _ _, fun row' hrow _ => ?_⟩
        obtain rfl := Op.eventStoreSave.inj hrow
        exact List.mem_append_right _ List.mem_cons_self
      · refine ⟨List.Subset.refl _, fun row' _ hv => ?_⟩
        obtain ⟨v, hv⟩ := hv
        cases hv
    | _ => simp [Op.writes] at ho
  · rw [(World.exec_frame he).eventStore ho]
    refine ⟨List.Subset.refl _, fun row hrow _ => ?_⟩
    subst hrow
    simp [Op.writes] at ho

/-- What an operation starts is as it should be. -/
theorem World.exec_started {w w' : World} {i : ℕ} {o : Op} {c : Choice} {r : Except Err (Op.Val o)}
    {ts : List Task} (he : w.exec i o c = some (w', r, ts))
    (ho : ∀ task, o = .setImmediate task → task.Regular) :
    ∀ t ∈ ts.filterMap application.spawned, t.Regular := by
  intro t ht
  obtain ⟨u, hu, heq⟩ := List.mem_filterMap.mp ht
  obtain rfl := Option.some.inj heq
  rintro v hv
  rw [← Job.task.inj hv]
  exact exec_starts he ho (fun _ _ _ _ => trivial) u hu

theorem Job.regular_of_started {p : Pool application} {t : Job} (h : Delivering p (.start t)) :
    t.Regular := by
  rintro u rfl
  cases u with
  | publishSagaEvent m => exact h
  | _ => exact trivial

omit [Hashes] in
/-- Only a message that is sent is new in Kafka. -/
theorem World.exec_sent {w w' : World} {i : ℕ} {o : Op} {c : Choice} {r : Except Err (Op.Val o)}
    {ts : List Task} (he : w.exec i o c = some (w', r, ts)) {record : KafkaRecord}
    (h : record ∈ w'.kafka) : record ∈ w.kafka ∨
      ∃ topic key m, o = .kafkaSend topic key m ∧ record = ⟨topic, key, m⟩ := by
  by_cases ho : o.sends = true
  · cases o with
    | kafkaSend topic key m =>
      rcases World.exec_cases_of_not_redis he rfl with ⟨-, hp⟩ | ⟨e, -, rfl, -⟩
      · simp only [World.perform, Option.some.injEq, Prod.mk.injEq] at hp
        obtain ⟨rfl, -⟩ := hp
        rcases List.mem_append.mp h with h | h
        · exact Or.inl h
        · exact Or.inr ⟨topic, key, m, rfl, List.mem_singleton.mp h⟩
      · exact Or.inl h
    | _ => simp [Op.sends] at ho
  · rw [(World.exec_frame he).kafka (by simpa using ho)] at h
    exact Or.inl h

/-- The activities are as they should be. -/
theorem logging_approves {init : World → Prop} (hp : Pool.Reachable init Delivering p) :
    logging.Approves p.world p := by
  refine logging.reachable (fun w => List.Subset.refl w.eventStore) ?_
    (fun w _ => List.Subset.refl w.eventStore) ?_ hp _ (List.Subset.refl p.world.eventStore)
  · exact fun p t ht _ => Job.regular_of_started ht
  · intro p _ i t o k c w r ts _ _ _ he
    obtain ⟨hsub, htold⟩ := World.exec_logged he
    refine ⟨hsub, fun W hW => ⟨fun row hrow hv => hW (htold row hrow hv), fun ho t' ht' => ?_⟩⟩
    refine World.exec_started he (fun task hset => ?_) t' ht'
    subst hset
    exact ho

/-- **Every event in Kafka has its row**, at every point of a run. -/
theorem logged_reachable {init : World → Prop} (hinit : ∀ w, init w → w.Logged)
    (hp : Pool.Reachable init Delivering p) : p.world.Logged := by
  refine Pool.Reachable.induct (P := fun p : Pool application => World.Logged p.world) hinit ?_ hp
  rintro p p' hp ih ⟨a, -, hn⟩
  cases a with
  | start t =>
    obtain rfl := Option.some.inj hn
    exact ih
  | tick d =>
    obtain rfl := Option.some.inj hn
    exact ih
  | run i c =>
    obtain ⟨t, o, k, w, r, ts, hi, he, rfl⟩ := Pool.next_run hn
    have hsub := (World.exec_logged he).1
    have hdoes : o.Backed p.world := (logging_approves hp i _ hi).2.1
    intro record hrecord type e hm
    rcases World.exec_sent he hrecord with hrecord | ⟨topic, key, m, rfl, rfl⟩
    · exact (ih record hrecord type e hm).mono hsub
    · exact (hdoes type e hm).mono hsub

/-- **Events are stored before they are sent.**  At every point of a run, every event in
Kafka has its row, and so has every event that is about to be sent; and of all that was performed,
a delivery to one of the seven handlers accounts for one stored row and one sent event at
most, and nobody else for any. -/
theorem logged_before_sent (hw : w.Logged) {l : List (ℕ × Op)}
    (hp : Pool.Ran Delivering ⟨w, []⟩ l p) :
    p.world.Logged ∧
    (∀ i topic key type e, p.awaits i = some (.kafkaSend topic key (.domain type e)) →
      p.world.HasRow type e) ∧
    (∀ (i : ℕ) (a : Activity application), p.acts[i]? = some a →
      Pool.times (S := App) Op.storesEvent i l ≤ a.tag.stores ∧
        Pool.times (S := App) Op.sendsEvent i l ≤ a.tag.stores) ∧
    ∀ e : Event, (e.deliveries.map fun d => (Job.task (.deliver d)).stores).sum = 1 := by
  have hreach : Pool.Reachable (fun v : World => v = w) Delivering p := ⟨w, rfl, hp.runs⟩
  have happ := logging_approves hreach
  refine ⟨logged_reachable (fun v (hv : v = w) => hv ▸ hw) hreach, fun i topic key type e hi => ?_,
    fun i a hi => ⟨hp.times_le (fun t => (Job.run_atMost t).1) hi, ?_⟩, Event.stores_deliveries⟩
  · obtain ⟨t, k, hact⟩ := Pool.awaits_eq_some.mp hi
    exact (happ i _ hact).2.1 type e rfl
  · rw [← (happ i a hi).1.sends]
    exact hp.times_le (fun t => (Job.run_atMost t).2) hi

end Programs

/-! ### Two deliveries -/

section Deliveries

open Samples

instance Delivering.decidable (p : Pool application) : ∀ a, Decidable (Delivering p a)
  | .start (.task (.publishSagaEvent message)) =>
    inferInstanceAs (Decidable (message.isDomain = false))
  | .start (.task (.publishAll _)) => isTrue trivial
  | .start (.task (.externalPayment _ _)) => isTrue trivial
  | .start (.task (.deliver _)) => isTrue trivial
  | .start (.request _) => isTrue trivial
  | .run _ _ => isTrue trivial
  | .tick _ => isTrue trivial

/-- A refund and a cancellation are delivered at the same time; the message of the second fails. -/
def twoDelivered : List (Action application) :=
  [.start (.task (.deliver (.paymentRefundedHandler ⟨"payment-1", "order-1", 10, "broken", none⟩))),
    .start (.task (.deliver (.orderCancelledHandler ⟨"order-1", "user-1", none, some "key-1"⟩))),
    .run 0 {}, .run 1 {}, .run 1 { fault := some (.refused "broker down") }, .run 0 {}]

theorem twoDelivered_played :
    (Pool.play Delivering ⟨World.empty 0, []⟩ twoDelivered).isSome := by
  decide +kernel

theorem logged_before_sent_two :
    let p := (Pool.play _ ⟨World.empty 0, []⟩ twoDelivered).get twoDelivered_played
    ∃ l, Pool.Ran Delivering ⟨World.empty 0, []⟩ l p ∧ p.world.Logged ∧
      (∀ i topic key type e, p.awaits i = some (.kafkaSend topic key (.domain type e)) →
        p.world.HasRow type e) ∧
      (∀ (i : ℕ) (a : Activity application), p.acts[i]? = some a →
        Pool.times (S := App) Op.storesEvent i l ≤ a.tag.stores ∧
          Pool.times (S := App) Op.sendsEvent i l ≤ a.tag.stores) ∧
      ∀ e : Event, (e.deliveries.map fun d => (Job.task (.deliver d)).stores).sum = 1 := by
  obtain ⟨l, hl⟩ := (Pool.runs_of_play _ _ _ (Option.some_get twoDelivered_played).symm).ran
  exact ⟨l, hl, logged_before_sent (fun _ h => absurd h List.not_mem_nil) hl⟩

example : ((Pool.play _ ⟨World.empty 0, []⟩ twoDelivered).get twoDelivered_played).world.kafka.length
    = 1 := by
  decide +kernel

end Deliveries

end CqrsSaga
