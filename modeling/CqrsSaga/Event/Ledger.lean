import Mathlib.Algebra.Group.Prod
import Mathlib.Algebra.Order.Group.Multiset
import CqrsSaga.Async.Account
import CqrsSaga.Event.Logged
import CqrsSaga.Flow.Runs

/-!
# The event log is complete

An event that is published is delivered to the one handler that stores it and sends it to Kafka.
Nobody else stores or sends events, and nobody hands over a delivery but the event bus.  So the rows
of the event store, and the events in Kafka, are among what was published, each as often at most,
where a send that fails appends nothing and one that does not appends once; and if nothing fails,
then at rest nothing is missing and nothing is there twice.

## Main definitions

* `Event.entry`, `Event.record` — the row and the record of an event.
* `EventLog.account` — what has been published, and what has been stored and sent of it.

## Main results

* `log_within_published` — **nothing is stored or sent that was not published, or more often than
  that; nothing is sent without being stored.**
* `log_complete` — **if nothing fails, in the end every published event is stored once and sent
  once.**
-/

namespace CqrsSaga

open SagaManager KafkaService OrderProcessingSaga

/-! ### What is written of an event -/

/-- The row of an event. -/
def Event.entry : Event → EventStore
  | orderCreated e => ⟨e.orderId, "Order", "OrderCreated",
    .orderCreated e.orderId e.userId e.totalAmount e.items e.shippingAddress, e.correlationId⟩
  | orderCancelled e => ⟨e.orderId, "Order", "OrderCancelled",
    .orderCancelled e.orderId e.userId e.reason, e.correlationId⟩
  | orderConfirmed e => ⟨e.orderId, "Order", "OrderConfirmed",
    .orderConfirmed e.orderId e.paymentId e.totalAmount, e.correlationId⟩
  | orderStatusChanged e => ⟨e.orderId, "Order", "OrderStatusChanged",
    .orderStatusChanged e.orderId e.previousStatus e.newStatus, e.correlationId⟩
  | paymentProcessed e => ⟨e.paymentId, "Payment", "PaymentProcessed",
    .paymentProcessed e.paymentId e.orderId e.userId e.amount e.externalTransactionId,
    e.correlationId⟩
  | paymentFailed e => ⟨e.paymentId, "Payment", "PaymentFailed",
    .paymentFailed e.paymentId e.orderId e.userId e.amount e.failureReason, e.correlationId⟩
  | paymentRefunded e => ⟨e.paymentId, "Payment", "PaymentRefunded",
    .paymentRefunded e.paymentId e.orderId e.refundAmount e.reason, e.correlationId⟩

/-- The row of the event a record carries. -/
def KafkaRecord.entry? : KafkaRecord → Option EventStore
  | ⟨_, _, .domain _ e⟩ => some e.entry
  | _ => none

theorem KafkaRecord.entry?_eq_none {r : KafkaRecord} (h : r.message.isDomain = false) :
    r.entry? = none := by
  obtain ⟨topic, key, m⟩ := r
  cases m with
  | domain type e => simp [Message.isDomain] at h
  | _ => rfl

/-- The records that carry an event. -/
def World.domainRecords (w : World) : List KafkaRecord := w.kafka.filter fun r => r.message.isDomain

/-- The rows of the events in Kafka. -/
def World.sentEntries (w : World) : List EventStore := w.kafka.filterMap KafkaRecord.entry?

/-! ### What is handed over -/

/-- Only the event bus hands over deliveries. -/
def Op.Hands : Op → Prop
  | .setImmediate (.deliver _) => False
  | _ => True

section Programs

variable [Hashes]

theorem Op.Common.hands {o : Op} (h : o.Common) : o.Hands := by
  cases o with
  | setImmediate task =>
    obtain ⟨m, rfl, -⟩ := h
    exact trivial
  | _ => exact trivial

theorem indifferent_hands : Indifferent Op.Hands where
  common _ := Op.Common.hands
  set _ _ _ := trivial
  orderSave _ := trivial
  sagaInsert _ := trivial
  paymentInsert _ := trivial
  paymentSave _ := trivial
  announce _ _ := trivial
  charge _ _ := trivial
  report _ _ _ _ := trivial

theorem storeAndPublish_hands (topic aggregateId aggregateType eventType : String)
    (eventData : EventData) (e : Event) :
    (storeAndPublish topic aggregateId aggregateType eventType eventData e).Only Op.Hands :=
  .bind (.perform trivial) fun _ => .perform trivial

theorem deliver_hands (d : Delivery) : d.run.Only Op.Hands := by
  cases d with
  | orderCreatedHandler e =>
    exact .bind (storeAndPublish_hands ..) fun _ => indifferent_hands.handleOrderCreated e
  | paymentProcessedSagaHandler e => exact indifferent_hands.handlePaymentProcessed e
  | paymentFailedSagaHandler e => exact indifferent_hands.handlePaymentFailed e
  | _ => exact storeAndPublish_hands ..

/-- **Only the event bus hands over deliveries.** -/
theorem Job.run_hands (t : Job) : t.run.Only Op.Hands := by
  cases t with
  | request r =>
    cases r with
    | createOrder dto userId | createTestOrder dto userId =>
      exact .bind (placeOrder_along (L := fun _ => True) trivial trivial (fun _ _ => trivial)
        fun _ _ => trivial).only fun _ => trivial
    | _ => exact indifferent_hands.request (by simp [Request.Places])
  | task u =>
    refine .bind ?_ fun _ => trivial
    cases u with
    | publishAll events => exact .perform trivial
    | publishSagaEvent m => exact .perform trivial
    | externalPayment p c => exact indifferent_hands.externalPayment p c
    | deliver d => exact deliver_hands d

/-- **A handler stores the row of its event, and sends its record next**; what it goes on to does
neither. -/
theorem Delivery.run_stores {d : Delivery} (hs : (Job.task (.deliver d)).stores ≠ 0) :
    ∃ rest, Job.run (.task (.deliver d)) =
      (storeAndPublish d.event.topic d.event.entry.aggregateId d.event.entry.aggregateType
        d.event.entry.eventType d.event.entry.eventData d.event).bind rest ∧
      ∀ a, (rest a).Only fun o : Op => o.Unlogged ∧ o.Hands := by
  cases d with
  | orderCreatedHandler e =>
    exact ⟨_, Async.bind_assoc _ _ _, fun _ => .and
      (.bind (indifferent_unlogged.handleOrderCreated e) fun _ => trivial)
      (.bind (indifferent_hands.handleOrderCreated e) fun _ => trivial)⟩
  | paymentProcessedSagaHandler e => exact absurd rfl hs
  | paymentFailedSagaHandler e => exact absurd rfl hs
  | _ => exact ⟨_, rfl, fun _ => trivial⟩

/-! ### The account -/

variable (lossy : Prop)

/-- The record an event is sent as. -/
def Event.record (e : Event) : KafkaRecord :=
  ⟨selectTopic e.topic (.domain e.entry.eventType e), messageKey (.domain e.entry.eventType e),
    .domain e.entry.eventType e⟩

/-- Amounts of records and rows: the records sent, the rows stored, and once more the rows of what
is sent, against the events published, the same, and the rows stored. -/
abbrev EventLog := Multiset KafkaRecord × Multiset EventStore × Multiset EventStore

namespace EventLog

/-- What a record comes to. -/
def ofRecord (r : KafkaRecord) : EventLog :=
  (([r].filter fun r => r.message.isDomain : List KafkaRecord), 0,
    ([r].filterMap KafkaRecord.entry? : List EventStore))

/-- What is to be done about an event. -/
def ofEvent (e : Event) : EventLog := ({e.record}, {e.entry}, 0)

/-- What an activity is to send and store. -/
def due : Job → EventLog
  | .task (.deliver (.paymentProcessedSagaHandler _)) => 0
  | .task (.deliver (.paymentFailedSagaHandler _)) => 0
  | .task (.deliver d) => ofEvent d.event
  | .task (.publishSagaEvent m) => ofRecord ⟨selectTopic "saga-events" m, messageKey m, m⟩
  | _ => 0

/-- What has been sent and stored. -/
def written (w : World) : EventLog := (w.domainRecords, w.eventStore, w.sentEntries)

/-- What there was to send and to store. -/
def told (w : World) : EventLog :=
  (w.published.map Event.record, w.published.map Event.entry, w.eventStore)

/-- **The account of the event log.** -/
def account : Account application EventLog where
  paid := written
  charged := told
  due := due
  lossy := lossy
  can w i o c := lossy ∨ w.Unfailing i o c

variable {lossy} {w w' : World} {i : ℕ} {e : Event}

omit [Hashes] in
theorem ofRecord_of_not_domain {r : KafkaRecord} (h : r.message.isDomain = false) :
    ofRecord r = 0 := by
  simp [ofRecord, h, KafkaRecord.entry?_eq_none h]

omit [Hashes] in
theorem written_send (w : World) (r : KafkaRecord) :
    written { w with kafka := w.kafka ++ [r] } = written w + ofRecord r := by
  simp only [written, ofRecord, World.domainRecords, World.sentEntries, List.filter_append,
    List.filterMap_append, ← Multiset.coe_add, Prod.mk_add_mk, add_zero]

omit [Hashes] in
theorem written_congr (hk : w'.kafka = w.kafka) (hs : w'.eventStore = w.eventStore) :
    written w' = written w := by
  rw [written, written, World.domainRecords, World.domainRecords, World.sentEntries,
    World.sentEntries, hk, hs]

theorem told_congr (hp : w'.published = w.published) (hs : w'.eventStore = w.eventStore) :
    told w' = told w := by
  rw [told, told, hp, hs]

/-- One of the handlers of an event is to store and to send it. -/
theorem due_deliveries (e : Event) :
    ((e.deliveries.map fun d => Job.task (.deliver d)).map due).sum = ofEvent e := by
  cases e <;> simp [Event.deliveries, due, Delivery.event]

/-- What is published is to be stored and sent. -/
theorem told_publish (w : World) (events : List Event) :
    told { w with published := w.published ++ events } = told w + (events.map ofEvent).sum := by
  induction events generalizing w with
  | nil => simp [told]
  | cons e events ih =>
    have hone : told { w with published := w.published ++ [e] } = told w + ofEvent e := by
      simp only [told, ofEvent, List.map_append, List.map_singleton, ← Multiset.coe_add,
        ← Multiset.coe_singleton, Prod.mk_add_mk, add_zero]
    rw [List.map_cons, List.sum_cons, ← add_assoc, ← hone, ← ih]
    simp

omit [Hashes] in
theorem spawned_deliveries (events : List Event) :
    ((events.flatMap Event.deliveries).map Task.deliver).filterMap
        (fun t => some (Job.task t)) =
      events.flatMap fun e => e.deliveries.map fun d => Job.task (.deliver d) := by
  simp [List.map_flatMap, Function.comp_def]

theorem due_events (events : List Event) :
    ((events.flatMap fun e => e.deliveries.map fun d => Job.task (.deliver d)).map due).sum =
      (events.map ofEvent).sum := by
  induction events with
  | nil => rfl
  | cons e events ih =>
    rw [List.flatMap_cons, List.map_append, List.sum_append, due_deliveries, ih, List.map_cons,
      List.sum_cons]

theorem due_of_stores {t : Job} (hs : t.stores = 0) (ht : t.Regular) : due t = 0 := by
  cases t with
  | request r => rfl
  | task u =>
    cases u with
    | publishSagaEvent m =>
      have hm : m.isDomain = false := ht _ rfl
      exact ofRecord_of_not_domain hm
    | deliver d =>
      cases d with
      | paymentProcessedSagaHandler e => rfl
      | paymentFailedSagaHandler e => rfl
      | _ => simp [Job.stores] at hs
    | _ => rfl

/-! ### Operations -/

/-- An operation of those that do not store or send events leaves the account as it is. -/
theorem even {o : Op} (ho : o.Unlogged ∧ o.Hands) : (account lossy).Even o := by
  intro w i c w' r ts _ he
  have hf := World.exec_frame he
  cases o with
  | eventStoreSave row => exact absurd ho.1 id
  | publishAll events =>
    -- what is published is handed over to be stored and sent
    obtain ⟨hp, -⟩ := World.exec_local he rfl
    simp only [World.perform, Option.some.injEq, Prod.mk.injEq] at hp
    obtain ⟨rfl, -, rfl⟩ := hp
    refine ⟨0, (events.map ofEvent).sum, 0, Account.waived_zero, (add_zero _).symm, ?_, ?_⟩
    · show told _ = told w + _
      rw [told_publish]
    · rw [spawned_deliveries]
      show 0 + (List.map due _).sum + 0 + 0 = _
      rw [due_events, add_zero, add_zero]
  | setImmediate task =>
    obtain ⟨hp, -⟩ := World.exec_local he rfl
    simp only [World.perform, Option.some.injEq, Prod.mk.injEq] at hp
    obtain ⟨rfl, -, rfl⟩ := hp
    refine .idle rfl rfl ?_ 0
    show ([Job.task task].map due).sum = 0
    rw [List.map_singleton, List.sum_singleton, due_of_stores ?_ fun u hu => ?_]
    · cases task with
      | deliver d => exact absurd ho.2 id
      | _ => rfl
    · obtain rfl := Job.task.inj hu
      exact ho.1
  | kafkaSend topic key m =>
    obtain ⟨hm, -⟩ := ho.1
    have hts := World.exec_tasks he rfl
    have hw : written w' = written w := by
      rcases World.exec_cases_of_not_redis he rfl with ⟨-, hp⟩ | ⟨-, -, rfl, -⟩
      · simp only [World.perform, Option.some.injEq, Prod.mk.injEq] at hp
        obtain ⟨rfl, -⟩ := hp
        rw [written_send, ofRecord_of_not_domain hm, add_zero]
      · rfl
    exact .idle hw (told_congr (hf.published (by simp [Op.writes]))
      (hf.eventStore (by simp [Op.writes])))
      (by rw [hts]; rfl) 0
  | _ =>
    exact .idle (written_congr (hf.kafka rfl) (hf.eventStore (by simp [Op.writes])))
      (told_congr (hf.published (by simp [Op.writes])) (hf.eventStore (by simp [Op.writes])))
      (by rw [World.exec_tasks he rfl]; rfl) 0

/-! ### The handlers -/

/-- What is left when a handler is through with an event: nothing, unless an operation failed. -/
def Through {α : Type} (lossy : Prop) : Except Err α → EventLog → Prop
  | .ok _, x => x = 0
  | .error _, x => x = 0 ∨ lossy

theorem Through.waived {α : Type} {r : Except Err α} {x : EventLog} (h : Through lossy r x) :
    (account lossy).Waived x := by
  cases r with
  | ok v => exact Or.inl h
  | error e => exact h

/-- Where an operation fails that no index refuses, something may be lost. -/
theorem lossy_of_refused {o : Op} {c : Choice} {m : String} (hc : (account lossy).can w i o c)
    (he : w.exec i o c = some (w', .error (.injected m), [])) : lossy := by
  rcases hc with h | h
  · exact h
  · obtain ⟨key, hkey⟩ := World.Unfailing.error h he
    cases hkey

/-- The record that is to be sent is sent. -/
theorem send_triple (record : KafkaRecord) :
    (account lossy).protocol.Triple i (Account.Owes i fun x => x = ofRecord record)
      (producer.send record.topic record.key record.message) fun r =>
        Account.Owes i (Through lossy r) := by
  refine Account.perform_triple fun w c w' r ts x hc he hx => ?_
  subst hx
  rcases World.exec_cases_of_not_redis he rfl with ⟨-, hp⟩ | ⟨m, -, rfl, rfl, rfl, -⟩
  · simp only [World.perform, Option.some.injEq, Prod.mk.injEq] at hp
    obtain ⟨rfl, rfl, rfl⟩ := hp
    refine ⟨0, rfl, ofRecord record, 0, 0, Account.waived_zero, written_send w record,
      (add_zero _).symm, ?_⟩
    simp
  · exact ⟨_, Or.inr (lossy_of_refused hc he), .idle rfl rfl rfl _⟩

/-- What is left once the row of an event has been stored: its record. -/
def Stored {α : Type} (lossy : Prop) (e : Event) : Except Err α → EventLog → Prop
  | .ok _, x => x = ofRecord e.record
  | .error _, x => x = 0 ∨ lossy

/-- The row that is to be stored is stored. -/
theorem store_triple (e : Event) :
    (account lossy).protocol.Triple i (Account.Owes i fun x => x = ofEvent e)
      (eventStoreRepository.save e.entry) fun r => Account.Owes i (Stored lossy e r) := by
  refine Account.perform_triple fun w c w' r ts x hc he hx => ?_
  subst hx
  rcases World.exec_cases_of_not_redis he rfl with ⟨-, hp⟩ | ⟨m, -, rfl, rfl, rfl, -⟩
  · simp only [World.perform, Option.some.injEq, Prod.mk.injEq] at hp
    obtain ⟨rfl, rfl, rfl⟩ := hp
    -- the row counts as stored, and is charged against what is sent
    refine ⟨_, rfl, (0, {e.entry}, 0), (0, 0, {e.entry}), 0, Account.waived_zero, ?_, ?_, ?_⟩
    · show written _ = written w + _
      simp only [written, Prod.mk_add_mk, add_zero, ← Multiset.coe_add, ← Multiset.coe_singleton]
      rfl
    · show told _ = told w + _
      simp only [told, Prod.mk_add_mk, add_zero, ← Multiset.coe_add, ← Multiset.coe_singleton]
    · show (0, {e.entry}, 0) + 0 + ofRecord e.record + 0 = ofEvent e + (0, 0, {e.entry})
      simp only [add_zero, ofEvent, Prod.mk_add_mk]
      rfl
  · exact ⟨_, Or.inr (lossy_of_refused hc he), .idle rfl rfl rfl _⟩

omit [Hashes] in
/-- The row a handler puts together is the one of its event. -/
theorem entry_eq (e : Event) : (⟨e.entry.aggregateId, e.entry.aggregateType, e.entry.eventType,
    e.entry.eventData, e.correlationId⟩ : EventStore) = e.entry := by
  cases e <;> rfl

/-- **A handler stores its event and sends it.** -/
theorem storeAndPublish_triple (e : Event) :
    (account lossy).protocol.Triple i (Account.Owes i fun x => x = ofEvent e)
      (storeAndPublish e.topic e.entry.aggregateId e.entry.aggregateType e.entry.eventType
        e.entry.eventData e) fun r => Account.Owes i (Through lossy r) := by
  unfold storeAndPublish
  rw [entry_eq]
  refine .bind _ (store_triple e) (fun _ => send_triple e.record) fun error => ?_
  exact .throw (Account.owes_stable i _) fun w g _ h => h

/-- **Every activity stores and sends what it is to store and send.** -/
theorem body_triple (i : ℕ) (t : Job) :
    (account lossy).protocol.Triple i (Account.Owes i fun x => x = due t) t.run fun _ =>
      Account.Owes i (account lossy).Waived := by
  by_cases hs : t.stores = 0
  · by_cases ht : t.Regular
    · -- it has nothing to do with events
      have honly := (Job.run_unlogged hs ht).and (Job.run_hands t)
      exact .pre (fun w g _ h => h.mono fun x hx => Or.inl (hx.trans (due_of_stores hs ht)))
        (Account.only_triple (honly.mono fun o => even) (account lossy).Waived)
    · obtain ⟨m, rfl⟩ : ∃ m, t = .task (.publishSagaEvent m) := by
        by_contra hne
        refine ht fun u hu => ?_
        cases u with
        | publishSagaEvent m => exact absurd ⟨m, hu⟩ hne
        | _ => exact trivial
      refine .bind _ (send_triple ⟨_, _, m⟩) (fun _ => ?_) fun error => ?_
      · exact .ret (Account.owes_stable i _) fun w g _ h => h.mono fun x => Through.waived
      · exact .throw (Account.owes_stable i _) fun w g _ h => h.mono fun x => Through.waived
  · obtain ⟨d, rfl⟩ : ∃ d, t = .task (.deliver d) := by
      cases t with
      | request r => exact absurd rfl hs
      | task u =>
        cases u with
        | deliver d => exact ⟨d, rfl⟩
        | _ => exact absurd rfl hs
    obtain ⟨rest, hrun, hrest⟩ := Delivery.run_stores hs
    have hdue : due (.task (.deliver d)) = ofEvent d.event := by
      cases d with
      | paymentProcessedSagaHandler e => exact absurd rfl hs
      | paymentFailedSagaHandler e => exact absurd rfl hs
      | _ => rfl
    rw [hrun, hdue]
    refine .bind _ (storeAndPublish_triple d.event) (fun a => ?_) fun error => ?_
    · exact .pre (fun w g _ h => h.mono fun x => Through.waived)
        (Account.only_triple ((hrest a).mono fun o => even) (account lossy).Waived)
    · exact .throw (Account.owes_stable i _) fun w g _ h => h.mono fun x => Through.waived

end EventLog

/-! ### Runs -/

/-- Nothing has been published, stored or sent. -/
def World.Silent (w : World) : Prop := w.published = [] ∧ w.eventStore = [] ∧ w.kafka = []

namespace EventLog

theorem sound (lossy : Prop) : (account lossy).protocol.Sound World.Silent fun p a =>
    Served p a ∧ (lossy ∨ Faultless p a) := by
  refine Account.sound ?_ ?_ (fun w d => ⟨rfl, rfl⟩) ?_ body_triple
  · rintro w ⟨hp, hs, hk⟩
    show written w = told w
    simp [written, told, World.domainRecords, World.sentEntries, hp, hs, hk]
  · intro p t ha
    cases t with
    | request r => rfl
    | task u => exact absurd ha.1 id
  · intro p i c t o k ha hi
    exact ha.2.imp_right fun h => Pool.Unfailing.world h hi

end EventLog

/-- **Nothing is stored or sent that was not published, or more often than it was published, and
nothing is sent that is not stored**, whichever operations fail, without effect. -/
theorem log_within_published {p : Pool application}
    (hp : Pool.Reachable World.Silent Served p) :
    (World.eventStore p.world).Subperm ((World.published p.world).map Event.entry) ∧
      (World.domainRecords p.world).Subperm ((World.published p.world).map Event.record) ∧
      (World.sentEntries p.world).Subperm (World.eventStore p.world) := by
  obtain ⟨g, hH⟩ := (EventLog.sound True).reachable (hp.mono fun _ _ h => ⟨h, Or.inl trivial⟩)
  obtain ⟨⟨records, rows, unsent⟩, heq⟩ := Account.covered hH
  have heq : EventLog.written p.world + (records, rows, unsent) = EventLog.told p.world := heq
  simp only [EventLog.written, EventLog.told, Prod.mk_add_mk, Prod.mk.injEq] at heq
  obtain ⟨hrecords, hrows, hunsent⟩ := heq
  refine ⟨?_, ?_, ?_⟩
  · exact Multiset.coe_le.mp (hrows ▸ Multiset.le_add_right _ _)
  · exact Multiset.coe_le.mp (hrecords ▸ Multiset.le_add_right _ _)
  · exact Multiset.coe_le.mp (hunsent ▸ Multiset.le_add_right _ _)

/-- **If nothing fails, then in the end every event that was published is stored once, and sent to
Kafka once**, as often as it was published; nothing else is stored or sent as an event. -/
theorem log_complete {p : Pool application}
    (hp : Pool.Reachable World.Silent (fun p a => Served p a ∧ Faultless p a) p)
    (hq : p.Quiescent) :
    (World.eventStore p.world).Perm ((World.published p.world).map Event.entry) ∧
      (World.domainRecords p.world).Perm ((World.published p.world).map Event.record) := by
  obtain ⟨g, hH⟩ := (EventLog.sound False).reachable (hp.mono fun _ _ h => ⟨h.1, Or.inr h.2⟩)
  obtain ⟨l, hl, heq⟩ := Account.settled hH hq
  obtain rfl : l = 0 := hl.resolve_right id
  have heq : EventLog.written p.world + 0 = EventLog.told p.world := heq
  simp only [EventLog.written, EventLog.told, add_zero, Prod.mk.injEq] at heq
  exact ⟨Multiset.coe_eq_coe.mp heq.2.1, Multiset.coe_eq_coe.mp heq.1⟩

end Programs

/-! ### An order is placed -/

namespace EventLog

open Samples

/-- The event of its creation is stored, and cannot be sent. -/
def unsent : List (Action application) :=
  .start (.request (.createOrder oneProduct "user-1")) :: (turns 0 3 "order-1" ++ turns 1 1 "" ++
    [.run 2 {}, .run 2 { fault := some (.refused "broker down") }])

theorem unsent_played : (Pool.play Served ⟨World.empty 0, []⟩ unsent).isSome := by decide +kernel

theorem log_within_published_unsent :
    let w : World := ((Pool.play Served ⟨World.empty 0, []⟩ unsent).get unsent_played).world
    w.eventStore.Subperm (w.published.map Event.entry) ∧
      w.domainRecords.Subperm (w.published.map Event.record) ∧
      w.sentEntries.Subperm w.eventStore :=
  log_within_published (Pool.reachable_of_play ⟨rfl, rfl, rfl⟩ unsent_played)

/-- The order is charged for and confirmed, and all that is told of. -/
def complete : Pool application :=
  (Pool.play (fun p a => Served p a ∧ Faultless p a) ⟨World.empty 0, []⟩
    (placed ++ paid ++ paidRest)).get (by decide +kernel)

theorem log_complete_paid :
    (World.eventStore complete.world).Perm ((World.published complete.world).map Event.entry) ∧
      (World.domainRecords complete.world).Perm
        ((World.published complete.world).map Event.record) :=
  log_complete (Pool.reachable_of_play ⟨rfl, rfl, rfl⟩ _) (by decide +kernel)

example : (World.published complete.world).length = 4 := by decide +kernel

end EventLog

end CqrsSaga
