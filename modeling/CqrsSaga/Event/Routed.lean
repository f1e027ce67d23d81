import CqrsSaga.Event.Logged
import CqrsSaga.Flow.Runs

/-!
# Where messages go

Kafka keeps the order of messages with one key on one topic.  Topic and key are computed from what a
message happens to carry: the items of the order, a correlation id, the saga's id, the order's id.
So messages about one saga go the same way unless one of them carries the correlation id and the
other, telling of a step, does not; and those about one order only if they carry the same products
and the same correlation id.

## Main definitions

* `KafkaRecord.Routed` — the record was sent by `publish`.
* `KafkaRecord.Alike` — two records have one topic and one key.
* `SagaManager.Publishes`, `OrderEvents` — the messages about a saga, and about an order.

## Main results

* `sent_alike` — **exactly which messages about a saga, or an order, go the same way.**
* `sent_apart` — a saga whose messages do not.
-/

namespace CqrsSaga

open SagaManager KafkaService OrderProcessingSaga

/-- Telling of a step: the message carries no correlation id. -/
def Message.isStep : Message → Bool
  | .sagaStepCompleted .. => true
  | .sagaStepCompensated .. => true
  | _ => false

/-- The messages the saga manager publishes about the saga `y` with correlation id `c`. -/
inductive SagaManager.Publishes (y c : String) : Message → Prop
  | started (sagaType : String) (data : SagaData) : Publishes y c (.sagaStarted y sagaType c data)
  | stepCompleted (stepName : String) (completedSteps : List String) :
    Publishes y c (.sagaStepCompleted y stepName completedSteps)
  | completed (completedSteps : List String) : Publishes y c (.sagaCompleted y c completedSteps)
  | failed (failedStep errorMessage : String) :
    Publishes y c (.sagaFailed y c failedStep errorMessage)
  | stepCompensated (stepName : String) : Publishes y c (.sagaStepCompensated y stepName)
  | compensated (compensationSteps : List String) :
    Publishes y c (.sagaCompensated y c compensationSteps)
  | compensationFailed (error : Option String) :
    Publishes y c (.sagaCompensationFailed y c error)

/-- The messages the handlers of order events publish about the order `x`. -/
inductive OrderEvents (x : String) : Message → Prop
  | created (e : OrderCreatedEvent) (h : e.orderId = x) :
    OrderEvents x (.domain "OrderCreated" (.orderCreated e))
  | cancelled (e : OrderCancelledEvent) (h : e.orderId = x) :
    OrderEvents x (.domain "OrderCancelled" (.orderCancelled e))
  | confirmed (e : OrderConfirmedEvent) (h : e.orderId = x) :
    OrderEvents x (.domain "OrderConfirmed" (.orderConfirmed e))
  | statusChanged (e : OrderStatusChangedEvent) (h : e.orderId = x) :
    OrderEvents x (.domain "OrderStatusChanged" (.orderStatusChanged e))

/-- What `publish` is called with to send a message. -/
def Message.topic : Message → String
  | .domain _ e => e.topic
  | _ => "saga-events"

section Routes

variable [Hashes]

/-- The record was sent by `publish`. -/
def KafkaRecord.Routed (r : KafkaRecord) : Prop :=
  r.topic = selectTopic r.message.topic r.message ∧ r.key = messageKey r.message

omit [Hashes] in
/-- The records have one topic and one key; one without a key has the time as its key. -/
def KafkaRecord.Alike (r r' : KafkaRecord) : Prop :=
  r.topic = r'.topic ∧ ∃ key, r.key = some key ∧ r'.key = some key

/-- The part of the topic a product accounts for. -/
def productHash (item : OrderItem) : String :=
  ((Hashes.md5hex ((truthy (some item.productId) <|> truthy (some item.productName)).getD
    "unknown")).take 8).copy

/-! ### Topics and keys -/

theorem selectTopic_saga (m : Message) : selectTopic "saga-events" m =
    match truthy m.correlationId with
    | some c => "saga-events-" ++ (Hashes.md5hex c).take 8
    | none => "saga-events" := by
  have h1 : includes "saga-events" "Order" = false := by decide +kernel
  have h2 : includes "saga-events" "order" = false := by decide +kernel
  have h3 : includes "saga-events" "Payment" = false := by decide +kernel
  have h4 : includes "saga-events" "payment" = false := by decide +kernel
  have h5 : includes "saga-events" "saga" = true := by decide +kernel
  cases hc : truthy m.correlationId with
  | none => simp only [selectTopic, h1, h2, h3, h4, h5, hc, Bool.or_true, Bool.or_self,
      Bool.false_eq_true, if_false, if_true]
  | some c => simp only [selectTopic, h1, h2, h3, h4, h5, hc, Bool.or_true, Bool.or_self,
      Bool.false_eq_true, if_false, if_true]

theorem selectTopic_order (m : Message) : selectTopic "order-events" m =
    match m.items.head?.map productHash with
    | some product => "order-events-product-" ++ product
    | none => "order-events" := by
  have h1 : includes "order-events" "order" = true := by decide +kernel
  simp only [selectTopic, h1, Bool.or_true, if_true]
  cases m.items with
  | nil => rfl
  | cons item items => simp [generateTopicForProduct, productHash]

variable {x y c : String} {m : Message}

/-- Where a message about a saga goes: by its correlation id, if it carries one. -/
theorem SagaManager.Publishes.route (h : Publishes y c m) (hy : y ≠ "") :
    selectTopic m.topic m = (if m.isStep = true ∨ c = "" then "saga-events"
      else "saga-events-" ++ (Hashes.md5hex c).take 8) ∧
    messageKey m = some (if m.isStep = true ∨ c = "" then y else c) := by
  have hsaga : m.topic = "saga-events" ∧ m.sagaId = some y ∧
      m.correlationId = if m.isStep = true then none else some c := by
    cases h <;> exact ⟨rfl, rfl, rfl⟩
  obtain ⟨htopic, hid, hc⟩ := hsaga
  rw [htopic, selectTopic_saga, messageKey, hid, hc, truthy_some hy]
  by_cases hstep : m.isStep = true
  · simp [hstep]
  · by_cases hce : c = ""
    · simp [hstep, hce, truthy]
    · simp [hstep, hce, truthy_some hce]

/-- Where a message about an order goes: by its products and its correlation id. -/
theorem OrderEvents.route (h : OrderEvents x m) (hx : x ≠ "") :
    selectTopic m.topic m = (match m.items.head?.map productHash with
      | some product => "order-events-product-" ++ product
      | none => "order-events") ∧
    messageKey m = some ((truthy m.correlationId).getD x) := by
  have horder : m.topic = "order-events" ∧ m.sagaId = none ∧ m.orderId = some x := by
    cases h with
    | created e h | cancelled e h | confirmed e h | statusChanged e h =>
      exact ⟨rfl, rfl, congrArg some h⟩
  obtain ⟨htopic, hid, horder⟩ := horder
  rw [htopic, selectTopic_order, messageKey, hid, horder, truthy_some hx]
  refine ⟨rfl, ?_⟩
  cases truthy m.correlationId <;> rfl

omit [Hashes] in
/-- A text that begins with a longer one is not the shorter one. -/
theorem append_ne {a b : String} (h : b.length < a.length) (s : String) : a ++ s ≠ b := by
  rintro rfl
  rw [String.length_append] at h
  omega

omit [Hashes] in
/-- The topics of different products, or of none, are different. -/
theorem topic_inj {a b : Option String}
    (h : (match a with
      | some product => "order-events-product-" ++ product
      | none => "order-events") = match b with
      | some product => "order-events-product-" ++ product
      | none => "order-events") : a = b := by
  have hne : ∀ product, "order-events-product-" ++ product ≠ "order-events" :=
    append_ne (by decide +kernel)
  cases a with
  | none =>
    cases b with
    | none => rfl
    | some p => exact absurd h.symm (hne p)
  | some p =>
    cases b with
    | none => exact absurd h (hne p)
    | some q => exact congrArg some ((String.append_right_inj _).mp h)

/-- **Messages about one saga go the same way** exactly if both tell of a step or neither does, or
there is no correlation id to carry. -/
theorem SagaManager.Publishes.alike {r r' : KafkaRecord} (h : Publishes y c r.message)
    (hr : r.Routed) (hr' : r'.Routed) (hy : y ≠ "") (h' : Publishes y c r'.message) :
    r.Alike r' ↔ r.message.isStep = r'.message.isStep ∨ c = "" := by
  have hne : "saga-events-" ++ ((Hashes.md5hex c).take 8).copy ≠ "saga-events" :=
    append_ne (by decide +kernel) _
  unfold KafkaRecord.Alike
  rw [hr.1, hr'.1, hr.2, hr'.2, (h.route hy).1, (h'.route hy).1, (h.route hy).2, (h'.route hy).2]
  by_cases hc : c = ""
  · simp [hc]
  · cases r.message.isStep <;> cases r'.message.isStep <;> simp [hc, hne, hne.symm]

/-- **Messages about one order go the same way** exactly if they carry the same first product, or
none, and the same correlation id, an absent one counting as the order's id. -/
theorem OrderEvents.alike {r r' : KafkaRecord} (h : OrderEvents x r.message) (hr : r.Routed)
    (hr' : r'.Routed) (hx : x ≠ "") (h' : OrderEvents x r'.message) :
    r.Alike r' ↔ r.message.items.head?.map productHash = r'.message.items.head?.map productHash ∧
      (truthy r.message.correlationId).getD x = (truthy r'.message.correlationId).getD x := by
  unfold KafkaRecord.Alike
  rw [hr.1, hr'.1, hr.2, hr'.2, (h.route hx).1, (h'.route hx).1, (h.route hx).2, (h'.route hx).2]
  constructor
  · rintro ⟨htopic, key, hk, hk'⟩
    exact ⟨topic_inj htopic, (Option.some.inj hk).trans (Option.some.inj hk').symm⟩
  · rintro ⟨hproduct, hkey⟩
    rw [hproduct, hkey]
    exact ⟨rfl, _, rfl, rfl⟩

/-! ### Runs -/

/-- What is sent is sent by `publish`. -/
def Op.Routed : Op → Prop
  | .kafkaSend topic key message => (⟨topic, key, message⟩ : KafkaRecord).Routed
  | .setImmediate task => task.Regular
  | _ => True

theorem Op.Unlogged.routed {o : Op} (h : o.Unlogged) : o.Routed := by
  cases o with
  | kafkaSend topic key m =>
    obtain ⟨hm, ht, hk⟩ := h
    refine ⟨?_, hk⟩
    cases m with
    | domain type e => exact nomatch hm
    | _ => exact ht
  | setImmediate task => exact h
  | _ => exact trivial

/-- **Everything is sent by `publish`.** -/
theorem Job.run_routed {t : Job} (ht : t.Regular) : t.run.Only Op.Routed := by
  by_cases hs : t.stores = 0
  · exact (Job.run_unlogged hs ht).mono fun _ => Op.Unlogged.routed
  · obtain ⟨aggregateId, aggregateType, eventType, eventData, e, rest, hrun, -, hrest⟩ :=
      Job.run_stores hs
    rw [hrun]
    exact .bind (.bind (.perform trivial) fun _ => .perform ⟨rfl, rfl⟩) fun a =>
      (hrest a).mono fun _ => Op.Unlogged.routed

/-- What the activities send, whatever the world comes to be. -/
def routing : Outlook application where
  Before := fun _ _ => True
  Born := fun _ t => t.Regular
  Does := fun _ _ _ o => o.Routed
  Told := fun _ _ _ _ _ => True
  Ends := fun _ _ _ => True
  trans := fun _ _ => trivial
  body := fun ht _ => .of_only (Job.run_routed ht) fun _ => trivial

variable {init : World → Prop} {p : Pool application}

theorem routing_approves (hp : Pool.Reachable init Delivering p) : routing.Approves p.world p := by
  refine routing.reachable (fun _ => trivial) ?_ (fun _ _ => trivial) ?_ hp _ trivial
  · exact fun p t ht _ => Job.regular_of_started ht
  · intro p _ i t o k c w r ts _ _ _ he
    refine ⟨trivial, fun W _ => ⟨trivial, fun ho t' ht' => ?_⟩⟩
    refine World.exec_started he (fun task hset => ?_) t' ht'
    subst hset
    exact ho

/-- **Every record in Kafka was sent by `publish`.** -/
theorem routed_reachable (hinit : ∀ w, init w → ∀ r ∈ w.kafka, r.Routed)
    (hp : Pool.Reachable init Delivering p) : ∀ r ∈ p.world.kafka, r.Routed := by
  refine Pool.Reachable.induct (P := fun p : Pool application => ∀ r ∈ World.kafka p.world, r.Routed)
    hinit ?_ hp
  rintro p p' hp ih ⟨a, -, hn⟩
  cases a with
  | start t =>
    obtain rfl := Option.some.inj hn
    exact ih
  | tick d =>
    obtain rfl := Option.some.inj hn
    exact ih
  | run i c =>
    obtain ⟨t, o, k, w, v, ts, hi, he, rfl⟩ := Pool.next_run hn
    have hdoes : o.Routed := (routing_approves hp i _ hi).2.1
    intro r hr
    rcases World.exec_sent he hr with hr | ⟨topic, key, m, rfl, rfl⟩
    · exact ih r hr
    · exact hdoes

/-- **Exactly which messages go the same way**, in any run: two about one saga if both tell of a
step or neither does; two about one order if they carry the same first product, or none, and the
same correlation id.  No id the database draws is empty. -/
theorem sent_alike (hinit : ∀ w, init w → ∀ r ∈ w.kafka, r.Routed)
    (hp : Pool.Reachable init Delivering p) :
    (∀ y c, y ≠ "" → ∀ r ∈ p.world.kafka, ∀ r' ∈ p.world.kafka, Publishes y c r.message →
      Publishes y c r'.message →
        (r.Alike r' ↔ r.message.isStep = r'.message.isStep ∨ c = "")) ∧
    ∀ x, x ≠ "" → ∀ r ∈ p.world.kafka, ∀ r' ∈ p.world.kafka, OrderEvents x r.message →
      OrderEvents x r'.message →
        (r.Alike r' ↔
          r.message.items.head?.map productHash = r'.message.items.head?.map productHash ∧
          (truthy r.message.correlationId).getD x = (truthy r'.message.correlationId).getD x) := by
  have hrouted := routed_reachable hinit hp
  exact ⟨fun y c hy r hr r' hr' h h' => h.alike (hrouted r hr) (hrouted r' hr') hy h',
    fun x hx r hr r' hr' h h' => h.alike (hrouted r hr) (hrouted r' hr') hx h'⟩

end Routes

/-! ### An order that is paid -/

section Paid

open Samples

/-- An order is placed and paid, and everything that is to be told is told. -/
def paidTold : List (Action application) := placed ++ paid ++ paidRest

/-- What this leads to. -/
def paidTale : Pool application :=
  (Pool.play Delivering ⟨World.empty 0, []⟩ paidTold).get (by decide +kernel)

theorem paidTale_reachable : Pool.Reachable (fun w : World => w.kafka = []) Delivering paidTale :=
  Pool.reachable_of_play (show (World.empty 0).kafka = [] from rfl) _

theorem sent_alike_paid :
    (∀ y c, y ≠ "" → ∀ r ∈ paidTale.world.kafka, ∀ r' ∈ paidTale.world.kafka,
      Publishes y c r.message → Publishes y c r'.message →
        (r.Alike r' ↔ r.message.isStep = r'.message.isStep ∨ c = "")) ∧
    ∀ x, x ≠ "" → ∀ r ∈ paidTale.world.kafka, ∀ r' ∈ paidTale.world.kafka,
      OrderEvents x r.message → OrderEvents x r'.message →
        (r.Alike r' ↔
          r.message.items.head?.map productHash = r'.message.items.head?.map productHash ∧
          (truthy r.message.correlationId).getD x = (truthy r'.message.correlationId).getD x) := by
  refine sent_alike (fun w (hw : w.kafka = []) r hr => ?_) paidTale_reachable
  rw [hw] at hr
  exact absurd hr List.not_mem_nil

/-- The product that is ordered. -/
def orderedItem : OrderItem := ⟨"product-1", "P", 1, 10⟩

/-- The saga is started. -/
def startedRecord : KafkaRecord :=
  ⟨"saga-events-21af6b8b", some "key-1", .sagaStarted "saga-1" "OrderProcessingSaga" "key-1"
    ⟨some "order-1", some "user-1", some 10, some [orderedItem], some "somewhere"⟩⟩

/-- Its first step is done. -/
def stepRecord : KafkaRecord :=
  ⟨"saga-events", some "saga-1", .sagaStepCompleted "saga-1" "payment_processing"
    ["payment_processing"]⟩

/-- The order is created. -/
def createdRecord : KafkaRecord :=
  ⟨"order-events-product-42f1e2fa", some "key-1", .domain "OrderCreated" (.orderCreated
    ⟨"order-1", "user-1", 10, [orderedItem], "somewhere", some "key-1"⟩)⟩

/-- It is confirmed. -/
def confirmedRecord : KafkaRecord :=
  ⟨"order-events", some "key-1", .domain "OrderConfirmed" (.orderConfirmed
    ⟨"order-1", some "saga-1", 10, some "key-1"⟩)⟩

/-- **Neither the messages about the saga nor those about the order go the same way.** -/
theorem sent_apart : ∃ p : Pool application,
    Pool.Reachable (fun w : World => w.kafka = []) Delivering p ∧
    (∃ r ∈ p.world.kafka, ∃ r' ∈ p.world.kafka, Publishes "saga-1" "key-1" r.message ∧
      Publishes "saga-1" "key-1" r'.message ∧ ¬r.Alike r') ∧
    ∃ r ∈ p.world.kafka, ∃ r' ∈ p.world.kafka, OrderEvents "order-1" r.message ∧
      OrderEvents "order-1" r'.message ∧ ¬r.Alike r' := by
  refine ⟨paidTale, paidTale_reachable, ⟨startedRecord, by decide +kernel, stepRecord,
    by decide +kernel, .started _ _, .stepCompleted _ _, fun h => ?_⟩, createdRecord,
    by decide +kernel, confirmedRecord, by decide +kernel, .created _ rfl, .confirmed _ rfl,
    fun h => ?_⟩
  · exact absurd h.1 (by decide +kernel)
  · exact absurd h.1 (by decide +kernel)

end Paid

end CqrsSaga
