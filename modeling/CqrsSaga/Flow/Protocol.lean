import CqrsSaga.App.Rows
import CqrsSaga.App.System
import CqrsSaga.Async.Protocol

/-!
# The flow of orders

What the activities of the application agree on, whichever operations fail: whose duty it is to have
an order charged, to settle its payment and to confirm it.  A duty is passed on with
the event or callback it is passed on by, and may get lost on the way, but nobody ever
takes it up twice.  Locks play no part in this.

Some agreements depend on the runs looked at, the `Regime`: that certain orders are cancelled
only once their payment has failed, or confirmed by hand only under their payment, that steps
of a saga come in order, that a failure is handled only where the order has been cancelled,
and that what is drawn is fresh.

## Main definitions

* `Duty`, `Duties` — what is owed to an order, and by whom.
* `World.Orderly`, `World.Undone`, `World.CancelsFailed`, `World.ConfirmsPaid`, `World.Fresh`,
  `World.Overlooks` — conditions on single operations.
* `Event.Ok`, `EventStore.Ok` — what is known of an event, published or stored.
* `Flow.Known` — what is known of a saga, stored or in memory.
* `Flow.Inv`, `Flow.Grows`, `Flow.Leaves` — the invariant, what every step respects,
  and what the steps of others respect.
* `flow` — the protocol.

## Main results

* `Flow.Known.later`, `Event.Ok.later` — **what is known stays true.**
-/

namespace CqrsSaga

open SagaManager

/-- What is owed to an order. -/
inductive Duty
  /-- A payment is to be requested, and recorded as a step of the saga. -/
  | charge
  /-- The payment is to be settled. -/
  | settle
  /-- The order is to be confirmed. -/
  | confirm
  deriving DecidableEq

/-- Which activity has which duty to which order. -/
abbrev Duties := Duty → String → Option ℕ

/-- A duty passes to somebody, or to nobody. -/
def Duties.pass (g : Duties) (d : Duty) (x : String) (j : Option ℕ) : Duties :=
  fun d' x' => if d' = d ∧ x' = x then j else g d' x'

@[simp] theorem Duties.pass_self (g : Duties) (d : Duty) (x : String) (j : Option ℕ) :
    g.pass d x j d x = j := by simp [pass]

theorem Duties.pass_of_ne {g : Duties} {d d' : Duty} {x x' : String} (j : Option ℕ)
    (h : ¬(d' = d ∧ x' = x)) : g.pass d x j d' x' = g d' x' := if_neg h

/-- The runs looked at; by default all of them. -/
structure Regime where
  /-- These orders are cancelled only once their payment has failed. -/
  spared : String → Prop := fun _ => False
  /-- These orders are confirmed by hand only under the id of a completed payment of theirs. -/
  vouched : String → Prop := fun _ => False
  /-- What is known of the operations an activity performs. -/
  known : ℕ → World → Op → Prop := fun _ _ _ => True
  /-- The confirmation of an order comes after its payment step, and does not fail. -/
  orderly : Prop := False
  /-- Failures are handled only for cancelled orders, which stay cancelled. -/
  undone : Prop := False
  /-- Correlation ids tell orders apart: what is drawn is fresh. -/
  traced : Prop := False
  /-- The correlation ids that are drawn. -/
  uuid : String → Prop := fun _ => True
  /-- Only their sagas cancel or confirm these orders. -/
  untouched : String → Prop := fun _ => False
  /-- Orders may be placed under this key, with these items. -/
  placed : String → List OrderItem → Prop := fun _ _ => True

/-! ### What an operation is about -/

namespace Op

/-- The step an operation reports as failed. -/
def failedStep? : Op → Option String
  | .log (.stepFailed stepName _) => some stepName
  | _ => none

/-- The key of the lock an operation tries for. -/
def lockKey? : Op → Option String
  | .redisSet key _ _ => some key
  | _ => none

/-- The saga whose failure an operation begins to handle. -/
def failedSaga? : Op → Option String
  | .txSagaFindOne _ id => some id
  | _ => none

/-- How an operation looks for an order. -/
def orderQuery? : Op → Option OrderWhere
  | .orderFindOne q => some q
  | _ => none

end Op

namespace World

/-- The operation does not report a failed confirmation, nor does it try for the lock of a
confirmation before the payment step is recorded. -/
def Orderly (w : World) (o : Op) : Prop :=
  (∀ s ∈ o.failedStep?, s ≠ "order_confirmation") ∧
    ∀ key ∈ o.lockKey?, ∀ s ∈ w.sagas, key = "lock:" ++ stepLock s.id "order_confirmation" →
      "payment_processing" ∈ s.completedSteps

/-- The operation does not begin to handle a failure of a saga whose order is not cancelled,
nor does it make a cancelled order anything else. -/
def Undone (w : World) (o : Op) : Prop :=
  (∀ id ∈ o.failedSaga?, ∀ s ∈ w.sagas, s.id = id → ∀ x ∈ s.data.orderId, w.Cancelled x) ∧
    ∀ y ∈ o.savedOrder?, y.status = .cancelled ∨ ¬w.Cancelled y.id

/-- If the operation finds the order `x`, and finds it neither cancelled nor delivered, the payment
of the order has failed. -/
def CancelsFailed (w : World) (x : String) (o : Op) : Prop :=
  ∀ q ∈ o.orderQuery?, ∀ y ∈ w.orders.find? q.selects, y.id = x → y.status ≠ .cancelled →
    y.status ≠ .delivered → w.Outcome x .failed

/-- If the operation finds the order `x` pending, the payment it is to be confirmed under is a
completed one of the order. -/
def ConfirmsPaid (w : World) (x : String) (paymentId : Option String) (o : Op) : Prop :=
  ∀ q ∈ o.orderQuery?, ∀ y ∈ w.orders.find? q.selects, y.id = x → y.status = .pending →
    w.PaidBy x (paymentId <|> y.paymentId)

/-- What the operation draws is fresh: no key is among the correlation ids that are drawn, and
no payment has the id of an order. -/
def Fresh (w : World) (uuid : String → Prop) (o : Op) (c : Choice) : Prop :=
  match o with
  | .uuidv4 => uuid c.text
  | .orderInsert n => (∀ k ∈ n.idempotencyKey, ¬uuid k) ∧ ∀ p ∈ w.payments, p.id ≠ c.text
  | .paymentInsert _ => ∀ o ∈ w.orders, o.id ≠ c.text
  | _ => True

/-- The operation does not list any of these orders. -/
def Overlooks (w : World) (xs : String → Prop) (o : Op) : Prop :=
  match o with
  | .orderFind q => ∀ y ∈ w.orders, xs y.id → q.selects y = false
  | _ => True

instance (w : World) (o : Op) : Decidable (w.Orderly o) :=
  inferInstanceAs (Decidable ((∀ s ∈ o.failedStep?, _) ∧ ∀ key ∈ o.lockKey?, ∀ s ∈ w.sagas.rows, _))

instance (w : World) (o : Op) : Decidable (w.Undone o) :=
  inferInstanceAs (Decidable ((∀ id ∈ o.failedSaga?, ∀ s ∈ w.sagas.rows, _) ∧
    ∀ y ∈ o.savedOrder?, _))

instance (w : World) (x : String) (o : Op) : Decidable (w.CancelsFailed x o) :=
  inferInstanceAs (Decidable (∀ q ∈ o.orderQuery?, ∀ y ∈ w.orders.find? q.selects, _))

instance (w : World) (x : String) (paymentId : Option String) (o : Op) :
    Decidable (w.ConfirmsPaid x paymentId o) :=
  inferInstanceAs (Decidable (∀ q ∈ o.orderQuery?, ∀ y ∈ w.orders.find? q.selects, _))

/-- The saga belongs to the order `x`. -/
def SagaOf (w : World) (x id : String) : Prop :=
  ∃ s ∈ w.sagas, s.id = id ∧ s.data.orderId = some x

end World

/-- The correlation id `c` belongs to the order `x`: it is its key, or, where others than its
saga may touch the order, one that was drawn. -/
def Attributed (R : Regime) (w : World) (x : String) (c : Option String) : Prop :=
  ∃ k, c = some k ∧ (w.Keyed x k ∨ ¬R.untouched x ∧ R.uuid k)

/-- What an event says is stored. -/
def Event.Stored (w : World) : Event → Prop
  | .orderCreated e => ∃ o ∈ w.orders, o.id = e.orderId ∧ o.userId = e.userId ∧
      decimal102 e.totalAmount = some o.totalAmount ∧ o.idempotencyKey = e.correlationId
  | .paymentProcessed e =>
      (∃ p ∈ w.payments, p.id = e.paymentId ∧ p.orderId = e.orderId ∧ p.status = .completed) ∧
        ∃ k, e.correlationId = some k ∧ w.Keyed e.orderId k
  | .paymentFailed e =>
      (∃ p ∈ w.payments, p.id = e.paymentId ∧ p.orderId = e.orderId ∧ p.status = .failed) ∧
        ∃ k, e.correlationId = some k ∧ w.Keyed e.orderId k
  | .paymentRefunded e => ∃ p ∈ w.payments, p.id = e.paymentId ∧ p.orderId = e.orderId
  | _ => True

/-- What is known of an event. -/
structure Event.Ok (R : Regime) (w : World) (e : Event) : Prop where
  stored : e.Stored w
  attributed : R.traced → Attributed R w e.orderId e.correlationId

/-- What is known of a stored event. -/
structure EventStore.Ok (R : Regime) (w : World) (e : EventStore) : Prop where
  aggregate : e.aggregateId = e.eventData.orderId ∨
    ∃ p ∈ w.payments, p.id = e.aggregateId ∧ p.orderId = e.eventData.orderId
  attributed : R.traced → Attributed R w e.eventData.orderId e.correlationId

/-- No duty goes with the event. -/
def Event.Plain : Event → Prop
  | .orderCreated _ => False
  | .paymentProcessed _ => False
  | .paymentFailed _ => False
  | _ => True

namespace Flow

/-- What is known of a saga of the order `x`, be it a stored row or one in memory. -/
structure Known (R : Regime) (x : String) (y : SagaInstance) (w : World) (g : Duties) : Prop where
  order : y.data.orderId = some x
  user : y.data.userId ≠ none
  key : w.Keyed x y.correlationId
  row : ∃ s ∈ w.sagas, s.core = y.core
  undone : R.undone → y.status = .compensated → w.Cancelled x
  done : R.orderly → y.status = .completed →
    "payment_processing" ∈ y.completedSteps ∧ "order_confirmation" ∈ y.completedSteps
  charged : R.orderly → ∀ i, g .charge x = some i → "payment_processing" ∉ y.completedSteps
  confirmed : "order_confirmation" ∈ y.completedSteps → w.Decided x

/-- What is known of orders, apart from duties. -/
structure Books (R : Regime) (w : World) : Prop where
  columns : ∀ o ∈ w.orders, (∃ k, o.idempotencyKey = some k ∧ k ≠ "") ∧
    decimal102 o.totalAmount = some o.totalAmount
  statuses : ∀ o ∈ w.orders, o.status = .pending ∨ o.status = .paid ∨ o.status = .cancelled
  paid : ∀ o ∈ w.orders, R.vouched o.id → o.status = .paid → w.PaidBy o.id o.paymentId
  keys : R.traced → ∀ o ∈ w.orders, ∀ k ∈ o.idempotencyKey, ¬R.uuid k
  ids : R.traced → ∀ o ∈ w.orders, ∀ p ∈ w.payments, p.id ≠ o.id
  placed : ∀ o ∈ w.orders, ∀ k ∈ o.idempotencyKey, R.placed k o.items
  stored : ∀ e ∈ w.eventStore, e.Ok R w

/-- The invariant. -/
structure Inv (R : Regime) (w : World) (g : Duties) : Prop where
  tx : w.TxOk
  books : Books R w
  spared : ∀ x, R.spared x → w.Cancelled x → w.Outcome x .failed
  payments : ∀ p ∈ w.payments, ∃ o ∈ w.orders, o.id = p.orderId ∧ o.userId = p.userId ∧
    o.totalAmount = p.amount
  single : ∀ p ∈ w.payments, ∀ q ∈ w.payments, p.orderId = q.orderId → p = q
  sagas : ∀ s ∈ w.sagas, ∃ x, Known R x s w g
  pending : ∀ y, w.Pending y → (∃ x, Known R x y w g) ∧ w.Steps y.id y.completedSteps
  events : ∀ e ∈ w.published, e.Ok R w
  charging : ∀ x i, g .charge x = some i → ∃ o ∈ w.orders, o.id = x
  settling : ∀ x i, g .settle x = some i → w.Outcome x .processing
  confirming : ∀ x i, g .confirm x = some i → w.Outcome x .completed

/-- What every step respects: rows stay, with the columns nothing changes; a settled payment
stays settled, and nobody takes up a charge that was dropped. -/
structure Grows (R : Regime) (w : World) (g : Duties) (w' : World) (g' : Duties) : Prop where
  orders : ∀ o ∈ w.orders, ∃ o' ∈ w'.orders, o'.core = o.core
  cancelled : R.undone → ∀ x, w.Cancelled x → w'.Cancelled x
  decided : ∀ x, w.Decided x → w'.Decided x
  payments : ∀ p ∈ w.payments, ∃ p' ∈ w'.payments, p'.core = p.core ∧
    (p.status = .completed ∨ p.status = .failed → p'.status = p.status)
  sagas : ∀ s ∈ w.sagas, ∃ s' ∈ w'.sagas, s'.core = s.core
  runners : w.runners <+: w'.runners
  charge : ∀ x i, (∃ o ∈ w.orders, o.id = x) → g' .charge x = some i → ∃ j, g .charge x = some j

/-- The order `x` has been charged, and its saga has these steps. -/
def Charged (x id : String) (l : List String) (w : World) (g : Duties) : Prop :=
  g .charge x = none ∧ w.SagaOf x id ∧ w.Steps id l

/-- What the steps of others respect, as far as activity `i` is concerned. -/
structure Leaves (R : Regime) (i : ℕ) (w : World) (g : Duties) (w' : World) (g' : Duties) :
    Prop where
  duties : ∀ d x, g d x = some i ↔ g' d x = some i
  charge : ∀ x, g .charge x = some i → w.Unpaid x → w'.Unpaid x
  settle : ∀ x, g .settle x = some i → ∀ p ∈ w.payments, p.orderId = x → p ∈ w'.payments
  confirm : R.orderly → ∀ x id l, g .confirm x = some i → Charged x id l w g →
    Charged x id l w' g'
  tx : w.TxKeep i w'
  runners : w.runners <+: w'.runners

/-- Activity `i` is to have the order of the event charged, and has not done so. -/
structure Driving (R : Regime) (i : ℕ) (e : OrderCreatedEvent) (w : World) (g : Duties) :
    Prop where
  event : (Event.orderCreated e).Ok R w
  duty : g .charge e.orderId = some i
  unpaid : w.Unpaid e.orderId

/-- Activity `i` settles the payment `p`, which is stored up to rounding. -/
structure Settling (i : ℕ) (p : Payment) (w : World) (g : Duties) : Prop where
  duty : g .settle p.orderId = some i
  row : ∃ q ∈ w.payments, q.id = p.id ∧ q.orderId = p.orderId ∧ q.userId = p.userId ∧
    decimal102 p.amount = some q.amount

/-- The order was read. -/
def Loaded (y : Order) (w : World) : Prop := ∃ o ∈ w.orders, o.core = y.core

/-- What an activity may assume that does work handed over to it. -/
def TaskBorn (R : Regime) (i : ℕ) (w : World) (g : Duties) : Task → Prop
  | .publishAll events =>
      (∃ e, events = [.orderCreated e] ∧ Driving R i e w g) ∨
        ∀ e ∈ events, e.Plain ∧ e.Ok R w
  | .publishSagaEvent _ => True
  | .externalPayment p correlationId =>
      Settling i p w g ∧ ∃ k, correlationId = some k ∧ w.Keyed p.orderId k
  | .deliver (.orderCreatedHandler e) => Driving R i e w g
  | .deliver (.paymentProcessedSagaHandler e) =>
      (Event.paymentProcessed e).Ok R w ∧ g .confirm e.orderId = some i
  | .deliver d => d.event.Ok R w

/-- What an activity may assume when it starts. -/
def JobBorn [Hashes] (R : Regime) (i : ℕ) (w : World) (g : Duties) : Job → Prop
  | .request (.createOrder dto _) => R.placed (OrderController.idempotencyKey dto) dto.items
  | .request (.createTestOrder dto _) => R.placed (OrderController.idempotencyKey dto) dto.items
  | .request (.cancelOrder id _ _) =>
      (R.spared id → ∀ w o, R.known i w o → w.CancelsFailed id o) ∧ ¬R.untouched id
  | .request (.confirmOrder id paymentId) =>
      (R.vouched id → ∀ w o, R.known i w o → w.ConfirmsPaid id paymentId o) ∧ ¬R.untouched id
  | .request .cleanupPendingOrders =>
      ∀ x, R.spared x → ∀ w o, R.known i w o → w.CancelsFailed x o
  | .request _ => True
  | .task t => TaskBorn R i w g t

/-- Who is refused as a duplicate is told the order that is stored under the key. -/
def Refused {α : Type} (k : String) (r : Except Err α) (w : World) : Prop :=
  ∀ x k', r = .error (.duplicateOrder x k') → w.Keyed x k

/-- What an activity has established when it has ended. -/
def JobDone [Hashes] (r : Except Err Answer) (w : World) : Job → Prop
  | .request (.createOrder dto _) => Refused (OrderController.idempotencyKey dto) r w
  | .request (.createTestOrder dto _) => Refused (OrderController.idempotencyKey dto) r w
  | _ => True

end Flow

open CqrsSaga.Flow in
/-- **What the activities agree on.** -/
def flow [Hashes] (R : Regime) : Protocol application where
  Ghost := Duties
  Inv := Inv R
  Mono := Grows R
  Keep := Leaves R
  CanRun := fun w _ i o c => ((R.orderly → w.Orderly o) ∧ (R.undone → w.Undone o)) ∧
    (R.traced → w.Fresh R.uuid o c) ∧ w.Overlooks R.untouched o ∧ R.known i w o
  Assert := fun _ o w _ => ∀ y ∈ o.savedOrder?, Loaded y w
  Fits := fun g l => ∀ d x i, g d x = some i → i < l.length
  Born := fun i t w g => JobBorn R i w g t
  Post := fun _ t r w _ => JobDone r w t
  mono_refl := fun w g => ⟨fun o ho => ⟨o, ho, rfl⟩, fun _ _ h => h, fun _ h => h,
    fun p hp => ⟨p, hp, rfl, fun _ => rfl⟩, fun s hs => ⟨s, hs, rfl⟩, List.prefix_rfl,
    fun _ i _ h => ⟨i, h⟩⟩
  mono_trans := by
    intro w g w' g' w'' g'' h h'
    refine ⟨fun o ho => ?_, fun hR x hx => h'.cancelled hR x (h.cancelled hR x hx),
      fun x hx => h'.decided x (h.decided x hx), fun p hp => ?_, fun s hs => ?_,
      h.runners.trans h'.runners, fun x i ho hi => ?_⟩
    · obtain ⟨o', ho', hc⟩ := h.orders o ho
      obtain ⟨o'', ho'', hc'⟩ := h'.orders o' ho'
      exact ⟨o'', ho'', hc'.trans hc⟩
    · obtain ⟨p', hp', hc, hs⟩ := h.payments p hp
      obtain ⟨p'', hp'', hc', hs'⟩ := h'.payments p' hp'
      refine ⟨p'', hp'', hc'.trans hc, fun hst => ?_⟩
      rw [hs' (by rw [hs hst]; exact hst), hs hst]
    · obtain ⟨s', hs', hc⟩ := h.sagas s hs
      obtain ⟨s'', hs'', hc'⟩ := h'.sagas s' hs'
      exact ⟨s'', hs'', hc'.trans hc⟩
    · obtain ⟨o, ho, rfl⟩ := ho
      obtain ⟨o', ho', hc⟩ := h.orders o ho
      obtain ⟨j, hj⟩ := h'.charge o.id i ⟨o', ho', (Order.core_eq.mp hc).1⟩ hi
      exact h.charge o.id j ⟨o, ho, rfl⟩ hj
  keep_refl := fun i w _ => ⟨fun _ _ => Iff.rfl, fun _ _ h => h, fun _ _ _ h _ => h,
    fun _ _ _ _ _ h => h, .refl i w, List.prefix_rfl⟩
  keep_trans := by
    intro i w g w' g' w'' g'' h h'
    refine ⟨fun d x => (h.duties d x).trans (h'.duties d x), fun x hx hu => ?_, fun x hx p hp hpx => ?_,
      fun hR x id l hx hc => ?_, h.tx.trans h.runners h'.tx, h.runners.trans h'.runners⟩
    · exact h'.charge x ((h.duties _ x).mp hx) (h.charge x hx hu)
    · exact h'.settle x ((h.duties _ x).mp hx) p (h.settle x hx p hp hpx) hpx
    · exact h'.confirm hR x id l ((h.duties _ x).mp hx) (h.confirm hR x id l hx hc)

namespace Flow

variable {R : Regime} {w w' : World} {g g' : Duties} {x k : String} {i : ℕ}

/-! ### What is known stays true -/

theorem Grows.keyed (h : Grows R w g w' g') (hx : w.Keyed x k) : w'.Keyed x k := by
  obtain ⟨o, ho, rfl, hk⟩ := hx
  obtain ⟨o', ho', hc⟩ := h.orders o ho
  obtain ⟨hid, -, -, hkey, -⟩ := Order.core_eq.mp hc
  exact ⟨o', ho', hid, hkey.trans hk⟩

theorem Grows.sagaOf {id : String} (h : Grows R w g w' g') (hx : w.SagaOf x id) :
    w'.SagaOf x id := by
  obtain ⟨s, hs, rfl, hd⟩ := hx
  obtain ⟨s', hs', hc⟩ := h.sagas s hs
  obtain ⟨hid, -, -, hdata⟩ := SagaInstance.core_eq.mp hc
  exact ⟨s', hs', hid, by rw [hdata, hd]⟩

/-- A settled payment stays settled. -/
theorem Grows.outcome {status : PaymentStatus} (h : Grows R w g w' g')
    (hs : status = .completed ∨ status = .failed) (hx : w.Outcome x status) :
    w'.Outcome x status := by
  obtain ⟨p, hp, rfl, rfl⟩ := hx
  obtain ⟨p', hp', hc, hst⟩ := h.payments p hp
  exact ⟨p', hp', (Payment.core_eq.mp hc).2.1, hst hs⟩

/-- A completed payment stays the one it is. -/
theorem Grows.paidBy {paymentId : Option String} (h : Grows R w g w' g')
    (hx : w.PaidBy x paymentId) : w'.PaidBy x paymentId := by
  obtain ⟨p, hp, hid, ho, hs⟩ := hx
  obtain ⟨p', hp', hc, hst⟩ := h.payments p hp
  obtain ⟨hid', ho', -⟩ := Payment.core_eq.mp hc
  exact ⟨p', hp', hid.trans (congrArg some hid'.symm), ho'.trans ho, (hst (Or.inl hs)).trans hs⟩

theorem Grows.attributed {c : Option String} (h : Grows R w g w' g') (hx : Attributed R w x c) :
    Attributed R w' x c := by
  obtain ⟨k, hk, hx⟩ := hx
  exact ⟨k, hk, hx.imp_left h.keyed⟩

theorem Known.later {y : SagaInstance} (h : Known R x y w g) (hg : Grows R w g w' g') :
    Known R x y w' g' where
  order := h.order
  user := h.user
  key := hg.keyed h.key
  row := by
    obtain ⟨s, hs, hc⟩ := h.row
    obtain ⟨s', hs', hc'⟩ := hg.sagas s hs
    exact ⟨s', hs', hc'.trans hc⟩
  undone := fun hR hst => hg.cancelled hR x (h.undone hR hst)
  done := h.done
  charged := by
    intro hR i hi
    obtain ⟨o, ho, hid, -⟩ := h.key
    obtain ⟨j, hj⟩ := hg.charge x i ⟨o, ho, hid⟩ hi
    exact h.charged hR j hj
  confirmed := fun hs => hg.decided x (h.confirmed hs)

end Flow

open CqrsSaga.Flow in
theorem Event.Stored.later {R : Regime} {w w' : World} {g g' : Duties} {e : Event}
    (h : e.Stored w) (hg : Grows R w g w' g') : e.Stored w' := by
  cases e with
  | orderCreated e =>
    obtain ⟨o, ho, hid, hu, ha, hk⟩ := h
    obtain ⟨o', ho', hc⟩ := hg.orders o ho
    obtain ⟨hid', hu', ha', hk', -⟩ := Order.core_eq.mp hc
    exact ⟨o', ho', hid'.trans hid, hu'.trans hu, by rw [ha', ha], hk'.trans hk⟩
  | paymentProcessed e =>
    obtain ⟨⟨p, hp, hid, ho, hs⟩, k, hk, hkey⟩ := h
    obtain ⟨p', hp', hc, hst⟩ := hg.payments p hp
    obtain ⟨hid', ho', -⟩ := Payment.core_eq.mp hc
    exact ⟨⟨p', hp', hid'.trans hid, ho'.trans ho, (hst (Or.inl hs)).trans hs⟩, k, hk,
      hg.keyed hkey⟩
  | paymentFailed e =>
    obtain ⟨⟨p, hp, hid, ho, hs⟩, k, hk, hkey⟩ := h
    obtain ⟨p', hp', hc, hst⟩ := hg.payments p hp
    obtain ⟨hid', ho', -⟩ := Payment.core_eq.mp hc
    exact ⟨⟨p', hp', hid'.trans hid, ho'.trans ho, (hst (Or.inr hs)).trans hs⟩, k, hk,
      hg.keyed hkey⟩
  | paymentRefunded e =>
    obtain ⟨p, hp, hid, ho⟩ := h
    obtain ⟨p', hp', hc, -⟩ := hg.payments p hp
    obtain ⟨hid', ho', -⟩ := Payment.core_eq.mp hc
    exact ⟨p', hp', hid'.trans hid, ho'.trans ho⟩
  | _ => exact trivial

open CqrsSaga.Flow in
theorem Event.Ok.later {R : Regime} {w w' : World} {g g' : Duties} {e : Event} (h : e.Ok R w)
    (hg : Grows R w g w' g') : e.Ok R w' :=
  ⟨h.stored.later hg, fun hR => hg.attributed (h.attributed hR)⟩

open CqrsSaga.Flow in
theorem EventStore.Ok.later {R : Regime} {w w' : World} {g g' : Duties} {e : EventStore}
    (h : e.Ok R w) (hg : Grows R w g w' g') : e.Ok R w' := by
  refine ⟨h.aggregate.imp_right fun ⟨p, hp, hid, ho⟩ => ?_,
    fun hR => hg.attributed (h.attributed hR)⟩
  obtain ⟨p', hp', hc, -⟩ := hg.payments p hp
  obtain ⟨hid', ho', -⟩ := Payment.core_eq.mp hc
  exact ⟨p', hp', hid'.trans hid, ho'.trans ho⟩

end CqrsSaga
