import CqrsSaga.App.Values
import CqrsSaga.Store.Table

/-!
# Entities

The rows of the four tables the order flow writes.  A `New…` structure is what
`repository.create` is given; the row adds what the database generates.

## Main definitions

* `Order`, `Payment`, `SagaInstance`, `EventStore` — the rows.
* `OrderTable`, `PaymentTable`, `SagaTable` — the tables; only `orders` has a unique
  index besides its primary key, on `idempotencyKey`.
-/

namespace CqrsSaga

/-! ### Orders -/

/-- The status of an order. -/
inductive OrderStatus
  | pending | processing | paid | shipped | delivered | cancelled | failed
  deriving DecidableEq, Repr

/-- The value of the enum member, as it is stored and sent. -/
def OrderStatus.value : OrderStatus → String
  | .pending => "pending"
  | .processing => "processing"
  | .paid => "paid"
  | .shipped => "shipped"
  | .delivered => "delivered"
  | .cancelled => "cancelled"
  | .failed => "failed"

/-- One line of an order. -/
structure OrderItem where
  productId : String
  productName : String
  quantity : ℚ
  price : ℚ
  deriving DecidableEq, Repr

/-- The columns of an order the application fills in. -/
structure NewOrder where
  userId : String
  totalAmount : ℚ
  items : List OrderItem
  shippingAddress : String
  status : OrderStatus
  idempotencyKey : Option String
  deriving DecidableEq, Repr

/-- A row of `orders`. -/
structure Order extends NewOrder where
  id : String
  paymentId : Option String
  createdAt : ℕ
  updatedAt : ℕ
  deriving DecidableEq, Repr

/-! ### Payments -/

/-- The status of a payment. -/
inductive PaymentStatus
  | pending | processing | completed | failed | refunded
  deriving DecidableEq, Repr

/-- How a payment is made. -/
inductive PaymentMethod
  | creditCard | debitCard | bankTransfer | digitalWallet
  deriving DecidableEq, Repr

/-- The columns of a payment the application fills in. -/
structure NewPayment where
  orderId : String
  userId : String
  amount : ℚ
  method : PaymentMethod
  status : PaymentStatus
  deriving DecidableEq, Repr

/-- A row of `payments`. -/
structure Payment extends NewPayment where
  id : String
  externalTransactionId : Option String
  failureReason : Option String
  deriving DecidableEq, Repr

/-! ### Sagas -/

/-- The status of a saga. -/
inductive SagaStatus
  | started | completed | failed | compensating | compensated
  deriving DecidableEq, Repr

/-- The `jsonb` column of a saga; a field that is absent is not in the object. -/
structure SagaData where
  orderId : Option String := none
  userId : Option String := none
  totalAmount : Option ℚ := none
  items : Option (List OrderItem) := none
  shippingAddress : Option String := none
  deriving DecidableEq, Repr

/-- The columns of a saga the application fills in. -/
structure NewSaga where
  sagaType : String
  correlationId : String
  status : SagaStatus
  data : SagaData
  completedSteps : List String
  compensationSteps : List String
  currentStep : String
  deriving DecidableEq, Repr

/-- A row of `saga_instances`. -/
structure SagaInstance extends NewSaga where
  id : String
  errorMessage : Option String
  createdAt : ℕ
  updatedAt : ℕ
  deriving DecidableEq, Repr

/-- The saga has this type and correlation id. -/
def SagaInstance.Is (s : SagaInstance) (sagaType correlationId : String) : Prop :=
  s.sagaType = sagaType ∧ s.correlationId = correlationId

/-! ### The event store -/

/-- The `jsonb` column of a stored event. -/
inductive EventData
  | orderCreated (orderId userId : String) (totalAmount : ℚ) (items : List OrderItem)
      (shippingAddress : String)
  | orderCancelled (orderId userId : String) (reason : Option String)
  | orderConfirmed (orderId : String) (paymentId : Option String) (totalAmount : ℚ)
  | orderStatusChanged (orderId previousStatus newStatus : String)
  | paymentProcessed (paymentId orderId userId : String) (amount : ℚ)
      (externalTransactionId : String)
  | paymentFailed (paymentId orderId userId : String) (amount : ℚ) (failureReason : String)
  | paymentRefunded (paymentId orderId : String) (refundAmount : ℚ) (reason : String)
  deriving DecidableEq, Repr

/-- The field `orderId`: every event has one. -/
def EventData.orderId : EventData → String
  | orderCreated orderId _ _ _ _ => orderId
  | orderCancelled orderId _ _ => orderId
  | orderConfirmed orderId _ _ => orderId
  | orderStatusChanged orderId _ _ => orderId
  | paymentProcessed _ orderId _ _ _ => orderId
  | paymentFailed _ orderId _ _ _ => orderId
  | paymentRefunded _ orderId _ _ => orderId

/-- A row of `event_store`. -/
structure EventStore where
  aggregateId : String
  aggregateType : String
  eventType : String
  eventData : EventData
  correlationId : Option String
  deriving DecidableEq, Repr

/-! ### Tables -/

/-- No unique index. -/
def noIndex {ρ : Type} (_ : ρ) : Option Unit := none

/-- The orders; `idempotencyKey` is unique. -/
abbrev OrderTable := Table Order.id fun o => o.idempotencyKey

/-- The payments. -/
abbrev PaymentTable := Table Payment.id noIndex

/-- The sagas. -/
abbrev SagaTable := Table SagaInstance.id noIndex

/-- The conditions of a query on orders; an absent one (`undefined`) restricts nothing. -/
structure OrderWhere where
  id : Option String := none
  userId : Option String := none
  status : Option OrderStatus := none
  idempotencyKey : Option String := none
  deriving DecidableEq, Repr

/-- The conditions of a query on payments. -/
structure PaymentWhere where
  id : Option String := none
  orderId : Option String := none
  deriving DecidableEq, Repr

/-- The conditions of a query on sagas. -/
structure SagaWhere where
  id : Option String := none
  sagaType : Option String := none
  correlationId : Option String := none
  /-- The whole `jsonb` column is compared. -/
  data : Option SagaData := none
  deriving DecidableEq, Repr

/-- A condition holds of a value, or is absent. -/
def meets {α : Type} [DecidableEq α] (cond : Option α) (v : α) : Bool :=
  match cond with
  | some c => decide (c = v)
  | none => true

@[simp] theorem meets_none {α : Type} [DecidableEq α] (v : α) : meets none v = true := rfl

@[simp] theorem meets_some {α : Type} [DecidableEq α] (c v : α) :
    meets (some c) v = true ↔ c = v := by simp [meets]

/-- The orders a query selects. -/
def OrderWhere.selects (q : OrderWhere) (o : Order) : Bool :=
  meets q.id o.id && meets q.userId o.userId && meets q.status o.status &&
    (match q.idempotencyKey with
      | some k => decide (o.idempotencyKey = some k)
      | none => true)

/-- The payments a query selects. -/
def PaymentWhere.selects (q : PaymentWhere) (p : Payment) : Bool :=
  meets q.id p.id && meets q.orderId p.orderId

/-- The sagas a query selects. -/
def SagaWhere.selects (q : SagaWhere) (s : SagaInstance) : Bool :=
  meets q.id s.id && meets q.sagaType s.sagaType && meets q.correlationId s.correlationId &&
    meets q.data s.data

/-! ### What is selected -/

theorem OrderWhere.selects_id {q : OrderWhere} {o : Order} {x : String} (h : q.selects o = true)
    (hq : q.id = some x) : o.id = x := by
  simp only [selects, hq, Bool.and_eq_true, meets_some] at h
  exact h.1.1.1.symm

theorem OrderWhere.selects_userId {q : OrderWhere} {o : Order} {u : String} (h : q.selects o = true)
    (hq : q.userId = some u) : o.userId = u := by
  simp only [selects, hq, Bool.and_eq_true, meets_some] at h
  exact h.1.1.2.symm

theorem OrderWhere.selects_key {q : OrderWhere} {o : Order} {k : String} (h : q.selects o = true)
    (hq : q.idempotencyKey = some k) : o.idempotencyKey = some k := by
  simp only [selects, hq, Bool.and_eq_true, decide_eq_true_eq] at h
  exact h.2

theorem PaymentWhere.selects_id {q : PaymentWhere} {p : Payment} {x : String}
    (h : q.selects p = true) (hq : q.id = some x) : p.id = x := by
  simp only [selects, hq, Bool.and_eq_true, meets_some] at h
  exact h.1.symm

theorem PaymentWhere.selects_orderId {q : PaymentWhere} {p : Payment} {x : String}
    (h : q.selects p = true) (hq : q.orderId = some x) : p.orderId = x := by
  simp only [selects, hq, Bool.and_eq_true, meets_some] at h
  exact h.2.symm

theorem SagaWhere.selects_id {q : SagaWhere} {s : SagaInstance} {y : String}
    (h : q.selects s = true)
    (hq : q.id = some y) : s.id = y := by
  simp only [selects, hq, Bool.and_eq_true, meets_some] at h
  exact h.1.1.1.symm

theorem SagaWhere.selects_correlationId {q : SagaWhere} {s : SagaInstance} {k : String}
    (h : q.selects s = true) (hq : q.correlationId = some k) : s.correlationId = k := by
  simp only [selects, hq, Bool.and_eq_true, meets_some] at h
  exact h.1.2.symm

end CqrsSaga
