import CqrsSaga.App.Handlers

/-!
# The controllers

The requests that move orders: `OrderController`, and the cleanup of
`SagaMaintenanceController`.  The user is the one the guard has authenticated.  The report of
`SagaMaintenanceController` is made of counts, all taken in one state here.  `RedisTestController`
has no guard: whoever likes may take a lock through it, be it one the sagas need.

## Main definitions

* `CreateOrderDto.Validates` — what the validation of a request asks.
* `OrderController.createOrder`, `createTestOrder`, `cancelOrder`, `confirmOrder`.
* `SagaMaintenanceController.cleanupPendingOrders`, `getSagaHealth`.
* `RedisTestController.testDistributedLock`, `testSagaCreation`, `checkLockStatus`,
  `manualLockTest`.
-/

namespace CqrsSaga

/-- The body of a request to create an order. -/
structure CreateOrderDto where
  items : List OrderItem
  shippingAddress : String
  idempotencyKey : Option String
  deriving DecidableEq

/-- The validation of a line: `@Min(1)` for the quantity, `@Min(0)` for the price. -/
def OrderItem.Validates (item : OrderItem) : Prop := 1 ≤ item.quantity ∧ 0 ≤ item.price

/-- The validation of the body: `@ValidateNested({ each: true })`. -/
def CreateOrderDto.Validates (dto : CreateOrderDto) : Prop := ∀ item ∈ dto.items, item.Validates

instance (item : OrderItem) : Decidable item.Validates :=
  inferInstanceAs (Decidable (1 ≤ item.quantity ∧ 0 ≤ item.price))

instance (dto : CreateOrderDto) : Decidable dto.Validates :=
  inferInstanceAs (Decidable (∀ item ∈ dto.items, item.Validates))

/-- What a request to create an order answers. -/
structure OrderResponseDto where
  id : String
  userId : String
  totalAmount : ℚ
  status : OrderStatus
  items : List OrderItem
  shippingAddress : String
  createdAt : ℕ
  updatedAt : ℕ
  deriving DecidableEq, Repr

namespace OrderController

section Create

variable [Hashes]

/-- The products of an order, whatever their order, quantities and prices. -/
def productData (items : List OrderItem) : String :=
  "|".intercalate <| sortStrings <|
    items.map fun item => (truthy (some item.productId)).getD item.productName

/-- The idempotency key of a request: the client's, or one derived from the products. -/
def idempotencyKey (dto : CreateOrderDto) : String :=
  (truthy dto.idempotencyKey).getD (Hashes.sha256hex ("SOLDOUT:" ++ productData dto.items))

theorem idempotencyKey_ne (dto : CreateOrderDto) : idempotencyKey dto ≠ "" := by
  unfold idempotencyKey
  cases h : truthy dto.idempotencyKey with
  | none => exact sha256hex_ne _
  | some k => exact (truthy_eq_some.mp h).2

/-- The answer to a request to create an order. -/
def response (order : Order) : OrderResponseDto where
  id := order.id
  userId := order.userId
  totalAmount := order.totalAmount
  status := order.status
  items := order.items
  shippingAddress := order.shippingAddress
  createdAt := order.createdAt
  updatedAt := order.updatedAt

/-- What the two endpoints that create orders do. -/
def placeOrder (dto : CreateOrderDto) (userId : String) : Async App OrderResponseDto := do
  let order ← CreateOrderHandler.execute
    ⟨userId, dto.items, dto.shippingAddress, some (idempotencyKey dto)⟩
  return response order

/-- `POST /orders`. -/
def createOrder (dto : CreateOrderDto) (userId : String) : Async App OrderResponseDto :=
  placeOrder dto userId

/-- `POST /orders/test/create`. -/
def createTestOrder (dto : CreateOrderDto) (userId : String) : Async App OrderResponseDto :=
  placeOrder dto userId

end Create

/-- `DELETE /orders/:id`. -/
def cancelOrder (id userId : String) (reason : Option String) : Async App Unit :=
  CancelOrderHandler.execute ⟨id, userId, reason, none⟩

/-- `PUT /orders/:id/confirm`. -/
def confirmOrder (id : String) (paymentId : Option String) : Async App Unit :=
  ConfirmOrderHandler.execute ⟨id, paymentId, none⟩

end OrderController

namespace SagaMaintenanceController

/-- What the cleanup reports about an order. -/
structure CleanupResult where
  orderId : String
  action : String
  reason : String
  deriving DecidableEq, Repr

/-- Mark the saga that was found, if any, as compensated. -/
def compensateFound : Option SagaInstance → Async App Unit
  | some saga => sagaRepository.save { saga with
      status := .compensated
      compensationSteps := saga.compensationSteps ++ ["order_cancelled_cleanup"] }
  | none => return ()

/-- Cancel an order whose payment has failed, and mark its saga. -/
def cancelFailed (order : Order) (payment : Payment) : Async App (Option CleanupResult) := do
  CancelOrderHandler.execute ⟨order.id, order.userId,
    some ("Cleanup: Payment failed - " ++ payment.failureReason.getD "null"), none⟩
  let saga ← sagaRepository.findOne
    { sagaType := some "OrderProcessingSaga", data := some { orderId := some order.id } }
  compensateFound saga
  return some ⟨order.id, "cancelled", "Payment failed"⟩

/-- Cancel an order without a payment. -/
def cancelUnpaid (order : Order) : Async App (Option CleanupResult) := do
  CancelOrderHandler.execute
    ⟨order.id, order.userId, some "Cleanup: No payment record found", none⟩
  return some ⟨order.id, "cancelled", "No payment record"⟩

/-- The `try` block of the loop of `cleanupPendingOrders`. -/
def cleanupOrder (order : Order) : Async App (Option CleanupResult) := do
  let payment ← paymentRepository.findOne { orderId := some order.id }
  match payment with
  | some payment =>
    if payment.status = .failed then
      cancelFailed order payment
    else
      return none
  | none => cancelUnpaid order

/-- The loop of `cleanupPendingOrders`: an error is reported and the loop goes on. -/
def cleanupOrders : List Order → Async App (List CleanupResult)
  | [] => return []
  | order :: orders => do
    let result ← (cleanupOrder order).handle fun error =>
      return some ⟨order.id, "error", error.message⟩
    let results ← cleanupOrders orders
    return result.toList ++ results

/-- `POST /saga/maintenance/cleanup-pending`. -/
def cleanupPendingOrders : Async App (List CleanupResult) := do
  let pendingOrders ← orderRepository.find { status := some .pending }
  cleanupOrders pendingOrders

/-- How many sagas there are. -/
structure SagaCounts where
  total : ℕ
  started : ℕ
  completed : ℕ
  failed : ℕ
  compensated : ℕ
  deriving DecidableEq, Repr

/-- How many orders there are. -/
structure OrderCounts where
  total : ℕ
  pending : ℕ
  paid : ℕ
  cancelled : ℕ
  deriving DecidableEq, Repr

/-- What the report makes of the counts. -/
structure SagaIssues where
  orphanedPendingOrders : Bool
  stuckSagas : ℕ
  deriving DecidableEq, Repr

/-- The report of the maintenance. -/
structure SagaHealth where
  sagas : SagaCounts
  orders : OrderCounts
  issues : SagaIssues
  deriving DecidableEq, Repr

/-- `sagaRepository.count({ where: { status } })`. -/
def countSagas (w : World) (status : SagaStatus) : ℕ :=
  (w.sagas.findAll fun saga => decide (saga.status = status)).length

/-- `orderRepository.count({ where: { status } })`. -/
def countOrders (w : World) (status : OrderStatus) : ℕ :=
  (w.orders.findAll (OrderWhere.selects { status := some status })).length

/-- `GET /saga/maintenance/saga-health`. -/
def getSagaHealth (w : World) : SagaHealth where
  sagas := {
    total := w.sagas.rows.length
    started := countSagas w .started
    completed := countSagas w .completed
    failed := countSagas w .failed
    compensated := countSagas w .compensated }
  orders := {
    total := w.orders.rows.length
    pending := countOrders w .pending
    paid := countOrders w .paid
    cancelled := countOrders w .cancelled }
  issues := {
    orphanedPendingOrders := decide (countOrders w .pending > countSagas w .started)
    stuckSagas := countSagas w .started }

end SagaMaintenanceController

namespace RedisTestController

open RedisLockService

/-- What the two tests of `withLock` answer; `error` is the message of what was thrown. -/
structure LockTestResult where
  success : Bool
  nodeId : String
  error : Option String
  deriving DecidableEq, Repr

/-- What the test of the single calls answers; there is no `lock` if it was not acquired. -/
structure ManualLockResult where
  lock : Option AcquiredLock
  renewed : Bool
  released : Bool
  deriving DecidableEq, Repr

/-- Hold a lock for a while, and report whether it was acquired. -/
def holdLock (key : String) (duration : ℕ) (nodeId : String) (options : LockOptions) :
    Async App LockTestResult :=
  Async.handle
    (do
      withLock key (sleep duration) options
      return ⟨true, nodeId, none⟩)
    fun error => return ⟨false, nodeId, some error.message⟩

/-- `POST /redis-test/lock/:key`. -/
def testDistributedLock (key : String) (duration : Option ℕ) (nodeId : Option String) :
    Async App LockTestResult :=
  holdLock key (duration.getD 5000) (nodeId.getD "node-1")
    { ttl := 30000, retryCount := 5, retryDelay := 500 }

/-- `POST /redis-test/saga-creation-test`: the lock is the one under which a saga is started. -/
def testSagaCreation (correlationId : String) (nodeId : Option String) :
    Async App LockTestResult :=
  holdLock ("saga_creation:OrderProcessingSaga:" ++ correlationId) 2000 (nodeId.getD "node-1")
    { ttl := 30000, retryCount := 3, retryDelay := 100 }

/-- `GET /redis-test/lock-status/:key`. -/
def checkLockStatus (key : String) : Async App Bool := isLocked key

/-- `POST /redis-test/manual-lock/:key`. -/
def manualLockTest (key : String) : Async App ManualLockResult := do
  let lock ← acquireLock key { ttl := 10000, retryCount := 2 }
  match lock with
  | none => return ⟨none, false, false⟩
  | some lock => do
    sleep 5000
    let renewal ← renewLock lock 15000
    sleep 3000
    let released ← releaseLock renewal.1
    return ⟨some renewal.1, renewal.2, released⟩

end RedisTestController

end CqrsSaga
