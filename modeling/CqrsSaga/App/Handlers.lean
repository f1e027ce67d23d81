import CqrsSaga.App.OrderProcessingSaga

/-!
# The event handlers

Each event is stored and sent to Kafka by one handler; `OrderCreatedHandler` goes on to
the saga itself, the results of payments reach the saga through handlers of their own.

## Main definitions

* `storeAndPublish` — what the storing handlers have in common.
* `Delivery.run` — the handler of a delivery.
* `Task.run` — what becomes of work handed over to be done later.
-/

namespace CqrsSaga

open KafkaService OrderProcessingSaga

variable [Hashes]

/-- Store an event, then send it to Kafka as `{ type, ...event }`. -/
def storeAndPublish (topic aggregateId aggregateType eventType : String) (eventData : EventData)
    (event : Event) : Async App Unit := do
  eventStoreRepository.save ⟨aggregateId, aggregateType, eventType, eventData, event.correlationId⟩
  publish topic (.domain eventType event)

/-- `OrderCreatedEvent`: the one event that starts a saga. -/
def OrderCreatedHandler.handle (event : OrderCreatedEvent) : Async App Unit := do
  storeAndPublish "order-events" event.orderId "Order" "OrderCreated"
    (.orderCreated event.orderId event.userId event.totalAmount event.items event.shippingAddress)
    (.orderCreated event)
  handleOrderCreated event

/-- `OrderCancelledEvent`. -/
def OrderCancelledHandler.handle (event : OrderCancelledEvent) : Async App Unit :=
  storeAndPublish "order-events" event.orderId "Order" "OrderCancelled"
    (.orderCancelled event.orderId event.userId event.reason) (.orderCancelled event)

/-- `OrderConfirmedEvent`. -/
def OrderConfirmedHandler.handle (event : OrderConfirmedEvent) : Async App Unit :=
  storeAndPublish "order-events" event.orderId "Order" "OrderConfirmed"
    (.orderConfirmed event.orderId event.paymentId event.totalAmount) (.orderConfirmed event)

/-- `OrderStatusChangedEvent`. -/
def OrderStatusChangedHandler.handle (event : OrderStatusChangedEvent) : Async App Unit :=
  storeAndPublish "order-events" event.orderId "Order" "OrderStatusChanged"
    (.orderStatusChanged event.orderId event.previousStatus event.newStatus)
    (.orderStatusChanged event)

/-- `PaymentProcessedEvent`, as it is logged. -/
def PaymentProcessedHandler.handle (event : PaymentProcessedEvent) : Async App Unit :=
  storeAndPublish "payment-events" event.paymentId "Payment" "PaymentProcessed"
    (.paymentProcessed event.paymentId event.orderId event.userId event.amount
      event.externalTransactionId)
    (.paymentProcessed event)

/-- `PaymentFailedEvent`, as it is logged. -/
def PaymentFailedHandler.handle (event : PaymentFailedEvent) : Async App Unit :=
  storeAndPublish "payment-events" event.paymentId "Payment" "PaymentFailed"
    (.paymentFailed event.paymentId event.orderId event.userId event.amount event.failureReason)
    (.paymentFailed event)

/-- `PaymentRefundedEvent`. -/
def PaymentRefundedHandler.handle (event : PaymentRefundedEvent) : Async App Unit :=
  storeAndPublish "payment-events" event.paymentId "Payment" "PaymentRefunded"
    (.paymentRefunded event.paymentId event.orderId event.refundAmount event.reason)
    (.paymentRefunded event)

/-- `PaymentProcessedEvent`, as the saga goes by it. -/
def PaymentProcessedSagaHandler.handle (event : PaymentProcessedEvent) : Async App Unit :=
  handlePaymentProcessed event

/-- `PaymentFailedEvent`, as the saga goes by it. -/
def PaymentFailedSagaHandler.handle (event : PaymentFailedEvent) : Async App Unit :=
  handlePaymentFailed event

/-- The handler an event is delivered to. -/
def Delivery.run : Delivery → Async App Unit
  | orderCreatedHandler e => OrderCreatedHandler.handle e
  | orderCancelledHandler e => OrderCancelledHandler.handle e
  | orderConfirmedHandler e => OrderConfirmedHandler.handle e
  | orderStatusChangedHandler e => OrderStatusChangedHandler.handle e
  | paymentProcessedHandler e => PaymentProcessedHandler.handle e
  | paymentProcessedSagaHandler e => PaymentProcessedSagaHandler.handle e
  | paymentFailedHandler e => PaymentFailedHandler.handle e
  | paymentFailedSagaHandler e => PaymentFailedSagaHandler.handle e
  | paymentRefundedHandler e => PaymentRefundedHandler.handle e

/-- What becomes of work handed over to be done later. -/
def Task.run : Task → Async App Unit
  | publishAll events => eventBus.publishAll events
  | publishSagaEvent message => publish "saga-events" message
  | externalPayment payment correlationId =>
    ProcessPaymentHandler.externalPayment payment correlationId
  | deliver d => d.run

end CqrsSaga
