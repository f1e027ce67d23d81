import CqrsSaga.App.Entities

/-!
# Commands, events and messages

What travels between the parts of the application: commands on the command bus,
events on the in-process event bus, messages to Kafka, and the work Node hands over
to be done later.  The time stamps (`occurredAt`, `timestamp`) are left out: nothing
branches on them.

## Main definitions

* `CreateOrderCommand`, … — the commands.
* `Event` — the events of the event bus.
* `Message` — the messages sent to Kafka, with the fields `publish` looks at.
* `Delivery`, `Event.deliveries` — an event on its way to one of its handlers.
* `Task` — a `setImmediate` callback, or a delivery.
-/

namespace CqrsSaga

/-! ### Commands -/

/-- Place an order; its key is the correlation id. -/
structure CreateOrderCommand where
  userId : String
  items : List OrderItem
  shippingAddress : String
  correlationId : Option String
  deriving DecidableEq

/-- Cancel an order of a user. -/
structure CancelOrderCommand where
  orderId : String
  userId : String
  reason : Option String
  correlationId : Option String

/-- `paymentId` is absent where the body of the request has none. -/
structure ConfirmOrderCommand where
  orderId : String
  paymentId : Option String
  correlationId : Option String

/-- Charge a user for an order. -/
structure ProcessPaymentCommand where
  orderId : String
  userId : String
  amount : ℚ
  method : PaymentMethod
  correlationId : Option String

/-- Give a payment back. -/
structure RefundPaymentCommand where
  paymentId : String
  reason : String
  correlationId : Option String

/-! ### Events -/

/-- An order was placed. -/
structure OrderCreatedEvent where
  orderId : String
  userId : String
  totalAmount : ℚ
  items : List OrderItem
  shippingAddress : String
  correlationId : Option String
  deriving DecidableEq, Repr

/-- An order was cancelled. -/
structure OrderCancelledEvent where
  orderId : String
  userId : String
  reason : Option String
  correlationId : Option String
  deriving DecidableEq, Repr

/-- An order was confirmed, under the payment that was named. -/
structure OrderConfirmedEvent where
  orderId : String
  paymentId : Option String
  totalAmount : ℚ
  correlationId : Option String
  deriving DecidableEq, Repr

/-- The status of an order changed. -/
structure OrderStatusChangedEvent where
  orderId : String
  previousStatus : String
  newStatus : String
  correlationId : Option String
  deriving DecidableEq, Repr

/-- A payment went through. -/
structure PaymentProcessedEvent where
  paymentId : String
  orderId : String
  userId : String
  amount : ℚ
  externalTransactionId : String
  correlationId : Option String
  deriving DecidableEq, Repr

/-- A payment did not go through. -/
structure PaymentFailedEvent where
  paymentId : String
  orderId : String
  userId : String
  amount : ℚ
  failureReason : String
  correlationId : Option String
  deriving DecidableEq, Repr

/-- A payment was given back. -/
structure PaymentRefundedEvent where
  paymentId : String
  orderId : String
  refundAmount : ℚ
  reason : String
  correlationId : Option String
  deriving DecidableEq, Repr

/-- An event of the event bus. -/
inductive Event
  | orderCreated (e : OrderCreatedEvent)
  | orderCancelled (e : OrderCancelledEvent)
  | orderConfirmed (e : OrderConfirmedEvent)
  | orderStatusChanged (e : OrderStatusChangedEvent)
  | paymentProcessed (e : PaymentProcessedEvent)
  | paymentFailed (e : PaymentFailedEvent)
  | paymentRefunded (e : PaymentRefundedEvent)
  deriving DecidableEq, Repr

namespace Event

/-- The order an event is about. -/
def orderId : Event → String
  | orderCreated e => e.orderId
  | orderCancelled e => e.orderId
  | orderConfirmed e => e.orderId
  | orderStatusChanged e => e.orderId
  | paymentProcessed e => e.orderId
  | paymentFailed e => e.orderId
  | paymentRefunded e => e.orderId

/-- The field `correlationId` of an event. -/
def correlationId : Event → Option String
  | orderCreated e => e.correlationId
  | orderCancelled e => e.correlationId
  | orderConfirmed e => e.correlationId
  | orderStatusChanged e => e.correlationId
  | paymentProcessed e => e.correlationId
  | paymentFailed e => e.correlationId
  | paymentRefunded e => e.correlationId

/-- The `items` of an event; only `OrderCreatedEvent` has any. -/
def items : Event → List OrderItem
  | orderCreated e => e.items
  | _ => []

end Event

/-! ### Messages -/

/-- A message to Kafka. -/
inductive Message
  /-- `{ type, ...event }`. -/
  | domain (type : String) (event : Event)
  | sagaStarted (sagaId sagaType correlationId : String) (data : SagaData)
  | sagaStepCompleted (sagaId stepName : String) (completedSteps : List String)
  | sagaCompleted (sagaId correlationId : String) (completedSteps : List String)
  | sagaFailed (sagaId correlationId failedStep errorMessage : String)
  | sagaStepCompensated (sagaId stepName : String)
  | sagaCompensated (sagaId correlationId : String) (compensationSteps : List String)
  | sagaCompensationFailed (sagaId correlationId : String) (error : Option String)
  /-- `{ message, timestamp }`: the test message of `AppController`. -/
  | test (message : String)
  deriving DecidableEq, Repr

namespace Message

/-- The field `type`, or what the log has in its place. -/
def type : Message → String
  | domain type _ => type
  | test _ => "unknown"
  | sagaStarted .. => "SagaStarted"
  | sagaStepCompleted .. => "SagaStepCompleted"
  | sagaCompleted .. => "SagaCompleted"
  | sagaFailed .. => "SagaFailed"
  | sagaStepCompensated .. => "SagaStepCompensated"
  | sagaCompensated .. => "SagaCompensated"
  | sagaCompensationFailed .. => "SagaCompensationFailed"

/-- The field `correlationId`, where the message has one. -/
def correlationId : Message → Option String
  | domain _ e => e.correlationId
  | sagaStarted _ _ c _ => some c
  | sagaCompleted _ c _ => some c
  | sagaFailed _ c _ _ => some c
  | sagaCompensated _ c _ => some c
  | sagaCompensationFailed _ c _ => some c
  | sagaStepCompleted .. => none
  | sagaStepCompensated .. => none
  | test _ => none

/-- The field `sagaId`, where the message has one. -/
def sagaId : Message → Option String
  | domain .. => none
  | test _ => none
  | sagaStarted s .. => some s
  | sagaStepCompleted s .. => some s
  | sagaCompleted s .. => some s
  | sagaFailed s .. => some s
  | sagaStepCompensated s .. => some s
  | sagaCompensated s .. => some s
  | sagaCompensationFailed s .. => some s

/-- The field `orderId`, where the message has one. -/
def orderId : Message → Option String
  | domain _ e => some e.orderId
  | _ => none

/-- The field `items`, where the message has one. -/
def items : Message → List OrderItem
  | domain _ e => e.items
  | _ => []

end Message

/-! ### Work for later -/

/-- An event on its way to one of the handlers registered for it. -/
inductive Delivery
  | orderCreatedHandler (e : OrderCreatedEvent)
  | orderCancelledHandler (e : OrderCancelledEvent)
  | orderConfirmedHandler (e : OrderConfirmedEvent)
  | orderStatusChangedHandler (e : OrderStatusChangedEvent)
  | paymentProcessedHandler (e : PaymentProcessedEvent)
  | paymentProcessedSagaHandler (e : PaymentProcessedEvent)
  | paymentFailedHandler (e : PaymentFailedEvent)
  | paymentFailedSagaHandler (e : PaymentFailedEvent)
  | paymentRefundedHandler (e : PaymentRefundedEvent)
  deriving DecidableEq, Repr

/-- The event that is delivered. -/
def Delivery.event : Delivery → Event
  | orderCreatedHandler e => .orderCreated e
  | orderCancelledHandler e => .orderCancelled e
  | orderConfirmedHandler e => .orderConfirmed e
  | orderStatusChangedHandler e => .orderStatusChanged e
  | paymentProcessedHandler e => .paymentProcessed e
  | paymentProcessedSagaHandler e => .paymentProcessed e
  | paymentFailedHandler e => .paymentFailed e
  | paymentFailedSagaHandler e => .paymentFailed e
  | paymentRefundedHandler e => .paymentRefunded e

/-- The deliveries a published event causes: one for each `@EventsHandler` of its class. -/
def Event.deliveries : Event → List Delivery
  | orderCreated e => [.orderCreatedHandler e]
  | orderCancelled e => [.orderCancelledHandler e]
  | orderConfirmed e => [.orderConfirmedHandler e]
  | orderStatusChanged e => [.orderStatusChangedHandler e]
  | paymentProcessed e => [.paymentProcessedHandler e, .paymentProcessedSagaHandler e]
  | paymentFailed e => [.paymentFailedHandler e, .paymentFailedSagaHandler e]
  | paymentRefunded e => [.paymentRefundedHandler e]

theorem Event.event_of_delivery {e : Event} {d : Delivery} (h : d ∈ e.deliveries) :
    d.event = e := by
  cases e <;> simp only [deliveries, List.mem_cons, List.not_mem_nil, or_false] at h <;>
    first | (subst h; rfl) | (rcases h with rfl | rfl <;> rfl)

/-- Work handed over to be done later. -/
inductive Task
  /-- `setImmediate(() => eventBus.publishAll(events))`. -/
  | publishAll (events : List Event)
  /-- `setImmediate(async () => kafkaService.publish('saga-events', message))`. -/
  | publishSagaEvent (message : Message)
  /-- The callback of `simulateExternalPaymentProcessing`. -/
  | externalPayment (payment : Payment) (correlationId : Option String)
  /-- A handler is called with an event. -/
  | deliver (d : Delivery)
  deriving DecidableEq, Repr

end CqrsSaga
