import CqrsSaga.App.SagaManager
import CqrsSaga.App.Orders
import CqrsSaga.App.Payments

/-!
# The order processing saga

`OrderProcessingSaga` drives an order from its creation to its confirmation or
cancellation: an `OrderCreatedEvent` starts the saga and the payment, the result of
the payment confirms or cancels the order.

## Main definitions

* `OrderProcessingSaga.handleOrderCreated`, `handlePaymentProcessed`,
  `handlePaymentFailed` — the three reactions.
-/

namespace CqrsSaga

namespace OrderProcessingSaga

open SagaManager

variable [Hashes]

/-- The type under which the saga is stored. -/
def sagaType : String := "OrderProcessingSaga"

/-- The data of the saga of an order. -/
def sagaData (event : OrderCreatedEvent) : SagaData where
  orderId := some event.orderId
  userId := some event.userId
  totalAmount := some event.totalAmount
  items := some event.items
  shippingAddress := some event.shippingAddress

/-- The action of the step `payment_processing`. -/
def paymentAction (saga : SagaInstance) (event : OrderCreatedEvent) : Async App Unit := do
  let _ ← ProcessPaymentHandler.execute
    ⟨event.orderId, event.userId, event.totalAmount, .creditCard, some saga.correlationId⟩
  logger (.commandExecuted "payment_processing" saga.id)

/-- Charge the user, as the step `payment_processing`. -/
def executePaymentStep (saga : SagaInstance) (event : OrderCreatedEvent) : Async App Unit :=
  executeSagaStep saga.id "payment_processing" (paymentAction saga event)

/-- Start the saga of an order that was placed with a key, and have it charged. -/
def handleOrderCreated (event : OrderCreatedEvent) : Async App Unit :=
  match truthy event.correlationId with
  | none => return ()
  | some correlationId => do
    let saga ← startSaga sagaType correlationId (sagaData event) []
    executePaymentStep saga event

/-- The action of the step `order_confirmation`. -/
def confirmationAction (saga : SagaInstance) (event : PaymentProcessedEvent) :
    Async App Unit := do
  ConfirmOrderHandler.execute ⟨event.orderId, some event.paymentId, some saga.correlationId⟩
  logger (.commandExecuted "order_confirmation" saga.id)

/-- Confirm the order, as the step `order_confirmation`, and complete the saga. -/
def executeOrderConfirmationStep (saga : SagaInstance) (event : PaymentProcessedEvent) :
    Async App Unit := do
  executeSagaStep saga.id "order_confirmation" (confirmationAction saga event)
  completeSaga saga.id

/-- Go on with the saga of an order whose payment went through, if it is found. -/
def handlePaymentProcessed (event : PaymentProcessedEvent) : Async App Unit := do
  let saga ← findSagaByCorrelationId event.correlationId (some sagaType)
  match saga with
  | none => return ()
  | some saga => executeOrderConfirmationStep saga event

/-- The `try` block of `executeOrderCancellationStep`. -/
def cancelOrder (saga : SagaInstance) (event : PaymentFailedEvent) : Async App Unit := do
  CancelOrderHandler.execute ⟨event.orderId, event.userId,
    some ("Payment failed: " ++ event.failureReason), some saga.correlationId⟩
  sagaRepository.save { saga with
    status := .compensated
    compensationSteps := saga.compensationSteps ++ ["order_cancelled"]
    currentStep := "compensated" }

/-- Cancel the order; if that fails, the saga has failed in the step `order_cancellation`. -/
def executeOrderCancellationStep (saga : SagaInstance) (event : PaymentFailedEvent) :
    Async App Unit :=
  (cancelOrder saga event).handle fun error =>
    handleSagaFailure saga "order_cancellation" error.message

/-- End the saga of an order whose payment did not go through, if it is found. -/
def handlePaymentFailed (event : PaymentFailedEvent) : Async App Unit := do
  let saga ← findSagaByCorrelationId event.correlationId (some sagaType)
  match saga with
  | none => return ()
  | some saga => executeOrderCancellationStep saga event

end OrderProcessingSaga

end CqrsSaga
