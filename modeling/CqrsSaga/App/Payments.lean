import CqrsSaga.App.Calls

/-!
# The command handlers of payments

## Main definitions

* `ProcessPaymentHandler.execute` — store a payment and hand it to the payment system.
* `ProcessPaymentHandler.externalPayment` — the payment system: it decides later, in
  the background, and publishes the result.
* `RefundPaymentHandler.execute` — refund a completed payment.
-/

namespace CqrsSaga

namespace ProcessPaymentHandler

/-- The payment a command asks for. -/
def newPayment (command : ProcessPaymentCommand) : NewPayment where
  orderId := command.orderId
  userId := command.userId
  amount := command.amount
  method := command.method
  status := .processing

/-- Store a payment and have it processed outside. -/
def execute (command : ProcessPaymentCommand) : Async App Payment := do
  let savedPayment ← paymentRepository.insert (newPayment command)
  setImmediate (.externalPayment savedPayment command.correlationId)
  return savedPayment

/-- The event of a payment that went through. -/
def processedEvent (payment : Payment) (correlationId : Option String) : PaymentProcessedEvent where
  paymentId := payment.id
  orderId := payment.orderId
  userId := payment.userId
  amount := payment.amount
  externalTransactionId := payment.externalTransactionId.getD ""
  correlationId := correlationId

/-- The event of a payment that did not go through. -/
def failedEvent (payment : Payment) (correlationId : Option String) : PaymentFailedEvent where
  paymentId := payment.id
  orderId := payment.orderId
  userId := payment.userId
  amount := payment.amount
  failureReason := payment.failureReason.getD ""
  correlationId := correlationId

/-- Store a payment as it is and publish its event. -/
def settle (payment : Payment) (event : Event) : Async App Unit := do
  paymentRepository.save payment
  eventBus.publish event

/-- The payment, marked as failed for `reason`. -/
def failed (payment : Payment) (reason : String) : Payment :=
  { payment with status := .failed, failureReason := some reason }

/-- The payment, marked as completed under `transactionId`. -/
def completed (payment : Payment) (transactionId : String) : Payment :=
  { payment with status := .completed, externalTransactionId := some transactionId }

/-- The end of the `try` block, from the save on, with the `catch` block: if the save
fails, the payment as it stands in memory is marked as failed. -/
def settleOrFail (payment : Payment) (event : Event) (correlationId : Option String) :
    Async App Unit :=
  (settle payment event).handle fun _ =>
    let payment := failed payment "Payment processing error"
    settle payment (.paymentFailed (failedEvent payment correlationId))

/-- The callback of `simulateExternalPaymentProcessing`.  Nothing before the save can
throw, so the `try` block may as well begin there. -/
def externalPayment (payment : Payment) (correlationId : Option String) : Async App Unit := do
  -- between 500 and 2000 ms
  sleep 500
  let isSuccess ← random
  if isSuccess then do
    let transactionId ← uuidv4
    let payment := completed payment ("ext_tx_" ++ transactionId)
    settleOrFail payment (.paymentProcessed (processedEvent payment correlationId)) correlationId
  else
    let payment := failed payment "Insufficient funds or card declined"
    settleOrFail payment (.paymentFailed (failedEvent payment correlationId)) correlationId

end ProcessPaymentHandler

namespace RefundPaymentHandler

/-- Mark a completed payment as refunded. -/
def execute (command : RefundPaymentCommand) : Async App Unit := do
  let payment ← paymentRepository.findOne { id := some command.paymentId }
  match payment with
  | none => .throw (.error "Payment not found or cannot be refunded")
  | some payment =>
    if payment.status ≠ .completed then
      .throw (.error "Payment not found or cannot be refunded")
    else do
      paymentRepository.save { payment with status := .refunded }
      eventBus.publish (.paymentRefunded ⟨command.paymentId, payment.orderId, payment.amount,
        command.reason, command.correlationId⟩)

end RefundPaymentHandler

end CqrsSaga
