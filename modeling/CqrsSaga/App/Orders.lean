import CqrsSaga.App.Calls

/-!
# The command handlers of orders

## Main definitions

* `CreateOrderHandler.execute` — place an order, once for each idempotency key.
* `CancelOrderHandler.execute`, `ConfirmOrderHandler.execute` — read the order, decide,
  and write the whole row back.
-/

namespace CqrsSaga

namespace CreateOrderHandler

/-- `items.reduce((sum, item) => sum + item.price * item.quantity, 0)`. -/
def totalAmount (items : List OrderItem) : ℚ :=
  items.foldl (fun sum item => sum + item.price * item.quantity) 0

/-- The order a command asks for. -/
def newOrder (command : CreateOrderCommand) : NewOrder where
  userId := command.userId
  totalAmount := totalAmount command.items
  items := command.items
  shippingAddress := command.shippingAddress
  status := .pending
  idempotencyKey := command.correlationId

/-- The event of a saved order. -/
def createdEvent (savedOrder : Order) (correlationId : Option String) : OrderCreatedEvent where
  orderId := savedOrder.id
  userId := savedOrder.userId
  totalAmount := savedOrder.totalAmount
  items := savedOrder.items
  shippingAddress := savedOrder.shippingAddress
  correlationId := correlationId

/-- Refuse the command if an order with its key is stored. -/
def checkDuplicate (correlationId : Option String) : Async App Unit :=
  match truthy correlationId with
  | none => pure ()
  | some key => do
    let existingOrder ← orderRepository.findOne { idempotencyKey := some key }
    match existingOrder with
    | some existingOrder => .throw (.duplicateOrder existingOrder.id key)
    | none => pure ()

/-- The `try` block of `execute`. -/
def create (command : CreateOrderCommand) : Async App Order := do
  checkDuplicate command.correlationId
  let savedOrder ← orderRepository.insert (newOrder command)
  setImmediate (.publishAll [.orderCreated (createdEvent savedOrder command.correlationId)])
  return savedOrder

/-- The `catch` block of `execute`: an insert refused by the unique index is reported
as a duplicate, any other error is passed on. -/
def recover (command : CreateOrderCommand) (error : Err) : Async App Order :=
  if error.code = some "23505" ∧ includes (error.detail.getD "") "idempotencyKey" then do
    let existingOrder ← orderRepository.findOne { idempotencyKey := command.correlationId }
    match existingOrder with
    | some existingOrder =>
      .throw (.duplicateOrder existingOrder.id (command.correlationId.getD ""))
    | none => .throw error
  else .throw error

/-- Place an order, unless one with its key is stored. -/
def execute (command : CreateOrderCommand) : Async App Order :=
  (create command).handle (recover command)

end CreateOrderHandler

namespace CancelOrderHandler

/-- Publish that an order was cancelled. -/
def announce (command : CancelOrderCommand) (previousStatus : OrderStatus) : Async App Unit := do
  let cancelId ← uuidv4
  let statusChangeId ← uuidv4
  setImmediate (.publishAll
    [.orderCancelled ⟨command.orderId, command.userId, command.reason,
        truthy command.correlationId <|> some cancelId⟩,
      .orderStatusChanged ⟨command.orderId, previousStatus.value, OrderStatus.cancelled.value,
        truthy command.correlationId <|> some statusChangeId⟩])

/-- Cancel an order of the user; one that is cancelled is left as it is, and one that has been
delivered is not cancelled any more. -/
def execute (command : CancelOrderCommand) : Async App Unit := do
  let order ← orderRepository.findOne { id := some command.orderId, userId := some command.userId }
  match order with
  | none => .throw (.notFound "Order not found")
  | some order =>
    if order.status = .cancelled then
      return ()
    else if order.status = .delivered then
      .throw (.conflict "Cannot cancel delivered order")
    else do
      orderRepository.save { order with status := .cancelled }
      announce command order.status

end CancelOrderHandler

namespace ConfirmOrderHandler

/-- Publish that an order was confirmed. -/
def announce (command : ConfirmOrderCommand) (order : Order) : Async App Unit := do
  let confirmId ← uuidv4
  let statusChangeId ← uuidv4
  setImmediate (.publishAll
    [.orderConfirmed ⟨command.orderId, command.paymentId, order.totalAmount,
        truthy command.correlationId <|> some confirmId⟩,
      .orderStatusChanged ⟨command.orderId, order.status.value, OrderStatus.paid.value,
        truthy command.correlationId <|> some statusChangeId⟩])

/-- Mark a pending order as paid; any other is left as it is. -/
def execute (command : ConfirmOrderCommand) : Async App Unit := do
  let order ← orderRepository.findOne { id := some command.orderId }
  match order with
  | none => .throw (.notFound "Order not found")
  | some order =>
    if order.status ≠ .pending then
      return ()
    else do
      -- a column assigned `undefined` is not written
      orderRepository.save
        { order with status := .paid, paymentId := command.paymentId <|> order.paymentId }
      announce command order

end ConfirmOrderHandler

end CqrsSaga
