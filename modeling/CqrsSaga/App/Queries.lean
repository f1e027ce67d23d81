import CqrsSaga.App.Controllers
import CqrsSaga.Store.Pages
import Mathlib.Data.Rat.Floor

/-!
# The queries on orders and sagas

What `OrderController` answers without a command: one order, and the orders of a user, page by
page.  A status the database does not know is refused by it, like any other failing query.
`SagaController` lists all sagas in the same way, in a single query.

## Main definitions

* `GetOrderByIdHandler.execute`, `GetOrdersByUserIdHandler.execute` — the query handlers.
* `OrderController.getOrderById`, `getMyOrders` — the endpoints.
* `SagaManager.getAllSagas`, `SagaController.getAllSagas` — the list of all sagas, as it is read
  in one state.
-/

namespace CqrsSaga

/-- Ask for one order, in the name of a user if one is given. -/
structure GetOrderByIdQuery where
  orderId : String
  userId : Option String

/-- Ask for a page of the orders of a user, those of one status if one is given. -/
structure GetOrdersByUserIdQuery where
  userId : String
  page : ℤ
  limit : ℤ
  status : Option OrderStatus

/-- One order; a user is shown their own only. -/
def GetOrderByIdHandler.execute (query : GetOrderByIdQuery) : Async App Order := do
  let order ← orderRepository.findOne { id := some query.orderId }
  match order with
  | none => .throw (.notFound "Order not found")
  | some order =>
    if (truthy query.userId).any fun userId => decide (order.userId ≠ userId) then
      .throw (.forbidden "Access denied")
    else
      return order

/-- A page of the orders of a user, the newest first, and how many there are in all. -/
def GetOrdersByUserIdHandler.execute (query : GetOrdersByUserIdQuery) :
    Async App (List Order × ℕ) := do
  let skip := (query.page - 1) * query.limit
  let orders ← orderRepository.find { userId := some query.userId, status := query.status }
  if skip < 0 then
    .throw (.error "OFFSET must not be negative")
  else if query.limit < 0 then
    .throw (.error "LIMIT must not be negative")
  else
    return (Pages.newest Order.createdAt orders skip.toNat query.limit.toNat, orders.length)

/-- The answer to a request for the orders of a user; `totalPages` is absent where it is no
number. -/
structure OrderListDto where
  orders : List OrderResponseDto
  total : ℕ
  page : ℤ
  limit : ℤ
  totalPages : Option ℤ
  deriving DecidableEq, Repr

namespace OrderController

/-- `GET /orders/:id`. -/
def getOrderById (id userId : String) : Async App OrderResponseDto := do
  let order ← GetOrderByIdHandler.execute ⟨id, some userId⟩
  return response order

/-- `GET /orders`. -/
def getMyOrders (userId : String) (page limit : ℤ) (status : Option OrderStatus) :
    Async App OrderListDto := do
  let result ← GetOrdersByUserIdHandler.execute ⟨userId, page, limit, status⟩
  return {
    orders := result.1.map response
    total := result.2
    page, limit
    totalPages := if limit = 0 then none else some ⌈(result.2 : ℚ) / limit⌉ }

end OrderController

/-- A page of all sagas, and how many there are in all. -/
def SagaManager.getAllSagas (w : World) (page limit : ℤ) : Except Err (List SagaInstance × ℕ) :=
  let skip := (page - 1) * limit
  if skip < 0 then
    .error (.error "OFFSET must not be negative")
  else if limit < 0 then
    .error (.error "LIMIT must not be negative")
  else
    .ok (Pages.newest SagaInstance.createdAt w.sagas.rows skip.toNat limit.toNat,
      w.sagas.rows.length)

/-- The answer to a request for the sagas; every column of a saga is shown. -/
structure SagaListDto where
  sagas : List SagaInstance
  total : ℕ
  page : ℤ
  limit : ℤ
  totalPages : Option ℤ
  deriving DecidableEq, Repr

/-- `GET /sagas`. -/
def SagaController.getAllSagas (w : World) (page limit : ℤ) : Except Err SagaListDto := do
  let result ← SagaManager.getAllSagas w page limit
  return {
    sagas := result.1
    total := result.2
    page, limit
    totalPages := if limit = 0 then none else some ⌈(result.2 : ℚ) / limit⌉ }

end CqrsSaga
