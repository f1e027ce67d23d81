import CqrsSaga.App.World

/-!
# The tracing controller

Two endpoints list what the event store holds about an order: one by the correlation id of
its saga, one by the order's id.  Each runs a few queries one after the other; here they see
one and the same state.  The events come in the order they were stored in, not sorted
by time.

The second endpoint writes its conditions as text.  The query builder replaces the paths of
properties in them by quoted columns, but takes for such a path whatever stands between the alias
and the next blank.  So `event.eventData->>'orderId'` reaches PostgreSQL as it is written, which
reads names without quotes in lower case, and there is no column `eventdata`.

## Main definitions

* `QueryBuilder.path`, `column`, `getMany` — how the text of a condition is read.
* `TracingController.traceByCorrelationId`, `traceByOrderId` — the endpoints; `none` where
  they answer that nothing was found.

## Main results

* `traceByOrderId_of_order` — **no stored order can be traced by its id.**
-/

namespace CqrsSaga

/-- The columns of `event_store`, named like the properties. -/
def EventStore.columns : List String :=
  ["id", "aggregateId", "aggregateType", "eventType", "eventData", "metadata", "version",
    "occurredAt", "causationId", "correlationId"]

/-- The columns of `saga_instances`. -/
def SagaInstance.columns : List String :=
  ["id", "sagaType", "correlationId", "status", "data", "completedSteps", "compensationSteps",
    "currentStep", "errorMessage", "createdAt", "updatedAt"]

namespace QueryBuilder

/-- A condition: its text, and the rows it selects. -/
structure Condition (ρ : Type) where
  text : String
  selects : ρ → Bool

/-- What a text that begins with the alias and a dot is taken to have for the path of a property:
what follows, up to the first of ` =(),`. -/
def path (entity text : String) : String :=
  String.ofList ((text.toList.drop (entity.length + 1)).takeWhile fun c => c ∉ " =(),".toList)

/-- The column PostgreSQL looks for.  The path of a property is replaced by its column, in quotes;
anything else is sent as it is, and the name it begins with is read in lower case. -/
def column (columns : List String) (path : String) : String :=
  if path ∈ columns then path
  else String.ofList ((path.toList.takeWhile fun c => c.isAlphanum || c = '_').map Char.toLower)

/-- `getMany`, the conditions being joined by `OR`: a query that names a column there is not fails
(`QueryFailedError`). -/
def getMany {ρ : Type} (entity : String) (columns : List String) (conditions : List (Condition ρ))
    (rows : List ρ) : Except Err (List ρ) :=
  match (conditions.map fun c => column columns (path entity c.text)).find? (· ∉ columns) with
  | some name => .error (.error ("column " ++ entity ++ "." ++ name ++ " does not exist"))
  | none => .ok (rows.filter fun row => conditions.any fun c => c.selects row)

end QueryBuilder

namespace TracingController

/-- The numbers `traceByCorrelationId` ends with; `none` stands for `not_found`. -/
structure CorrelationSummary where
  totalEvents : ℕ
  sagaStatus : SagaStatus
  orderStatus : Option OrderStatus
  paymentStatus : Option PaymentStatus
  duration : ℤ
  isSuccessful : Bool
  deriving DecidableEq, Repr

/-- What `traceByCorrelationId` answers. -/
structure CorrelationTrace where
  correlationId : String
  saga : SagaInstance
  order : Option Order
  payment : Option Payment
  timeline : List EventStore
  summary : CorrelationSummary
  deriving DecidableEq, Repr

/-- `GET /trace/correlation/:correlationId`. -/
def traceByCorrelationId (w : World) (correlationId : String) : Option CorrelationTrace := do
  let saga ← w.sagas.find? (SagaWhere.selects { correlationId := some correlationId })
  let orderId := saga.data.orderId
  let order := w.orders.find? (OrderWhere.selects { id := orderId })
  let payment := w.payments.find? (PaymentWhere.selects { orderId })
  let events := w.eventStore.filter fun event => event.correlationId = some correlationId
  some {
    correlationId, saga, order, payment
    timeline := events
    summary := {
      totalEvents := events.length
      sagaStatus := saga.status
      orderStatus := order.map fun order => order.status
      paymentStatus := payment.map fun payment => payment.status
      duration := saga.updatedAt - saga.createdAt
      isSuccessful := saga.status = .completed } }

/-- The numbers `traceByOrderId` ends with; `none` stands for `none`. -/
structure OrderSummary where
  totalEvents : ℕ
  totalSagas : ℕ
  hasPayment : Bool
  order : OrderStatus
  payment : Option PaymentStatus
  saga : Option SagaStatus
  deriving DecidableEq, Repr

/-- What `traceByOrderId` answers. -/
structure OrderTrace where
  orderId : String
  order : Order
  sagas : List SagaInstance
  payment : Option Payment
  events : List EventStore
  summary : OrderSummary
  deriving DecidableEq, Repr

/-- The conditions on the sagas of an order. -/
def sagaConditions (orderId : String) : List (QueryBuilder.Condition SagaInstance) :=
  [⟨"saga.data->>'orderId' = :orderId", fun saga => saga.data.orderId = some orderId⟩]

/-- The conditions on the events about an order. -/
def eventConditions (orderId : String) : List (QueryBuilder.Condition EventStore) :=
  [⟨"event.eventData->>'orderId' = :orderId", fun event => event.eventData.orderId = orderId⟩,
    ⟨"event.aggregateId = :orderId", fun event => event.aggregateId = orderId⟩]

/-- `GET /trace/order/:orderId`. -/
def traceByOrderId (w : World) (orderId : String) : Except Err (Option OrderTrace) :=
  match w.orders.find? (OrderWhere.selects { id := some orderId }) with
  | none => return none
  | some order => do
    let sagas ← QueryBuilder.getMany "saga" SagaInstance.columns (sagaConditions orderId)
      w.sagas.rows
    let payment := w.payments.find? (PaymentWhere.selects { orderId := some orderId })
    let events ← QueryBuilder.getMany "event" EventStore.columns (eventConditions orderId)
      w.eventStore
    return some {
      orderId, order, sagas, payment, events
      summary := {
        totalEvents := events.length
        totalSagas := sagas.length
        hasPayment := payment.isSome
        order := order.status
        payment := payment.map fun payment => payment.status
        saga := sagas.head?.map fun saga => saga.status } }

variable {w : World} {correlationId orderId : String}

/-- The trace of a correlation id lists the events that carry it, if a saga does. -/
theorem traceByCorrelationId_of_saga {s : SagaInstance} (hs : s ∈ w.sagas)
    (hc : s.correlationId = correlationId) : ∃ t,
      traceByCorrelationId w correlationId = some t ∧
        t.timeline = w.eventStore.filter fun event => event.correlationId = some correlationId := by
  have hfind : (w.sagas.find? (SagaWhere.selects { correlationId := some correlationId })).isSome := by
    refine Table.find?_isSome.mpr ⟨s, hs, ?_⟩
    simp [SagaWhere.selects, hc]
  obtain ⟨saga, hsaga⟩ := Option.isSome_iff_exists.mp hfind
  exact ⟨_, by rw [traceByCorrelationId, hsaga]; rfl, rfl⟩

/-- The query for the sagas of an order does what it says. -/
theorem getMany_sagas (w : World) (orderId : String) :
    QueryBuilder.getMany "saga" SagaInstance.columns (sagaConditions orderId) w.sagas.rows =
      .ok (w.sagas.rows.filter fun saga => saga.data.orderId = some orderId) := by
  have hcolumn : QueryBuilder.column SagaInstance.columns
      (QueryBuilder.path "saga" "saga.data->>'orderId' = :orderId") = "data" := by decide +kernel
  have hname : (((sagaConditions orderId).map fun c => QueryBuilder.column SagaInstance.columns
      (QueryBuilder.path "saga" c.text)).find? (· ∉ SagaInstance.columns)) = none := by
    rw [sagaConditions, List.map_cons, List.map_nil, hcolumn]
    decide +kernel
  rw [QueryBuilder.getMany, hname]
  simp [sagaConditions]

/-- The query for its events fails, whatever is stored. -/
theorem getMany_events (w : World) (orderId : String) :
    QueryBuilder.getMany "event" EventStore.columns (eventConditions orderId) w.eventStore =
      .error (.error "column event.eventdata does not exist") := by
  have hcolumn : QueryBuilder.column EventStore.columns
      (QueryBuilder.path "event" "event.eventData->>'orderId' = :orderId") = "eventdata" := by
    decide +kernel
  have hmissing : "eventdata" ∉ EventStore.columns := by decide +kernel
  have hname : (((eventConditions orderId).map fun c => QueryBuilder.column EventStore.columns
      (QueryBuilder.path "event" c.text)).find? (· ∉ EventStore.columns)) = some "eventdata" := by
    rw [eventConditions, List.map_cons, hcolumn, List.find?_cons_of_pos (by simpa using hmissing)]
  rw [QueryBuilder.getMany, hname]
  rfl

/-- **No stored order can be traced by its id.** -/
theorem traceByOrderId_of_order {o : Order} (ho : o ∈ w.orders) (hid : o.id = orderId) :
    traceByOrderId w orderId = .error (.error "column event.eventdata does not exist") := by
  have hfind : (w.orders.find? (OrderWhere.selects { id := some orderId })).isSome := by
    refine Table.find?_isSome.mpr ⟨o, ho, ?_⟩
    simp [OrderWhere.selects, hid]
  obtain ⟨order, horder⟩ := Option.isSome_iff_exists.mp hfind
  simp only [traceByOrderId, horder, getMany_sagas, getMany_events]
  rfl

end TracingController

end CqrsSaga
