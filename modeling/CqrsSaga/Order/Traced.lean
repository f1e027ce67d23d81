import CqrsSaga.App.Tracing
import CqrsSaga.Flow.Runs

/-!
# Tracing an order

Every event carries a correlation id.  What its saga does to an order is published under
the order's key, and so are the results of its payment.  A request that cancels or confirms
an order has no correlation id to pass on, nor has the cleanup; their events get identifiers
of their own, and are not found by the key.

So the event store could tell what belongs to an order that is left to its saga, by either
identifier.  Of the two endpoints that ask it, the one that goes by the order's id always fails.

## Main definitions

* `TracesAgree` — both endpoints list the same events.
* `Traceable` — the runs in which what is drawn is fresh, and certain orders are left to
  their sagas.
* `EventStore.About` — an event is about an order.

## Main results

* `traces_never_agree` — **the traces agree for no order that has a saga.**
* `events_attributed` — **the events about an order are those under the key of its saga**, if it is
  left to it; of others there may be more.
-/

namespace CqrsSaga

open CqrsSaga.Flow TracingController Samples

/-! ### The two endpoints -/

/-- Both traces are found, and they list the same events. -/
def TracesAgree (w : World) (orderId correlationId : String) : Prop :=
  ∃ t t', traceByOrderId w orderId = .ok (some t) ∧
    traceByCorrelationId w correlationId = some t' ∧ ∀ e, e ∈ t.events ↔ e ∈ t'.timeline

/-- **The traces agree for no order that has a saga**: its saga can be traced, and the order
cannot. -/
theorem traces_never_agree [Hashes] {p : Pool application}
    (hp : Pool.Reachable World.NoOrders Served p) {s : SagaInstance} (hs : s ∈ p.world.sagas)
    {x : String} (hx : s.data.orderId = some x) :
    traceByOrderId p.world x = .error (.error "column event.eventdata does not exist") ∧
      (∃ t, traceByCorrelationId p.world s.correlationId = some t) ∧
      ¬TracesAgree p.world x s.correlationId := by
  obtain ⟨g, hI⟩ := flow_reachable (R := {}) (hp.mono fun _ _ => .of_served)
  obtain ⟨y, hy⟩ := hI.sagas s hs
  obtain rfl : x = y := Option.some.inj (hx.symm.trans hy.order)
  obtain ⟨o, ho, hid, -⟩ := hy.key
  have herror := traceByOrderId_of_order ho hid
  obtain ⟨t, ht, -⟩ := traceByCorrelationId_of_saga hs rfl
  refine ⟨herror, ⟨t, ht⟩, ?_⟩
  rintro ⟨t', -, ht', -⟩
  rw [herror] at ht'
  cases ht'

/-- Only requests come from outside, no operation fails, and what is drawn is fresh. -/
abbrev Smooth (uuid : String → Prop) (p : Pool application) (a : Action application) : Prop :=
  Served p a ∧ Faultless p a ∧ DrawsFresh uuid p a

/-- The correlation ids the runs below draw. -/
def drawnIds (t : String) : Prop := t ≠ "key-1"

instance (t : String) : Decidable (drawnIds t) := inferInstanceAs (Decidable (t ≠ "key-1"))

/-- An order has been placed and paid, and nothing is left to be done. -/
def tracedOrder : Pool application :=
  (Pool.play (Smooth drawnIds) ⟨World.empty 0, []⟩ (placed ++ paid ++ paidRest)).get
    (by decide +kernel)

theorem tracedOrder_reachable : Pool.Reachable World.NoOrders (Smooth drawnIds) tracedOrder :=
  Pool.reachable_of_play (World.noOrders_empty 0) _

theorem tracedOrder_saga : ∃ s ∈ tracedOrder.world.sagas, s.data.orderId = some "order-1" ∧
    s.correlationId = "key-1" := by
  have hany : (tracedOrder.world.sagas.rows.any fun s =>
      s.data.orderId = some "order-1" ∧ s.correlationId = "key-1") = true := by decide +kernel
  obtain ⟨s, hs, h⟩ := List.any_eq_true.mp hany
  exact ⟨s, hs, of_decide_eq_true h⟩

theorem traces_never_agree_paid : ¬TracesAgree tracedOrder.world "order-1" "key-1" := by
  obtain ⟨s, hs, hx, hkey⟩ := tracedOrder_saga
  exact hkey ▸ (traces_never_agree (tracedOrder_reachable.mono fun _ _ h => h.1) hs hx).2.2

/-- **The traces differ**, though all has gone well: one of them is an error. -/
theorem traces_differ : ∃ p : Pool application, Pool.Reachable World.NoOrders (Smooth drawnIds) p ∧
    p.Quiescent ∧ ∃ s ∈ p.world.sagas, ∃ x, s.data.orderId = some x ∧
      ¬TracesAgree p.world x s.correlationId := by
  obtain ⟨s, hs, hx, hkey⟩ := tracedOrder_saga
  refine ⟨tracedOrder, tracedOrder_reachable, by decide +kernel, s, hs, "order-1", hx, ?_⟩
  rintro ⟨t, t', ht, -⟩
  have horder : (tracedOrder.world.orders.rows.any fun o => o.id = "order-1") = true := by
    decide +kernel
  obtain ⟨o, ho, h⟩ := List.any_eq_true.mp horder
  rw [traceByOrderId_of_order ho (of_decide_eq_true h)] at ht
  cases ht

/-! ### What the event store tells -/

section Attribution

variable [Hashes]

/-- What is drawn is fresh, the correlation ids drawn being among `uuid`; and the orders `xs` are
neither cancelled nor confirmed by a request, nor listed by the cleanup. -/
def Traceable (uuid xs : String → Prop) (p : Pool application) (a : Action application) : Prop :=
  Served p a ∧ DrawsFresh uuid p a ∧ Untouching xs p a

instance Traceable.decidable {uuid xs : String → Prop} [∀ t, Decidable (uuid t)]
    [∀ x, Decidable (xs x)] (p : Pool application) (a : Action application) :
    Decidable (Traceable uuid xs p a) := instDecidableAnd

/-- The event is about the order: what `traceByOrderId` asks for. -/
def EventStore.About (e : EventStore) (orderId : String) : Prop :=
  e.eventData.orderId = orderId ∨ e.aggregateId = orderId

/-- **The events about an order are those under the key of its saga**, if it is left to it.  Of any
other, an event that is not has a correlation id that was drawn. -/
theorem events_attributed {uuid xs : String → Prop} {p : Pool application}
    (hp : Pool.Reachable World.NoOrders (Traceable uuid xs) p) {s : SagaInstance}
    (hs : s ∈ p.world.sagas) {x : String} (hx : s.data.orderId = some x) :
    ∀ e ∈ p.world.eventStore, (e.correlationId = some s.correlationId → e.About x) ∧
      (e.About x → e.correlationId = some s.correlationId ∨
        ¬xs x ∧ ∃ c, e.correlationId = some c ∧ uuid c) := by
  obtain ⟨g, hI⟩ := flow_reachable (R := { traced := True, uuid, untouched := xs })
    (hp.mono fun q a ha =>
      { Flow.Allowed.of_served ha.1 with
        performing := (Flow.Allowed.of_served ha.1).performing
        fresh := fun _ => ha.2.1
        untouched := ha.2.2 })
  obtain ⟨y, hy⟩ := hI.sagas s hs
  obtain rfl : x = y := Option.some.inj (hx.symm.trans hy.order)
  obtain ⟨o, ho, hid, hkey⟩ := hy.key
  intro e hmem
  have hstored := hI.books.stored e hmem
  obtain ⟨k, hk, hattributed⟩ := hstored.attributed trivial
  constructor
  · -- an event under the key of the order is the order's
    intro hc
    obtain rfl := Option.some.inj (hc.symm.trans hk)
    rcases hattributed with hkeyed | ⟨-, hu⟩
    · exact Or.inl (hkeyed.order_unique ⟨o, ho, hid, hkey⟩)
    · exact absurd hu (hI.books.keys trivial o ho _ hkey)
  · -- the event is about the order, not about a payment with the order's id
    intro habout
    have horder : e.eventData.orderId = x := by
      rcases habout with h | h
      · exact h
      · rcases hstored.aggregate with ha | ⟨q, hq, hqid, -⟩
        · exact ha.symm.trans h
        · exact absurd (hqid.trans (h.trans hid.symm)) (hI.books.ids trivial o ho q hq)
    rcases hattributed with hkeyed | ⟨hxs, hu⟩
    · exact Or.inl (hk.trans (congrArg some
        ((horder ▸ hkeyed).key_unique ⟨o, ho, hid, hkey⟩)))
    · exact Or.inr ⟨horder ▸ hxs, k, hk, hu⟩

end Attribution

/-- An order has been placed and paid, and all its events are stored. -/
def attributedOrder : Pool application :=
  (Pool.play (Traceable drawnIds (· = "order-1")) ⟨World.empty 0, []⟩
    (placed ++ paid ++ paidRest)).get (by decide +kernel)

theorem events_attributed_paid : ∃ e ∈ attributedOrder.world.eventStore,
    e.eventType = "PaymentProcessed" ∧ e.About "order-1" ∧ e.correlationId = some "key-1" := by
  have hsaga : (attributedOrder.world.sagas.rows.any fun s =>
      s.data.orderId = some "order-1" ∧ s.correlationId = "key-1") = true := by decide +kernel
  obtain ⟨s, hs, h⟩ := List.any_eq_true.mp hsaga
  obtain ⟨hx, hkey⟩ := of_decide_eq_true h
  have hevent : (attributedOrder.world.eventStore.any fun e =>
      e.eventType = "PaymentProcessed" ∧ e.eventData.orderId = "order-1") = true := by
    decide +kernel
  obtain ⟨e, he, h⟩ := List.any_eq_true.mp hevent
  obtain ⟨htype, horder⟩ := of_decide_eq_true h
  have habout : e.About "order-1" := Or.inl horder
  obtain ⟨-, hfrom⟩ := events_attributed (Pool.reachable_of_play (World.noOrders_empty 0) _) hs hx
    e he
  exact ⟨e, he, htype, habout, hkey ▸ (hfrom habout).resolve_right fun h => h.1 rfl⟩

end CqrsSaga
