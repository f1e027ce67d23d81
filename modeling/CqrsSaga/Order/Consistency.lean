import CqrsSaga.Flow.Runs

/-!
# Payments belong to their orders

The identity of an order, its amount and its key travel by value through a command, an
event, a saga, a payment and an event again, and any operation on the way may fail.
What is stored and published agrees all the same, and no order is charged twice.

## Main definitions

* `Event.paymentResult` — the payment whose result an event reports.

## Main results

* `payments_consistent` — **payments, their events and the sagas agree with the orders.**
-/

namespace CqrsSaga

open CqrsSaga.Flow

/-- The payment whose result an event reports. -/
def Event.paymentResult : Event → Option String
  | .paymentProcessed e => some e.paymentId
  | .paymentFailed e => some e.paymentId
  | _ => none

/-- An event that reports the result of a payment carries the key of the payment's order. -/
theorem Event.Stored.result {w : World} {e : Event} (h : e.Stored w) {id : String}
    (hid : e.paymentResult = some id) :
    ∃ k, e.correlationId = some k ∧ ∃ q ∈ w.payments, q.id = id ∧ q.orderId = e.orderId ∧
      w.Keyed q.orderId k := by
  cases e with
  | paymentProcessed e =>
    obtain ⟨⟨q, hq, hqid, ho, -⟩, k, hk, hkey⟩ := h
    exact ⟨k, hk, q, hq, hqid.trans (Option.some.inj hid), ho, ho ▸ hkey⟩
  | paymentFailed e =>
    obtain ⟨⟨q, hq, hqid, ho, -⟩, k, hk, hkey⟩ := h
    exact ⟨k, hk, q, hq, hqid.trans (Option.some.inj hid), ho, ho ▸ hkey⟩
  | _ => simp [paymentResult] at hid

section Agree

variable [Hashes]

/-- Runs without any restriction but that requests are what comes from outside. -/
theorem served_reachable {p : Pool application} (hp : Pool.Reachable World.NoOrders Served p) :
    ∃ g, Inv {} p.world g :=
  flow_reachable (hp.mono fun _ _ ha => .of_served ha)

/-- **Payments, their events and the sagas agree with the orders.**  Whatever is requested and
whichever operations fail, every payment is one of a stored order, by the same user and of the same
amount; no order has two; and the result of a payment is published under the key of its
order, by which the saga of that order is found. -/
theorem payments_consistent {p : Pool application}
    (hp : Pool.Reachable World.NoOrders Served p) :
    (∀ q ∈ p.world.payments, ∃ o ∈ p.world.orders, o.id = q.orderId ∧ o.userId = q.userId ∧
      o.totalAmount = q.amount) ∧
    (∀ q ∈ p.world.payments, ∀ q' ∈ p.world.payments, q.orderId = q'.orderId → q = q') ∧
    ∀ e ∈ p.world.published, ∀ id, e.paymentResult = some id →
      ∃ q ∈ p.world.payments, q.id = id ∧ ∃ o ∈ p.world.orders, o.id = q.orderId ∧
        ∃ k, e.correlationId = some k ∧ o.idempotencyKey = some k ∧
          ∀ s ∈ p.world.sagas, s.Is "OrderProcessingSaga" k → s.data.orderId = some o.id := by
  obtain ⟨g, hI⟩ := served_reachable hp
  refine ⟨hI.payments, hI.single, fun e he id hid => ?_⟩
  obtain ⟨k, hk, q, hq, hqid, -, hkeyed⟩ := (hI.events e he).stored.result hid
  obtain ⟨o, ho, hoid, hokey⟩ := hkeyed
  refine ⟨q, hq, hqid, o, ho, hoid, k, hk, hokey, fun s hs his => ?_⟩
  -- the key of the saga belongs to one order
  obtain ⟨x, hx⟩ := hI.sagas s hs
  rw [hx.order]
  exact congrArg some (World.Keyed.order_unique (his.2 ▸ hx.key) ⟨o, ho, rfl, hokey⟩)

end Agree

/-! ### An order that is paid -/

open Samples

/-- An order has been placed and paid. -/
def paidOrder : Pool application :=
  (Pool.play Served ⟨World.empty 0, []⟩ (placed ++ paid)).get (by decide +kernel)

theorem paidOrder_reachable : Pool.Reachable World.NoOrders Served paidOrder :=
  Pool.reachable_of_play (World.noOrders_empty 0) _

/-- Its payment has been reported under its key. -/
theorem payments_consistent_paid :
    ∃ q ∈ paidOrder.world.payments, q.id = "saga-1" ∧ ∃ o ∈ paidOrder.world.orders,
      o.id = q.orderId ∧ ∃ k, o.idempotencyKey = some k ∧
        ∀ s ∈ paidOrder.world.sagas, s.Is "OrderProcessingSaga" k → s.data.orderId = some o.id := by
  have hcons := payments_consistent paidOrder_reachable
  have hany : (paidOrder.world.published.any fun e => e.paymentResult == some "saga-1") = true := by
    decide +kernel
  obtain ⟨e, he, hid⟩ := List.any_eq_true.mp hany
  obtain ⟨q, hq, hqid, o, ho, hoid, k, -, hk, hs⟩ := hcons.2.2 e he "saga-1" (by simpa using hid)
  exact ⟨q, hq, hqid, o, ho, hoid, k, hk, hs⟩

end CqrsSaga
