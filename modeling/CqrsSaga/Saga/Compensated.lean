import CqrsSaga.Order.Cancelled

/-!
# Compensated sagas

The handler of a failed payment cancels the order and then marks the saga as compensated.
The handling of a failed step marks the saga as well, after noting which steps were to be
undone, but leaves the order alone.  So a compensated saga has its order cancelled only where
failures are handled after the order has been cancelled, and it stays so.

## Main definitions

* `UndoneFirst` — the runs in which they are.

## Main results

* `compensated_cancelled` — in such runs, **the order of a compensated saga is cancelled.**
* `compensated_pending` — the saga of a payment that could not be stored is compensated, and
  its order left as it is.
-/

namespace CqrsSaga

open CqrsSaga.Flow

section Undone

variable [Hashes]

/-- The handling of a failure begins only where the order is cancelled, and a cancelled order
is not written back as anything else. -/
def UndoneFirst (p : Pool application) (a : Action application) : Prop :=
  Served p a ∧ Performing World.Undone p a

/-- **The order of a compensated saga is cancelled**, if failures are handled only where it is. -/
theorem compensated_cancelled {p : Pool application}
    (hp : Pool.Reachable World.NoOrders UndoneFirst p) {s : SagaInstance}
    (hs : s ∈ p.world.sagas) (hst : s.status = .compensated) :
    ∃ x, s.data.orderId = some x ∧ p.world.Cancelled x := by
  obtain ⟨g, hI⟩ := flow_reachable (R := { undone := True }) (hp.mono fun q a ha =>
    { Flow.Allowed.of_served ha.1 with
      performing := ha.2.mono fun w o ho => ⟨False.elim, fun _ => ho⟩ })
  obtain ⟨x, hx⟩ := hI.sagas s hs
  exact ⟨x, hx.order, hx.undone trivial hst⟩

instance UndoneFirst.decidable (p : Pool application) (a : Action application) :
    Decidable (UndoneFirst p a) := instDecidableAnd

end Undone

/-! ### A payment cannot be stored -/

open Samples

/-- The payment of an order was declined, and the order cancelled. -/
def cancelledFirst : Pool application :=
  (Pool.play UndoneFirst ⟨World.empty 0, []⟩ cancelledBySaga).get (by decide +kernel)

theorem compensated_cancelled_declined : ∃ s ∈ cancelledFirst.world.sagas,
    ∃ x, s.data.orderId = some x ∧ cancelledFirst.world.Cancelled x := by
  have hany : (cancelledFirst.world.sagas.rows.any fun s => s.status = .compensated) = true := by
    decide +kernel
  obtain ⟨s, hs, hst⟩ := List.any_eq_true.mp hany
  exact ⟨s, hs, compensated_cancelled
    (Pool.reachable_of_play (World.noOrders_empty 0) _) hs (by simpa using hst)⟩

/-- The payment cannot be stored: the failure is handled. -/
def paymentFails : List (Action application) :=
  .start (.request (.createOrder oneProduct "user-1")) ::
    (turns 0 3 "order-1" ++ turns 1 1 "" ++ turns 2 12 "saga-1" ++
      [.run 2 { fault := some (.refused "connection lost") }] ++ turns 2 17 "saga-1")

/-- Its saga has been compensated. -/
def paymentUnstored : Pool application :=
  (Pool.play Served ⟨World.empty 0, []⟩ paymentFails).get (by decide +kernel)

/-- **A saga is compensated whose order is not cancelled.** -/
theorem compensated_pending : ∃ p : Pool application,
    Pool.Reachable World.NoOrders Served p ∧ ∃ s ∈ p.world.sagas, s.status = .compensated ∧
      s.data.orderId = some "order-1" ∧ ¬p.world.Cancelled "order-1" := by
  refine ⟨paymentUnstored, Pool.reachable_of_play (World.noOrders_empty 0) _, ?_⟩
  have hany : (paymentUnstored.world.sagas.rows.any fun s =>
      s.status = .compensated ∧ s.data.orderId = some "order-1") = true := by
    decide +kernel
  obtain ⟨s, hs, h⟩ := List.any_eq_true.mp hany
  obtain ⟨hst, hd⟩ : s.status = .compensated ∧ s.data.orderId = some "order-1" := by simpa using h
  exact ⟨s, hs, hst, hd, by decide +kernel⟩

end CqrsSaga
