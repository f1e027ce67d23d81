import CqrsSaga.Order.Consistency

/-!
# Completed sagas

The handler of a processed payment runs the confirmation step and then marks the saga as
completed.  A confirmation that fails is answered inside `executeSagaStep`, which returns
as if nothing had happened, and a confirmation may begin before the payment step is
recorded.  Where neither happens, a completed saga has completed both its steps.

## Main definitions

* `InOrder` — the runs in which confirmations come after the payment step, and do not fail.

## Main results

* `completed_both_steps` — in such runs, **a completed saga has completed both its steps.**
* `completed_unconfirmed` — a saga whose confirmation has failed is completed all the same.
-/

namespace CqrsSaga

open CqrsSaga.Flow

section Steps

variable [Hashes]

/-- No confirmation step reaches its `catch` block, and none tries for its lock before the
payment step is recorded. -/
def InOrder (p : Pool application) (a : Action application) : Prop :=
  Served p a ∧ Performing World.Orderly p a

/-- **A completed saga has completed both its steps**, if confirmations come after the payment
step and do not fail. -/
theorem completed_both_steps {p : Pool application}
    (hp : Pool.Reachable World.NoOrders InOrder p) {s : SagaInstance} (hs : s ∈ p.world.sagas)
    (hst : s.status = .completed) :
    "payment_processing" ∈ s.completedSteps ∧ "order_confirmation" ∈ s.completedSteps := by
  obtain ⟨g, hI⟩ := flow_reachable (R := { orderly := True }) (hp.mono fun q a ha =>
    { Flow.Allowed.of_served ha.1 with
      performing := ha.2.mono fun w o ho => ⟨fun _ => ho, False.elim⟩ })
  obtain ⟨x, hx⟩ := hI.sagas s hs
  exact hx.done trivial hst

instance InOrder.decidable (p : Pool application) (a : Action application) :
    Decidable (InOrder p a) := instDecidableAnd

end Steps

/-! ### A confirmation fails -/

open Samples

/-- An order is placed and paid. -/
def paidInOrder : Pool application :=
  (Pool.play InOrder ⟨World.empty 0, []⟩ (placed ++ paid)).get (by decide +kernel)

theorem completed_both_steps_paid : ∃ s ∈ paidInOrder.world.sagas,
    "payment_processing" ∈ s.completedSteps ∧ "order_confirmation" ∈ s.completedSteps := by
  have hany : (paidInOrder.world.sagas.rows.any fun s => s.status = .completed) = true := by
    decide +kernel
  obtain ⟨s, hs, hst⟩ := List.any_eq_true.mp hany
  exact ⟨s, hs, completed_both_steps
    (Pool.reachable_of_play (World.noOrders_empty 0) _) hs (by simpa using hst)⟩

/-- The payment goes through, but the order cannot be read when it is to be confirmed: the
failure is handled, and then the saga is completed. -/
def confirmationFails : List (Action application) :=
  placed ++ turns 4 5 "payment" ++ turns 7 5 "confirm" ++
    [.run 7 { fault := some (.refused "connection lost") }] ++ turns 7 21 "confirm"

/-- The saga is completed all the same. -/
def completedAnyway : Pool application :=
  (Pool.play Served ⟨World.empty 0, []⟩ confirmationFails).get (by decide +kernel)

/-- **A saga is completed whose confirmation has failed.** -/
theorem completed_unconfirmed : ∃ p : Pool application,
    Pool.Reachable World.NoOrders Served p ∧ ∃ s ∈ p.world.sagas,
      s.status = .completed ∧ "order_confirmation" ∉ s.completedSteps := by
  refine ⟨completedAnyway, Pool.reachable_of_play (World.noOrders_empty 0) _, ?_⟩
  have hany : (completedAnyway.world.sagas.rows.any fun s =>
      s.status = .completed ∧ "order_confirmation" ∉ s.completedSteps) = true := by
    decide +kernel
  obtain ⟨s, hs, h⟩ := List.any_eq_true.mp hany
  exact ⟨s, hs, by simpa using h⟩

end CqrsSaga
