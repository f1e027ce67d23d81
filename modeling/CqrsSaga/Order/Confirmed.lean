import CqrsSaga.Order.Consistency

/-!
# Paid orders and their payments

An order is paid in two ways: its saga confirms it under the payment that went through, or
somebody sends a request to confirm it and names whatever payment he likes.  The handler
looks at the status of the order only, and returns as if it had confirmed an order that
was decided before.

## Main definitions

* `Vouched` — the runs in which such requests name a completed payment of the order, if they find
  it pending.

## Main results

* `paid_has_payment` — in such runs, **a paid order has the completed payment it names.**
* `paid_unpaid` — in others it may have none.
* `confirmation_recorded` — where a confirmation is recorded, **the order is paid under its
  payment, or has been cancelled.**
* `confirmation_of_cancelled` — it may have been cancelled before.
-/

namespace CqrsSaga

open CqrsSaga.Flow

section Vouched

variable [Hashes]

/-- Every request that finds the order `x` pending confirms it under a completed payment of it. -/
def Vouched (x : String) (p : Pool application) (a : Action application) : Prop :=
  Served p a ∧ PerformingAs (Job.ConfirmsPaid x) p a

/-- The regime of such runs. -/
abbrev vouching (x : String) (l : List Job) : Regime :=
  { vouched := (· = x), known := fun i w o => ∀ t ∈ l[i]?, Job.ConfirmsPaid x t w o }

theorem vouched_reachable {x : String} {p : Pool application}
    (hp : Pool.Reachable World.NoOrders (Vouched x) p) :
    ∃ g, Inv (vouching x p.tags) p.world g := by
  let R : Regime := { vouched := (· = x) }
  refine flow_reachable (R := R.knowing (Job.ConfirmsPaid x) p.tags)
    (hp.within.mono fun q a ha => ?_)
  obtain ⟨⟨hserved, hconfirms⟩, q', hn, hl⟩ := ha
  exact { Flow.Allowed.of_served hserved with
    knowing := .of_performingAs (fun _ _ _ _ _ hx => hx.elim) (fun _ _ _ hx => hx.elim)
      (fun _ _ _ _ hx h => hx ▸ h) hconfirms hn hl }

/-- **A paid order has the completed payment it names**, if whoever confirms it by hand names
one. -/
theorem paid_has_payment {x : String} {p : Pool application}
    (hp : Pool.Reachable World.NoOrders (Vouched x) p) {o : Order} (ho : o ∈ p.world.orders)
    (hx : o.id = x) (hst : o.status = .paid) :
    ∃ q ∈ p.world.payments, o.paymentId = some q.id ∧ q.orderId = o.id ∧
      q.status = .completed := by
  obtain ⟨g, hI⟩ := vouched_reachable hp
  exact hI.books.paid o ho hx hst

/-- **Where a confirmation is recorded, the order is paid under its payment, or has been
cancelled.** -/
theorem confirmation_recorded {x : String} {p : Pool application}
    (hp : Pool.Reachable World.NoOrders (Vouched x) p) {s : SagaInstance}
    (hs : s ∈ p.world.sagas) (hx : s.data.orderId = some x)
    (hstep : "order_confirmation" ∈ s.completedSteps) :
    ∃ o ∈ p.world.orders, o.id = x ∧ (o.status = .cancelled ∨ o.status = .paid ∧
      ∃ q ∈ p.world.payments, o.paymentId = some q.id ∧ q.orderId = x ∧
        q.status = .completed) := by
  obtain ⟨g, hI⟩ := vouched_reachable hp
  obtain ⟨y, hy⟩ := hI.sagas s hs
  obtain rfl : x = y := Option.some.inj (hx.symm.trans hy.order)
  obtain ⟨o, ho, rfl, hdecided⟩ := hy.confirmed hstep
  refine ⟨o, ho, rfl, ?_⟩
  rcases hI.books.statuses o ho with h | h | h
  · exact absurd h hdecided
  · exact Or.inr ⟨h, hI.books.paid o ho rfl h⟩
  · exact Or.inl h

instance Vouched.decidable (x : String) (p : Pool application) (a : Action application) :
    Decidable (Vouched x p a) := instDecidableAnd

end Vouched

open Samples

/-! ### An order is paid -/

/-- An order has been placed and paid. -/
def paidVouched : Pool application :=
  (Pool.play (Vouched "order-1") ⟨World.empty 0, []⟩ (placed ++ paid)).get (by decide +kernel)

theorem paidVouched_reachable : Pool.Reachable World.NoOrders (Vouched "order-1") paidVouched :=
  Pool.reachable_of_play (World.noOrders_empty 0) _

theorem paid_has_payment_paid : ∃ o ∈ paidVouched.world.orders, ∃ q ∈ paidVouched.world.payments,
    o.paymentId = some q.id ∧ q.orderId = o.id ∧ q.status = .completed := by
  have hany : (paidVouched.world.orders.rows.any fun o => o.id = "order-1" ∧ o.status = .paid) =
      true := by decide +kernel
  obtain ⟨o, ho, h⟩ := List.any_eq_true.mp hany
  obtain ⟨hid, hst⟩ := of_decide_eq_true h
  exact ⟨o, ho, paid_has_payment paidVouched_reachable ho hid hst⟩

theorem confirmation_recorded_paid : ∃ o ∈ paidVouched.world.orders, o.id = "order-1" ∧
    (o.status = .cancelled ∨ o.status = .paid ∧ ∃ q ∈ paidVouched.world.payments,
      o.paymentId = some q.id ∧ q.orderId = "order-1" ∧ q.status = .completed) := by
  have hany : (paidVouched.world.sagas.rows.any fun s => s.data.orderId = some "order-1" ∧
      "order_confirmation" ∈ s.completedSteps) = true := by decide +kernel
  obtain ⟨s, hs, h⟩ := List.any_eq_true.mp hany
  obtain ⟨hx, hstep⟩ := of_decide_eq_true h
  exact confirmation_recorded paidVouched_reachable hs hx hstep

/-! ### An order is confirmed by hand -/

/-- Somebody confirms an order while its payment is being processed, and names no payment. -/
def confirmedByHand : List (Action application) :=
  placed ++ .start (.request (.confirmOrder "order-1" none)) :: turns 6 5 "confirm"

/-- The order is paid, as far as it knows. -/
def paidByHand : Pool application :=
  (Pool.play Served ⟨World.empty 0, []⟩ confirmedByHand).get (by decide +kernel)

/-- **A paid order has no payment to show.** -/
theorem paid_unpaid : ∃ p : Pool application, Pool.Reachable World.NoOrders Served p ∧
    ∃ o ∈ p.world.orders, o.status = .paid ∧ ¬∃ q ∈ p.world.payments,
      o.paymentId = some q.id ∧ q.orderId = o.id ∧ q.status = .completed := by
  refine ⟨paidByHand, Pool.reachable_of_play (World.noOrders_empty 0) _, ?_⟩
  have hany : (paidByHand.world.orders.rows.any fun o => o.status = .paid ∧ o.paymentId = none) =
      true := by decide +kernel
  obtain ⟨o, ho, h⟩ := List.any_eq_true.mp hany
  obtain ⟨hst, hnone⟩ := of_decide_eq_true h
  refine ⟨o, ho, hst, ?_⟩
  rintro ⟨q, -, hq, -⟩
  rw [hnone] at hq
  simp at hq

/-! ### An order is cancelled before its payment goes through -/

/-- The user cancels his order, and then its payment goes through: the confirmation finds the
order cancelled, and is recorded all the same. -/
def confirmedCancelled : List (Action application) :=
  placed ++ .start (.request (.cancelOrder "order-1" "user-1" none)) ::
    (turns 6 5 "cancel" ++ turns 4 5 "payment" ++ turns 9 13 "confirm")

/-- The order is cancelled, and its confirmation recorded. -/
def recordedCancelled : Pool application :=
  (Pool.play Served ⟨World.empty 0, []⟩ confirmedCancelled).get (by decide +kernel)

/-- **A confirmation is recorded that has confirmed nothing**: the order has no payment. -/
theorem confirmation_of_cancelled : ∃ p : Pool application,
    Pool.Reachable World.NoOrders Served p ∧ ∃ s ∈ p.world.sagas,
      "order_confirmation" ∈ s.completedSteps ∧ ∃ o ∈ p.world.orders,
        s.data.orderId = some o.id ∧ ¬∃ q ∈ p.world.payments,
          q.orderId = o.id ∧ o.paymentId = some q.id := by
  refine ⟨recordedCancelled, Pool.reachable_of_play (World.noOrders_empty 0) _, ?_⟩
  have hsaga : (recordedCancelled.world.sagas.rows.any fun s =>
      "order_confirmation" ∈ s.completedSteps ∧ s.data.orderId = some "order-1") = true := by
    decide +kernel
  have horder : (recordedCancelled.world.orders.rows.any fun o =>
      o.id = "order-1" ∧ o.paymentId = none) = true := by decide +kernel
  obtain ⟨s, hs, h⟩ := List.any_eq_true.mp hsaga
  obtain ⟨hstep, hx⟩ := of_decide_eq_true h
  obtain ⟨o, ho, h⟩ := List.any_eq_true.mp horder
  obtain ⟨hid, hnone⟩ := of_decide_eq_true h
  refine ⟨s, hs, hstep, o, ho, hx.trans (congrArg some hid.symm), ?_⟩
  rintro ⟨q, -, -, hq⟩
  rw [hnone] at hq
  simp at hq

end CqrsSaga
