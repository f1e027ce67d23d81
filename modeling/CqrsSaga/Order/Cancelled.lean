import CqrsSaga.Order.Consistency

/-!
# Cancelled orders and their payments

An order is cancelled by its saga once its payment has failed, by its user whenever he
likes, and by the cleanup also if it finds no payment.  Nothing in the application
refunds a payment, so an order that is cancelled by its user, or before its payment
is stored, may stay charged.  One that is cancelled only once its payment has failed never is.

## Main definitions

* `Sparing` — the runs in which an order is cancelled only once its payment has failed.

## Main results

* `cancelled_uncharged` — in such runs, **a cancelled order has no completed payment.**
* `cancelled_stays_charged` — in others it may have one for good.
-/

namespace CqrsSaga

open CqrsSaga.Flow

section Spared

variable [Hashes]

/-- Users and the cleanup cancel the order `x` only once its payment has failed. -/
def Sparing (x : String) (p : Pool application) (a : Action application) : Prop :=
  Served p a ∧ PerformingAs (Job.CancelsFailed x) p a

/-- **A cancelled order has no completed payment**, if it was cancelled only once its payment
had failed. -/
theorem cancelled_uncharged {x : String} {p : Pool application}
    (hp : Pool.Reachable World.NoOrders (Sparing x) p) (hc : p.world.Cancelled x) :
    ¬p.world.Outcome x .completed := by
  let R : Regime := { spared := (· = x) }
  obtain ⟨g, hI⟩ := flow_reachable (R := R.knowing (Job.CancelsFailed x) p.tags)
    (hp.within.mono fun q a ha => by
      obtain ⟨⟨hserved, hcancels⟩, q', hn, hl⟩ := ha
      exact { Flow.Allowed.of_served hserved with
        knowing := .of_performingAs (fun _ _ _ _ _ hx h => hx ▸ h) (fun _ _ _ hx h => hx ▸ h)
          (fun _ _ _ _ hx => hx.elim) hcancels hn hl })
  obtain ⟨q, hq, hqx, hqs⟩ := hI.spared x rfl hc
  rintro ⟨q', hq', hqx', hqs'⟩
  obtain rfl := hI.single q hq q' hq' (hqx.trans hqx'.symm)
  rw [hqs] at hqs'
  simp at hqs'

instance Sparing.decidable (x : String) (p : Pool application) (a : Action application) :
    Decidable (Sparing x p a) := instDecidableAnd

end Spared

/-! ### An order is cancelled by its saga, and by its user -/

open Samples

/-- The payment of the order is declined, and its saga cancels it. -/
def cancelledBySaga : List (Action application) := placed ++ declined ++ turns 7 7 "cancel"

theorem cancelledBySaga_played :
    (Pool.play (Sparing "order-1") ⟨World.empty 0, []⟩ cancelledBySaga).isSome := by
  decide +kernel

theorem cancelled_uncharged_bySaga :
    ¬((Pool.play (Sparing "order-1") ⟨World.empty 0, []⟩ cancelledBySaga).get
      cancelledBySaga_played).world.Outcome "order-1" .completed :=
  cancelled_uncharged (Pool.reachable_of_play (World.noOrders_empty 0) cancelledBySaga_played)
    (by decide +kernel)

/-- The order has been paid, and then its user cancels it. -/
def cancelledByUser : List (Action application) :=
  placed ++ paid ++ paidRest ++ .start (.request (.cancelOrder "order-1" "user-1" none)) ::
    (turns 13 5 "cancel" ++ turns 14 1 "" ++ turns 15 2 "" ++ turns 16 2 "")

/-- The order is cancelled and charged. -/
def cancelledCharged : Pool application :=
  (Pool.play Served ⟨World.empty 0, []⟩ cancelledByUser).get (by decide +kernel)

/-- **A cancelled order stays charged**: nothing is left to be done. -/
theorem cancelled_stays_charged : ∃ p : Pool application,
    Pool.Reachable World.NoOrders Served p ∧ p.Quiescent ∧ p.world.Cancelled "order-1" ∧
      p.world.Outcome "order-1" .completed :=
  ⟨cancelledCharged, Pool.reachable_of_play (World.noOrders_empty 0) _, by decide +kernel,
    by decide +kernel, by decide +kernel⟩

end CqrsSaga
