import CqrsSaga.Async.Termination
import CqrsSaga.Flow.Runs

/-!
# All work comes to an end

A request starts callbacks, callbacks publish events, events are handed to handlers, and some of
the handlers start callbacks again.  Each of them starts only what comes later in the course of an
order: placing it, its events, charging it, settling the payment, confirming or cancelling it, and
telling of that.  How long a single activity is depends on what it reads: the cleanup goes through
all pending orders, a compensation through all completed steps.

## Main definitions

* `Job.rank` — how much may still follow an activity.
* `Op.Below` — the operation starts nothing that ranks higher.

## Main results

* `application_ranked` — every activity starts only such as rank below it.
* `work_ends` — **once no more requests come, only finitely many operations are performed**,
  whichever of them fail and in whatever order the activities move.
-/

namespace CqrsSaga

open SagaManager KafkaService OrderProcessingSaga

/-! ### Ranks -/

/-- How much may follow the delivery of an event. -/
def Event.rank : Event → ℕ
  | .orderCreated _ => 4
  | .paymentProcessed _ => 2
  | .paymentFailed _ => 2
  | _ => 0

/-- How much may follow work that was handed over. -/
def Task.rank : Task → ℕ
  | .publishAll events => (events.map Event.rank).sum + 1
  | .publishSagaEvent _ => 0
  | .externalPayment _ _ => 3
  | .deliver d => d.event.rank

/-- How much may follow an activity. -/
def Job.rank : Job → ℕ
  | .request _ => 6
  | .task t => t.rank

/-- The operation starts only what ranks below `n`. -/
def Op.Below (n : ℕ) : Op → Prop
  | .setImmediate task => task.rank < n
  | .publishAll events => ∀ e ∈ events, e.rank < n
  | _ => True

variable {n : ℕ}

theorem Op.Inward.below {o : Op} (h : o.Inward) : o.Below n := by
  obtain ⟨-, hs⟩ := h
  cases o <;> simp [Op.starts] at hs <;> exact trivial

theorem Announcement.rank {events : List Event} (h : Announcement events) :
    (Task.publishAll events).rank = 1 := by
  obtain ⟨e, f, rfl, ⟨g, rfl⟩ | ⟨g, rfl⟩⟩ := h
  · rfl
  · rfl

/-- What an operation starts ranks below `n`. -/
theorem World.exec_below {w w' : World} {i : ℕ} {o : Op} {c : Choice} {r : Except Err (Op.Val o)}
    {ts : List Task} (h : w.exec i o c = some (w', r, ts)) (ho : o.Below n) :
    ∀ task ∈ ts, task.rank < n := by
  refine World.exec_starts h ?_ ?_
  · rintro task rfl
    exact ho
  · rintro events rfl d hd
    exact ho d.event hd

/-! ### The programs -/

section Programs

variable [Hashes]

theorem Op.Common.below {o : Op} (hn : 0 < n) (h : o.Common) : o.Below n := by
  cases o with
  | setImmediate task =>
    obtain ⟨m, rfl, -⟩ := h
    exact hn
  | publishAll events => exact absurd h id
  | _ => exact trivial

omit [Hashes] in
theorem cancelOrder_below (hn : 1 < n) (command : CancelOrderCommand) :
    (CancelOrderHandler.execute command).Only (Op.Below n) := by
  refine (cancelOrder_along (L := fun _ => True) (fun _ => Op.Inward.below) trivial
    (fun _ _ => trivial) (fun _ _ => trivial) fun _ _ events h _ => ?_).only
  show (Task.publishAll events).rank < n
  rw [h.rank]
  exact hn

omit [Hashes] in
theorem confirmOrder_below (hn : 1 < n) (command : ConfirmOrderCommand) :
    (ConfirmOrderHandler.execute command).Only (Op.Below n) := by
  refine (confirmOrder_along (L := fun _ => True) (fun _ => Op.Inward.below) trivial
    (fun _ _ => trivial) (fun _ _ _ => trivial) fun _ _ events h _ => ?_).only
  show (Task.publishAll events).rank < n
  rw [h.rank]
  exact hn

theorem placeOrder_below (hn : 5 < n) (dto : CreateOrderDto) (userId : String) :
    (OrderController.placeOrder dto userId).Only (Op.Below n) :=
  (placeOrder_along (L := fun _ => True) trivial trivial (fun _ _ => trivial) fun _ _ => hn).only

omit [Hashes] in
theorem externalPayment_below (hn : 2 < n) (payment : Payment) (correlationId : Option String) :
    (ProcessPaymentHandler.externalPayment payment correlationId).Only (Op.Below n) := by
  refine (externalPayment_along (fun _ => Op.Inward.below) (fun _ _ => trivial) ?_).only
  intro e he f hf
  obtain rfl := List.mem_singleton.mp hf
  obtain ⟨g, rfl, -⟩ | ⟨g, rfl, -⟩ := he
  · exact hn
  · exact hn

/-- The payment is handed over to be settled. -/
theorem handleOrderCreated_below (hn : 3 < n) (e : OrderCreatedEvent) :
    (handleOrderCreated e).Only (Op.Below n) := by
  have hcommon : ∀ o : Op, o.Common → o.Below n := fun _ =>
    Op.Common.below (Nat.zero_lt_of_lt hn)
  exact (handleOrderCreated_along (.of_common hcommon)
    (fun _ _ => .of_common hcommon (fun _ => trivial) fun _ _ => trivial)
    fun _ _ => paymentAction_along (fun _ => Op.Inward.below) (fun _ => trivial)
      fun _ _ => hn).only

theorem storeAndPublish_below (topic aggregateId aggregateType eventType : String)
    (eventData : EventData) (e : Event) :
    (storeAndPublish topic aggregateId aggregateType eventType eventData e).Only (Op.Below n) :=
  .bind (.perform trivial) fun _ => .perform trivial

/-- A handler starts only what ranks below its event. -/
theorem deliver_below (d : Delivery) : d.run.Only (Op.Below d.event.rank) := by
  have hwork : SagaWork (Op.Below 2) (fun _ _ => True) (fun _ => True) fun _ => True :=
    .of_common fun _ => Op.Common.below Nat.two_pos
  cases d with
  | orderCreatedHandler e =>
    exact .bind (storeAndPublish_below ..) fun _ => handleOrderCreated_below (Nat.lt_succ_self 3) e
  | paymentProcessedSagaHandler e =>
    exact (handlePaymentProcessed_along hwork trivial (fun _ _ => trivial) fun c =>
      .of_only (confirmOrder_below (by decide) _) fun _ => trivial).only
  | paymentFailedSagaHandler e =>
    exact (handlePaymentFailed_along hwork trivial (fun _ _ => trivial) fun reason c =>
      .of_only (cancelOrder_below (by decide) _) fun _ => trivial).only
  | _ => exact storeAndPublish_below ..

omit [Hashes] in
/-- The cleanup cancels orders, however many there are. -/
theorem cleanupPendingOrders_below (hn : 1 < n) :
    SagaMaintenanceController.cleanupPendingOrders.Only (Op.Below n) := by
  refine .bind (.perform trivial) fun orders => ?_
  exact (cleanupOrders_along (fun _ => trivial) (fun _ => trivial) (fun _ => trivial)
    (fun command => .of_only (cancelOrder_below hn command) fun _ => trivial) orders).only

/-- **An activity starts only what ranks below it.** -/
theorem Job.run_below (t : Job) : t.run.Only (Op.Below t.rank) := by
  cases t with
  | request r =>
    cases r with
    | createOrder dto userId | createTestOrder dto userId =>
      exact .bind (placeOrder_below (Nat.lt_succ_self 5) dto userId) fun _ => trivial
    | cancelOrder id userId reason =>
      exact .bind (cancelOrder_below (show 1 < 6 by decide) _) fun _ => trivial
    | confirmOrder id paymentId =>
      exact .bind (confirmOrder_below (show 1 < 6 by decide) _) fun _ => trivial
    | cleanupPendingOrders =>
      exact .bind (cleanupPendingOrders_below (show 1 < 6 by decide)) fun _ => trivial
    | lockTest test =>
      exact (lockTest_along (fun _ => Op.Inward.below) (fun _ _ => ⟨fun _ _ => trivial,
        fun _ => trivial⟩) (fun _ _ _ => trivial) fun _ => trivial).only
  | task v =>
    refine .bind ?_ fun _ => trivial
    cases v with
    | publishAll events =>
      refine .perform fun e he => ?_
      exact Nat.lt_succ_of_le (List.le_sum_of_mem (List.mem_map_of_mem he))
    | publishSagaEvent m => exact .perform trivial
    | externalPayment p c => exact externalPayment_below (Nat.lt_succ_self 2) p c
    | deliver d => exact deliver_below d

/-- **Every activity starts only such as rank below it.** -/
theorem application_ranked :
    application.Ranked Job.rank fun (t : Job) (o : Op) => o.Below t.rank where
  only := Job.run_below
  below := by
    intro t o w i c w' r ts ho he t' ht'
    obtain ⟨task, htask, ht'⟩ := List.mem_filterMap.mp ht'
    obtain rfl := Option.some.inj ht'
    exact World.exec_below he ho task htask

/-- Whatever its activities are, each came from a program of the application. -/
theorem Pool.Reachable.tame {init : World → Prop}
    {allowed : Pool application → Action application → Prop} {p : Pool application}
    (h : Pool.Reachable init allowed p) : p.Tame fun (t : Job) (o : Op) => o.Below t.rank :=
  h.only application_ranked.only

/-- **Once no more requests come, only finitely many operations are performed**, whichever of them
fail and in whatever order the activities move: from some point on a run that does not end only
lets time pass. -/
theorem work_ends {init : World → Prop} {allowed : Pool application → Action application → Prop}
    {p : ℕ → Pool application} {a : ℕ → Action application}
    (hp : Pool.Reachable init allowed (p 0)) (hrun : ∀ n, (p n).next (a n) = some (p (n + 1)))
    {N : ℕ} (hrest : ∀ n ≥ N, ∀ t, a n ≠ .start t) : ∃ K, ∀ n ≥ K, ∃ d, a n = .tick d :=
  application_ranked.comes_to_rest hrun hp.tame hrest

end Programs

/-! ### An order is placed, paid and delivered to every handler -/

namespace Ends

open Samples

/-- The order is placed, charged and confirmed, and everybody is told. -/
def ordered : List (Action application) := placed ++ (paid ++ paidRest)

/-- From then on only time passes. -/
def afterwards (n : ℕ) : Action application := ordered[n]?.getD (.tick 1)

theorem ordered_played :
    (Pool.play (fun _ _ => True) ⟨World.empty 0, []⟩ ordered).isSome := by decide +kernel

/-- There is one request, and it comes first. -/
theorem ordered_starts {n : ℕ} (hn : 1 ≤ n) (t : Job) : afterwards n ≠ .start t := by
  intro h
  have hstart : .start t ∈ ordered.tail := by
    cases ha : ordered[n]? with
    | none => simp [afterwards, ha] at h
    | some a =>
      have hat : a = .start t := by simpa [afterwards, ha] using h
      rw [← hat, List.mem_iff_getElem?]
      exact ⟨n - 1, by rw [List.getElem?_tail, Nat.sub_add_cancel hn, ha]⟩
  simp [ordered, placed, paid, paidRest, turns] at hstart

/-- In the end nothing but time passes. -/
theorem work_ends_paid : ∃ K, ∀ n ≥ K, ∃ d, afterwards n = .tick d := by
  obtain ⟨f, hf, hnext⟩ := Pool.exists_course_of_play (M := app) 1 ordered _ ordered_played
  have hinit : Pool.Reachable (fun w => w = World.empty 0) (fun _ _ => True) (f 0) :=
    ⟨_, rfl, hf ▸ .refl⟩
  exact work_ends hinit hnext (N := 1) fun n hn t => ordered_starts hn t

end Ends

end CqrsSaga
