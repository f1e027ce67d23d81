import CqrsSaga.App.Transactions
import CqrsSaga.App.Vocabulary
import CqrsSaga.Async.Protocol

/-!
# What nobody but a few calls has to do with

The transactions of the application are the business of `handleSagaFailure` alone, and its locks
that of `withLock`.  An assertion about the one or the other is kept by every program that keeps it
in these two places, if all other operations do.

## Main definitions

* `Op.Ordinary` — the operations that neither work on a transaction nor call Redis.
* `Routine` — what an assertion has to be kept by.

## Main results

* `Routine.job` — **then it is kept by every program of the application.**
-/

namespace CqrsSaga

open SagaManager RedisLockService KafkaService OrderProcessingSaga

/-- The operation neither works on a transaction nor calls Redis. -/
def Op.Ordinary : Op → Prop
  | .connect | .startTransaction _ | .txSagaFindOne _ _ | .txSagaSave _ _ => False
  | .commitTransaction _ | .rollbackTransaction _ | .release _ => False
  | .redisSet _ _ _ | .redisUnlock _ _ | .redisRenew _ _ _ | .redisExists _ => False
  | _ => True

theorem Op.Inward.ordinary {o : Op} (h : o.Inward) : o.Ordinary := by
  obtain ⟨hl, -⟩ := h
  cases o <;> simp [Op.isLocal] at hl <;> exact trivial

variable [Hashes]

/-! ### The programs that are ordinary throughout -/

omit [Hashes] in
theorem cancelOrder_ordinary (command : CancelOrderCommand) :
    (CancelOrderHandler.execute command).Only Op.Ordinary :=
  (cancelOrder_along (L := fun _ => True) (fun _ => Op.Inward.ordinary) trivial
    (fun _ _ => trivial) (fun _ _ => trivial) fun _ _ _ _ _ => trivial).only

omit [Hashes] in
theorem confirmOrder_ordinary (command : ConfirmOrderCommand) :
    (ConfirmOrderHandler.execute command).Only Op.Ordinary :=
  (confirmOrder_along (L := fun _ => True) (fun _ => Op.Inward.ordinary) trivial
    (fun _ _ => trivial) (fun _ _ _ => trivial) fun _ _ _ _ _ => trivial).only

omit [Hashes] in
theorem cleanupPendingOrders_ordinary :
    SagaMaintenanceController.cleanupPendingOrders.Only Op.Ordinary := by
  refine .bind (.perform trivial) fun orders => ?_
  exact (cleanupOrders_along (fun _ => trivial) (fun _ => trivial) (fun _ => trivial)
    (fun command => .of_only (cancelOrder_ordinary command) fun _ => trivial) orders).only

omit [Hashes] in
theorem externalPayment_ordinary (payment : Payment) (correlationId : Option String) :
    (ProcessPaymentHandler.externalPayment payment correlationId).Only Op.Ordinary :=
  (externalPayment_along (fun _ => Op.Inward.ordinary) (fun _ _ => trivial)
    fun _ _ => trivial).only

theorem placeOrder_ordinary (dto : CreateOrderDto) (userId : String) :
    (OrderController.placeOrder dto userId).Only Op.Ordinary :=
  (placeOrder_along (L := fun _ => True) trivial trivial (fun _ _ => trivial)
    fun _ _ => trivial).only

theorem storeAndPublish_ordinary (topic aggregateId aggregateType eventType : String)
    (eventData : EventData) (e : Event) :
    (storeAndPublish topic aggregateId aggregateType eventType eventData e).Only Op.Ordinary :=
  .bind (.perform trivial) fun _ => .perform trivial

omit [Hashes] in
theorem findOrCreate_ordinary (sagaType correlationId : String) (data : SagaData)
    (steps : List String) : (findOrCreate sagaType correlationId data steps).Only Op.Ordinary := by
  refine .bind (.perform trivial) fun found => ?_
  cases found with
  | some saga => exact trivial
  | none => exact .bind (.perform trivial) fun _ => .bind (.perform trivial) fun _ => trivial

omit [Hashes] in
theorem stepSection_ordinary (sagaId stepName : String) {executeStep : Async App Unit}
    (h : executeStep.Only Op.Ordinary) :
    (stepSection sagaId stepName executeStep).Only Op.Ordinary := by
  refine .bind (.perform trivial) fun found => ?_
  cases found with
  | none => exact trivial
  | some saga =>
    dsimp only
    split
    · exact trivial
    · exact .bind (.perform trivial) fun _ => .bind h fun _ => .bind (.perform trivial)
        fun _ => .perform trivial

omit [Hashes] in
theorem completeSaga_ordinary (sagaId : String) : (completeSaga sagaId).Only Op.Ordinary := by
  refine .bind (.perform trivial) fun found => ?_
  cases found with
  | none => exact trivial
  | some saga =>
    dsimp only
    split
    · exact trivial
    · exact .bind (.perform trivial) fun _ => .perform trivial

omit [Hashes] in
theorem paymentAction_ordinary (saga : SagaInstance) (e : OrderCreatedEvent) :
    (paymentAction saga e).Only Op.Ordinary :=
  .bind (.bind (.perform trivial) fun _ => .bind (.perform trivial) fun _ => trivial) fun _ =>
    .perform trivial

/-! ### What an assertion has to be kept by -/

/-- The assertion `F` is kept by ordinary operations of activity `i`, by sections under a lock that
are made of such and whose lock expires within a minute, by the tests of the locks, and by the
handling of a failure. -/
structure Routine (P : Protocol application) (i : ℕ) (F : World → P.Ghost → Prop) : Prop where
  stable : P.Stable i F
  ordinary : ∀ (o : Op) w g, o.Ordinary → P.Inv w g → F w g → P.atomic i o (fun _ => F) w g
  locked : ∀ {α : Type} {key : String} {fn : Async App α} {options : LockOptions},
    options.ttl ≤ 60000 → fn.Only Op.Ordinary → P.Triple i F (withLock key fn options) fun _ => F
  lockTest : ∀ test : LockTest, P.Triple i F test.run fun _ => F
  failure : ∀ (saga : SagaInstance) (failedStep errorMessage : String),
    P.Triple i F (handleSagaFailure saga failedStep errorMessage) fun _ => F

namespace Routine

variable {P : Protocol application} {i : ℕ} {F : World → P.Ghost → Prop} (h : Routine P i F)
include h

theorem only {α : Type} {p : Async App α} (hp : p.Only Op.Ordinary) :
    P.Triple i F p fun _ => F :=
  fun _ _ _ hw => Protocol.wp_of_only h.stable (fun o w g => h.ordinary o w g) hp hw

theorem executeSagaStep (sagaId stepName : String) {action : Async App Unit}
    (ha : action.Only Op.Ordinary) :
    P.Triple i F (SagaManager.executeSagaStep sagaId stepName action) fun _ => F := by
  refine .rescue h.stable (h.locked (Nat.le_refl _) (stepSection_ordinary sagaId stepName ha))
    fun e => ?_
  refine .seq h.stable (h.only (.perform trivial)) fun _ => ?_
  refine .seq h.stable (h.only (.perform trivial)) fun found => ?_
  cases found with
  | none => exact .skip h.stable
  | some saga => exact h.failure saga stepName e.message

theorem handleOrderCreated (e : OrderCreatedEvent) :
    P.Triple i F (OrderProcessingSaga.handleOrderCreated e) fun _ => F := by
  unfold OrderProcessingSaga.handleOrderCreated
  split
  · exact .skip h.stable
  · exact .seq h.stable (h.locked (by decide) (findOrCreate_ordinary ..)) fun saga =>
      h.executeSagaStep _ _ (paymentAction_ordinary saga e)

theorem handlePaymentProcessed (e : PaymentProcessedEvent) :
    P.Triple i F (OrderProcessingSaga.handlePaymentProcessed e) fun _ => F := by
  refine .seq h.stable (h.only (.perform trivial)) fun found => ?_
  cases found with
  | none => exact .skip h.stable
  | some saga =>
    refine .seq h.stable (h.executeSagaStep _ _ ?_) fun _ => h.only (completeSaga_ordinary _)
    exact .bind (confirmOrder_ordinary _) fun _ => .perform trivial

theorem handlePaymentFailed (e : PaymentFailedEvent) :
    P.Triple i F (OrderProcessingSaga.handlePaymentFailed e) fun _ => F := by
  refine .seq h.stable (h.only (.perform trivial)) fun found => ?_
  cases found with
  | none => exact .skip h.stable
  | some saga =>
    refine .rescue h.stable (h.only ?_) fun e => h.failure saga _ e.message
    exact .bind (cancelOrder_ordinary _) fun _ => .perform trivial

theorem deliver (d : Delivery) : P.Triple i F d.run fun _ => F := by
  cases d with
  | orderCreatedHandler e =>
    exact .seq h.stable (h.only (storeAndPublish_ordinary ..)) fun _ => h.handleOrderCreated e
  | paymentProcessedSagaHandler e => exact h.handlePaymentProcessed e
  | paymentFailedSagaHandler e => exact h.handlePaymentFailed e
  | _ => exact h.only (storeAndPublish_ordinary ..)

/-- **What is kept in these places is kept by every program.** -/
theorem job (t : Job) : P.Triple i F t.run fun _ => F := by
  cases t with
  | request r =>
    cases r with
    | createOrder dto userId | createTestOrder dto userId =>
      exact h.only (.bind (placeOrder_ordinary dto userId) fun _ => trivial)
    | cancelOrder id userId reason =>
      exact h.only (.bind (cancelOrder_ordinary _) fun _ => trivial)
    | confirmOrder id paymentId =>
      exact h.only (.bind (confirmOrder_ordinary _) fun _ => trivial)
    | cleanupPendingOrders =>
      exact h.only (.bind cleanupPendingOrders_ordinary fun _ => trivial)
    | lockTest test => exact h.lockTest test
  | task v =>
    refine .seq h.stable ?_ fun _ => .skip h.stable
    cases v with
    | publishAll events => exact h.only (.perform trivial)
    | publishSagaEvent m => exact h.only (.perform trivial)
    | externalPayment p c => exact h.only (externalPayment_ordinary p c)
    | deliver d => exact h.deliver d

end Routine

end CqrsSaga
