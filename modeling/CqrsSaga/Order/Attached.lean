import CqrsSaga.Order.Apart

/-!
# The flow of one order

A request to place an order, and all that is about the order stored under its key: cancellations and
confirmations, deliveries of its events, the payment, messages of the saga.  In the light of a later
world, an activity of the flow awaits only operations about that order; rows keep the columns that
tell which order they belong to, so what was read once is still true there.

## Main definitions

* `Job.Flow` — the activity belongs to the flow of the order under a key.
* `Task.Attached` — the task does, and the correlation id that goes with it is the key.
* `World.Before` — what stays of the rows.
* `World.Fits`, `World.Tells` — what an activity of the flow awaits, and what it is told.
* `attachment` — all this, in the light of a later world.

## Main results

* `attachment_approves` — **all activities stay with the order of their flow.**
* `started_flow` — what an activity of a flow starts belongs to that flow.
-/

namespace CqrsSaga

open SagaManager OrderProcessingSaga

/-! ### What stays of the rows -/

namespace World

/-- The payment is stored, as one of the order `x`. -/
def PaymentOf (w : World) (id x : String) : Prop := ∃ p ∈ w.payments, p.id = id ∧ p.orderId = x

/-- Rows stay, with the columns nothing changes, and so do query runners. -/
structure Before (w W : World) : Prop where
  orders : ∀ o ∈ w.orders, ∃ o' ∈ W.orders, o'.core = o.core
  payments : ∀ p ∈ w.payments, ∃ p' ∈ W.payments, p'.core = p.core
  sagas : ∀ s ∈ w.sagas, ∃ s' ∈ W.sagas, s'.core = s.core
  runners : w.runners <+: W.runners

variable {w w' W : World} {i : ℕ} {x y k : String}

theorem Before.refl (w : World) : w.Before w :=
  ⟨fun o ho => ⟨o, ho, rfl⟩, fun p hp => ⟨p, hp, rfl⟩, fun s hs => ⟨s, hs, rfl⟩, List.prefix_rfl⟩

theorem Before.trans (h : w.Before w') (h' : w'.Before W) : w.Before W := by
  refine ⟨?_, ?_, ?_, h.runners.trans h'.runners⟩
  · intro o ho
    obtain ⟨o', ho', hc⟩ := h.orders o ho
    obtain ⟨o'', ho'', hc'⟩ := h'.orders o' ho'
    exact ⟨o'', ho'', hc'.trans hc⟩
  · intro p hp
    obtain ⟨p', hp', hc⟩ := h.payments p hp
    obtain ⟨p'', hp'', hc'⟩ := h'.payments p' hp'
    exact ⟨p'', hp'', hc'.trans hc⟩
  · intro s hs
    obtain ⟨s', hs', hc⟩ := h.sagas s hs
    obtain ⟨s'', hs'', hc'⟩ := h'.sagas s' hs'
    exact ⟨s'', hs'', hc'.trans hc⟩

/-- An order that is stored keeps its key. -/
theorem Before.order {o : Order} (h : w.Before W) (ho : o ∈ w.orders)
    (hk : o.idempotencyKey = some k) :
    W.Keyed o.id k := by
  obtain ⟨o', ho', hc⟩ := h.orders o ho
  obtain ⟨hid, -, -, hkey, -⟩ := Order.core_eq.mp hc
  exact ⟨o', ho', hid, hkey.trans hk⟩

/-- A payment keeps its order. -/
theorem Before.payment {p : Payment} (h : w.Before W) (hp : p ∈ w.payments) :
    W.PaymentOf p.id p.orderId := by
  obtain ⟨p', hp', hc⟩ := h.payments p hp
  obtain ⟨hid, ho, -⟩ := Payment.core_eq.mp hc
  exact ⟨p', hp', hid, ho⟩

/-- A saga keeps its correlation id. -/
theorem Before.saga {s : SagaInstance} (h : w.Before W) (hs : s ∈ w.sagas) :
    W.SagaKeyed s.id s.correlationId := by
  obtain ⟨s', hs', hc⟩ := h.sagas s hs
  obtain ⟨hid, -, hco, -⟩ := SagaInstance.core_eq.mp hc
  exact ⟨s', hs', hid, hco⟩

theorem Before.owner {n : ℕ} (h : w.Before W) (hn : w.Owner i n) : W.Owner i n := hn.later h.runners

end World

/-! ### Flows -/

/-- The event is one a saga reacts to, so its correlation id has to be the key of the order. -/
def Event.ForSaga : Event → Prop
  | .orderCreated _ => True
  | .paymentProcessed _ => True
  | .paymentFailed _ => True
  | _ => False

/-- The event is about the order stored under the key `k`. -/
def Event.Attached (W : World) (k : String) (e : Event) : Prop :=
  W.Keyed e.orderId k ∧ (e.ForSaga → e.correlationId = some k)

/-- The task is about the order stored under the key `k`. -/
def Task.Attached (W : World) (k : String) : Task → Prop
  | .publishAll events => events ≠ [] ∧ ∀ e ∈ events, e.Attached W k
  | .publishSagaEvent m => ∃ y ∈ m.sagaId, W.SagaKeyed y k
  | .externalPayment p c => W.Keyed p.orderId k ∧ c = some k ∧ W.PaymentOf p.id p.orderId
  | .deliver d => d.event.Attached W k

section Flow

variable [Hashes]

/-- The activity belongs to the flow of the order under the key `k`: it is to place the order, or it
is about the order that is stored, its payment or its saga. -/
def Job.Flow (W : World) (k : String) : Job → Prop
  | .request (.createOrder dto _) => OrderController.idempotencyKey dto = k
  | .request (.createTestOrder dto _) => OrderController.idempotencyKey dto = k
  | .request (.cancelOrder id _ _) => W.Keyed id k
  | .request (.confirmOrder id _) => W.Keyed id k
  | .request .cleanupPendingOrders => False
  | .request (.lockTest _) => False
  | .task (.publishAll events) => events ≠ [] ∧ ∀ e ∈ events, W.Keyed e.orderId k
  | .task (.publishSagaEvent m) => ∃ y ∈ m.sagaId, W.SagaKeyed y k
  | .task (.externalPayment p _) => W.Keyed p.orderId k
  | .task (.deliver d) => W.Keyed d.event.orderId k

instance (W : World) (x k : String) : Decidable (W.Keyed x k) :=
  inferInstanceAs (Decidable (∃ o ∈ W.orders.rows, o.id = x ∧ o.idempotencyKey = some k))

instance (W : World) (y k : String) : Decidable (W.SagaKeyed y k) :=
  inferInstanceAs (Decidable (∃ s ∈ W.sagas.rows, s.id = y ∧ s.correlationId = k))

instance Job.decidableFlow (W : World) (k : String) : ∀ t : Job, Decidable (t.Flow W k)
  | .request (.createOrder dto _) =>
    inferInstanceAs (Decidable (OrderController.idempotencyKey dto = k))
  | .request (.createTestOrder dto _) =>
    inferInstanceAs (Decidable (OrderController.idempotencyKey dto = k))
  | .request (.cancelOrder id _ _) => inferInstanceAs (Decidable (W.Keyed id k))
  | .request (.confirmOrder id _) => inferInstanceAs (Decidable (W.Keyed id k))
  | .request .cleanupPendingOrders => isFalse id
  | .request (.lockTest _) => isFalse id
  | .task (.publishAll events) =>
    inferInstanceAs (Decidable (events ≠ [] ∧ ∀ e ∈ events, W.Keyed e.orderId k))
  | .task (.publishSagaEvent m) => inferInstanceAs (Decidable (∃ y ∈ m.sagaId, W.SagaKeyed y k))
  | .task (.externalPayment p _) => inferInstanceAs (Decidable (W.Keyed p.orderId k))
  | .task (.deliver d) => inferInstanceAs (Decidable (W.Keyed d.event.orderId k))

theorem Task.Attached.flow {W : World} {k : String} {t : Task} (h : t.Attached W k) :
    (Job.task t).Flow W k := by
  cases t with
  | publishAll events => exact ⟨h.1, fun e he => (h.2 e he).1⟩
  | publishSagaEvent m => exact h
  | externalPayment p c => exact h.1
  | deliver d => exact h.1

/-- An activity belongs to one flow. -/
theorem Job.Flow.key_unique {W : World} {k k' : String} {t : Job} (h : t.Flow W k)
    (h' : t.Flow W k') : k = k' := by
  cases t with
  | request r =>
    cases r with
    | createOrder dto userId | createTestOrder dto userId =>
      have hk : OrderController.idempotencyKey dto = k := h
      exact hk.symm.trans h'
    | cancelOrder id userId reason => exact World.Keyed.key_unique h h'
    | confirmOrder id paymentId => exact World.Keyed.key_unique h h'
    | cleanupPendingOrders => exact h.elim
    | lockTest test => exact h.elim
  | task u =>
    cases u with
    | publishAll events =>
      obtain ⟨hne, hall⟩ := h
      obtain ⟨e, he⟩ := List.exists_mem_of_ne_nil _ hne
      exact (hall e he).key_unique (h'.2 e he)
    | publishSagaEvent m =>
      obtain ⟨y, hy, hk⟩ := h
      obtain ⟨y', hy', hk'⟩ := h'
      obtain rfl : y = y' := Option.some.inj (hy.symm.trans hy')
      exact hk.key_unique hk'
    | externalPayment p c => exact World.Keyed.key_unique h h'
    | deliver d => exact World.Keyed.key_unique h h'

end Flow

theorem World.Before.sagaKeyed {w W : World} {y k : String} (h : w.Before W)
    (hy : w.SagaKeyed y k) :
    W.SagaKeyed y k := by
  obtain ⟨s, hs, rfl, rfl⟩ := hy
  exact h.saga hs

theorem World.Before.keyed {w W : World} {x k : String} (h : w.Before W) (hx : w.Keyed x k) :
    W.Keyed x k := by
  obtain ⟨o, ho, rfl, hk⟩ := hx
  exact h.order ho hk

/-- It belongs to it ever after. -/
theorem Job.Flow.later [Hashes] {w W : World} {k : String} {t : Job} (h : t.Flow w k)
    (hW : w.Before W) : t.Flow W k := by
  cases t with
  | request r =>
    cases r with
    | cancelOrder id userId reason => exact hW.keyed h
    | confirmOrder id paymentId => exact hW.keyed h
    | lockTest test => exact h.elim
    | _ => exact h
  | task u =>
    cases u with
    | publishAll events => exact ⟨h.1, fun e he => hW.keyed (h.2 e he)⟩
    | publishSagaEvent m =>
      obtain ⟨y, hy, hk⟩ := h
      exact ⟨y, hy, hW.sagaKeyed hk⟩
    | externalPayment p c => exact hW.keyed h
    | deliver d => exact hW.keyed h

/-! ### What is awaited, and what is told -/

/-- In the light of `W`, the operation is about the order of the flow, whose key `F` tells; its
query runner is the activity's own, and what it starts is about an order, that of the flow if there
is one. -/
structure World.Fits (W : World) (i : ℕ) (F : String → Prop) (o : Op) : Prop where
  about : ∀ k, F k → W.About i k o
  runner : ∀ n ∈ o.runner?, W.Owner i n
  hands : ∀ task, o = .setImmediate task → ∃ k, task.Attached W k ∧ ∀ k', F k' → k' = k
  publishes : ∀ events, o = .publishAll events →
    ∃ k, (∀ e ∈ events, e.Attached W k) ∧ ∀ k', F k' → k' = k

/-- In the light of `W`, what was read or inserted is stored there under the same keys. -/
def World.Tells (W : World) (i : ℕ) : (o : Op) → Except Err (Op.Val o) → Prop
  | .orderFindOne q, .ok (some y) =>
    q.selects y = true ∧ ∃ k, y.idempotencyKey = some k ∧ W.Keyed y.id k
  | .orderInsert n, .ok y => ∀ k, n.idempotencyKey = some k → W.Keyed y.id k
  | .paymentInsert n, .ok p => p.orderId = n.orderId ∧ W.PaymentOf p.id p.orderId
  | .sagaFindOne q, .ok (some s) => q.selects s = true ∧ W.SagaKeyed s.id s.correlationId
  | .sagaInsert n, .ok s => s.correlationId = n.correlationId ∧ W.SagaKeyed s.id s.correlationId
  | .connect, .ok n => W.Owner i n
  | .txSagaFindOne _ y, .ok (some s) => s.id = y ∧ W.SagaKeyed s.id s.correlationId
  | _, _ => True

namespace Attachment

variable {W : World} {i : ℕ} {F : String → Prop} {o : Op} {k : String}

theorem fits_plain (h : ∀ k, F k → W.About i k o) (hr : o.runner? = none) (hs : o.starts = false) :
    W.Fits i F o where
  about := h
  runner := by simp [hr]
  hands := by
    intro task ho
    subst ho
    simp [Op.starts] at hs
  publishes := by
    intro events ho
    subst ho
    simp [Op.starts] at hs

theorem fits_inward (h : o.Inward) : W.Fits i F o := by
  obtain ⟨hl, hs⟩ := h
  refine fits_plain ?_ ?_ hs <;>
    cases o <;> simp [Op.isLocal] at hl <;> first | exact fun _ _ => trivial | rfl

theorem fits_own {n : ℕ} (hn : W.Owner i n) (hr : o.runner? = some n)
    (h : ∀ k, F k → W.About i k o) : W.Fits i F o where
  about := h
  runner := by
    intro m hm
    obtain rfl : n = m := Option.some.inj (hr.symm.trans hm)
    exact hn
  hands := by
    intro task ho
    subst ho
    simp [Op.runner?] at hr
  publishes := by
    intro events ho
    subst ho
    simp [Op.runner?] at hr

theorem fits_hand {task : Task} (hF : ∀ k', F k' → k' = k) (h : task.Attached W k) :
    W.Fits i F (.setImmediate task) where
  about := fun _ _ => trivial
  runner := by simp [Op.runner?]
  hands := by
    intro task' ht
    obtain rfl := Op.setImmediate.inj ht
    exact ⟨k, h, hF⟩
  publishes := fun _ ho => nomatch ho

theorem fits_publish {events : List Event} (hF : ∀ k', F k' → k' = k)
    (h : ∀ e ∈ events, e.Attached W k) : W.Fits i F (.publishAll events) where
  about := fun _ _ => trivial
  runner := by simp [Op.runner?]
  hands := fun _ ho => nomatch ho
  publishes := by
    intro events' he
    obtain rfl := Op.publishAll.inj he
    exact ⟨k, h, hF⟩

/-! Where the flow has one key. -/

theorem fits_at (hF : ∀ k', F k' → k' = k) (h : W.About i k o) (hr : o.runner? = none)
    (hs : o.starts = false) : W.Fits i F o := by
  refine fits_plain (fun k' hk' => ?_) hr hs
  rw [hF k' hk']
  exact h

theorem fits_on {n : ℕ} (hF : ∀ k', F k' → k' = k) (hn : W.Owner i n) (hr : o.runner? = some n)
    (h : W.About i k o) : W.Fits i F o := by
  refine fits_own hn hr fun k' hk' => ?_
  rw [hF k' hk']
  exact h

/-! ### Orders and payments -/

theorem announcement_attached {events : List Event} {x : String} (h : Announcement events)
    (hid : ∀ e ∈ events, e.orderId = x) (hx : W.Keyed x k) :
    (Task.publishAll events).Attached W k := by
  obtain ⟨e, f, rfl, he⟩ := h
  refine ⟨by simp, fun e' he' => ⟨hid e' he' ▸ hx, fun hs => ?_⟩⟩
  -- no saga reacts to the news of a cancellation or a confirmation
  rcases List.mem_cons.mp he' with rfl | he'
  · rcases he with ⟨g, rfl⟩ | ⟨g, rfl⟩ <;> exact hs.elim
  · obtain rfl := List.mem_singleton.mp he'
    exact hs.elim

/-- What is known of an order that was read under the id `x`. -/
def Found (W : World) (x : String) (y : Order) : Prop :=
  y.id = x ∧ ∃ k, y.idempotencyKey = some k ∧ W.Keyed x k

theorem Found.save {x : String} {y z : Order} (h : Found W x y) (hF : ∀ k, F k → W.Keyed x k)
    (hz : z.core = y.core) : W.Fits i F (.orderSave z) := by
  obtain ⟨hid, k, hk, hx⟩ := h
  obtain ⟨hzid, -, -, hzk, -⟩ := Order.core_eq.mp hz
  refine fits_plain (fun k' hk' => ?_) rfl rfl
  obtain rfl : k = k' := hx.key_unique (hF k' hk')
  exact ⟨hzk.trans hk, by rw [hzid, hid]; exact hx⟩

/-- A cancellation stays with its order. -/
theorem cancel_along {command : CancelOrderCommand} (hF : ∀ k, F k → W.Keyed command.orderId k) :
    (CancelOrderHandler.execute command).Along (W.Fits i F) (W.Tells i) fun _ => True := by
  refine cancelOrder_along (L := Found W command.orderId) (fun _ => fits_inward)
    (fits_plain (fun k hk => Or.inr ⟨_, rfl, hF k hk⟩) rfl rfl) ?_ (fun y hy => hy.save hF rfl) ?_
  · intro y hr
    obtain ⟨hsel, k, hk, hy⟩ := hr
    have hid : y.id = command.orderId := OrderWhere.selects_id hsel rfl
    exact ⟨hid, k, hk, hid ▸ hy⟩
  · intro y hy events he hid
    obtain ⟨-, k, -, hx⟩ := hy
    exact fits_hand (fun k' hk' => (hF k' hk').key_unique hx) (announcement_attached he hid hx)

/-- A confirmation stays with its order. -/
theorem confirm_along {command : ConfirmOrderCommand} (hF : ∀ k, F k → W.Keyed command.orderId k) :
    (ConfirmOrderHandler.execute command).Along (W.Fits i F) (W.Tells i) fun _ => True := by
  refine confirmOrder_along (L := Found W command.orderId) (fun _ => fits_inward)
    (fits_plain (fun k hk => Or.inr ⟨_, rfl, hF k hk⟩) rfl rfl) ?_ (fun y hy _ => hy.save hF rfl) ?_
  · intro y hr
    obtain ⟨hsel, k, hk, hy⟩ := hr
    have hid : y.id = command.orderId := OrderWhere.selects_id hsel rfl
    exact ⟨hid, k, hk, hid ▸ hy⟩
  · intro y hy events he hid
    obtain ⟨-, k, -, hx⟩ := hy
    exact fits_hand (fun k' hk' => (hF k' hk').key_unique hx) (announcement_attached he hid hx)

/-- The cleanup belongs to no flow, but what it starts does. -/
theorem cleanup_along (hF : ∀ k, ¬F k) : SagaMaintenanceController.cleanupPendingOrders.Along
    (W.Fits i F) (W.Tells i) fun _ => True := by
  have hnone : ∀ {o : Op}, o.runner? = none → o.starts = false → W.Fits i F o :=
    fun hr hs => fits_plain (fun k hk => absurd hk (hF k)) hr hs
  refine .seq (call_along (hnone rfl rfl)) fun orders => ?_
  exact cleanupOrders_along (fun _ => hnone rfl rfl) (fun _ => hnone rfl rfl)
    (fun _ => hnone rfl rfl) (fun _ => cancel_along fun k hk => absurd hk (hF k)) orders

/-- The payment system stays with the payment it was given. -/
theorem payment_along {p : Payment} {c : Option String}
    (hp : (Task.externalPayment p c).Attached W k)
    (hF : ∀ k', F k' → k' = k) : (ProcessPaymentHandler.externalPayment p c).Along
      (W.Fits i F) (W.Tells i) fun _ => True := by
  obtain ⟨hkey, rfl, q, hq, hid, ho⟩ := hp
  refine externalPayment_along (fun _ => fits_inward) (fun p' hp' => ?_) fun e he => ?_
  · obtain ⟨hid', ho', -⟩ := Payment.core_eq.mp hp'
    refine fits_at hF ⟨?_, q, hq, hid.trans hid'.symm, ho.trans ho'.symm⟩ rfl rfl
    rw [ho']
    exact hkey
  · refine fits_publish hF fun e' he' => ?_
    obtain rfl := List.mem_singleton.mp he'
    rcases he with ⟨f, rfl, hx, -, hc⟩ | ⟨f, rfl, hx, -, hc⟩
    · exact ⟨(hx ▸ hkey : W.Keyed f.orderId k), fun _ => hc⟩
    · exact ⟨(hx ▸ hkey : W.Keyed f.orderId k), fun _ => hc⟩

/-! ### Sagas -/

/-- The saga is the one of the order under the key `k`. -/
def OfFlow (W : World) (k : String) (s : SagaInstance) : Prop :=
  s.correlationId = k ∧ W.SagaKeyed s.id k

/-- A row with the id of the saga of the flow is the saga of the flow. -/
theorem OfFlow.of_id {s t : SagaInstance} (h : OfFlow W k s) (hid : t.id = s.id)
    (ht : W.SagaKeyed t.id t.correlationId) : OfFlow W k t := by
  have hkey : W.SagaKeyed t.id k := by
    rw [hid]
    exact h.2
  exact ⟨ht.key_unique hkey, hkey⟩

/-- A saga that is found under the key is the one of the flow. -/
theorem found_ofFlow {s : SagaInstance} (hs : W.Tells i
    (.sagaFindOne { correlationId := some k, sagaType := some sagaType }) (.ok (some s))) :
    OfFlow W k s := by
  obtain ⟨hsel, hkey⟩ := hs
  have hco : s.correlationId = k := (World.selects_pair.mp hsel).2
  exact ⟨hco, hco ▸ hkey⟩

section OneKey

variable [Hashes] (hF : ∀ k', F k' → k' = k)
include hF

/-- **Work on the saga of a flow stays with it.** -/
theorem sagaWork : SagaWork (W.Fits i F) (W.Tells i) (OfFlow W k) (W.Owner i) where
  inward := fun _ => fits_inward
  core := by
    intro s t hs hc
    obtain ⟨hid, -, hco, -⟩ := SagaInstance.core_eq.mp hc
    exact ⟨hco.trans hs.1, by rw [hid]; exact hs.2⟩
  lock := fun hs hstep => ⟨fun _ _ => fits_at hF (Or.inr ⟨_, _, hs.2, hstep, rfl⟩) rfl rfl,
    fun _ => fits_at hF (Or.inr ⟨_, _, hs.2, hstep, rfl⟩) rfl rfl⟩
  find := fun hs => fits_at hF (Or.inr ⟨_, rfl, hs.2⟩) rfl rfl
  found := by
    intro s t hs ht
    obtain ⟨hsel, hkey⟩ := ht
    exact hs.of_id (SagaWhere.selects_id hsel rfl) hkey
  save := fun hs => fits_at hF hs rfl rfl
  connect := fits_at hF trivial rfl rfl
  connected := fun hn => hn
  control := by
    intro n hn o ho
    simp only [Op.controls, List.mem_cons, List.not_mem_nil, or_false] at ho
    rcases ho with rfl | rfl | rfl | rfl <;> exact fits_on hF hn rfl hn
  txFind := fun hn hs => fits_on hF hn rfl ⟨hn, hs.2⟩
  txFound := fun hs ht => hs.of_id ht.1 ht.2
  txSave := fun hn hs => fits_on hF hn rfl ⟨hn, hs⟩
  send := fun _ => fits_at hF trivial rfl rfl
  tell := fun hs _ hid => fits_hand hF ⟨_, hid, hs.2⟩

omit [Hashes] in
/-- The saga of the flow is started. -/
theorem sagaStart : SagaStart (W.Fits i F) (W.Tells i) (OfFlow W k) k where
  lock := ⟨fun _ _ => fits_at hF (Or.inl rfl) rfl rfl, fun _ => fits_at hF (Or.inl rfl) rfl rfl⟩
  find := fits_at hF (Or.inl rfl) rfl rfl
  found := fun hs => found_ofFlow hs
  insert := fun _ _ => fits_at hF rfl rfl rfl
  inserted := by
    intro data steps s hs
    obtain ⟨hco, hkey⟩ := hs
    have hco : s.correlationId = k := hco
    exact ⟨hco, hco ▸ hkey⟩

/-- The saga of an order asks for the payment of that order. -/
theorem created_along {e : OrderCreatedEvent} (he : (Event.orderCreated e).Attached W k) :
    (handleOrderCreated e).Along (W.Fits i F) (W.Tells i) fun _ => True := by
  obtain ⟨hkey, hc⟩ := he
  have hc : e.correlationId = some k := hc trivial
  refine handleOrderCreated_along (sagaWork hF) (fun k' hk' => ?_) fun s hs => ?_
  · obtain rfl : k = k' := Option.some.inj (hc.symm.trans hk')
    exact sagaStart hF
  · refine .seq (.bind (fun r => ∀ p : Payment, r = .ok p → p.orderId = e.orderId ∧
      W.PaymentOf p.id p.orderId) (call_told (fits_at hF hkey rfl rfl) ?_) ?_ fun _ _ => trivial)
        fun _ => inward_along (fun _ => fits_inward) rfl rfl
    · intro r hr p hp
      subst hp
      exact hr
    · intro p hp
      obtain ⟨ho, hp⟩ := hp p rfl
      refine .seq (call_along (fits_hand hF ?_)) fun _ => trivial
      exact ⟨by rw [ho]; exact hkey, by rw [hs.1], hp⟩

/-- What a delivery comes to. -/
theorem delivery_along {d : Delivery} (hd : d.event.Attached W k) :
    d.run.Along (W.Fits i F) (W.Tells i) fun _ => True := by
  have hstore : ∀ e : EventStore, (call (.eventStoreSave e)).Along (W.Fits i F) (W.Tells i)
      fun _ => True := fun e => call_along (fits_at hF trivial rfl rfl)
  have hsend : ∀ topic key m, (call (.kafkaSend topic key m)).Along (W.Fits i F) (W.Tells i)
      fun _ => True := fun topic key m => call_along (fits_at hF trivial rfl rfl)
  have hx : ∀ k', F k' → W.Keyed d.event.orderId k' := by
    intro k' hk'
    rw [hF k' hk']
    exact hd.1
  cases d with
  | orderCreatedHandler e =>
    exact .seq (.seq (hstore _) fun _ => hsend _ _ _) fun _ => created_along hF hd
  | paymentProcessedSagaHandler e =>
    have hc : e.correlationId = some k := hd.2 trivial
    refine handlePaymentProcessed_along (sagaWork hF) ?_ ?_ fun _ => confirm_along hx
    · rw [hc]
      exact (sagaStart hF).find
    · rw [hc]
      exact fun s hs => found_ofFlow hs
  | paymentFailedSagaHandler e =>
    have hc : e.correlationId = some k := hd.2 trivial
    refine handlePaymentFailed_along (sagaWork hF) ?_ ?_ fun _ _ => cancel_along hx
    · rw [hc]
      exact (sagaStart hF).find
    · rw [hc]
      exact fun s hs => found_ofFlow hs
  | _ => exact .seq (hstore _) fun _ => hsend _ _ _

end OneKey

/-! ### Every activity -/

variable [Hashes]

/-- A request to create an order stays with its key. -/
theorem place_along (dto : CreateOrderDto) (userId : String)
    (hF : ∀ k, F k → k = OrderController.idempotencyKey dto) :
    (OrderController.placeOrder dto userId).Along (W.Fits i F) (W.Tells i) fun _ => True := by
  refine placeOrder_along (L := fun y => W.Keyed y.id (OrderController.idempotencyKey dto))
    (fits_at hF (Or.inl rfl) rfl rfl) (fits_at hF rfl rfl rfl) (fun y hy => hy _ rfl) fun y hy => ?_
  refine fits_hand hF ⟨by simp, fun e he => ?_⟩
  obtain rfl := List.mem_singleton.mp he
  exact ⟨hy, fun _ => rfl⟩

/-- **An activity awaits operations about the order of its flow only.** -/
theorem job_along {t : Job} (ht : ∀ u, t = .task u → ∃ k, u.Attached W k) :
    t.run.Along (W.Fits i fun k => t.Flow W k) (W.Tells i) fun _ => True := by
  cases t with
  | request r =>
    cases r with
    | createOrder dto userId | createTestOrder dto userId =>
      exact .seq (place_along dto userId fun k hk => Eq.symm hk) fun _ => trivial
    | cancelOrder id userId reason => exact .seq (cancel_along fun k hk => hk) fun _ => trivial
    | confirmOrder id paymentId => exact .seq (confirm_along fun k hk => hk) fun _ => trivial
    | cleanupPendingOrders => exact .seq (cleanup_along fun k hk => hk) fun _ => trivial
    | lockTest test =>
      have hnone : ∀ {o : Op}, o.runner? = none → o.starts = false →
          W.Fits i (fun k => (Job.request (.lockTest test)).Flow W k) o :=
        fun hr hs => fits_plain (fun k hk => absurd hk id) hr hs
      exact lockTest_along (fun _ => fits_inward)
        (fun _ _ => ⟨fun _ _ => hnone rfl rfl, fun _ => hnone rfl rfl⟩)
        (fun _ _ _ => hnone rfl rfl) fun _ => hnone rfl rfl
  | task u =>
    obtain ⟨k, hu⟩ := ht u rfl
    have hF : ∀ k', (Job.task u).Flow W k' → k' = k := fun k' hk' => hk'.key_unique hu.flow
    refine .seq ?_ fun _ => trivial
    cases u with
    | publishAll events => exact call_along (fits_publish hF hu.2)
    | publishSagaEvent m => exact call_along (fits_at hF trivial rfl rfl)
    | externalPayment p c => exact payment_along hu hF
    | deliver d => exact delivery_along hF hu

end Attachment

/-! ### The answers -/

namespace World

variable {w w' W : World} {i : ℕ} {o : Op} {c : Choice} {r : Except Err (Op.Val o)} {ts : List Task}

/-- **What an answer tells is true of any later world.** -/
theorem exec_tells (he : w.exec i o c = some (w', r, ts))
    (hkeys : ∀ y ∈ w.orders, ∃ k, y.idempotencyKey = some k) (hW : w'.Before W) : W.Tells i o r := by
  -- an error tells nothing
  have herror : ∀ e, W.Tells i o (.error e) := by
    intro e
    cases o <;> exact trivial
  rcases exec_cases he with ⟨-, hp⟩ | ⟨m, -, -, hr, -⟩ | ⟨m, v, -, -, -, hr⟩
  · cases o with
    | orderFindOne q =>
      simp only [perform, Option.some.injEq, Prod.mk.injEq] at hp
      obtain ⟨rfl, rfl, -⟩ := hp
      cases hfind : w.orders.find? q.selects with
      | none => exact trivial
      | some y =>
        have hmem := Table.mem_of_find? hfind
        obtain ⟨k, hk⟩ := hkeys y hmem
        exact ⟨Table.find?_some hfind, k, hk, hW.order hmem hk⟩
    | orderInsert n =>
      obtain ⟨hins, -⟩ := perform_orderInsert hp
      rcases insertOrder_cases hins with ⟨-, rfl⟩ | ⟨-, key, -, rfl, -⟩ | ⟨amount, -, rfl, -, -, hmem⟩
      · exact trivial
      · exact trivial
      · intro k hk
        exact hW.order (o := w.newOrderRow c.text n amount) ((hmem _).mpr (Or.inl rfl)) hk
    | paymentInsert n =>
      obtain ⟨hins, -⟩ := perform_paymentInsert hp
      rcases insertPayment_cases hins with ⟨-, rfl⟩ | ⟨amount, -, rfl, -, hmem⟩
      · exact trivial
      · exact ⟨rfl, hW.payment (p := newPaymentRow c.text n amount) ((hmem _).mpr (Or.inl rfl))⟩
    | sagaFindOne q =>
      simp only [perform, Option.some.injEq, Prod.mk.injEq] at hp
      obtain ⟨rfl, rfl, -⟩ := hp
      cases hfind : w.sagas.find? q.selects with
      | none => exact trivial
      | some s => exact ⟨Table.find?_some hfind, hW.saga (Table.mem_of_find? hfind)⟩
    | sagaInsert n =>
      obtain ⟨s, rfl, hins, -⟩ := perform_sagaInsert hp
      obtain ⟨hs, -, hmem⟩ := insertSaga_cases hins
      exact ⟨by rw [hs], hW.saga ((hmem _).mpr (Or.inl rfl))⟩
    | connect =>
      simp only [perform, Option.some.injEq, Prod.mk.injEq] at hp
      obtain ⟨rfl, rfl, -⟩ := hp
      refine hW.owner ?_
      simp [Owner]
    | txSagaFindOne n y =>
      obtain ⟨-, hsagas, hread⟩ := perform_txFind hp
      cases r with
      | error e => exact trivial
      | ok found =>
        cases found with
        | none => exact trivial
        | some s =>
          obtain ⟨-, hmem, hid⟩ := hread s rfl
          exact ⟨hid, hW.saga (hsagas.symm ▸ hmem)⟩
    | _ => exact trivial
  · rw [hr]
    exact herror _
  · rw [hr]
    exact herror _

end World

/-- What an operation starts is about an order, that of the flow if there is one. -/
theorem World.exec_attached {w w' W : World} {i : ℕ} {F : String → Prop} {o : Op} {c : Choice}
    {r : Except Err (Op.Val o)} {ts : List Task} (he : w.exec i o c = some (w', r, ts))
    (ho : W.Fits i F o) : ∀ u ∈ ts, ∃ k, u.Attached W k ∧ ∀ k', F k' → k' = k := by
  refine exec_starts he (fun task htask => ho.hands task htask) ?_
  intro events hevents d hd
  obtain ⟨k, hk, hF⟩ := ho.publishes events hevents
  exact ⟨k, hk d.event hd, hF⟩

/-! ### The runs -/

section Runs

variable [Hashes]

/-- Which order the activities are about, in the light of a later world. -/
def attachment : Outlook application where
  Before := World.Before
  Born := fun W t => ∀ u, t = .task u → ∃ k, u.Attached W k
  Does := fun W i t o => W.Fits i (fun k => t.Flow W k) o
  Told := fun W i _ o r => W.Tells i o r
  Ends := fun _ _ _ => True
  trans := World.Before.trans
  body := fun ht _ => Attachment.job_along ht

/-- What a step of a run leaves of the rows. -/
theorem before_of_exec {p : Pool application} (hp : Pool.Reachable World.NoOrders Served p) {i : ℕ}
    {o : Op} (ho : p.awaits i = some o) {c : Choice} {w' : World} {r : Except Err (Op.Val o)}
    {ts : List Task} (he : p.world.exec i o c = some (w', r, ts)) :
    p.world.Before w' ∧ ∀ y ∈ p.world.orders, ∃ k, y.idempotencyKey = some k := by
  obtain ⟨g, g', hH, hm⟩ := flow_grows hp ho he
  refine ⟨⟨hm.orders, fun x hx => ?_, hm.sagas, hm.runners⟩, fun y hy => ?_⟩
  · obtain ⟨x', hx', hc, -⟩ := hm.payments x hx
    exact ⟨x', hx', hc⟩
  · obtain ⟨⟨k, hk, -⟩, -⟩ := hH.inv.books.columns y hy
    exact ⟨k, hk⟩

/-- **All activities stay with the order of their flow.** -/
theorem attachment_approves {p : Pool application}
    (hp : Pool.Reachable World.NoOrders Served p) {W : World} (hW : p.world.Before W) :
    attachment.Approves W p := by
  refine attachment.reachable (fun w => .refl w) ?_ ?_ ?_ hp W hW
  · intro p t ht W u hu
    subst hu
    exact ht.elim
  · intro w d
    exact ⟨fun o ho => ⟨o, ho, rfl⟩, fun x hx => ⟨x, hx, rfl⟩, fun s hs => ⟨s, hs, rfl⟩,
      List.prefix_rfl⟩
  · intro p hp i t o k c w r ts _ hi _ he
    obtain ⟨hb, hkeys⟩ := before_of_exec hp (Pool.awaits_eq_some.mpr ⟨t, k, hi⟩) he
    refine ⟨hb, fun W hW => ⟨World.exec_tells he hkeys hW, fun hdoes t' ht' u hu => ?_⟩⟩
    obtain ⟨v, hv, heq⟩ := List.mem_filterMap.mp ht'
    obtain rfl : v = u := Job.task.inj ((Option.some.inj heq).trans hu)
    obtain ⟨k', hk', -⟩ := World.exec_attached he hdoes v hv
    exact ⟨k', hk'⟩

/-- **What an activity of a flow starts belongs to that flow.** -/
theorem started_flow {p p' : Pool application} (hp : Pool.Reachable World.NoOrders Served p) {i : ℕ}
    {c : Choice} {t : Job} (ht : p.tags[i]? = some t) {k : String} (hk : t.Flow p'.world k)
    (hn : p.next (.run i c) = some p') : ∀ a ∈ p'.acts.drop p.acts.length, a.tag.Flow p'.world k := by
  obtain ⟨t', o, q, w, r, ts, hi, he, rfl⟩ := Pool.next_run hn
  have htag : t' = t := by
    rw [Pool.tags, List.getElem?_map, hi] at ht
    exact Option.some.inj ht
  subst htag
  have hb : p.world.Before w := (before_of_exec hp (Pool.awaits_eq_some.mpr ⟨t', q, hi⟩) he).1
  have hfits : w.Fits i (fun k => t'.Flow w k) o := (attachment_approves hp hb i _ hi).2.1
  intro a ha
  dsimp only at ha hk ⊢
  rw [List.drop_left' (by simp)] at ha
  obtain ⟨t'', ht'', rfl⟩ := List.mem_map.mp ha
  obtain ⟨u, hu, heq⟩ := List.mem_filterMap.mp ht''
  obtain rfl := Option.some.inj heq
  obtain ⟨k', hu', hF⟩ := World.exec_attached he hfits u hu
  rw [hF k hk]
  exact hu'.flow

end Runs

end CqrsSaga
