import CqrsSaga.App.Transactions

/-!
# Facts about rows

What later proofs say about the rows of a world: which columns never change, what is
stored about an order, and what becomes of it when a row is written.

## Main definitions

* `Order.core`, `Payment.core`, `SagaInstance.core` — the columns nothing changes.
* `World.Keyed`, `World.Cancelled`, `World.Decided`, `World.Outcome`, `World.Unpaid`,
  `World.PaidBy` — what is stored about an order.
* `World.Steps`, `World.Recorded` — the stored steps of a saga.

## Main results

* `World.saved_order`, `World.saved_payment`, `World.saved_sagas` — **the rows after a save.**
-/

namespace CqrsSaga

/-- The columns of an order nothing changes. -/
def Order.core (o : Order) : String × String × ℚ × Option String × List OrderItem :=
  (o.id, o.userId, o.totalAmount, o.idempotencyKey, o.items)

/-- The columns of a payment nothing changes. -/
def Payment.core (p : Payment) : String × String × String × ℚ :=
  (p.id, p.orderId, p.userId, p.amount)

/-- The columns of a saga nothing changes. -/
def SagaInstance.core (s : SagaInstance) : String × String × String × SagaData :=
  (s.id, s.sagaType, s.correlationId, s.data)

theorem Order.core_eq {o o' : Order} : o.core = o'.core ↔ o.id = o'.id ∧ o.userId = o'.userId ∧
    o.totalAmount = o'.totalAmount ∧ o.idempotencyKey = o'.idempotencyKey ∧ o.items = o'.items := by
  simp [Order.core]

theorem Payment.core_eq {p p' : Payment} : p.core = p'.core ↔ p.id = p'.id ∧
    p.orderId = p'.orderId ∧ p.userId = p'.userId ∧ p.amount = p'.amount := by
  simp [Payment.core]

theorem SagaInstance.core_eq {s s' : SagaInstance} : s.core = s'.core ↔ s.id = s'.id ∧
    s.sagaType = s'.sagaType ∧ s.correlationId = s'.correlationId ∧ s.data = s'.data := by
  simp [SagaInstance.core]

namespace World

/-! ### What is stored about an order -/

/-- The order `x` is stored under the key `k`. -/
def Keyed (w : World) (x k : String) : Prop :=
  ∃ o ∈ w.orders, o.id = x ∧ o.idempotencyKey = some k

/-- The order `x` is stored as cancelled. -/
def Cancelled (w : World) (x : String) : Prop :=
  ∃ o ∈ w.orders, o.id = x ∧ o.status = .cancelled

/-- The order `x` is stored, and no longer pending. -/
def Decided (w : World) (x : String) : Prop :=
  ∃ o ∈ w.orders, o.id = x ∧ o.status ≠ .pending

/-- A payment of the order `x` is stored with this status. -/
def Outcome (w : World) (x : String) (status : PaymentStatus) : Prop :=
  ∃ p ∈ w.payments, p.orderId = x ∧ p.status = status

/-- This is the id of a completed payment of the order `x`. -/
def PaidBy (w : World) (x : String) (paymentId : Option String) : Prop :=
  ∃ p ∈ w.payments, paymentId = some p.id ∧ p.orderId = x ∧ p.status = .completed

/-- No payment of the order `x` is stored. -/
def Unpaid (w : World) (x : String) : Prop := ∀ p ∈ w.payments, p.orderId ≠ x

instance (w : World) (x : String) : Decidable (w.Cancelled x) :=
  inferInstanceAs (Decidable (∃ o ∈ w.orders.rows, o.id = x ∧ o.status = .cancelled))

instance (w : World) (x : String) (status : PaymentStatus) : Decidable (w.Outcome x status) :=
  inferInstanceAs (Decidable (∃ p ∈ w.payments.rows, p.orderId = x ∧ p.status = status))

instance (w : World) (x : String) (paymentId : Option String) : Decidable (w.PaidBy x paymentId) :=
  inferInstanceAs (Decidable (∃ p ∈ w.payments.rows, paymentId = some p.id ∧ p.orderId = x ∧
    p.status = .completed))

instance (w : World) (x : String) : Decidable (w.Unpaid x) :=
  inferInstanceAs (Decidable (∀ p ∈ w.payments.rows, p.orderId ≠ x))

variable {w w' : World} {x x' k k' : String}

/-- A key belongs to one order. -/
theorem Keyed.order_unique (h : w.Keyed x k) (h' : w.Keyed x' k) : x = x' := by
  obtain ⟨o, ho, rfl, hk⟩ := h
  obtain ⟨o', ho', rfl, hk'⟩ := h'
  rw [Table.eq_of_uk ho ho' hk hk']

/-- An order has one key. -/
theorem Keyed.key_unique (h : w.Keyed x k) (h' : w.Keyed x k') : k = k' := by
  obtain ⟨o, ho, hid, hk⟩ := h
  obtain ⟨o', ho', hid', hk'⟩ := h'
  obtain rfl := Table.eq_of_pk ho ho' (hid.trans hid'.symm)
  exact Option.some.inj (hk.symm.trans hk')

/-! ### The rows after a save -/

/-- An order that was read is written back. -/
theorem saved_order {o y : Order} (hy : y ∈ w.orders) (hc : y.core = o.core)
    (ha : decimal102 y.totalAmount = some y.totalAmount) :
    (w.saveOrder o).2 = .ok () ∧ ∃ t, (w.saveOrder o).1 = { w with orders := t } ∧
      ∀ z, z ∈ t ↔ z = { o with updatedAt := w.clock } ∨ z ∈ w.orders ∧ z.id ≠ o.id := by
  obtain ⟨hid, -, hamount, hkey, -⟩ := Order.core_eq.mp hc
  rw [hamount] at ha
  refine ⟨saveOrder_of_mem hy hid hkey ha, ?_⟩
  obtain ⟨t, ht⟩ := saveOrder_only w o
  refine ⟨t, ht, fun z => ?_⟩
  rcases saveOrder_cases w o with ⟨-, e, he⟩ | ⟨-, amount, hamount', hmem⟩
  · rw [saveOrder_of_mem hy hid hkey ha] at he
    simp at he
  · obtain rfl : o.totalAmount = amount := Option.some.inj (ha.symm.trans hamount')
    rw [ht] at hmem
    exact hmem z

/-- A payment that was saved before is written again. -/
theorem saved_payment {p : Payment} {amount : ℚ} (ha : decimal102 p.amount = some amount) :
    (w.savePayment p).2 = .ok () ∧ ∃ t, (w.savePayment p).1 = { w with payments := t } ∧
      ∀ z, z ∈ t ↔ z = { p with amount } ∨ z ∈ w.payments ∧ z.id ≠ p.id := by
  obtain ⟨t, ht⟩ := savePayment_only w p
  rcases savePayment_cases w p with ⟨-, hnone, -⟩ | ⟨hr, amount', hamount, hmem⟩
  · rw [ha] at hnone
    simp at hnone
  · obtain rfl : amount = amount' := Option.some.inj (ha.symm.trans hamount)
    rw [ht] at hmem
    exact ⟨hr, t, ht, hmem⟩

/-- Every saga is one of those written, or was there before. -/
theorem saved_sagas (ss : List SagaInstance) : ∀ (w : World) {z : SagaInstance},
    z ∈ (ss.foldl putSaga w).sagas → (∃ y ∈ ss, z = w.stamped y) ∨ z ∈ w.sagas := by
  induction ss with
  | nil => exact fun _ _ hz => Or.inr hz
  | cons s ss ih =>
    intro w z hz
    rcases ih (w.putSaga s) hz with ⟨y, hy, rfl⟩ | hz
    · refine Or.inl ⟨y, List.mem_cons_of_mem _ hy, ?_⟩
      simp [stamped]
    · rcases (mem_putSaga w s).mp hz with rfl | ⟨hz, -⟩
      · exact Or.inl ⟨s, List.mem_cons_self, rfl⟩
      · exact Or.inr hz

/-- Sagas keep the columns nothing changes. -/
theorem saved_sagas_core (ss : List SagaInstance) : ∀ w : World,
    (∀ y ∈ ss, ∃ s ∈ w.sagas, s.core = y.core) →
      ∀ s ∈ w.sagas, ∃ z ∈ (ss.foldl putSaga w).sagas, z.core = s.core := by
  induction ss with
  | nil => exact fun _ _ s hs => ⟨s, hs, rfl⟩
  | cons y ss ih =>
    intro w h s hs
    have hone : ∀ s ∈ w.sagas, ∃ z ∈ (w.putSaga y).sagas, z.core = s.core := by
      intro s hs
      by_cases hid : s.id = y.id
      · obtain ⟨s', hs', hc⟩ := h y List.mem_cons_self
        obtain rfl := Table.eq_of_pk hs hs' (hid.trans (SagaInstance.core_eq.mp hc).1.symm)
        exact ⟨_, (mem_putSaga w y).mpr (Or.inl rfl), hc.symm⟩
      · exact ⟨s, (mem_putSaga w y).mpr (Or.inr ⟨hs, hid⟩), rfl⟩
    have hrest : ∀ y' ∈ ss, ∃ s ∈ (w.putSaga y).sagas, s.core = y'.core := by
      intro y' hy'
      obtain ⟨s', hs', hc⟩ := h y' (List.mem_cons_of_mem _ hy')
      obtain ⟨z, hz, hc'⟩ := hone s' hs'
      exact ⟨z, hz, hc'.trans hc⟩
    obtain ⟨z, hz, hzs⟩ := hone s hs
    obtain ⟨z', hz', hzz⟩ := ih (w.putSaga y) hrest z hz
    exact ⟨z', hz', hzz.trans hzs⟩

/-! ### The steps of a saga -/

/-- These are the stored `completedSteps` of a saga. -/
def Steps (w : World) (sagaId : String) (steps : List String) : Prop :=
  ∃ x ∈ w.sagas, x.id = sagaId ∧ x.completedSteps = steps

/-- The step is among the stored `completedSteps`. -/
def Recorded (w : World) (sagaId stepName : String) : Prop :=
  ∃ x ∈ w.sagas, x.id = sagaId ∧ stepName ∈ x.completedSteps

theorem recorded_iff {w : World} {sagaId stepName : String} :
    w.Recorded sagaId stepName ↔ ∃ l, w.Steps sagaId l ∧ stepName ∈ l := by
  constructor
  · rintro ⟨x, hx, hid, hs⟩
    exact ⟨_, ⟨x, hx, hid, rfl⟩, hs⟩
  · rintro ⟨l, ⟨x, hx, hid, rfl⟩, hs⟩
    exact ⟨x, hx, hid, hs⟩

instance (w : World) (sagaId stepName : String) : Decidable (w.Recorded sagaId stepName) :=
  inferInstanceAs (Decidable (∃ x ∈ w.sagas.rows, x.id = sagaId ∧ stepName ∈ x.completedSteps))

/-- There is one row. -/
theorem Steps.unique {w : World} {sagaId : String} {l l' : List String} (h : w.Steps sagaId l)
    (h' : w.Steps sagaId l') : l = l' := by
  obtain ⟨x, hx, hid, rfl⟩ := h
  obtain ⟨y, hy, hid', rfl⟩ := h'
  rw [Table.eq_of_pk hx hy (hid.trans hid'.symm)]

/-- What becomes of the stored steps when the row of the saga is written. -/
theorem steps_putSaga {w : World} {sagaId : String} {y : SagaInstance} (hid : y.id = sagaId)
    (l : List String) :
    (w.putSaga y).Steps sagaId l ↔ y.completedSteps = l := by
  constructor
  · rintro ⟨x, hx, hxid, rfl⟩
    rcases (mem_putSaga w y).mp hx with rfl | ⟨-, hne⟩
    · rfl
    · exact absurd (hxid.trans hid.symm) hne
  · rintro rfl
    exact ⟨_, (mem_putSaga w y).mpr (Or.inl rfl), hid, rfl⟩

/-- Another saga's row is written. -/
theorem steps_putSaga_of_ne {w : World} {sagaId : String} {y : SagaInstance}
    (hid : y.id ≠ sagaId) (l : List String) :
    (w.putSaga y).Steps sagaId l ↔ w.Steps sagaId l := by
  constructor
  · rintro ⟨x, hx, hxid, hl⟩
    rw [putSaga_of_ne (hxid ▸ Ne.symm hid)] at hx
    exact ⟨x, hx, hxid, hl⟩
  · rintro ⟨x, hx, hxid, hl⟩
    refine ⟨x, ?_, hxid, hl⟩
    rw [putSaga_of_ne (hxid ▸ Ne.symm hid)]
    exact hx

/-- Rows that record the stored steps are written. -/
theorem steps_putSagas {sagaId : String} (ss : List SagaInstance) : ∀ w : World,
    (∀ x ∈ ss, x.id = sagaId → w.Steps sagaId x.completedSteps) →
      ∀ l, w.Steps sagaId l ↔ (ss.foldl putSaga w).Steps sagaId l := by
  induction ss with
  | nil => exact fun _ _ _ => Iff.rfl
  | cons y ss ih =>
    intro w h l
    have hy : ∀ l, w.Steps sagaId l ↔ (w.putSaga y).Steps sagaId l := by
      intro l
      by_cases hid : y.id = sagaId
      · have hl := h y List.mem_cons_self hid
        rw [steps_putSaga hid]
        constructor
        · exact hl.unique
        · rintro rfl
          exact hl
      · rw [steps_putSaga_of_ne hid]
    rw [List.foldl_cons, hy l]
    exact ih (w.putSaga y) (fun x hx hid => (hy _).mp (h x (List.mem_cons_of_mem _ hx) hid)) l

end World

end CqrsSaga
