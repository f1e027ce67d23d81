import Mathlib.Logic.Function.Basic
import CqrsSaga.Order.Apart

/-!
# The course of an order

An order is placed by a request, its creation is published, the handler of that event begins its
saga and has it charged, the payment is settled aside, and the handler of its result confirms or
cancels the order.  At any time all that is stored about an order is with one activity, except
that the payment may be with another; what is with nobody is as the activity that left it has
left it.

## Main definitions

* `Stage` — how far an order has come, and which activities it is with.
* `Stage.Moves` — what an activity may make of the stage of an order.
* `Course.Charged`, `Course.Final` — what is stored about an order that nobody works on.
* `Course.Inv`, `Course.Leaves`, `courses` — what the activities agree on.

## Main results

* `Course.settles` — **what an activity does to an order that is with it keeps the agreements.**
-/

namespace CqrsSaga

open SagaManager RedisLockService KafkaService OrderProcessingSaga

/-! ### Stages -/

/-- How far an order has come, and which activities it is with. -/
inductive Stage
  /-- There is no such order. -/
  | unknown
  /-- It is stored, and activity `i` is to have that published. -/
  | placing (i : ℕ)
  /-- Activity `i` handles the event of its creation. -/
  | driving (i : ℕ)
  /-- So it does, and the payment is with activity `m`. -/
  | charging (i m : ℕ)
  /-- The payment is with activity `m`, and all else has been done. -/
  | waiting (m : ℕ)
  /-- Activity `i` handles the result of the payment. -/
  | closing (i : ℕ)
  /-- Nothing is left to be done. -/
  | closed
  deriving DecidableEq

namespace Stage

/-- Whom the order and its saga are with. -/
def course : Stage → Option ℕ
  | placing i | driving i | charging i _ | closing i => some i
  | _ => none

/-- Whom the payment is with. -/
def payment : Stage → Option ℕ
  | charging _ m | waiting m => some m
  | _ => none

/-- What activity `i` may make of the stage of an order, the activities it starts being numbered
from `n`. -/
inductive Moves (i n : ℕ) : Stage → Stage → Prop
  | keep (s : Stage) : Moves i n s s
  | place : Moves i n unknown (placing i)
  | hand : Moves i n (placing i) (placing n)
  | publish : Moves i n (placing i) (driving n)
  | charge : Moves i n (driving i) (charging i n)
  | leave (m : ℕ) : Moves i n (charging i m) (waiting m)
  | report : Moves i n (waiting i) (closing (n + 1))
  | close : Moves i n (closing i) closed

variable {i j n : ℕ} {s s' : Stage}

/-- The course of an order is left to the one it is with. -/
theorem Moves.course_eq (h : Moves i n s s') (hj : j ≠ i) (hs : s.course = some j) : s' = s := by
  cases h <;> simp [course] at hs ⊢ <;> omega

/-- Nobody gets the course of an order but who moves, or is started. -/
theorem Moves.course_of (h : Moves i n s s') (hj : j ≠ i) (hn : j < n)
    (hs : s'.course = some j) : s' = s := by
  cases h <;> simp [course] at hs ⊢ <;> omega

theorem Moves.payment_iff (h : Moves i n s s') (hj : j ≠ i) (hn : j < n) :
    s.payment = some j ↔ s'.payment = some j := by
  cases h <;> simp [payment] <;> omega

end Stage

/-- How far every order has come. -/
abbrev Stages := String → Stage

/-! ### What is stored about an order -/

namespace World

/-- The row of the order `x`. -/
def orderRows (w : World) (x : String) : Set Order := w.orders.rowsWith (fun o => o.id) x

/-- The sagas of the order `x`. -/
def sagaRows (w : World) (x : String) : Set SagaInstance :=
  w.sagas.rowsWith (fun s => s.data.orderId) (some x)

/-- The payments of the order `x`. -/
def paymentRows (w : World) (x : String) : Set Payment :=
  w.payments.rowsWith (fun p => p.orderId) x

theorem orderRows_congr {w w' : World} (h : w'.orders = w.orders) (x : String) :
    w'.orderRows x = w.orderRows x := by rw [orderRows, orderRows, h]

theorem sagaRows_congr {w w' : World} (h : w'.sagas = w.sagas) (x : String) :
    w'.sagaRows x = w.sagaRows x := by rw [sagaRows, sagaRows, h]

theorem paymentRows_congr {w w' : World} (h : w'.payments = w.payments) (x : String) :
    w'.paymentRows x = w.paymentRows x := by rw [paymentRows, paymentRows, h]

/-- The row of the order `x` is `o`, but for the time it was written at. -/
def HasOrder (w : World) (x : String) (o : Order) : Prop :=
  ∃ t, w.orderRows x = {{ o with updatedAt := t }}

/-- The saga of the order `x` is `s`, but for the time it was written at. -/
def HasSaga (w : World) (x : String) : Option SagaInstance → Prop
  | none => w.sagaRows x = ∅
  | some s => ∃ t, w.sagaRows x = {{ s with updatedAt := t }}

/-- The payment of the order `x`. -/
def HasPayment (w : World) (x : String) : Option Payment → Prop
  | none => w.paymentRows x = ∅
  | some p => w.paymentRows x = {p}

/-- The entry is of a lock that is taken for the order `x`. -/
def LockFor (w : World) (x key : String) : Prop :=
  (∃ o ∈ w.orderRows x, ∃ k, o.idempotencyKey = some k ∧ key = startLock k) ∨
    ∃ s ∈ w.sagaRows x, ∃ step ∈ sagaSteps, key = "lock:" ++ stepLock s.id step

variable {w w' : World} {x y k key : String}

theorem HasSaga.congr (hs : w'.sagaRows x = w.sagaRows x) {s : Option SagaInstance}
    (h : w.HasSaga x s) : w'.HasSaga x s := by
  cases s with
  | none => exact hs.trans h
  | some s =>
    obtain ⟨t, ht⟩ := h
    exact ⟨t, hs.trans ht⟩

theorem HasPayment.congr (hp : w'.paymentRows x = w.paymentRows x) {p : Option Payment}
    (h : w.HasPayment x p) : w'.HasPayment x p := by
  cases p with
  | none => exact hp.trans h
  | some p => exact hp.trans h

theorem HasOrder.congr (ho : w'.orderRows x = w.orderRows x) {o : Order} (h : w.HasOrder x o) :
    w'.HasOrder x o := by
  obtain ⟨t, ht⟩ := h
  exact ⟨t, ho.trans ht⟩

theorem HasOrder.mem {o : Order} (h : w.HasOrder x o) :
    ∃ t, ({ o with updatedAt := t } : Order) ∈ w.orders ∧ o.id = x := by
  obtain ⟨t, ht⟩ := h
  exact ⟨t, Table.mem_rowsWith.mp (ht ▸ Set.mem_singleton _)⟩

theorem HasSaga.mem {s : SagaInstance} (h : w.HasSaga x (some s)) :
    ∃ t, ({ s with updatedAt := t } : SagaInstance) ∈ w.sagas ∧ s.data.orderId = some x := by
  obtain ⟨t, ht⟩ := h
  exact ⟨t, Table.mem_rowsWith.mp (ht ▸ Set.mem_singleton _)⟩

theorem keyed_iff : w.Keyed x k ↔ ∃ o ∈ w.orderRows x, o.idempotencyKey = some k := by
  constructor
  · rintro ⟨o, ho, hid, hk⟩
    exact ⟨o, ⟨ho, hid⟩, hk⟩
  · rintro ⟨o, ⟨ho, hid⟩, hk⟩
    exact ⟨o, ho, hid, hk⟩

theorem LockFor.congr (ho : w'.orderRows x = w.orderRows x) (hs : w'.sagaRows x = w.sagaRows x) :
    w'.LockFor x key ↔ w.LockFor x key := by
  unfold LockFor
  rw [ho, hs]

/-- A lock is taken for one order. -/
theorem LockFor.unique (h : w.LockFor x key) (h' : w.LockFor y key) : x = y := by
  rcases h with ⟨o, ho, k, hk, rfl⟩ | ⟨s, hs, step, hstep, rfl⟩
  · rcases h' with ⟨o', ho', k', hk', heq⟩ | ⟨s', -, step', -, heq⟩
    · obtain rfl := startLock_inj heq
      exact Keyed.order_unique (keyed_iff.mpr ⟨o, ho, hk⟩) (keyed_iff.mpr ⟨o', ho', hk'⟩)
    · exact absurd heq.symm (stepLock_ne_startLock _ _ _)
  · rcases h' with ⟨o', -, k', -, heq⟩ | ⟨s', hs', step', hstep', heq⟩
    · exact absurd heq (stepLock_ne_startLock _ _ _)
    · obtain rfl := Table.eq_of_pk hs.1 hs'.1 (stepLock_inj hstep hstep' heq)
      exact Option.some.inj (hs.2.symm.trans hs'.2)

/-- **Nothing has changed but what concerns the order `x`.** -/
structure Elsewhere (x : String) (w w' : World) : Prop where
  orders : ∀ y, y ≠ x → w'.orderRows y = w.orderRows y
  sagas : ∀ y, y ≠ x → w'.sagaRows y = w.sagaRows y
  payments : ∀ y, y ≠ x → w'.paymentRows y = w.paymentRows y
  /-- No other sagas have come in. -/
  named : ∀ s ∈ w'.sagas, s.data.orderId = none → s ∈ w.sagas
  core : ∀ o ∈ w.orders, ∃ o' ∈ w'.orders, o'.core = o.core
  ids : ∀ s ∈ w.sagas, ∃ s' ∈ w'.sagas, s'.id = s.id
  locks : ∀ key, w.Unlocked key → w'.Unlocked key ∨ w'.LockFor x key

theorem Elsewhere.unlocked (h : w.Elsewhere x w') (hne : y ≠ x) (hl : w.LockFor y key)
    (hu : w.Unlocked key) : w'.Unlocked key := by
  refine (h.locks key hu).resolve_right fun hx => hne ?_
  exact ((LockFor.congr (h.orders y hne) (h.sagas y hne)).mpr hl).unique hx

end World

/-! ### Orders nobody works on -/

/-- The entry of the lock under which a step of a saga is run. -/
def runLock (sagaId stepName : String) : String := "lock:" ++ stepLock sagaId stepName

/-- The order waits to be confirmed or cancelled. -/
structure Order.Pends (o : Order) : Prop where
  status : o.status = .pending
  amount : decimal102 o.totalAmount = some o.totalAmount
  key : ∃ k, k ≠ "" ∧ o.idempotencyKey = some k

/-- The saga is the order's, is under way, and has run these steps. -/
structure SagaInstance.HasRun (s : SagaInstance) (o : Order) (steps : List String) : Prop where
  type : s.sagaType = sagaType
  key : o.idempotencyKey = some s.correlationId
  status : s.status = .started
  steps : s.completedSteps = steps
  compensation : s.compensationSteps = []

/-- The order has been paid for, or has been given up, and so say its payment and its saga. -/
structure Order.Concluded (o : Order) (s : SagaInstance) (p : Payment) : Prop where
  type : s.sagaType = sagaType
  key : o.idempotencyKey = some s.correlationId
  outcome :
    (o.status = .paid ∧ o.paymentId = some p.id ∧ p.status = .completed ∧ s.status = .completed ∧
      s.completedSteps = ["payment_processing", "order_confirmation"] ∧
        s.compensationSteps = []) ∨
    (o.status = .cancelled ∧ p.status = .failed ∧ s.status = .compensated ∧
      s.completedSteps = ["payment_processing"] ∧ s.compensationSteps = ["order_cancelled"])

namespace Course

/-- The order `x` is charged for, and its confirmation can be run. -/
def Charged (x : String) (w : World) : Prop :=
  ∃ o s, w.HasOrder x o ∧ w.HasSaga x (some s) ∧ o.Pends ∧
    s.HasRun o ["payment_processing"] ∧ w.Unlocked (runLock s.id "order_confirmation")

/-- The order `x` has one saga and one payment, and all agree on what has become of it. -/
def Final (x : String) (w : World) : Prop :=
  ∃ o s p, w.orderRows x = {o} ∧ w.sagaRows x = {s} ∧ w.paymentRows x = {p} ∧ o.Concluded s p

/-- What is known of an order at a stage, whoever works on it. -/
structure Rests (x : String) (st : Stage) (w : World) : Prop where
  unknown : st = .unknown → w.orderRows x = ∅
  known : st ≠ .unknown → (w.orderRows x).Nonempty
  keyed : ∀ s ∈ w.sagaRows x, w.Keyed x s.correlationId
  waiting : ∀ m, st = .waiting m → Charged x w
  closed : st = .closed → Final x w

/-- The invariant. -/
structure Inv (w : World) (g : Stages) : Prop where
  rests : ∀ x, Rests x (g x) w
  named : ∀ s ∈ w.sagas, s.data.orderId ≠ none
  payments : ∀ p ∈ w.payments, (w.orderRows p.orderId).Nonempty
  /-- Nobody tries for a lock before there is what it is taken for. -/
  starts : ∀ k, (∀ x, ¬w.Keyed x k) → w.Unlocked (startLock k)
  steps : ∀ id, (∀ s ∈ w.sagas, s.id ≠ id) → ∀ step ∈ sagaSteps, w.Unlocked (runLock id step)

/-- What the steps of others respect, as far as activity `i` is concerned. -/
structure Leaves (i : ℕ) (w : World) (g : Stages) (w' : World) (g' : Stages) : Prop where
  course : ∀ x, (g x).course = some i → g' x = g x
  course_of : ∀ x, (g' x).course = some i → g' x = g x
  payment : ∀ x, (g x).payment = some i ↔ (g' x).payment = some i
  orders : ∀ x, (g x).course = some i → w'.orderRows x = w.orderRows x
  sagas : ∀ x, (g x).course = some i → w'.sagaRows x = w.sagaRows x
  locks : ∀ x, (g x).course = some i → ∀ key, w.LockFor x key → w.Unlocked key → w'.Unlocked key
  payments : ∀ x, (g x).payment = some i ∨ (g x).course = some i ∧ (g x).payment = none →
    w'.paymentRows x = w.paymentRows x

theorem Leaves.refl (i : ℕ) (w : World) (g : Stages) : Leaves i w g w g :=
  ⟨fun _ _ => rfl, fun _ _ => rfl, fun _ => Iff.rfl, fun _ _ => rfl, fun _ _ => rfl,
    fun _ _ _ _ h => h, fun _ _ => rfl⟩

theorem Leaves.trans {i : ℕ} {w w' w'' : World} {g g' g'' : Stages} (h : Leaves i w g w' g')
    (h' : Leaves i w' g' w'' g'') : Leaves i w g w'' g'' where
  course := fun x hx => by
    have heq := h.course x hx
    rw [h'.course x (heq ▸ hx), heq]
  course_of := fun x hx => by
    have heq := h'.course_of x hx
    rw [heq, h.course_of x (heq ▸ hx)]
  payment := fun x => (h.payment x).trans (h'.payment x)
  orders := fun x hx => (h'.orders x (h.course x hx ▸ hx)).trans (h.orders x hx)
  sagas := fun x hx => (h'.sagas x (h.course x hx ▸ hx)).trans (h.sagas x hx)
  locks := fun x hx key hl hu => h'.locks x (h.course x hx ▸ hx) key
    ((World.LockFor.congr (h.orders x hx) (h.sagas x hx)).mpr hl) (h.locks x hx key hl hu)
  payments := fun x hx => by
    refine (h'.payments x ?_).trans (h.payments x hx)
    rcases hx with hx | ⟨hx, hnone⟩
    · exact Or.inl ((h.payment x).mp hx)
    · exact Or.inr (h.course x hx ▸ ⟨hx, hnone⟩)

/-- Nothing is with activity `i`. -/
def Free (i : ℕ) (_ : World) (g : Stages) : Prop :=
  ∀ x, (g x).course ≠ some i ∧ (g x).payment ≠ some i

/-- The activity handles the event of the creation of the order `x`. -/
def Drives (x : String) : Job → Prop
  | .task (.deliver (.orderCreatedHandler e)) => e.orderId = x
  | _ => False

/-- The ghost state fits the activities that have been started. -/
structure Fits (g : Stages) (l : List Job) : Prop where
  course : ∀ x j, (g x).course = some j → j < l.length
  payment : ∀ x j, (g x).payment = some j → j < l.length
  driving : ∀ x j, g x = .driving j → ∃ t, l[j]? = some t ∧ Drives x t
  charging : ∀ x j m, g x = .charging j m → ∃ t, l[j]? = some t ∧ Drives x t

/-! ### What an activity knows -/

/-- What is stored about an order. -/
structure View where
  order : Order
  saga : Option SagaInstance
  payment : Option Payment

/-- The entry is of a lock that is taken for the order. -/
def View.LockFor (V : View) (key : String) : Prop :=
  (∃ k, V.order.idempotencyKey = some k ∧ key = startLock k) ∨
    ∃ s, V.saga = some s ∧ ∃ step ∈ sagaSteps, key = "lock:" ++ stepLock s.id step

/-- The order `x` is with activity `i`, and no other; this is what is stored about it, and these
locks have not been tried for. -/
structure At (i : ℕ) (x : String) (st : Stage) (V : View) (K : List String) (w : World)
    (g : Stages) : Prop where
  stage : g x = st
  alone : ∀ y, y ≠ x → (g y).course ≠ some i ∧ (g y).payment ≠ some i
  order : w.HasOrder x V.order
  saga : w.HasSaga x V.saga
  payment : st.payment = none → w.HasPayment x V.payment
  locks : ∀ key ∈ K, V.LockFor key ∧ w.Unlocked key

/-- The payment `p` of the order `x`, stored under the key `k`, is with activity `i`, and nothing
else is. -/
structure Pays (i : ℕ) (x k : String) (p : Payment) (w : World) (g : Stages) : Prop where
  stage : (g x).payment = some i
  alone : ∀ y, (g y).course ≠ some i ∧ (y ≠ x → (g y).payment ≠ some i)
  payments : w.paymentRows x = {p}
  order : ∃ o ∈ w.orders, o.id = x ∧ o.userId = p.userId ∧ o.idempotencyKey = some k

/-- The order of the event has been placed, and its saga is yet to be started. -/
def Starts (i : ℕ) (e : OrderCreatedEvent) (st : Stage) (w : World) (g : Stages) : Prop :=
  ∃ o k, At i e.orderId st ⟨o, none, none⟩ [startLock k] w g ∧ o.Pends ∧ o.userId = e.userId ∧
    o.idempotencyKey = some k ∧ e.correlationId = some k

/-- The payment of the order `x` has been settled, and this is to be acted upon. -/
def Ends (i : ℕ) (x userId : String) (c : Option String) (paymentId : String)
    (status : PaymentStatus) (w : World) (g : Stages) : Prop :=
  ∃ o s p, At i x (.closing i) ⟨o, some s, some p⟩ [runLock s.id "order_confirmation"] w g ∧
    o.Pends ∧ o.userId = userId ∧ o.idempotencyKey = c ∧ s.HasRun o ["payment_processing"] ∧
      p.id = paymentId ∧ p.status = status

/-- What an activity may assume that does work handed over to it. -/
def TaskBorn (i : ℕ) (w : World) (g : Stages) : Task → Prop
  | .publishAll events =>
      (∃ e, events = [.orderCreated e] ∧ Starts i e (.placing i) w g) ∨
        (∀ e ∈ events, e.Plain) ∧ Free i w g
  | .externalPayment p c =>
      ∃ k q, c = some k ∧ Pays i p.orderId k q w g ∧ q.id = p.id ∧ q.userId = p.userId
  | .deliver (.orderCreatedHandler e) => Starts i e (.driving i) w g
  | .deliver (.paymentProcessedSagaHandler e) =>
      Ends i e.orderId e.userId e.correlationId e.paymentId .completed w g
  | .deliver (.paymentFailedSagaHandler e) =>
      Ends i e.orderId e.userId e.correlationId e.paymentId .failed w g
  | _ => Free i w g

/-- What an activity may assume when it starts. -/
def JobBorn (i : ℕ) (w : World) (g : Stages) : Job → Prop
  | .request (.createOrder _ _) => Free i w g
  | .request (.createTestOrder _ _) => Free i w g
  | .request _ => False
  | .task t => TaskBorn i w g t

end Course

/-- The order whose payment an operation reports as settled. -/
def Op.reports? : Op → Option String
  | .publishAll [.paymentProcessed e] => some e.orderId
  | .publishAll [.paymentFailed e] => some e.orderId
  | _ => none

open Course in
/-- **What the activities agree on.** -/
def courses [Hashes] : Protocol application where
  Ghost := Stages
  Inv := Inv
  Mono := fun w _ w' _ => ∀ o ∈ w.orders, ∃ o' ∈ w'.orders, o'.core = o.core
  Keep := Leaves
  CanRun := fun w g i o c => w.Unfailing i o c ∧ ∀ x ∈ o.reports?, ∀ j m, g x ≠ .charging j m
  Assert := fun _ _ _ _ => True
  Fits := Fits
  Born := fun i t w g => JobBorn i w g t
  Post := fun i _ _ w g => Free i w g
  mono_refl := fun _ _ o ho => ⟨o, ho, rfl⟩
  mono_trans := by
    intro w g w' g' w'' g'' h h' o ho
    obtain ⟨o', ho', hc⟩ := h o ho
    obtain ⟨o'', ho'', hc'⟩ := h' o' ho'
    exact ⟨o'', ho'', hc'.trans hc⟩
  keep_refl := Leaves.refl
  keep_trans := Leaves.trans

namespace Course

variable [Hashes] {i : ℕ} {x k : String} {st : Stage} {V : View} {K : List String} {p : Payment}
  {w w' : World} {g : Stages}

/-! ### What others leave alone -/

omit [Hashes] in
theorem At.lockFor {key : String} (h : At i x st V K w g) (hl : V.LockFor key) :
    w.LockFor x key := by
  rcases hl with ⟨k, hk, rfl⟩ | ⟨s, hs, step, hstep, rfl⟩
  · obtain ⟨t, ht⟩ := h.order.mem
    exact Or.inl ⟨_, ht, k, hk, rfl⟩
  · obtain ⟨t, ht⟩ := (hs ▸ h.saga).mem
    exact Or.inr ⟨_, ht, step, hstep, rfl⟩

theorem free_stable : courses.Stable i (Free i) := by
  intro w g w' g' _ hk _ h x
  refine ⟨fun hx => (h x).1 (hk.course_of x hx ▸ hx), fun hx => (h x).2 ((hk.payment x).mpr hx)⟩

theorem at_stable (hst : st.course = some i) : courses.Stable i (At i x st V K) := by
  intro w g w' g' _ hk _ h
  have hc : (g x).course = some i := h.stage ▸ hst
  refine ⟨(hk.course x hc).trans h.stage, fun y hy => ⟨fun hg => ?_, fun hg => ?_⟩,
    h.order.congr (hk.orders x hc), h.saga.congr (hk.sagas x hc), fun hnone => ?_,
    fun key hkey => ⟨(h.locks key hkey).1, ?_⟩⟩
  · exact (h.alone y hy).1 (hk.course_of y hg ▸ hg)
  · exact (h.alone y hy).2 ((hk.payment y).mpr hg)
  · exact (h.payment hnone).congr (hk.payments x (Or.inr ⟨hc, h.stage ▸ hnone⟩))
  · exact hk.locks x hc key (h.lockFor (h.locks key hkey).1) (h.locks key hkey).2

theorem pays_stable : courses.Stable i (Pays i x k p) := by
  intro w g w' g' hm hk _ h
  refine ⟨(hk.payment x).mp h.stage, fun y => ⟨fun hg => ?_, fun hy hg => ?_⟩,
    (hk.payments x (Or.inl h.stage)).trans h.payments, ?_⟩
  · exact (h.alone y).1 (hk.course_of y hg ▸ hg)
  · exact (h.alone y).2 hy ((hk.payment y).mpr hg)
  · obtain ⟨o, ho, rfl, hu, hk⟩ := h.order
    obtain ⟨o', ho', hc⟩ := hm o ho
    obtain ⟨hid, hu', -, hk', -⟩ := Order.core_eq.mp hc
    exact ⟨o', ho', hid, hu'.trans hu, hk'.trans hk⟩

/-! ### What activity `i` may do -/

omit [Hashes] in
theorem Rests.congr (h : Rests x st w) (ho : w'.orderRows x = w.orderRows x)
    (hs : w'.sagaRows x = w.sagaRows x) (hp : w'.paymentRows x = w.paymentRows x)
    (hl : ∀ key, w.LockFor x key → w.Unlocked key → w'.Unlocked key) : Rests x st w' where
  unknown := fun hst => ho.trans (h.unknown hst)
  known := fun hst => ho ▸ h.known hst
  keyed := fun s hs' => by
    obtain ⟨o, ho', hk⟩ := World.keyed_iff.mp (h.keyed s (hs ▸ hs'))
    exact World.keyed_iff.mpr ⟨o, ho ▸ ho', hk⟩
  waiting := fun m hst => by
    obtain ⟨o, s, hor, hsr, hpends, hrun, hu⟩ := h.waiting m hst
    obtain ⟨t, ht⟩ := hsr.mem
    exact ⟨o, s, hor.congr ho, hsr.congr hs, hpends, hrun,
      hl _ (Or.inr ⟨_, ht, _, by simp [sagaSteps], rfl⟩) hu⟩
  closed := fun hst => by
    obtain ⟨o, s, p, hor, hsr, hpr, hc⟩ := h.closed hst
    exact ⟨o, s, p, ho.trans hor, hs.trans hsr, hp.trans hpr, hc⟩

/-- Activity `i` may do this to an order at the stage `s`. -/
def Entitled (i : ℕ) (s : Stage) (x : String) (w w' : World) : Prop :=
  ((s.course = some i ∨ s.course = none) ∧
      (w'.paymentRows x = w.paymentRows x ∨ s.payment = some i ∨ s.payment = none)) ∨
    s.payment = some i ∧ w'.orderRows x = w.orderRows x ∧ w'.sagaRows x = w.sagaRows x ∧
      ∀ key, w.Unlocked key → w'.Unlocked key

omit [Hashes] in
/-- Others are left what is theirs. -/
theorem leaves {j n : ℕ} (hm : Stage.Moves i n (g x) st) (he : w.Elsewhere x w')
    (hr : Entitled i (g x) x w w') (hj : j ≠ i) (hn : j < n) :
    Leaves j w g w' (Function.update g x st) := by
  have hother : ∀ y, y ≠ x → Function.update g x st y = g y := fun y hy =>
    Function.update_of_ne hy st g
  -- the course of `x` is with `j` only if the payment is with `i`
  have hcourse : (g x).course = some j → (g x).payment = some i ∧
      w'.orderRows x = w.orderRows x ∧ w'.sagaRows x = w.sagaRows x ∧
        ∀ key, w.Unlocked key → w'.Unlocked key := by
    intro hc
    refine hr.resolve_left fun h => ?_
    rcases h.1 with h | h
    · exact hj (Option.some.inj (hc.symm.trans h))
    · rw [h] at hc
      cases hc
  constructor
  · intro y hc
    by_cases hy : y = x
    · subst hy
      rw [Function.update_self]
      exact hm.course_eq hj hc
    · exact hother y hy
  · intro y hc
    by_cases hy : y = x
    · subst hy
      rw [Function.update_self] at hc ⊢
      exact hm.course_of hj hn hc
    · exact hother y hy
  · intro y
    by_cases hy : y = x
    · subst hy
      rw [Function.update_self]
      exact hm.payment_iff hj hn
    · rw [hother y hy]
  · intro y hc
    by_cases hy : y = x
    · exact hy ▸ (hcourse (hy ▸ hc)).2.1
    · exact he.orders y hy
  · intro y hc
    by_cases hy : y = x
    · exact hy ▸ (hcourse (hy ▸ hc)).2.2.1
    · exact he.sagas y hy
  · intro y hc key hl hu
    by_cases hy : y = x
    · exact (hcourse (hy ▸ hc)).2.2.2 key hu
    · exact he.unlocked hy hl hu
  · intro y h
    by_cases hy : y = x
    · subst hy
      rcases h with h | ⟨hc, hnone⟩
      · rcases hr with ⟨-, hp | hp | hp⟩ | ⟨hp, -⟩
        · exact hp
        · exact absurd (Option.some.inj (h.symm.trans hp)) hj
        · rw [hp] at h
          cases h
        · exact absurd (Option.some.inj (h.symm.trans hp)) hj
      · rw [(hcourse hc).1] at hnone
        cases hnone
    · exact he.payments y hy

omit [Hashes] in
/-- The invariant is kept. -/
theorem Inv.move (hI : Inv w g) (he : w.Elsewhere x w') (hst : st ≠ .unknown)
    (hx : Rests x st w') : Inv w' (Function.update g x st) where
  rests := fun y => by
    by_cases hy : y = x
    · subst hy
      rw [Function.update_self]
      exact hx
    · rw [Function.update_of_ne hy]
      exact (hI.rests y).congr (he.orders y hy) (he.sagas y hy) (he.payments y hy)
        fun key hl hu => he.unlocked hy hl hu
  named := fun s hs hnone => hI.named s (he.named s hs hnone) hnone
  payments := fun p hp => by
    by_cases hy : p.orderId = x
    · exact hy ▸ hx.known hst
    · have hp' : p ∈ w'.paymentRows p.orderId := ⟨hp, rfl⟩
      rw [he.payments _ hy] at hp'
      rw [he.orders _ hy]
      exact hI.payments p hp'.1
  starts := fun k hk => by
    have hbefore : ∀ y, ¬w.Keyed y k := by
      rintro y ⟨o, ho, rfl, hok⟩
      obtain ⟨o', ho', hc⟩ := he.core o ho
      obtain ⟨-, -, -, hkey, -⟩ := Order.core_eq.mp hc
      exact hk _ ⟨o', ho', rfl, hkey.trans hok⟩
    refine (he.locks _ (hI.starts k hbefore)).resolve_right ?_
    rintro (⟨o, ho, k', hk', heq⟩ | ⟨s, -, step, -, heq⟩)
    · obtain rfl := startLock_inj heq
      exact hk x (World.keyed_iff.mpr ⟨o, ho, hk'⟩)
    · exact stepLock_ne_startLock _ _ _ heq.symm
  steps := fun id hid step hstep => by
    have hbefore : ∀ s ∈ w.sagas, s.id ≠ id := by
      rintro s hs rfl
      obtain ⟨s', hs', hids⟩ := he.ids s hs
      exact hid s' hs' hids
    refine (he.locks _ (hI.steps id hbefore step hstep)).resolve_right ?_
    rintro (⟨o, -, k', -, heq⟩ | ⟨s, hs, step', hstep', heq⟩)
    · exact stepLock_ne_startLock _ _ _ heq
    · exact hid s hs.1 (World.stepLock_inj hstep hstep' heq).symm

omit [Hashes] in
/-- Nothing is with an activity that has not been started. -/
theorem Fits.free {l : List Job} {n : ℕ} (hf : Fits g l) (hn : l.length ≤ n) : Free n w g := by
  refine fun x => ⟨fun h => ?_, fun h => ?_⟩
  · exact absurd (hf.course x n h) (by omega)
  · exact absurd (hf.payment x n h) (by omega)

omit [Hashes] in
theorem Fits.longer {l : List Job} (hf : Fits g l) (l' : List Job) : Fits g (l ++ l') := by
  have hlong : ∀ j, j < l.length → j < (l ++ l').length := fun j hj => by
    rw [List.length_append]
    exact Nat.lt_add_right _ hj
  have hget : ∀ j t, l[j]? = some t → (l ++ l')[j]? = some t := fun j t ht => by
    rw [List.getElem?_append_left (List.getElem?_eq_some_iff.mp ht).1, ht]
  refine ⟨fun x j h => hlong j (hf.course x j h), fun x j h => hlong j (hf.payment x j h),
    fun x j h => ?_, fun x j m h => ?_⟩
  · obtain ⟨t, ht, hd⟩ := hf.driving x j h
    exact ⟨t, hget j t ht, hd⟩
  · obtain ⟨t, ht, hd⟩ := hf.charging x j m h
    exact ⟨t, hget j t ht, hd⟩

omit [Hashes] in
theorem Fits.update {l : List Job} (hf : Fits g l) (hc : ∀ j, st.course = some j → j < l.length)
    (hp : ∀ j, st.payment = some j → j < l.length)
    (hd : ∀ j, (st = .driving j ∨ ∃ m, st = .charging j m) → ∃ t, l[j]? = some t ∧ Drives x t) :
    Fits (Function.update g x st) l := by
  constructor
  all_goals intro y j
  all_goals by_cases hy : y = x
  · rw [hy, Function.update_self]
    exact hc j
  · rw [Function.update_of_ne hy]
    exact hf.course y j
  · rw [hy, Function.update_self]
    exact hp j
  · rw [Function.update_of_ne hy]
    exact hf.payment y j
  · rw [hy, Function.update_self]
    exact fun h => hd j (Or.inl h)
  · rw [Function.update_of_ne hy]
    exact hf.driving y j
  · rw [hy, Function.update_self]
    exact fun m h => hd j (Or.inr ⟨m, h⟩)
  · rw [Function.update_of_ne hy]
    exact hf.charging y j

/-- **What an activity does to an order that is with it keeps the agreements.** -/
theorem settles {l : List Job} {ts : List Task} {Φ : World → Stages → Prop} (hI : Inv w g)
    (hm : Stage.Moves i l.length (g x) st) (hst : st ≠ .unknown) (he : w.Elsewhere x w')
    (hr : Entitled i (g x) x w w') (hx : Rests x st w')
    (hfit : Fits (Function.update g x st) (l ++ ts.filterMap application.spawned))
    (hb : ∀ n t, (ts.filterMap application.spawned)[n]? = some t →
      JobBorn (l.length + n) w' (Function.update g x st) t)
    (hΦ : Φ w' (Function.update g x st)) : courses.Settles i l w g w' ts Φ :=
  ⟨Function.update g x st, hI.move he hst hx, he.core, fun _ hn hj => leaves hm he hr hj hn, hfit,
    hb, hΦ⟩

end Course

end CqrsSaga
