import CqrsSaga.App.Vocabulary
import CqrsSaga.Order.Consistency
import Mathlib.Algebra.Order.BigOperators.Group.List

/-!
# The amount of an order

An order's amount is the sum of its lines, and what two columns of ten digits, two of them
decimals, keep of it.  The validation of a request bounds neither the digits nor the decimals of a
price, nor the number of lines.

## Main definitions

* `CreateOrderDto.total` — the sum over the lines of a request.
* `Op.Priced` — an order that is inserted comes with the sum over its lines.

## Main results

* `decimal102_eq_self` — the amounts a column keeps as they are.
* `stored_amounts` — **what is stored of an order's amount, and of its payment's.**
* `amounts_exact` — **the sum is kept, through both columns, exactly if it is a number of
  hundredths below `10 ^ 10`.**
-/

namespace CqrsSaga

open SagaManager KafkaService OrderProcessingSaga

/-! ### Sums and columns -/

/-- The sum over the lines of price times quantity. -/
def CreateOrderDto.total (dto : CreateOrderDto) : ℚ :=
  (dto.items.map fun item => item.price * item.quantity).sum

theorem totalAmount_eq (items : List OrderItem) : CreateOrderHandler.totalAmount items =
    (items.map fun item => item.price * item.quantity).sum := by
  have hacc : ∀ (items : List OrderItem) (sum : ℚ),
      items.foldl (fun sum item => sum + item.price * item.quantity) sum =
        sum + (items.map fun item => item.price * item.quantity).sum := by
    intro items
    induction items with
    | nil =>
      intro sum
      simp
    | cons item items ih =>
      intro sum
      rw [List.foldl_cons, ih, List.map_cons, List.sum_cons, add_assoc]
  exact (hacc items 0).trans (zero_add _)

/-- No line takes anything off the sum. -/
theorem CreateOrderDto.Validates.total_nonneg {dto : CreateOrderDto} (h : dto.Validates) :
    0 ≤ dto.total := by
  refine List.sum_nonneg fun x hx => ?_
  obtain ⟨item, hitem, rfl⟩ := List.mem_map.mp hx
  obtain ⟨hquantity, hprice⟩ := h item hitem
  exact mul_nonneg hprice (zero_le_one.trans hquantity)

/-- **A column keeps a number of hundredths with at most ten digits, and nothing else.** -/
theorem decimal102_eq_self {q : ℚ} :
    decimal102 q = some q ↔ ∃ n : ℤ, n.natAbs < 10 ^ 10 ∧ q = n / 100 := by
  constructor
  · intro h
    unfold decimal102 at h
    split at h
    · next hlt => exact ⟨hundredths q, hlt, (Option.some.inj h).symm⟩
    · cases h
  · rintro ⟨n, hlt, rfl⟩
    rw [decimal102, hundredths_div, if_pos hlt]

/-- Of a sum that is not negative. -/
theorem decimal102_eq_self_of_nonneg {q : ℚ} (h0 : 0 ≤ q) :
    decimal102 q = some q ↔ ∃ n : ℕ, n < 10 ^ 10 ∧ q = n / 100 := by
  rw [decimal102_eq_self]
  constructor
  · rintro ⟨n, hlt, rfl⟩
    have hn : 0 ≤ n := by
      have hq : (0 : ℚ) ≤ (n : ℚ) := by linarith
      exact_mod_cast hq
    obtain ⟨m, rfl⟩ := Int.eq_ofNat_of_zero_le hn
    exact ⟨m, hlt, by push_cast; rfl⟩
  · rintro ⟨n, hlt, rfl⟩
    exact ⟨n, hlt, by push_cast; rfl⟩

/-! ### Who stores orders, and with which amount -/

section Programs

variable [Hashes]

/-- An order that is inserted comes with the sum over its lines. -/
def Op.Priced : Op → Prop
  | .orderInsert n => n.totalAmount = CreateOrderHandler.totalAmount n.items
  | _ => True

theorem Op.Common.priced {o : Op} (h : o.Common) : o.Priced := by
  cases o with
  | orderInsert n => exact absurd h id
  | _ => exact trivial

theorem indifferent_priced : Indifferent Op.Priced where
  common _ := Op.Common.priced
  set _ _ _ := trivial
  orderSave _ := trivial
  sagaInsert _ := trivial
  paymentInsert _ := trivial
  paymentSave _ := trivial
  announce _ _ := trivial
  charge _ _ := trivial
  report _ _ _ _ := trivial

theorem storeAndPublish_priced {topic aggregateId aggregateType eventType : String}
    {eventData : EventData} {e : Event} :
    (storeAndPublish topic aggregateId aggregateType eventType eventData e).Only Op.Priced :=
  .bind (.perform trivial) fun _ => .perform trivial

/-- **Whoever inserts an order has summed up its lines.** -/
theorem Job.run_priced (t : Job) : t.run.Only Op.Priced := by
  cases t with
  | request r =>
    cases r with
    | createOrder dto userId | createTestOrder dto userId =>
      exact .bind (placeOrder_along (A := Op.Priced) (L := fun _ => True) trivial rfl
        (fun _ _ => trivial) fun _ _ => trivial).only fun _ => trivial
    | _ => exact indifferent_priced.request (by simp [Request.Places])
  | task u =>
    suffices h : u.run.Only Op.Priced from .bind h fun _ => trivial
    cases u with
    | publishAll events => exact .perform trivial
    | publishSagaEvent m => exact .perform trivial
    | externalPayment p c => exact indifferent_priced.externalPayment p c
    | deliver d =>
      cases d with
      | orderCreatedHandler e =>
        exact .bind storeAndPublish_priced fun _ => indifferent_priced.handleOrderCreated e
      | paymentProcessedSagaHandler e => exact indifferent_priced.handlePaymentProcessed e
      | paymentFailedSagaHandler e => exact indifferent_priced.handlePaymentFailed e
      | _ => exact storeAndPublish_priced

/-! ### Runs -/

/-- What is stored as the order's amount is what the column keeps of the sum over its lines. -/
def Order.Summed (o : Order) : Prop :=
  decimal102 (CreateOrderHandler.totalAmount o.items) = some o.totalAmount

omit [Hashes] in
theorem Order.Summed.of_core {o o' : Order} (h : o.Summed) (hc : o.core = o'.core) : o'.Summed := by
  obtain ⟨-, -, hamount, -, hitems⟩ := Order.core_eq.mp hc
  unfold Order.Summed at h ⊢
  rw [← hamount, ← hitems]
  exact h

omit [Hashes] in
/-- One operation: only an insert stores an amount. -/
theorem World.Follows.summed {w w' : World} {i : ℕ} {o : Op} {c : Choice}
    {r : Except Err (Op.Val o)} {ts : List Task} (hf : w.Follows o w') (ho : o.Priced)
    (he : w.exec i o c = some (w', r, ts)) (hw : ∀ x ∈ w.orders, x.Summed) :
    ∀ x ∈ w'.orders, x.Summed := by
  rcases hf.source with ⟨n, rfl⟩ | hsource
  · rcases World.exec_cases_of_not_redis he rfl with ⟨-, hp⟩ | ⟨m, -, rfl, -⟩
    · obtain ⟨hins, -⟩ := World.perform_orderInsert hp
      rcases World.insertOrder_cases hins with ⟨rfl, -⟩ | ⟨rfl, -⟩ |
        ⟨amount, hamount, -, -, -, hmem⟩
      · exact hw
      · exact hw
      · intro x hx
        rcases (hmem x).mp hx with rfl | hx
        · exact (congrArg decimal102 ho).symm.trans hamount
        · exact hw x hx
    · exact hw
  · intro x' hx'
    obtain ⟨x, hx, hc⟩ := hsource x' hx'
    exact (hw x hx).of_core hc

variable {p : Pool application}

/-- **What is stored of amounts**, in any run: of an order, what the column keeps of the sum over
its lines; of its payment, the same. -/
theorem stored_amounts (hp : Pool.Reachable World.NoOrders Served p) :
    ∀ o ∈ p.world.orders, o.Summed ∧
      ∀ q ∈ p.world.payments, q.orderId = o.id → q.amount = o.totalAmount := by
  have hsummed : ∀ o ∈ p.world.orders, o.Summed := by
    refine Pool.Reachable.induct (P := fun p : Pool application => ∀ o ∈ World.orders p.world,
      o.Summed) ?_ ?_ hp
    · rintro w hw o ho
      rw [← Table.mem_rows, hw.1] at ho
      exact absurd ho List.not_mem_nil
    · rintro p p' hp ih ⟨a, ha, hn⟩
      cases a with
      | start t =>
        obtain rfl := Option.some.inj hn
        exact ih
      | tick d =>
        obtain rfl := Option.some.inj hn
        exact ih
      | run i c =>
        obtain ⟨t, o, k, w, r, ts, hi, he, rfl⟩ := Pool.next_run hn
        have hpriced := Pool.Reachable.only (P := fun _ => Op.Priced) Job.run_priced hp _
          (List.mem_of_getElem? hi)
        have hfollows := flow_follows hp (Pool.awaits_eq_some.mpr ⟨t, k, hi⟩) he
        exact hfollows.summed hpriced.1 he ih
  intro o ho
  refine ⟨hsummed o ho, fun q hq hid => ?_⟩
  obtain ⟨o', ho', hid', -, hamount⟩ := (payments_consistent hp).1 q hq
  obtain rfl : o' = o := Table.eq_of_pk ho' ho (hid'.trans hid)
  exact hamount.symm

/-- **The sum over the lines of a valid request fits both columns, and both keep it in every run,
exactly if it is a number of hundredths below `10 ^ 10`.** -/
theorem amounts_exact {dto : CreateOrderDto} (hdto : dto.Validates) :
    (decimal102 dto.total = some dto.total ∧
      ∀ p : Pool application, Pool.Reachable World.NoOrders Served p →
        ∀ o ∈ p.world.orders, o.items = dto.items → o.totalAmount = dto.total ∧
          ∀ q ∈ p.world.payments, q.orderId = o.id → q.amount = dto.total) ↔
      ∃ n : ℕ, n < 10 ^ 10 ∧ dto.total = n / 100 := by
  rw [← decimal102_eq_self_of_nonneg hdto.total_nonneg]
  refine ⟨And.left, fun hfits => ⟨hfits, fun p hp o ho hitems => ?_⟩⟩
  obtain ⟨hsummed, hpayments⟩ := stored_amounts hp o ho
  have htotal : o.totalAmount = dto.total := by
    unfold Order.Summed at hsummed
    rw [totalAmount_eq, hitems] at hsummed
    exact Option.some.inj (hsummed.symm.trans hfits)
  exact ⟨htotal, fun q hq hid => (hpayments q hq hid).trans htotal⟩

end Programs

/-! ### Two valid requests, and one that is charged what it asks for -/

section Requests

open Samples

/-- A line is priced in thousandths. -/
def thousandths : CreateOrderDto :=
  ⟨[⟨"product-1", "P", 1, 333 / 1000⟩], "somewhere", some "key-1"⟩

/-- A line costs more than ten digits can tell. -/
def hundredMillion : CreateOrderDto :=
  ⟨[⟨"product-1", "P", 1, 10 ^ 8⟩], "somewhere", some "key-1"⟩

/-- An order is placed for thousandths, and its payment requested. -/
def thousandthsPlaced : Pool application :=
  (Pool.play Served ⟨World.empty 0, []⟩
    (.start (.request (.createOrder thousandths "user-1")) ::
      (turns 0 3 "order-1" ++ turns 1 1 "" ++ turns 2 18 "saga-1"))).get (by decide +kernel)

theorem thousandthsPlaced_reachable :
    Pool.Reachable World.NoOrders Served thousandthsPlaced :=
  Pool.reachable_of_play (World.noOrders_empty 0) _

/-- One sum is rounded, the other refused: the validation admits both. -/
theorem amounts_inexact :
    thousandths.Validates ∧
    ¬(decimal102 thousandths.total = some thousandths.total ∧
      ∀ p : Pool application, Pool.Reachable World.NoOrders Served p →
        ∀ o ∈ p.world.orders, o.items = thousandths.items → o.totalAmount = thousandths.total ∧
          ∀ q ∈ p.world.payments, q.orderId = o.id → q.amount = thousandths.total) ∧
    (∃ o ∈ thousandthsPlaced.world.orders, o.items = thousandths.items ∧
      thousandths.total = 333 / 1000 ∧ o.totalAmount = 33 / 100 ∧
      ∃ q ∈ thousandthsPlaced.world.payments, q.orderId = o.id ∧ q.amount = 33 / 100) ∧
    hundredMillion.Validates ∧ decimal102 hundredMillion.total = none := by
  have hstored : ∃ o ∈ thousandthsPlaced.world.orders.rows, o.items = thousandths.items ∧
      thousandths.total = 333 / 1000 ∧ o.totalAmount = 33 / 100 ∧
      ∃ q ∈ thousandthsPlaced.world.payments.rows, q.orderId = o.id ∧ q.amount = 33 / 100 := by
    decide +kernel
  refine ⟨by decide +kernel, fun h => ?_, hstored, by decide +kernel, by decide +kernel⟩
  obtain ⟨o, ho, hitems, htotal, hamount, -⟩ := hstored
  have hkept := (h.2 _ thousandthsPlaced_reachable o ho hitems).1
  rw [htotal, hamount] at hkept
  norm_num at hkept

theorem amounts_exact_oneProduct :
    decimal102 oneProduct.total = some oneProduct.total ∧
      ∀ p : Pool application, Pool.Reachable World.NoOrders Served p →
        ∀ o ∈ p.world.orders, o.items = oneProduct.items → o.totalAmount = oneProduct.total ∧
          ∀ q ∈ p.world.payments, q.orderId = o.id → q.amount = oneProduct.total :=
  (amounts_exact (by decide +kernel)).mpr ⟨1000, by norm_num, by decide +kernel⟩

end Requests

end CqrsSaga
