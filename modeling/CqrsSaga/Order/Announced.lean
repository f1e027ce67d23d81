import Mathlib.Algebra.Order.Group.Multiset
import CqrsSaga.Async.Account
import CqrsSaga.Flow.Runs
import CqrsSaga.Store.Slices

/-!
# Orders are announced once

`CreateOrderHandler` stores an order and then has its event published, outside of any transaction.
What lies between the two cannot fail, and nobody else stores orders or publishes that event.  So
there is one event for each order, and none for anything else, once nothing goes on any more and no
process has been ended in between.  Whatever fails elsewhere, a failed operation is taken to have
left the store as it was: where the reply to a commit is lost, the order is stored, and the request
believes that it is not.

## Main definitions

* `Event.created?` — the order an event tells the creation of.
* `Announcing.account` — the orders stored, against the orders announced.

## Main results

* `orders_announced` — **no order is announced that is not stored, or announced twice, and in the
  end every order is announced.**
-/

namespace CqrsSaga

open SagaManager RedisLockService KafkaService OrderProcessingSaga

/-- The order an event tells the creation of. -/
def Event.created? : Event → Option String
  | .orderCreated e => some e.orderId
  | _ => none

/-- The orders the events tell the creation of. -/
def createdOrders (events : List Event) : List String := events.filterMap Event.created?

/-! ### Who stores and announces orders -/

/-- The task announces no order. -/
def Task.Mute : Task → Prop
  | .publishAll events => createdOrders events = []
  | _ => True

/-- The operation stores no order, and announces none. -/
def Op.Mute : Op → Prop
  | .orderInsert _ => False
  | .setImmediate task => task.Mute
  | .publishAll events => createdOrders events = []
  | _ => True

section Programs

variable [Hashes]

theorem Op.Common.mute {o : Op} (h : o.Common) : o.Mute := by
  cases o with
  | setImmediate task =>
    obtain ⟨m, rfl, -⟩ := h
    exact trivial
  | orderInsert n => exact absurd h id
  | publishAll events => exact absurd h id
  | _ => exact trivial

theorem indifferent_mute : Indifferent Op.Mute where
  common _ := Op.Common.mute
  set _ _ _ := trivial
  orderSave _ := trivial
  sagaInsert _ := trivial
  paymentInsert _ := trivial
  paymentSave _ := trivial
  announce events he := by
    obtain ⟨e, f, rfl, ⟨g, rfl⟩ | ⟨g, rfl⟩⟩ := he <;> rfl
  charge _ _ := trivial
  report payment c e he := by
    rcases he with ⟨f, rfl, -⟩ | ⟨f, rfl, -⟩ <;> rfl

/-- **Work that was handed over announces no order**, unless that is what it is. -/
theorem Task.run_mute {t : Task} (ht : ∀ events, t ≠ .publishAll events) : t.run.Only Op.Mute := by
  have hstore : ∀ topic aggregateId aggregateType eventType eventData e,
      (storeAndPublish topic aggregateId aggregateType eventType eventData e).Only Op.Mute :=
    fun _ _ _ _ _ _ => .bind (.perform trivial) fun _ => .perform trivial
  cases t with
  | publishAll events => exact absurd rfl (ht events)
  | publishSagaEvent m => exact .perform trivial
  | externalPayment p c => exact indifferent_mute.externalPayment p c
  | deliver d =>
    cases d with
    | orderCreatedHandler e =>
      exact .bind (hstore ..) fun _ => indifferent_mute.handleOrderCreated e
    | paymentProcessedSagaHandler e => exact indifferent_mute.handlePaymentProcessed e
    | paymentFailedSagaHandler e => exact indifferent_mute.handlePaymentFailed e
    | _ => exact hstore ..

/-! ### The account -/

namespace Announcing

/-- The orders an activity is to announce. -/
def due : Job → Multiset String
  | .task (.publishAll events) => createdOrders events
  | _ => 0

/-- **The account of the announcements**: nothing is lost. -/
def account : Account application (Multiset String) where
  paid w := createdOrders (World.published w)
  charged w := w.orders.keys
  due := due
  lossy := False
  can w i o c := ∀ w' r ts, w.exec i o c = some (w', r, ts) → w.Follows o w'

variable {w w' : World} {i : ℕ}

omit [Hashes] in
theorem due_deliveries (events : List Event) :
    (((events.flatMap Event.deliveries).map Task.deliver).filterMap
      (fun t => some (Job.task t)) |>.map due).sum = 0 := by
  refine List.sum_eq_zero fun x hx => ?_
  obtain ⟨t, ht, rfl⟩ := List.mem_map.mp hx
  obtain ⟨u, hu, heq⟩ := List.mem_filterMap.mp ht
  obtain ⟨d, -, rfl⟩ := List.mem_map.mp hu
  obtain rfl := Option.some.inj heq
  rfl

omit [Hashes] in
/-- An operation that stores no order keeps the stored ones. -/
theorem keys_of_follows {o : Op} (h : w.Follows o w') (ho : ∀ n, o ≠ .orderInsert n) :
    (w'.orders.keys : Multiset String) = w.orders.keys := by
  refine Multiset.coe_eq_coe.mpr (Table.keys_perm fun a => ?_)
  constructor
  · rintro ⟨x', hx', rfl⟩
    obtain ⟨x, hx, hc⟩ := (h.source.resolve_left fun ⟨n, hn⟩ => ho n hn) x' hx'
    exact ⟨x, hx, (Order.core_eq.mp hc).1⟩
  · rintro ⟨x, hx, rfl⟩
    obtain ⟨x', hx', hc⟩ := h.orders x hx
    exact ⟨x', hx', (Order.core_eq.mp hc).1⟩

/-- An operation that neither stores nor announces an order leaves the account as it is. -/
theorem even {o : Op} (ho : o.Mute) : account.Even o := by
  intro w i c w' r ts hc he
  have hf := World.exec_frame he
  have hkeys : (w'.orders.keys : Multiset String) = w.orders.keys := by
    refine keys_of_follows (hc w' r ts he) ?_
    rintro n rfl
    exact ho
  cases o with
  | publishAll events =>
    obtain ⟨hp, -⟩ := World.exec_local he rfl
    simp only [World.perform, Option.some.injEq, Prod.mk.injEq] at hp
    obtain ⟨rfl, -, rfl⟩ := hp
    refine .idle ?_ hkeys (due_deliveries events) 0
    show (createdOrders (w.published ++ events) : Multiset String) = createdOrders w.published
    rw [createdOrders, List.filterMap_append, ← createdOrders, ← createdOrders,
      show createdOrders events = [] from ho, List.append_nil]
  | setImmediate task =>
    obtain ⟨hp, -⟩ := World.exec_local he rfl
    simp only [World.perform, Option.some.injEq, Prod.mk.injEq] at hp
    obtain ⟨rfl, -, rfl⟩ := hp
    refine .idle rfl hkeys ?_ 0
    show ([Job.task task].map due).sum = 0
    rw [List.map_singleton, List.sum_singleton]
    cases task with
    | publishAll events => exact congrArg _ (show createdOrders events = [] from ho)
    | _ => rfl
  | _ =>
    refine .idle ?_ hkeys (by rw [World.exec_tasks he rfl]; rfl) 0
    exact congrArg (fun l => (createdOrders l : Multiset String))
      (hf.published (by simp [Op.writes]))

/-- What is left to announce once an order is stored. -/
def Stored : Except Err Order → Multiset String → Prop
  | .ok order, x => x = {order.id}
  | .error _, x => x = 0

/-- An order is stored, and is to be announced. -/
theorem insert_triple (n : NewOrder) :
    account.protocol.Triple i (Account.Owes i fun x => x = 0) (orderRepository.insert n) fun r =>
      Account.Owes i (Stored r) := by
  refine Account.perform_triple fun w c w' r ts x hc he hx => ?_
  subst hx
  have hpub := (World.exec_frame he).published (by simp [Op.writes])
  have hidle : ∀ e, r = .error e → w' = w → ts = [] →
      ∃ y, Stored r y ∧ account.Turns 0 w w' ts y := by
    rintro e rfl rfl rfl
    exact ⟨0, rfl, .idle rfl rfl rfl 0⟩
  rcases World.exec_cases_of_not_redis he rfl with ⟨-, hp⟩ | ⟨m, -, hw, hr, hts, -⟩
  · obtain ⟨hins, hts⟩ := World.perform_orderInsert hp
    rcases World.insertOrder_cases hins with ⟨hw, hr⟩ | ⟨hw, key, -, hr, -⟩ |
      ⟨amount, -, rfl, hfresh, -, hmem⟩
    · exact hidle _ hr hw hts
    · exact hidle _ hr hw hts
    · -- the order is charged to the activity that has stored it
      refine ⟨_, rfl, 0, {c.text}, 0, Account.waived_zero, ?_, ?_, ?_⟩
      · show (createdOrders w'.published : Multiset String) = createdOrders w.published + 0
        rw [hpub, add_zero]
      · have hkeys := Multiset.coe_eq_coe.mpr
          (Table.keys_insert (r := w.newOrderRow c.text n amount) hmem hfresh)
        show (w'.orders.keys : Multiset String) = w.orders.keys + {c.text}
        rw [hkeys, ← Multiset.cons_coe, add_comm, Multiset.singleton_add]
        rfl
      · rw [hts]
        simp
  · exact hidle _ hr hw hts

/-- A stored order is handed over to be announced. -/
theorem hand_triple (order : Order) (key : Option String) :
    account.protocol.Triple i (Account.Owes i fun x => x = {order.id})
      (setImmediate (.publishAll [.orderCreated (CreateOrderHandler.createdEvent order key)]))
      fun _ => Account.Owes i fun x => x = 0 := by
  refine Account.perform_triple fun w c w' r ts x hc he hx => ?_
  subst hx
  obtain ⟨hp, -⟩ := World.exec_local he rfl
  simp only [World.perform, Option.some.injEq, Prod.mk.injEq] at hp
  obtain ⟨rfl, -, rfl⟩ := hp
  refine ⟨0, rfl, 0, 0, 0, Account.waived_zero, (add_zero _).symm, (add_zero _).symm, ?_⟩
  show 0 + ([{order.id}] : List (Multiset String)).sum + 0 + 0 = {order.id} + 0
  simp

/-- What is to be announced is announced. -/
theorem publish_triple (events : List Event) :
    account.protocol.Triple i (Account.Owes i fun x => x = createdOrders events)
      (eventBus.publishAll events) fun _ => Account.Owes i fun x => x = 0 := by
  refine Account.perform_triple fun w c w' r ts x hc he hx => ?_
  subst hx
  obtain ⟨hp, -⟩ := World.exec_local he rfl
  simp only [World.perform, Option.some.injEq, Prod.mk.injEq] at hp
  obtain ⟨rfl, -, rfl⟩ := hp
  refine ⟨0, rfl, createdOrders events, 0, 0, Account.waived_zero, ?_, (add_zero _).symm, ?_⟩
  · show (createdOrders (w.published ++ events) : Multiset String) =
      createdOrders w.published + createdOrders events
    rw [createdOrders, List.filterMap_append, Multiset.coe_add]
    rfl
  · refine (congrArg (fun x => (createdOrders events : Multiset String) + x + 0 + 0)
      (due_deliveries events)).trans ?_
    rw [add_zero, add_zero]

/-! ### The programs -/

/-- Nothing is left to do. -/
theorem mute_triple {α : Type} {p : Async App α} (hp : p.Only Op.Mute) :
    account.protocol.Triple i (Account.Owes i fun x => x = 0) p fun _ =>
      Account.Owes i fun x => x = 0 :=
  Account.only_triple (hp.mono fun _ => even) _

/-- **An order that is stored is announced.** -/
theorem placeOrder_triple (dto : CreateOrderDto) (userId : String) :
    account.protocol.Triple i (Account.Owes i fun x => x = 0)
      (OrderController.placeOrder dto userId) fun _ => Account.Owes i fun x => x = 0 := by
  have hstable := Account.owes_stable (A := account) i fun x => x = 0
  refine .seq hstable (.rescue hstable (.seq hstable (mute_triple ?_) fun _ => ?_) fun e =>
    mute_triple ?_) fun _ => .skip hstable
  · unfold CreateOrderHandler.checkDuplicate
    split
    · exact trivial
    · refine .bind (.perform trivial) fun found => ?_
      cases found <;> exact trivial
  · refine .bind _ (insert_triple _) (fun order => ?_) fun e => .fail hstable
    exact .bind _ (hand_triple order _) (fun _ => .skip hstable) fun _ => .fail hstable
  · unfold CreateOrderHandler.recover
    split
    · refine .bind (.perform trivial) fun found => ?_
      cases found <;> exact trivial
    · exact trivial

theorem body_triple (i : ℕ) (t : Job) :
    account.protocol.Triple i (Account.Owes i fun x => x = due t) t.run fun _ =>
      Account.Owes i account.Waived := by
  have hstable := Account.owes_stable (A := account) i fun x => x = 0
  have hmute : ∀ {α : Type} {p : Async App α} {f : α → Answer}, p.Only Op.Mute →
      account.protocol.Triple i (Account.Owes i fun x => x = 0) (f <$> p) fun _ =>
        Account.Owes i fun x => x = 0 := fun hp =>
    .seq hstable (mute_triple hp) fun _ => .skip hstable
  suffices h : account.protocol.Triple i (Account.Owes i fun x => x = due t) t.run fun _ =>
      Account.Owes i fun x => x = 0 from
    h.post fun _ w g _ (h : Account.Owes i (fun x => x = 0) w g) => h.mono fun x hx => Or.inl hx
  cases t with
  | request r =>
    cases r with
    | createOrder dto userId | createTestOrder dto userId =>
      exact .seq hstable (placeOrder_triple dto userId) fun _ => .skip hstable
    | _ => exact mute_triple (indifferent_mute.request (by simp [Request.Places]))
  | task u =>
    cases u with
    | publishAll events =>
      exact .bind _ (publish_triple events) (fun _ => .skip hstable) fun _ => .fail hstable
    | _ => exact hmute (Task.run_mute (by simp))

/-- **The account holds in every run.** -/
theorem sound : account.protocol.Sound World.NoOrders fun p a => Served p a ∧ Following p a := by
  refine Account.sound ?_ ?_ (fun w d => ⟨rfl, rfl⟩) ?_ body_triple
  · rintro w ⟨horders, -, -, -, hpub, -⟩
    show (createdOrders w.published : Multiset String) = w.orders.keys
    rw [hpub, Table.keys, horders]
    rfl
  · intro p t ha
    cases t with
    | request r => rfl
    | task u => exact absurd ha.1 id
  · intro p i c t o k ha hi
    exact ha.2 o (Pool.awaits_eq_some.mpr ⟨t, k, hi⟩)

end Announcing

/-- **No order is announced that is not stored, and none is announced twice; in the end every order
that was stored has been announced**, unless a callback was rejected. -/
theorem orders_announced {p : Pool application} (hp : Pool.Reachable World.NoOrders Served p) :
    (createdOrders (World.published p.world)).Subperm (World.orders p.world).keys ∧
      (Stopped p → ¬Crashed p →
        (createdOrders (World.published p.world)).Perm (World.orders p.world).keys) := by
  obtain ⟨g, hH⟩ := Announcing.sound.reachable (hp.assuming fun _ a hr _ =>
    following_of_reachable hr a)
  constructor
  · obtain ⟨l, heq⟩ := Account.covered hH
    have heq : (createdOrders (World.published p.world) : Multiset String) + l =
      (World.orders p.world).keys := heq
    exact Multiset.coe_le.mp (heq ▸ Multiset.le_add_right _ _)
  · intro hs hc
    obtain ⟨l, hl, heq⟩ := Account.settled hH (hs.resolve_left hc)
    obtain rfl : l = 0 := hl.resolve_right id
    have heq : (createdOrders (World.published p.world) : Multiset String) + 0 =
      (World.orders p.world).keys := heq
    rw [add_zero] at heq
    exact Multiset.coe_eq_coe.mp heq

end Programs

/-! ### An announcement that cannot be stored -/

namespace Announcing

open Samples

/-- An order is placed and announced; the handler fails to store the announcement. -/
def unstored : Pool application :=
  (Pool.play Served ⟨World.empty 0, []⟩ (.start (.request (.createOrder oneProduct "user-1")) ::
    (turns 0 3 "order-1" ++ turns 1 1 "" ++
      [.run 2 { fault := some (.refused "database down") }]))).get (by decide +kernel)

theorem orders_announced_unstored :
    (createdOrders (World.published unstored.world)).Perm (World.orders unstored.world).keys :=
  (orders_announced (Pool.reachable_of_play (World.noOrders_empty 0) _)).2
    (Or.inr (by decide +kernel)) (by decide +kernel)

example : (World.orders unstored.world).keys = ["order-1"] ∧
    World.eventStore unstored.world = [] := by
  decide +kernel

end Announcing

end CqrsSaga
