import CqrsSaga.App.Callbacks
import CqrsSaga.Flow.Runs

/-!
# Orders without a saga

Between the insert of an order and that of its saga lie a deferred publication, the write of
the event store and a message to Kafka.  Whoever is to start the saga passes this on with
the event, and starts it unless that message fails; then nobody ever does.  The messages of the
saga itself are sent aside, in callbacks: one that fails does not lose what it tells of, but ends
the process, with whatever else was to be done.  And the saga is started under a lock that
`RedisTestController` lets anybody take for longer than `startSaga` is ready to wait.

## Main definitions

* `Message.concerns`, `KafkaFails` — the runs in which only sends to Kafka fail, and which.
* `Untested` — nobody tests the lock under which the saga of an order is started.
* `starting` — what the activities agree on about the saga of one order.

## Main results

* `starting_sound` — **no activity drops the saga it is to start.**
* `orders_begun` — so **every order has its saga when nothing goes on any more**, unless the message
  of its creation, or one that callbacks send, fails, or its lock is tested.
* `order_without_saga` — which then it has not.
-/

namespace CqrsSaga

open SagaManager RedisLockService KafkaService OrderProcessingSaga

/-! ### What is stored, and what is locked -/

namespace World

/-- An order is stored under the key. -/
def Placed (w : World) (k : String) : Prop := ∃ o ∈ w.orders, o.idempotencyKey = some k

/-- The saga of the order under the key is stored. -/
def Begun (w : World) (k : String) : Prop := ∃ s ∈ w.sagas, s.Is sagaType k

variable {w w' : World} {o : Op} {k : String}

theorem Follows.placed (h : w.Follows o w') (hk : w.Placed k) : w'.Placed k := by
  obtain ⟨x, hx, hxk⟩ := hk
  obtain ⟨x', hx', hc⟩ := h.orders x hx
  obtain ⟨-, -, -, hkey, -⟩ := Order.core_eq.mp hc
  exact ⟨x', hx', hkey.trans hxk⟩

theorem Follows.begun (h : w.Follows o w') (hk : w.Begun k) : w'.Begun k := by
  obtain ⟨s, hs, hty, hco⟩ := hk
  obtain ⟨s', hs', hc⟩ := h.sagas s hs
  obtain ⟨-, hty', hco', -⟩ := SagaInstance.core_eq.mp hc
  exact ⟨s', hs', hty'.trans hty, hco'.trans hco⟩

/-- Only an insert stores an order under another key. -/
theorem Follows.placed_iff (h : w.Follows o w') (ho : ∀ n, o ≠ .orderInsert n) :
    w'.Placed k ↔ w.Placed k := by
  refine ⟨fun ⟨x', hx', hk⟩ => ?_, h.placed⟩
  rcases h.source with ⟨n, hn⟩ | hsource
  · exact absurd hn (ho n)
  · obtain ⟨x, hx, hc⟩ := hsource x' hx'
    obtain ⟨-, -, -, hkey, -⟩ := Order.core_eq.mp hc
    exact ⟨x, hx, hkey.trans hk⟩

end World

/-- The entry of the lock under which the saga of the order is started. -/
def startLock (k : String) : String := "lock:" ++ creationLock sagaType k

theorem startLock_inj {k k' : String} (h : startLock k = startLock k') : k = k' := by
  simpa [startLock, creationLock] using h

theorem stepLock_ne_startLock (id s k : String) : "lock:" ++ stepLock id s ≠ startLock k := by
  intro h
  have := congrArg (fun t => t.toList.take 11) h
  simp [startLock, creationLock, stepLock, String.toList_append] at this

/-! ### Operations that have nothing to do with the start of the saga -/

/-- The event is the one of the creation of the order under the key. -/
def Event.Begins (k : String) : Event → Prop
  | .orderCreated e => e.correlationId = some k
  | _ => False

/-- The saga of the order under the key is not to be started for the task. -/
def Task.Plain (k : String) : Task → Prop
  | .publishAll events => ∀ e ∈ events, ¬e.Begins k
  | .deliver d => ¬d.event.Begins k
  | _ => True

/-- The operation does not store the order under the key, does not try for the lock of its saga, and
hands no start of it over. -/
def Op.Plain (k : String) : Op → Prop
  | .orderInsert n => n.idempotencyKey ≠ some k
  | .redisSet key _ _ => key ≠ startLock k
  | .setImmediate task => task.Plain k
  | .publishAll events => ∀ e ∈ events, ¬e.Begins k
  | _ => True

namespace World

variable {w w' : World} {i : ℕ} {o : Op} {c : Choice} {r : Except Err (Op.Val o)} {ts : List Task}
  {k : String}

theorem exec_plain (he : w.exec i o c = some (w', r, ts)) (ho : o.Plain k) :
    ∀ t ∈ ts, t.Plain k := by
  refine exec_starts he ?_ ?_
  · rintro task rfl
    exact ho
  · rintro events rfl d hd
    exact ho d.event hd

/-- The order under the key is not stored by such an operation. -/
theorem placed_of_plain (ho : o.Plain k) (he : w.exec i o c = some (w', r, ts))
    (hf : w.Follows o w') (h : w'.Placed k) : w.Placed k := by
  by_cases hinsert : ∀ n, o ≠ .orderInsert n
  · exact (hf.placed_iff hinsert).mp h
  · obtain ⟨n, hn⟩ := not_forall_not.mp hinsert
    subst hn
    obtain ⟨x, hx, hk⟩ := h
    rcases exec_cases_of_not_redis he rfl with ⟨-, hp⟩ | ⟨m, -, rfl, -⟩
    · obtain ⟨hins, -⟩ := perform_orderInsert hp
      rcases insertOrder_cases hins with ⟨rfl, -⟩ | ⟨rfl, -⟩ | ⟨amount, -, -, -, -, hmem⟩
      · exact ⟨x, hx, hk⟩
      · exact ⟨x, hx, hk⟩
      · rcases (hmem x).mp hx with rfl | hx
        · exact absurd hk ho
        · exact ⟨x, hx, hk⟩
    · exact ⟨x, hx, hk⟩

end World

section Programs

variable [Hashes] {k : String}

theorem lenient_plain (k : String) : Lenient (Op.Plain k) where
  common o h := by
    cases o with
    | redisSet key tok ttl =>
      obtain ⟨id, s, rfl⟩ := h
      exact stepLock_ne_startLock id s k
    | setImmediate task =>
      obtain ⟨m, rfl, -⟩ := h
      exact trivial
    | orderInsert n => exact absurd h id
    | publishAll events => exact absurd h id
    | _ => exact trivial
  orderSave _ := trivial
  paymentSave _ := trivial
  announce events he := by
    obtain ⟨e, f, rfl, ⟨g, rfl⟩ | ⟨g, rfl⟩⟩ := he <;> simp [Op.Plain, Task.Plain, Event.Begins]
  report _ _ e he := by
    rcases he with ⟨f, rfl, -⟩ | ⟨f, rfl, -⟩ <;> simp [Op.Plain, Event.Begins]

omit [Hashes] in
theorem paymentAction_plain (saga : SagaInstance) (e : OrderCreatedEvent) :
    (paymentAction saga e).Only (Op.Plain k) :=
  .bind (.bind (.perform trivial) fun _ => .bind (.perform trivial) fun _ => trivial)
    fun _ => .perform trivial

theorem executePaymentStep_plain (saga : SagaInstance) (e : OrderCreatedEvent) :
    (executePaymentStep saga e).Only (Op.Plain k) :=
  (executeSagaStep_along (.of_common (lenient_plain k).common) trivial (by simp [sagaSteps])
    (.of_only (paymentAction_plain saga e) fun _ => trivial)).only

/-- The saga of another order is started under another lock. -/
theorem handleOrderCreated_plain {e : OrderCreatedEvent} (he : e.correlationId ≠ some k) :
    (handleOrderCreated e).Only (Op.Plain k) := by
  refine (handleOrderCreated_along (.of_common (lenient_plain k).common)
    (fun k' hk => .of_common (lenient_plain k).common (fun _ => trivial) fun _ _ h => ?_)
    fun saga _ => .of_only (paymentAction_plain saga e) fun _ => trivial).only
  exact he (hk.trans (congrArg some (startLock_inj h)))

/-- **Work that does not start the saga.** -/
theorem Task.run_plain {t : Task} (ht : t.Plain k) : t.run.Only (Op.Plain k) := by
  have hstore : ∀ topic aggregateId aggregateType eventType eventData e,
      (storeAndPublish topic aggregateId aggregateType eventType eventData e).Only (Op.Plain k) :=
    fun _ _ _ _ _ _ => .bind (.perform trivial) fun _ => .perform trivial
  cases t with
  | publishAll events => exact .perform ht
  | publishSagaEvent m => exact .perform trivial
  | externalPayment p c => exact (lenient_plain k).externalPayment p c
  | deliver d =>
    cases d with
    | orderCreatedHandler e => exact .bind (hstore ..) fun _ => handleOrderCreated_plain ht
    | paymentProcessedSagaHandler e => exact (lenient_plain k).handlePaymentProcessed e
    | paymentFailedSagaHandler e => exact (lenient_plain k).handlePaymentFailed e
    | _ => exact hstore ..

/-- An order under another key is placed. -/
theorem placeOrder_plain {dto : CreateOrderDto} {userId : String}
    (hk : OrderController.idempotencyKey dto ≠ k) :
    (OrderController.placeOrder dto userId).Only (Op.Plain k) := by
  have hne : some (OrderController.idempotencyKey dto) ≠ some k := fun h => hk (Option.some.inj h)
  refine (placeOrder_along (L := fun _ => True) trivial hne (fun _ _ => trivial)
    fun y _ e he => ?_).only
  rw [List.mem_singleton.mp he]
  exact hne

end Programs

/-! ### Which sends may fail -/

/-- The operation is the sending of a message that may fail. -/
def Op.mayFail (safe : Message → Bool) : Op → Bool
  | .kafkaSend _ _ m => !safe m
  | _ => false

/-- The message tells of the creation of the order under the key, or is one that callbacks send. -/
def Message.concerns (k : Option String) : Message → Bool
  | .domain _ (.orderCreated e) => e.correlationId = k
  | m => m.isAside

/-! ### What the activities agree on -/

/-- Which activity is to start the saga of the order, if it is stored and has none yet. -/
abbrev Starter := Option ℕ

namespace Starting

/-- Activity `i` is not to start the saga. -/
def Free (i : ℕ) (_ : World) (g : Starter) : Prop := g ≠ some i

/-- Activity `i` is to start the saga. -/
def Starts (i : ℕ) (_ : World) (g : Starter) : Prop := g = some i

/-- It has not tried for the lock yet, nor has anybody else. -/
def Ready (k : String) (i : ℕ) (w : World) (g : Starter) : Prop :=
  Starts i w g ∧ w.Unlocked (startLock k)

/-- Whoever does not start the saga leaves its lock alone. -/
structure Inv (k : String) (w : World) (g : Starter) : Prop where
  placed : w.Placed k → w.Begun k ∨ ∃ i, g = some i
  starter : ∀ i, g = some i → w.Placed k
  lock : ¬w.Placed k → w.Unlocked (startLock k)

/-- What an activity may assume when it starts. -/
def Born (k : String) (i : ℕ) (w : World) (g : Starter) : Job → Prop
  | .task (.publishAll events) =>
      (∃ e, events = [.orderCreated e] ∧ e.correlationId = some k ∧ k ≠ "" ∧ Ready k i w g) ∨
        (Task.publishAll events).Plain k ∧ Free i w g
  | .task (.deliver (.orderCreatedHandler e)) =>
      e.correlationId = some k ∧ k ≠ "" ∧ Ready k i w g ∨ e.correlationId ≠ some k ∧ Free i w g
  | .request (.lockTest test) => (∀ key ∈ test.key?, key ≠ creationLock sagaType k) ∧ Free i w g
  | _ => Free i w g

end Starting

open Starting

/-- **What the activities agree on** about the saga of the order under the key `k`. -/
def starting [Hashes] (k : String) : Protocol application where
  Ghost := Starter
  Inv := Inv k
  Mono := fun w _ w' _ => (w.Placed k → w'.Placed k) ∧ (w.Begun k → w'.Begun k)
  Keep := fun i w g w' g' => (g = some i ↔ g' = some i) ∧
    (g = some i → w.Unlocked (startLock k) → w'.Unlocked (startLock k))
  CanRun := fun w _ i o c => (c.fault = none ∨ o.mayFail (Message.concerns (some k)) = true) ∧
    ∀ w' r ts, w.exec i o c = some (w', r, ts) → w.Follows o w'
  Assert := fun _ _ _ _ => True
  Fits := fun g l => ∀ i, g = some i → i < l.length
  Born := fun i t w g => Born k i w g t
  Post := fun i _ _ w g => Free i w g
  mono_refl := fun _ _ => ⟨id, id⟩
  mono_trans := fun h h' => ⟨fun hk => h'.1 (h.1 hk), fun hk => h'.2 (h.2 hk)⟩
  keep_refl := fun _ _ _ => ⟨Iff.rfl, fun _ h => h⟩
  keep_trans := fun h h' => ⟨h.1.trans h'.1, fun hi hu => h'.2 (h.1.mp hi) (h.2 hi hu)⟩

namespace Starting

variable [Hashes] {i j : ℕ} {k : String} {w w' : World} {g : Starter} {o : Op}
  {F : World → Starter → Prop}

theorem free_stable : (starting k).Stable i (Free i) :=
  fun _ _ _ _ _ hk _ h hg => h (hk.1.mpr hg)

theorem starts_stable : (starting k).Stable i (Starts i) :=
  fun _ _ _ _ _ hk _ h => hk.1.mp h

theorem ready_stable : (starting k).Stable i (Ready k i) :=
  fun _ _ _ _ hm hk hI h => ⟨starts_stable hm hk hI h.1, hk.2 h.1 h.2⟩

/-! ### Operations that have nothing to do with it -/

/-- An operation that neither stores the order nor tries for the lock. -/
theorem unseen_of_plain {c : Choice} {r : Except Err (Op.Val o)} {ts : List Task} (ho : o.Plain k)
    (he : w.exec i o c = some (w', r, ts)) (hf : w.Follows o w') : (starting k).Unseen w w' := by
  have hunlocked : w.Unlocked (startLock k) → w'.Unlocked (startLock k) := by
    refine fun h => h.exec he ?_
    rintro tok ttl rfl
    exact ho rfl
  intro g hI
  refine ⟨⟨fun hk => ?_, fun i hi => hf.placed (hI.starter i hi), fun hk => ?_⟩,
    ⟨hf.placed, hf.begun⟩, fun j => ⟨Iff.rfl, fun _ => hunlocked⟩⟩
  · exact (hI.placed (World.placed_of_plain ho he hf hk)).imp_left hf.begun
  · exact hunlocked (hI.lock fun h => hk (hf.placed h))

/-- What is started is not to start the saga. -/
theorem born_plain {l : List Job} (hl : (starting k).Fits g l) {n : ℕ} (hn : l.length ≤ n)
    {t : Task} (ht : t.Plain k) : Born k n w g (.task t) := by
  have hfree : Free n w g := fun h => Nat.not_lt.mpr hn (hl n h)
  cases t with
  | publishAll events => exact Or.inr ⟨ht, hfree⟩
  | deliver d =>
    cases d with
    | orderCreatedHandler e => exact Or.inr ⟨ht, hfree⟩
    | _ => exact hfree
  | _ => exact hfree

theorem plain_atomic {Φ : (starting k).Assn (Op.Val o)} (ho : o.Plain k) (hI : Inv k w g)
    (h : ∀ c w' r ts, (c.fault = none ∨ o.mayFail (Message.concerns (some k)) = true) →
      w.exec i o c = some (w', r, ts) → (starting k).Mono w g w' g →
        (starting k).Keep i w g w' g → Inv k w' g → Φ r w' g) :
    (starting k).atomic i o Φ w g := by
  refine ⟨trivial, fun c w' r ts hc he l _ hf => ?_⟩
  obtain ⟨hI', hm, hk⟩ := unseen_of_plain ho he (hc.2 w' r ts he) g hI
  refine ⟨g, hI', hm, fun j _ _ => hk j, fun j hj => ?_, fun n t ht => ?_,
    h c w' r ts hc.1 he hm (hk i) hI'⟩
  · rw [List.length_append]
    exact Nat.lt_add_right _ (hf j hj)
  · obtain ⟨u, hu, hut⟩ := List.mem_filterMap.mp (List.mem_of_getElem? ht)
    obtain rfl := Option.some.inj hut
    exact born_plain hf (Nat.le_add_right _ n) (World.exec_plain he ho u hu)

theorem plain_triple (hF : (starting k).Stable i F) (ho : o.Plain k) :
    (starting k).Triple i F (call o) fun _ => F :=
  .perform hF (fun _ => hF) fun _ _ hI hw =>
    plain_atomic ho hI fun _ _ _ _ _ _ hm hk hI' => hF hm hk hI' hw

theorem plain_program {α : Type} {p : Async App α} (hF : (starting k).Stable i F)
    (hp : p.Only (Op.Plain k)) : (starting k).Triple i F p fun _ => F := by
  intro w g _ hw
  exact Protocol.wp_of_only hF (fun o w g ho hI hw => plain_atomic ho hI
    fun _ _ _ _ _ _ hm hk hI' => hF hm hk hI' hw) hp hw

/-- An operation that does not fail. -/
theorem sure_triple (hF : (starting k).Stable i F) (ho : o.Plain k)
    (hsafe : o.mayFail (Message.concerns (some k)) = false)
    (hv : ∀ w i c w' r ts, World.perform w i c o = some (w', r, ts) → ∃ v, r = .ok v) :
    (starting k).Triple i F (call o) (Returns (P := starting k) F) := by
  refine .perform hF (returns_stable hF) fun w g hI hw =>
    plain_atomic ho hI fun c w' r ts hc he hm hk hI' => ⟨?_, hF hm hk hI' hw⟩
  rw [hsafe] at hc
  rw [World.exec_eq_perform (hc.resolve_right (by simp))] at he
  exact hv _ _ _ _ _ _ he

/-! ### The start is handed over -/

/-- Activity `i` hands its start over to the one activity an operation starts. -/
theorem hand_triple {t : Task} (ho : o.isLocal = true)
    (hw : o.writes = [] ∨ o.writes = [.published])
    (hts : ∀ w i c w' r ts, World.perform w i c o = some (w', r, ts) → ts = [t])
    (ht : ∀ n w g, Ready k n w g → Born k n w g (.task t)) :
    (starting k).Triple i (Ready k i) (call o) fun _ => Free i := by
  refine .perform ready_stable (fun _ => free_stable) fun (w : World) (g : Starter) hI hr =>
    ⟨trivial, fun c w' r ts _ he l hi hf => ?_⟩
  obtain ⟨hp, -⟩ := World.exec_local he ho
  obtain rfl := hts _ _ _ _ _ _ hp
  have hframe := World.perform_frame hp
  -- nothing is stored, and no lock is taken
  have horders : w'.orders = w.orders := hframe.orders (by rcases hw with h | h <;> simp [h])
  have hsagas : w'.sagas = w.sagas := hframe.sagas (by rcases hw with h | h <;> simp [h])
  have hredis : w'.redis = w.redis := hframe.redis (by rcases hw with h | h <;> simp [h])
  have hplaced : w.Placed k → w'.Placed k := by
    unfold World.Placed
    rw [horders]
    exact id
  have hbegun : w.Begun k → w'.Begun k := by
    unfold World.Begun
    rw [hsagas]
    exact id
  have hunlocked : w'.Unlocked (startLock k) := by
    unfold World.Unlocked
    rw [hredis]
    exact hr.2
  have hmine : w'.Placed k := hplaced (hI.starter i hr.1)
  -- the start passes from activity `i` to the activity that is begun
  refine ⟨some l.length, ⟨fun _ => Or.inr ⟨_, rfl⟩, fun _ _ => hmine, fun _ => hunlocked⟩,
    ⟨hplaced, hbegun⟩, fun j hj hji => ⟨⟨fun h => ?_, fun h => ?_⟩, fun _ _ => hunlocked⟩,
    fun j hj => ?_, fun n u hu => ?_, fun h => ?_⟩
  · exact absurd (Option.some.inj (h.symm.trans hr.1)) hji
  · exact absurd (Option.some.inj h) (Nat.ne_of_gt hj)
  · rw [List.length_append, ← Option.some.inj hj]
    simp
  · cases n with
    | zero =>
      obtain rfl : Job.task t = u := by simpa using hu
      exact ht _ w' _ ⟨rfl, hunlocked⟩
    | succ n => simp at hu
  · exact absurd (Option.some.inj h) (Nat.ne_of_gt hi)

/-- The event of the order's creation is published later. -/
theorem handLater_triple {e : OrderCreatedEvent} (he : e.correlationId = some k) (hne : k ≠ "") :
    (starting k).Triple i (Ready k i) (setImmediate (.publishAll [.orderCreated e]))
      fun _ => Free i :=
  hand_triple (t := .publishAll [.orderCreated e]) rfl (Or.inl rfl)
    (fun _ _ _ _ _ _ hp => (congrArg (fun x => x.2.2) (Option.some.inj hp)).symm)
    fun _ _ _ hr => Or.inl ⟨e, rfl, he, hne, hr⟩

/-- The event of the order's creation is published. -/
theorem publish_triple {e : OrderCreatedEvent} (he : e.correlationId = some k) (hne : k ≠ "") :
    (starting k).Triple i (Ready k i) (eventBus.publishAll [.orderCreated e]) fun _ => Free i :=
  hand_triple (t := .deliver (.orderCreatedHandler e)) rfl (Or.inr rfl)
    (fun _ _ _ _ _ _ hp => (congrArg (fun x => x.2.2) (Option.some.inj hp)).symm)
    fun _ _ _ hr => Or.inl ⟨he, hne, hr⟩

/-! ### The order is stored -/

theorem orderInsert_triple {n : NewOrder} (hk : n.idempotencyKey = some k) :
    (starting k).Triple i (Free i) (orderRepository.insert n) fun r w g =>
      (∀ o, r = .ok o → Ready k i w g) ∧ (∀ e, r = .error e → Free i w g) := by
  refine .perform free_stable
    (fun r => (Protocol.Stable.all fun _ => .imp fun _ => ready_stable).and
      (.all fun _ => .imp fun _ => free_stable)) fun (w : World) (g : Starter) hI hfree =>
      ⟨trivial, fun c w' r ts hc he l hi hf => ?_⟩
  have hfollows := hc.2 w' r ts he
  replace he := (World.exec_eq_perform (hc.1.resolve_right (by simp [Op.mayFail]))).symm.trans he
  obtain rfl := World.perform_tasks he rfl
  have hframe := World.perform_frame he
  obtain ⟨hins, -⟩ := World.perform_orderInsert he
  rcases World.insertOrder_cases hins with ⟨rfl, rfl⟩ | ⟨rfl, key, -, rfl, -⟩ |
    ⟨amount, -, hv, -, hnew, hmem⟩
  · exact .refl hI hf ⟨fun o h => by simp at h, fun _ _ => hfree⟩
  · exact .refl hI hf ⟨fun o h => by simp at h, fun _ _ => hfree⟩
  -- the index lets the order in only where none was placed under the key
  have hunplaced : ¬w.Placed k := fun ⟨x, hx, hxk⟩ => hnew k hk x hx hxk
  have hplaced : w'.Placed k := ⟨_, (hmem _).mpr (Or.inl rfl), hk⟩
  have hunlocked : w'.Unlocked (startLock k) := by
    have hfree := hI.lock hunplaced
    unfold World.Unlocked at hfree ⊢
    rw [hframe.redis (by simp [Op.writes])]
    exact hfree
  -- so nobody else is to start a saga under it
  have hnone : ∀ j, g ≠ some j := fun j hj => hunplaced (hI.starter j hj)
  refine .quiet rfl (some i) ⟨fun _ => Or.inr ⟨i, rfl⟩, fun _ _ => hplaced, fun _ => hunlocked⟩
    ⟨fun _ => hplaced, hfollows.begun⟩
    (fun j _ hji => ⟨⟨fun h => absurd h (hnone j), fun h => ?_⟩, fun _ _ => hunlocked⟩)
    (fun j hj => Option.some.inj hj ▸ hi) ⟨fun o _ => ⟨rfl, hunlocked⟩, fun e h => ?_⟩
  · exact absurd (Option.some.inj h).symm hji
  · rw [hv] at h
    cases h

/-- **Whoever stores the order hands on the start of its saga.** -/
theorem placeOrder_triple (dto : CreateOrderDto) (userId : String) :
    (starting k).Triple i (Free i) (OrderController.placeOrder dto userId) fun _ => Free i := by
  have hplain : ∀ {α : Type} {q : Async App α}, q.Only (Op.Plain k) →
      (starting k).Triple i (Free i) q fun _ => Free i := fun hq => plain_program free_stable hq
  by_cases hkey : OrderController.idempotencyKey dto = k
  swap
  · exact hplain (placeOrder_plain hkey)
  have hne : k ≠ "" := hkey ▸ OrderController.idempotencyKey_ne dto
  refine .seq free_stable (.rescue free_stable (.bind (fun _ => Free i) (hplain ?_) (fun _ => ?_)
    fun _ => .fail free_stable) fun e => hplain ?_) fun _ => .skip free_stable
  · unfold CreateOrderHandler.checkDuplicate
    split
    · exact trivial
    · refine .bind (.perform trivial) fun found => ?_
      cases found <;> exact trivial
  · refine .bind _ (orderInsert_triple (k := k) (congrArg some hkey)) (fun o => ?_) fun e => ?_
    · refine .bind (fun _ => Free i) (.pre (fun _ _ _ hw => hw.1 o rfl) (handLater_triple
        (e := CreateOrderHandler.createdEvent o (some (OrderController.idempotencyKey dto)))
        (congrArg some hkey) hne)) (fun _ => .skip free_stable) fun _ => .fail free_stable
    · exact .pre (fun _ _ _ hw => hw.2 e rfl) (.fail free_stable)
  · unfold CreateOrderHandler.recover
    split
    · refine .bind (.perform trivial) fun found => ?_
      cases found <;> exact trivial
    · exact trivial

/-! ### The saga is started -/

/-- The lock is taken at once: nobody else has tried for it. -/
theorem setLock_triple (tok : String) :
    (starting k).Triple i (Ready k i) (redis.set (startLock k) tok 30000) fun r w g =>
      r = .ok true ∧ Starts i w g := by
  refine .perform ready_stable (fun r => (Protocol.Stable.const _).and starts_stable)
    fun (w : World) (g : Starter) hI hr => ⟨trivial, fun c w' r ts hc he l hi hf => ?_⟩
  have hfollows := hc.2 w' r ts he
  have hplaced := hfollows.placed_iff (k := k) (by simp)
  replace he := (World.exec_eq_perform (hc.1.resolve_right (by simp [Op.mayFail]))).symm.trans he
  obtain rfl := World.perform_tasks he rfl
  simp only [World.perform, Nat.reduceEqDiff, if_false, Option.some.injEq, Prod.mk.injEq] at he
  have hmine : w'.Placed k := hplaced.mpr (hI.starter i hr.1)
  refine .quiet rfl g ⟨fun _ => Or.inr ⟨i, hr.1⟩, fun _ _ => hmine, fun h => absurd hmine h⟩
    ⟨hfollows.placed, hfollows.begun⟩
    (fun j _ hji => ⟨Iff.rfl, fun hj => absurd (Option.some.inj (hj.symm.trans hr.1)) hji⟩) hf
    ⟨?_, hr.1⟩
  rw [← he.2.1, hr.2.set]
  rfl

/-- The saga is there, and its start is done. -/
theorem done {l : List Job} (hI : Inv k w g) (hs : Starts i w g)
    (hplaced : w.Placed k → w'.Placed k) (hk : w'.Begun k) :
    (starting k).Settles i l w g w' [] fun w g => Free i w g := by
  have hmine : w'.Placed k := hplaced (hI.starter i hs)
  exact .quiet rfl none ⟨fun _ => Or.inl hk, nofun, fun h => absurd hmine h⟩
    ⟨hplaced, fun _ => hk⟩
    (fun j _ hji => ⟨⟨fun h => absurd (Option.some.inj (h.symm.trans hs)) hji, nofun⟩,
      fun h => absurd (Option.some.inj (h.symm.trans hs)) hji⟩) nofun nofun

/-- What is known of the answer when the saga is looked for under its lock. -/
def Looked (i : ℕ) (r : Except Err (Option SagaInstance)) (w : World) (g : Starter) : Prop :=
  (∃ s, r = .ok (some s)) ∧ Free i w g ∨ r = .ok none ∧ Starts i w g

theorem looked_stable (r : Except Err (Option SagaInstance)) :
    (starting k).Stable i (Looked i r) :=
  .or ((Protocol.Stable.const _).and free_stable) ((Protocol.Stable.const _).and starts_stable)

/-- The saga is looked for. -/
theorem sagaFindOne_triple : (starting k).Triple i (Starts i)
    (sagaRepository.findOne { correlationId := some k, sagaType := some sagaType }) (Looked i) := by
  refine .perform starts_stable looked_stable fun (w : World) (g : Starter) hI hs =>
    ⟨trivial, fun c w' r ts hc he l hi hf => ?_⟩
  replace he := (World.exec_eq_perform (hc.1.resolve_right (by simp [Op.mayFail]))).symm.trans he
  simp only [World.perform, Option.some.injEq, Prod.mk.injEq] at he
  obtain ⟨rfl, rfl, rfl⟩ := he
  cases hfind : w.sagas.find?
      (SagaWhere.selects { correlationId := some k, sagaType := some sagaType }) with
  | none => exact .refl hI hf (Or.inr ⟨rfl, hs⟩)
  | some s =>
    have hbegun : w.Begun k :=
      ⟨s, Table.mem_of_find? hfind, World.selects_pair.mp (Table.find?_some hfind)⟩
    exact (done hI hs id hbegun).mono fun _ _ _ h => Or.inl ⟨⟨s, rfl⟩, h⟩

/-- The saga is stored. -/
theorem sagaInsert_triple {n : NewSaga} (hty : n.sagaType = sagaType) (hco : n.correlationId = k) :
    (starting k).Triple i (Starts i) (sagaRepository.insert n) (Returns (Free i)) := by
  refine .perform starts_stable (returns_stable free_stable) fun (w : World) (g : Starter) hI hs =>
    ⟨trivial, fun c w' r ts hc he l hi hf => ?_⟩
  replace he := (World.exec_eq_perform (hc.1.resolve_right (by simp [Op.mayFail]))).symm.trans he
  have hframe := World.perform_frame he
  obtain ⟨s, rfl, hins, rfl⟩ := World.perform_sagaInsert he
  obtain ⟨hsaga, -, hmem⟩ := World.insertSaga_cases hins
  refine (done hI hs (fun h => ?_) ?_).mono fun _ _ _ h => ⟨⟨s, rfl⟩, h⟩
  · unfold World.Placed
    rw [hframe.orders (by simp [Op.writes])]
    exact h
  · exact ⟨s, (hmem s).mpr (Or.inl rfl), by rw [hsaga]; exact ⟨hty, hco⟩⟩

theorem findOrCreate_triple (data : SagaData) : (starting k).Triple i (Starts i)
    (findOrCreate sagaType k data []) (Returns (Free i)) := by
  refine .bind _ sagaFindOne_triple (fun found => ?_) fun e => ?_
  · cases found with
    | some s =>
      refine .ret (looked_stable _) fun w g _ hw => ⟨⟨s, rfl⟩, ?_⟩
      simpa [Looked] using hw
    | none =>
      refine .bind _ (.pre (fun w g _ hw => ?_) (sagaInsert_triple (k := k) rfl rfl)) (fun s => ?_)
        fun e => ?_
      · simpa [Looked] using hw
      · refine .bind (Returns (Free i)) (.pre (fun _ _ _ hw => hw.2)
          (sure_triple free_stable trivial rfl
          fun w i c w' r ts hp => ⟨(), (congrArg (fun x => x.2.1) (Option.some.inj hp)).symm⟩))
          (fun _ => .ret (returns_stable free_stable _) fun w g _ hw => ⟨⟨s, rfl⟩, hw.2⟩)
          fun e => ?_
        exact .never fun w g hw => by simpa using hw.1
      · exact .never fun w g hw => by simpa using hw.1
  · exact .never fun w g hw => by simp [Looked] at hw

theorem startSaga_triple (data : SagaData) : (starting k).Triple i (Ready k i)
    (startSaga sagaType k data []) (Returns (Free i)) := by
  refine withLock_certain starts_stable (returns_stable free_stable)
    (sure_triple ready_stable trivial rfl ?_)
    (fun tok => setLock_triple tok) (findOrCreate_triple data) fun tok r => ?_
  · exact fun w i c w' r ts hp => ⟨c.text, (congrArg (fun x => x.2.1) (Option.some.inj hp)).symm⟩
  · exact plain_triple (returns_stable free_stable r) trivial

/-- **Whoever handles the event of the order's creation starts its saga.** -/
theorem orderCreated_triple {e : OrderCreatedEvent} (he : e.correlationId = some k) (hne : k ≠ "") :
    (starting k).Triple i (Ready k i) (OrderCreatedHandler.handle e) fun _ => Free i := by
  have hnever : ∀ {β : Type} {q : Async App β} {r : Except Err Unit} {Q : (starting k).Assn β},
      (∀ v, r ≠ .ok v) → (starting k).Triple i (Returns (P := starting k) (Ready k i) r) q Q :=
    fun h => .never fun w g hw => hw.1.elim h
  have hsave := sure_triple (i := i) (ready_stable (k := k)) (o := .eventStoreSave
    ⟨e.orderId, "Order", "OrderCreated", .orderCreated e.orderId e.userId e.totalAmount e.items
      e.shippingAddress, e.correlationId⟩) trivial rfl
      fun w i c w' r ts hp => ⟨(), (congrArg (fun x => x.2.1) (Option.some.inj hp)).symm⟩
  have hsend := sure_triple (i := i) (ready_stable (k := k)) (o := .kafkaSend
    (selectTopic "order-events" (.domain "OrderCreated" (.orderCreated e)))
    (messageKey (.domain "OrderCreated" (.orderCreated e)))
    (.domain "OrderCreated" (.orderCreated e))) trivial (by simp [Op.mayFail, Message.concerns, he])
      fun w i c w' r ts hp => ⟨(), (congrArg (fun x => x.2.1) (Option.some.inj hp)).symm⟩
  refine .bind (Returns (Ready k i)) (.bind (Returns (Ready k i)) hsave
    (fun _ => .pre (fun _ _ _ hw => hw.2) hsend) fun e => hnever (by simp)) (fun _ => ?_)
    fun e => hnever (by simp)
  refine .pre (fun _ _ _ hw => hw.2) ?_
  unfold handleOrderCreated
  rw [he, truthy_some hne]
  refine .bind _ (startSaga_triple _) (fun saga => ?_) fun e => ?_
  · exact .pre (fun _ _ _ hw => hw.2) (plain_program free_stable (executePaymentStep_plain saga e))
  · exact .never fun w g hw => by simpa using hw.1

/-! ### Every activity -/

theorem request_triple (r : Request) : (starting k).Triple i (fun w g => Born k i w g (.request r))
    r.run fun _ => Free i := by
  have hplaced : ∀ dto userId, (starting k).Triple i (Free i)
      (Answer.order <$> OrderController.placeOrder dto userId) fun _ => Free i :=
    fun dto userId => .seq free_stable (placeOrder_triple dto userId) fun _ => .skip free_stable
  have hother : (∀ dto userId, ¬r.Places dto userId) → (∀ test, r ≠ .lockTest test) →
      (starting k).Triple i (Free i) r.run fun _ => Free i := fun hr ht =>
    plain_program free_stable ((lenient_plain k).request hr fun test h => absurd h (ht test))
  cases r with
  | createOrder dto userId => exact hplaced dto userId
  | createTestOrder dto userId => exact hplaced dto userId
  | lockTest test =>
    rintro w g hI ⟨hkey, hfree⟩
    refine plain_program free_stable ((lenient_plain k).lockTest fun key hk tok ttl heq => ?_)
      w g hI hfree
    exact hkey key hk (by simpa [startLock] using heq)
  | _ => exact hother (fun _ _ hr => by rcases hr with hr | hr <;> cases hr) nofun

theorem task_triple (t : Task) :
    (starting k).Triple i (fun w g => Born k i w g (.task t)) t.run fun _ => Free i := by
  have hplain : t.Plain k → (starting k).Triple i (Free i) t.run fun _ => Free i :=
    fun ht => plain_program free_stable (Task.run_plain ht)
  cases t with
  | publishAll events =>
    rintro w g hI (⟨e, rfl, he, hne, hr⟩ | ⟨ht, hfree⟩)
    · exact publish_triple he hne w g hI hr
    · exact hplain ht w g hI hfree
  | deliver d =>
    cases d with
    | orderCreatedHandler e =>
      rintro w g hI (⟨he, hne, hr⟩ | ⟨ht, hfree⟩)
      · exact orderCreated_triple he hne w g hI hr
      · exact hplain ht w g hI hfree
    | _ => exact hplain id
  | _ => exact hplain trivial

end Starting

/-! ### The runs -/

/-- Nothing is stored that concerns orders, and no lock. -/
def World.Blank (w : World) : Prop := w.NoOrders ∧ w.redis.entries = ∅

section Runs

variable [Hashes]

/-- Nothing fails but the sending of a message, and of a safe one not even that. -/
def KafkaFails (safe : Message → Bool) (p : Pool application) : Action application → Prop
  | .run i c => c.fault = none ∨ ∃ o ∈ p.awaits i, o.mayFail safe = true
  | _ => True

/-- Nobody tests the lock under which the saga of the order under the key is started. -/
def Untested (k : Option String) (_ : Pool application) : Action application → Prop
  | .start (.request (.lockTest test)) =>
    ∀ key ∈ test.key?, ∀ k' ∈ k, key ≠ creationLock sagaType k'
  | _ => True

instance KafkaFails.decidable {safe : Message → Bool} (p : Pool application) :
    ∀ a, Decidable (KafkaFails safe p a)
  | .start _ => isTrue trivial
  | .run i c =>
    inferInstanceAs (Decidable (c.fault = none ∨ ∃ o ∈ p.awaits i, o.mayFail safe = true))
  | .tick _ => isTrue trivial

instance Untested.decidable {k : Option String} (p : Pool application) :
    ∀ a, Decidable (Untested k p a)
  | .start (.request (.lockTest test)) =>
    inferInstanceAs (Decidable (∀ key ∈ test.key?, ∀ k' ∈ k, key ≠ creationLock sagaType k'))
  | .start (.request (.createOrder _ _)) => isTrue trivial
  | .start (.request (.createTestOrder _ _)) => isTrue trivial
  | .start (.request (.cancelOrder _ _ _)) => isTrue trivial
  | .start (.request (.confirmOrder _ _)) => isTrue trivial
  | .start (.request .cleanupPendingOrders) => isTrue trivial
  | .start (.task _) => isTrue trivial
  | .run _ _ => isTrue trivial
  | .tick _ => isTrue trivial

/-- **No activity drops the saga it is to start.** -/
theorem starting_sound (k : String) : (starting k).Sound World.Blank fun p a =>
    (Served p a ∧ KafkaFails (Message.concerns (some k)) p a ∧ Untested (some k) p a) ∧
      Following p a where
  init := by
    rintro w ⟨⟨horders, -⟩, hredis⟩
    have hnone : ¬w.Placed k := fun ⟨o, ho, _⟩ => by simp [← Table.mem_rows, horders] at ho
    exact ⟨none, ⟨fun h => absurd h hnone, nofun, fun _ => by simp [World.Unlocked, hredis]⟩, nofun⟩
  start := by
    intro p t g ha hI hf
    refine ⟨g, hI, (starting k).mono_refl _ g, fun j _ => (starting k).keep_refl j _ g,
      fun j hj => ?_, ?_⟩
    · rw [List.length_append]
      exact Nat.lt_add_right _ (hf j hj)
    · -- a request starts nobody: its number is beyond all numbers given out
      cases t with
      | request r =>
        have hfree : Free p.acts.length p.world g := fun h => by simpa [Pool.tags] using hf _ h
        cases r with
        | lockTest test => exact ⟨fun key hk => ha.1.2.2 key hk k rfl, hfree⟩
        | _ => exact hfree
      | task t => exact ha.1.1.elim
  tick := fun p d g _ hI => ⟨⟨hI.placed, hI.starter, hI.lock⟩, ⟨id, id⟩,
    fun _ => ⟨Iff.rfl, fun _ h => h⟩⟩
  canRun := by
    rintro p i c t o n g ⟨⟨-, ha, -⟩, hf⟩ hi -
    have ho : p.awaits i = some o := Pool.awaits_eq_some.mpr ⟨t, n, hi⟩
    refine ⟨ha.imp_right ?_, hf o ho⟩
    rintro ⟨o', ho', h⟩
    obtain rfl := Option.some.inj (ho.symm.trans ho')
    exact h
  body := by
    intro i t w g hb hI
    cases t with
    | request r => exact request_triple r w g hI hb
    | task t =>
      have hrun : (starting k).Triple i (fun w g => Born k i w g (.task t)) (Job.task t).run
          fun _ => Free i :=
        .bind (fun _ => Free i) (task_triple t) (fun _ => .skip free_stable)
          fun _ => .fail free_stable
      exact hrun w g hI hb

/-- The process goes on where no message fails that callbacks send. -/
theorem KafkaFails.undisturbed {k : Option String} {p : Pool application} {a : Action application}
    (h : KafkaFails (Message.concerns k) p a) : Undisturbed p a := by
  cases a with
  | run i c =>
    intro o ho hs
    refine h.resolve_right ?_
    rintro ⟨o', ho', hfail⟩
    obtain rfl := Option.mem_unique ho ho'
    cases o with
    | kafkaSend topic key m =>
      have hsafe : m.concerns k = true := by
        cases m <;> first | rfl | cases hs
      simp [Op.mayFail, hsafe] at hfail
    | _ => cases hfail
  | _ => exact trivial

/-- **Every order has its saga when nothing goes on any more**, unless the message of its creation
fails, or one that callbacks send, or its lock is tested. -/
theorem orders_begun {p : Pool application} {o : Order}
    (hp : Pool.Reachable World.Blank (fun p a => Served p a ∧
      KafkaFails (Message.concerns o.idempotencyKey) p a ∧ Untested o.idempotencyKey p a) p)
    (hs : Stopped p) (ho : o ∈ p.world.orders) :
    ∃ s ∈ p.world.sagas, s.sagaType = sagaType ∧ o.idempotencyKey = some s.correlationId := by
  have hserved : ∀ {p}, Pool.Reachable World.Blank (fun p a => Served p a ∧
      KafkaFails (Message.concerns o.idempotencyKey) p a ∧ Untested o.idempotencyKey p a) p →
        Pool.Reachable World.NoOrders Served p := by
    rintro p ⟨w, hw, hr⟩
    exact ⟨w, hw.1, hr.mono fun _ _ h => h.1⟩
  -- no callback is rejected, so nothing is left to run
  have hq : p.Quiescent := hs.resolve_left (callbacks_return (hp.mono fun _ _ ha =>
    ⟨ha.1, ha.2.1.undisturbed⟩))
  obtain ⟨_, hflow⟩ := flow_reachable (R := {}) ((hserved hp).mono fun _ _ => .of_served)
  obtain ⟨⟨k, hk, -⟩, -⟩ := hflow.books.columns o ho
  obtain ⟨g, hH⟩ := (starting_sound k).reachable (hk ▸
    hp.assuming fun p a h _ => following_of_reachable (hserved h) a)
  rcases hH.inv.placed ⟨o, ho, hk⟩ with ⟨s, hs, hty, hco⟩ | ⟨i, hi⟩
  · exact ⟨s, hs, hty, hk.trans (congrArg some hco.symm)⟩
  · -- whoever is to start the saga has ended, and is free
    have hlt : i < p.acts.length := by simpa [Pool.tags] using hH.fits i hi
    have hacts : p.acts[i]? = some p.acts[i] := List.getElem?_eq_getElem hlt
    obtain ⟨r, hr⟩ := Async.result?_isSome_of_awaited? (hq _ (List.mem_of_getElem? hacts))
    exact absurd hi (hH.post hacts hr)

end Runs

/-! ### Runs in which messages fail -/

section Messages

open Samples

/-- The broker does not take a message of activity `i`. -/
def lostMessage (i : ℕ) : Action application :=
  .run i { fault := some (.refused "There is no leader for this topic-partition") }

/-- An order is placed and paid, but nobody is told that it has been paid. -/
def silentPayment : List (Action application) :=
  placed ++ paid ++ turns 3 1 "" ++ turns 5 1 "" ++ turns 6 1 "" ++ lostMessage 6 :: paidRest.drop 4

/-- The order is paid, and its saga completed. -/
def silentlyPaid : Pool application :=
  (Pool.play (fun p a => Served p a ∧ KafkaFails (Message.concerns (some "key-1")) p a ∧
    Untested (some "key-1") p a) ⟨World.empty 0, []⟩ silentPayment).get (by decide +kernel)

theorem orders_begun_silentPayment : ∃ o ∈ silentlyPaid.world.orders,
    ∃ s ∈ silentlyPaid.world.sagas, s.sagaType = sagaType ∧
      o.idempotencyKey = some s.correlationId := by
  have hany : (silentlyPaid.world.orders.rows.any fun o =>
      decide (o.idempotencyKey = some "key-1")) = true := by
    decide +kernel
  obtain ⟨o, ho, hkey⟩ := List.any_eq_true.mp hany
  have hk : o.idempotencyKey = some "key-1" := of_decide_eq_true hkey
  exact ⟨o, ho, orders_begun (o := o)
    (hk ▸ Pool.reachable_of_play ⟨World.noOrders_empty 0, rfl⟩ _) (Or.inr (by decide +kernel)) ho⟩

/-- An order is placed, and the message of its creation fails. -/
def silentOrder : List (Action application) :=
  .start (.request (.createOrder oneProduct "user-1")) ::
    (turns 0 3 "order-1" ++ turns 1 1 "" ++ turns 2 1 "" ++ [lostMessage 2])

/-- The order alone is stored. -/
def silentlyStored : Pool application :=
  (Pool.play (fun p a => Served p a ∧ KafkaFails (fun _ => false) p a) ⟨World.empty 0, []⟩
    silentOrder).get (by decide +kernel)

/-- **It never gets a saga.** -/
theorem order_without_saga : ∃ p : Pool application,
    Pool.Reachable World.Blank (fun p a => Served p a ∧ KafkaFails (fun _ => false) p a) p ∧
      p.Quiescent ∧ (∃ o, o ∈ p.world.orders) ∧ ∀ s, s ∉ p.world.sagas := by
  refine ⟨silentlyStored, Pool.reachable_of_play ⟨World.noOrders_empty 0, rfl⟩ _,
    by decide +kernel, ?_, ?_⟩
  · have hany : (silentlyStored.world.orders.rows.any fun o => o.id = "order-1") = true := by
      decide +kernel
    obtain ⟨o, ho, -⟩ := List.any_eq_true.mp hany
    exact ⟨o, ho⟩
  · intro s hs
    have hnone : silentlyStored.world.sagas.rows.isEmpty = true := by decide +kernel
    exact (List.isEmpty_iff.mp hnone ▸ List.not_mem_nil) hs

end Messages

end CqrsSaga
