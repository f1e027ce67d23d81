import CqrsSaga.App.Rows
import CqrsSaga.App.System
import CqrsSaga.Async.Told

/-!
# What the programs do

Which operations the programs of the application come to await, and what they make of the answers.
What matters to an invariant — saving an order, publishing an event, taking a lock — stays a
hypothesis, one for each, and so does what a program does inside another.  The sagas a program works
on are those known to a predicate: those it is given, and those it reads under an id it knows.

## Main definitions

* `Op.Inward`, `MayLock` — operations that matter to nobody, and the locks that may be taken.
* `SagaWork`, `SagaStart` — what working on sagas, and starting one, comes to.
* `Op.Common` — the operations most programs have in common.
* `Request.Places` — the requests that place an order.
* `Lenient`, `Indifferent` — predicates that mind few operations.

## Main results

* `withLock_along`, `lockTest_along` — the lock service, and the tests of the locks.
* `handleSagaFailure_along`, `executeSagaStep_along`, `startSaga_along` — the saga manager.
* `placeOrder_along`, `cancelOrder_along`, `confirmOrder_along`, `externalPayment_along` — the
  commands.
* `handleOrderCreated_along`, `handlePaymentProcessed_along`, `handlePaymentFailed_along` — the
  reactions of the saga.
* `Indifferent.request`, `Indifferent.handleOrderCreated` — what such predicates hold of.
-/

namespace CqrsSaga

open SagaManager RedisLockService KafkaService OrderProcessingSaga

/-- The message carries an event of the event bus. -/
def Message.isDomain : Message → Bool
  | .domain .. => true
  | _ => false

/-- The message is sent by a callback, aside from the work it tells of. -/
def Message.isAside : Message → Bool
  | .sagaStarted .. => true
  | .sagaStepCompleted .. => true
  | .sagaCompleted .. => true
  | _ => false

theorem Message.isDomain_of_isAside {m : Message} (h : m.isAside = true) : m.isDomain = false := by
  cases m with
  | domain type e => cases h
  | _ => rfl

/-- The steps of the saga of an order. -/
def sagaSteps : List String := ["payment_processing", "order_confirmation"]

/-- The operation stays in the process, and starts nothing. -/
def Op.Inward (o : Op) : Prop := o.isLocal = true ∧ o.starts = false

/-- The lock under the entry `key` may be taken and given back. -/
def MayLock (A : Op → Prop) (key : String) : Prop :=
  (∀ tok ttl, A (.redisSet key tok ttl)) ∧ ∀ tok, A (.redisUnlock key tok)

/-- A request to create an order. -/
def Request.Places (dto : CreateOrderDto) (userId : String) (r : Request) : Prop :=
  r = .createOrder dto userId ∨ r = .createTestOrder dto userId

section Programs

variable {α : Type} {A : Op → Prop} {Q : (o : Op) → Except Err (Op.Val o) → Prop}

/-- One operation, and what is known of its answer. -/
theorem call_told {o : Op} {R : Except Err (Op.Val o) → Prop} (ho : A o) (hR : ∀ r, Q o r → R r) :
    (call o).Along A Q R :=
  .perform ho hR

theorem call_along {o : Op} (ho : A o) : (call o).Along A Q fun _ => True :=
  call_told ho fun _ _ => trivial

theorem inward_along {o : Op} (hA : ∀ o : Op, o.Inward → A o) (hl : o.isLocal = true)
    (hs : o.starts = false) : (call o).Along A Q fun _ => True :=
  call_along (hA o ⟨hl, hs⟩)

/-! ### Locks -/

/-- A lock is tried for; the one that is acquired is the one that was tried for. -/
theorem acquireLock_along {key : String} {options : LockOptions} (hA : ∀ o : Op, o.Inward → A o)
    (hset : ∀ tok ttl, A (.redisSet ("lock:" ++ key) tok ttl)) :
    (acquireLock key options).Along A Q fun r => ∀ lock, r = .ok (some lock) →
      lock.key = "lock:" ++ key := by
  have hattempt : ∀ {tok : String} {backOff : Async App Unit}, backOff.Along A Q (fun _ => True) →
      (attempt ("lock:" ++ key) tok options.ttl backOff).Along A Q fun _ => True := by
    intro tok backOff hb
    refine .rescue (.seq (call_along (hset tok _)) fun b => ?_) fun _ =>
      .seq hb fun _ => trivial
    cases b with
    | true => exact trivial
    | false => exact .seq hb fun _ => trivial
  have hattempts : ∀ {tok : String} (n : ℕ),
      (attempts ("lock:" ++ key) tok options.ttl options.retryDelay n).Along A Q
        fun r => ∀ lock, r = .ok (some lock) → lock.key = "lock:" ++ key := by
    intro tok n
    induction n with
    | zero =>
      refine .bind (fun _ => True) (hattempt trivial) (fun b _ => ?_) fun _ _ _ h => nomatch h
      cases b with
      | true =>
        intro lock hlock
        cases hlock
        rfl
      | false =>
        refine .bind (fun _ => True) (inward_along hA rfl rfl) (fun _ _ => ?_)
          fun _ _ _ h => nomatch h
        intro lock hlock
        cases hlock
    | succ n ih =>
      refine .bind (fun _ => True) (hattempt (inward_along hA rfl rfl)) (fun b _ => ?_)
        fun _ _ _ h => nomatch h
      cases b with
      | true =>
        intro lock hlock
        cases hlock
        rfl
      | false => exact ih
  exact .bind (fun _ => True) (inward_along hA rfl rfl) (fun _ _ => hattempts _)
    fun _ _ _ h => nomatch h

/-- A lock is given back. -/
theorem releaseLock_along {lock : AcquiredLock} (hunlock : ∀ tok, A (.redisUnlock lock.key tok)) :
    (releaseLock lock).Along A Q fun _ => True :=
  .rescue (call_along (hunlock _)) fun _ => trivial

/-- A section under a lock. -/
theorem withLock_along {R : Except Err α → Prop} {key : String} {fn : Async App α}
    {options : LockOptions} (hA : ∀ o : Op, o.Inward → A o) (hlock : MayLock A ("lock:" ++ key))
    (hfn : fn.Along A Q R) (hR : ∀ e, R (.error e)) : (withLock key fn options).Along A Q R := by
  refine .bind _ (acquireLock_along hA hlock.1) (fun lock hacquired => ?_) fun e _ => hR e
  cases lock with
  | none => exact hR _
  | some lock =>
    have hkey : lock.key = "lock:" ++ key := hacquired lock rfl
    refine .andFinally hfn (.post (releaseLock_along (hkey ▸ hlock.2)) ?_)
    intro r _ e _
    exact hR e

theorem inTransaction_along {runner : ℕ} {block : Async App Unit}
    {recover : Err → Async App Unit} (hcontrol : ∀ o ∈ Op.controls runner, A o)
    (hb : block.Along A Q fun _ => True) (hr : ∀ e, (recover e).Along A Q fun _ => True) :
    (inTransaction runner block recover).Along A Q fun _ => True := by
  have hrollback : A (.rollbackTransaction runner) := hcontrol _ (by simp [Op.controls])
  have hrelease : A (.release runner) := hcontrol _ (by simp [Op.controls])
  refine .andFinally (.rescue hb fun e => .seq (call_along hrollback) fun _ => hr e) ?_
  exact .post (call_along hrelease) fun _ _ _ _ => trivial

/-! ### The commands -/

/-- The events tell that an order was cancelled or confirmed. -/
def Announcement (events : List Event) : Prop :=
  ∃ e f, events = [e, .orderStatusChanged f] ∧
    ((∃ g, e = .orderCancelled g) ∨ ∃ g, e = .orderConfirmed g)

/-- A cancellation writes the order it has found, and announces it. -/
theorem cancelOrder_along {command : CancelOrderCommand} {L : Order → Prop}
    (hA : ∀ o : Op, o.Inward → A o)
    (hfind : A (.orderFindOne { id := some command.orderId, userId := some command.userId }))
    (hfound : ∀ y : Order,
      Q (.orderFindOne { id := some command.orderId, userId := some command.userId })
        (.ok (some y)) → L y)
    (hsave : ∀ y, L y → A (.orderSave { y with status := .cancelled }))
    (hann : ∀ y, L y → ∀ events, Announcement events →
      (∀ e ∈ events, e.orderId = command.orderId) → A (.setImmediate (.publishAll events))) :
    (CancelOrderHandler.execute command).Along A Q fun _ => True := by
  refine .bind (fun r => ∀ y, r = .ok (some y) → L y) (call_told hfind ?_) ?_ fun _ _ => trivial
  · intro r hr y hy
    subst hy
    exact hfound y hr
  · intro found hL
    cases found with
    | none => exact trivial
    | some y =>
      dsimp only
      split
      · exact trivial
      · split
        · exact trivial
        · refine .seq (call_along (hsave y (hL y rfl))) fun _ => .seq (inward_along hA rfl rfl)
            fun _ => .seq (inward_along hA rfl rfl) fun _ => call_along (hann y (hL y rfl) _ ?_ ?_)
          · exact ⟨_, _, rfl, Or.inl ⟨_, rfl⟩⟩
          · simp [Event.orderId]

/-- A confirmation writes the order it has found, if that is pending, and announces it. -/
theorem confirmOrder_along {command : ConfirmOrderCommand} {L : Order → Prop}
    (hA : ∀ o : Op, o.Inward → A o) (hfind : A (.orderFindOne { id := some command.orderId }))
    (hfound : ∀ y : Order, Q (.orderFindOne { id := some command.orderId }) (.ok (some y)) → L y)
    (hsave : ∀ y, L y → y.status = .pending → A (.orderSave
      { y with status := .paid, paymentId := command.paymentId <|> y.paymentId }))
    (hann : ∀ y, L y → ∀ events, Announcement events →
      (∀ e ∈ events, e.orderId = command.orderId) → A (.setImmediate (.publishAll events))) :
    (ConfirmOrderHandler.execute command).Along A Q fun _ => True := by
  refine .bind (fun r => ∀ y, r = .ok (some y) → L y) (call_told hfind ?_) ?_ fun _ _ => trivial
  · intro r hr y hy
    subst hy
    exact hfound y hr
  · intro found hL
    cases found with
    | none => exact trivial
    | some y =>
      dsimp only
      split
      · exact trivial
      · next hpending =>
        refine .seq (call_along (hsave y (hL y rfl) (by simpa using hpending))) fun _ =>
          .seq (inward_along hA rfl rfl) fun _ => .seq (inward_along hA rfl rfl) fun _ =>
            call_along (hann y (hL y rfl) _ ?_ ?_)
        · exact ⟨_, _, rfl, Or.inr ⟨_, rfl⟩⟩
        · simp [Event.orderId]

/-- The cleanup looks for the payments of orders, cancels orders, and marks the sagas of some. -/
theorem cleanupOrders_along (hpayment : ∀ q, A (.paymentFindOne q))
    (hsaga : ∀ q, A (.sagaFindOne q))
    (hsave : ∀ s, A (.sagaSave s))
    (hcancel : ∀ command, (CancelOrderHandler.execute command).Along A Q fun _ => True) :
    ∀ orders : List Order,
      (SagaMaintenanceController.cleanupOrders orders).Along A Q fun _ => True := by
  intro orders
  induction orders with
  | nil => exact trivial
  | cons order orders ih =>
    refine .seq (.rescue (.seq (call_along (hpayment _)) fun found => ?_) fun _ => trivial) fun _ =>
      .seq ih fun _ => trivial
    cases found with
    | none => exact .seq (hcancel _) fun _ => trivial
    | some payment =>
      dsimp only
      split
      · refine .seq (hcancel _) fun _ => .seq (call_along (hsaga _)) fun saga =>
          .seq ?_ fun _ => trivial
        cases saga with
        | none => exact trivial
        | some saga => exact call_along (hsave _)
      · exact trivial

/-- What the event tells of is the payment. -/
def Event.IsOf (payment : Payment) (correlationId : Option String) (e : Event) : Prop :=
  (∃ f : PaymentProcessedEvent, e = .paymentProcessed f ∧ f.orderId = payment.orderId ∧
    f.userId = payment.userId ∧ f.correlationId = correlationId) ∨
  ∃ f : PaymentFailedEvent, e = .paymentFailed f ∧ f.orderId = payment.orderId ∧
    f.userId = payment.userId ∧ f.correlationId = correlationId

theorem settle_along {payment : Payment} {e : Event} (hsave : A (.paymentSave payment))
    (hpublish : A (.publishAll [e])) :
    (ProcessPaymentHandler.settle payment e).Along A Q fun _ => True :=
  .seq (call_along hsave) fun _ => call_along hpublish

/-- The payment system saves the payment it was given, and publishes the result. -/
theorem externalPayment_along {payment : Payment} {c : Option String}
    (hA : ∀ o : Op, o.Inward → A o)
    (hsave : ∀ p : Payment, p.core = payment.core → A (.paymentSave p))
    (hpublish : ∀ e : Event, e.IsOf payment c → A (.publishAll [e])) :
    (ProcessPaymentHandler.externalPayment payment c).Along A Q fun _ => True := by
  refine .seq (inward_along hA rfl rfl) fun _ => .seq (inward_along hA rfl rfl) fun success => ?_
  cases success with
  | true =>
    refine .seq (inward_along hA rfl rfl) fun _ => .rescue ?_ fun _ => ?_
    · exact settle_along (hsave _ rfl) (hpublish _ (Or.inl ⟨_, rfl, rfl, rfl, rfl⟩))
    · exact settle_along (hsave _ rfl) (hpublish _ (Or.inr ⟨_, rfl, rfl, rfl, rfl⟩))
  | false =>
    refine .rescue ?_ fun _ => ?_ <;>
    exact settle_along (hsave _ rfl) (hpublish _ (Or.inr ⟨_, rfl, rfl, rfl, rfl⟩))

/-! ### The tests of the locks -/

theorem holdLock_along {key nodeId : String} {duration : ℕ} {options : LockOptions}
    (hA : ∀ o : Op, o.Inward → A o) (hlock : MayLock A ("lock:" ++ key)) :
    (RedisTestController.holdLock key duration nodeId options).Along A Q fun _ => True :=
  .rescue (.seq (withLock_along hA hlock (inward_along hA rfl rfl) fun _ => trivial)
    fun _ => trivial) fun _ => trivial

/-- The tests of a lock take it, give it back, and renew or look at it. -/
theorem lockTest_along {t : LockTest} (hA : ∀ o : Op, o.Inward → A o)
    (hlock : ∀ key ∈ t.key?, MayLock A ("lock:" ++ key))
    (hrenew : ∀ key ∈ t.key?, ∀ tok, A (.redisRenew ("lock:" ++ key) tok 15000))
    (hexists : ∀ key, A (.redisExists key)) : t.run.Along A Q fun _ => True := by
  cases t with
  | testDistributedLock key duration nodeId | testSagaCreation correlationId nodeId =>
    exact .seq (holdLock_along hA (hlock _ rfl)) fun _ => trivial
  | checkLockStatus key =>
    exact .seq (.rescue (call_along (hexists _)) fun _ => trivial) fun _ => trivial
  | manualLockTest key =>
    refine .seq (.bind _ (acquireLock_along hA (hlock _ rfl).1) (fun lock hacquired => ?_)
      fun _ _ => trivial) fun _ => trivial
    cases lock with
    | none => exact trivial
    | some lock =>
      have hkey : lock.key = "lock:" ++ key := hacquired lock rfl
      refine .seq (inward_along hA rfl rfl) fun _ => .bind
        (fun r => ∀ v, r = .ok v → v.1.key = "lock:" ++ key) ?_ (fun renewal hrenewed => ?_)
          fun _ _ => trivial
      · -- a lock that is renewed keeps its entry
        have hkept : ∀ (b : Bool) {l : AcquiredLock}, l.key = lock.key →
            ∀ v, (.ok (l, b) : Except Err (AcquiredLock × Bool)) = .ok v →
              v.1.key = "lock:" ++ key := by
          intro b l hl v hv
          cases hv
          exact hl.trans hkey
        refine .handle (fun r => ∀ v, r = .ok v → v.1.key = "lock:" ++ key) (.bind (fun _ => True)
          (call_along (hkey ▸ hrenew _ rfl _)) (fun b _ => ?_) fun _ _ _ hv => by cases hv)
          (fun _ _ => hkept false rfl) fun v hv => hv
        cases b with
        | true => exact hkept true rfl
        | false => exact hkept false rfl
      · refine .seq (inward_along hA rfl rfl) fun _ => .seq (releaseLock_along ?_) fun _ => trivial
        rw [hrenewed _ rfl]
        exact (hlock _ rfl).2

variable [Hashes]

/-- A request to create an order looks for its key, and inserts the order under it. -/
theorem placeOrder_along {dto : CreateOrderDto} {userId : String} {L : Order → Prop}
    (hfind : A (.orderFindOne { idempotencyKey := some (OrderController.idempotencyKey dto) }))
    (hinsert : A (.orderInsert (CreateOrderHandler.newOrder
      ⟨userId, dto.items, dto.shippingAddress, some (OrderController.idempotencyKey dto)⟩)))
    (hinserted : ∀ y : Order, Q (.orderInsert (CreateOrderHandler.newOrder ⟨userId, dto.items,
      dto.shippingAddress, some (OrderController.idempotencyKey dto)⟩)) (.ok y) → L y)
    (hhand : ∀ y, L y → A (.setImmediate (.publishAll [.orderCreated
      (CreateOrderHandler.createdEvent y (some (OrderController.idempotencyKey dto)))]))) :
    (OrderController.placeOrder dto userId).Along A Q fun _ => True := by
  refine .seq (.rescue (.seq ?_ fun _ => ?_) fun e => ?_) fun _ => trivial
  · unfold CreateOrderHandler.checkDuplicate
    split
    · exact trivial
    · next key hkey =>
      obtain ⟨hsome, -⟩ := truthy_eq_some.mp hkey
      obtain rfl : OrderController.idempotencyKey dto = key := Option.some.inj hsome
      refine .seq (call_along hfind) fun found => ?_
      cases found <;> exact trivial
  · refine .bind (fun r => ∀ y, r = .ok y → L y) (call_told hinsert ?_) ?_ fun _ _ => trivial
    · intro r hr y hy
      subst hy
      exact hinserted y hr
    · intro y hL
      exact .seq (call_along (hhand y (hL y rfl))) fun _ => trivial
  · unfold CreateOrderHandler.recover
    split
    · refine .seq (call_along hfind) fun found => ?_
      cases found <;> exact trivial
    · exact trivial

/-! ### The saga manager -/

/-- What working on sagas comes to: the sagas in `K` are read and written, the query runners in `N`
are worked on, and messages are sent that carry no event. -/
structure SagaWork (A : Op → Prop) (Q : (o : Op) → Except Err (Op.Val o) → Prop)
    (K : SagaInstance → Prop) (N : ℕ → Prop) : Prop where
  inward : ∀ o : Op, o.Inward → A o
  /-- Columns that do not tell which saga it is may change. -/
  core : ∀ {s t : SagaInstance}, K s → t.core = s.core → K t
  lock : ∀ {s : SagaInstance} {step : String}, K s → step ∈ sagaSteps →
    MayLock A ("lock:" ++ stepLock s.id step)
  find : ∀ {s : SagaInstance}, K s → A (.sagaFindOne { id := some s.id })
  found : ∀ {s t : SagaInstance}, K s → Q (.sagaFindOne { id := some s.id }) (.ok (some t)) → K t
  save : ∀ {s : SagaInstance}, K s → A (.sagaSave s)
  connect : A .connect
  connected : ∀ {n : ℕ}, Q .connect (.ok n) → N n
  control : ∀ {n : ℕ}, N n → ∀ o ∈ Op.controls n, A o
  txFind : ∀ {n : ℕ} {s : SagaInstance}, N n → K s → A (.txSagaFindOne n s.id)
  txFound : ∀ {n : ℕ} {s t : SagaInstance}, K s → Q (.txSagaFindOne n s.id) (.ok (some t)) → K t
  txSave : ∀ {n : ℕ} {s : SagaInstance}, N n → K s → A (.txSagaSave n s)
  send : ∀ {m : Message}, m.isDomain = false →
    A (.kafkaSend (selectTopic "saga-events" m) (messageKey m) m)
  tell : ∀ {s : SagaInstance} {m : Message}, K s → m.isAside = true → m.sagaId = some s.id →
    A (.setImmediate (.publishSagaEvent m))

section Sagas

variable {K : SagaInstance → Prop} {N : ℕ → Prop} {saga : SagaInstance} {n : ℕ}
  (h : SagaWork A Q K N)
include h

/-- A message is sent that carries no event. -/
theorem publish_along {m : Message} (hm : m.isDomain = false) :
    (publish "saga-events" m).Along A Q fun _ => True :=
  call_along (h.send hm)

/-- A message about a saga is sent later. -/
theorem tell_along (hs : K saga) {m : Message} (hm : m.isAside = true)
    (hid : m.sagaId = some saga.id) :
    (setImmediate (.publishSagaEvent m)).Along A Q fun _ => True :=
  call_along (h.tell hs hm hid)

theorem commit_along (hn : N n) : (queryRunner.commitTransaction n).Along A Q fun _ => True :=
  call_along (h.control hn _ (by simp [Op.controls]))

/-- A saga is looked for under an id that is known. -/
theorem sagaFindOne_along {f : Option SagaInstance → Async App α} (hs : K saga)
    (hf : ∀ found, (∀ t, found = some t → K t) → (f found).Along A Q fun _ => True) :
    ((sagaRepository.findOne { id := some saga.id }).bind f).Along A Q fun _ => True := by
  refine .bind (fun r => ∀ t, r = .ok (some t) → K t) (call_told (h.find hs) ?_) ?_
    fun _ _ => trivial
  · intro r hr t ht
    subst ht
    exact h.found hs hr
  · intro found hK
    exact hf found fun t ht => hK t (congrArg Except.ok ht)

/-- The same, for update. -/
theorem txFindOne_along {f : Option SagaInstance → Async App α} (hn : N n) (hs : K saga)
    (hf : ∀ found, (∀ t, found = some t → K t) → (f found).Along A Q fun _ => True) :
    ((queryRunner.findOne n saga.id).bind f).Along A Q fun _ => True := by
  refine .bind (fun r => ∀ t, r = .ok (some t) → K t) (call_told (h.txFind hn hs) ?_) ?_
    fun _ _ => trivial
  · intro r hr t ht
    subst ht
    exact h.txFound hs hr
  · intro found hK
    exact hf found fun t ht => hK t (congrArg Except.ok ht)

/-- A transaction is begun on a query runner of one's own. -/
theorem connect_along {f : ℕ → Async App α} (hf : ∀ n, N n → (f n).Along A Q fun _ => True) :
    (queryRunner.connect.bind fun n => (queryRunner.startTransaction n).bind fun _ => f n).Along A Q
      fun _ => True := by
  refine .bind (fun r => ∀ n, r = .ok n → N n) (call_told h.connect ?_) ?_ fun _ _ => trivial
  · intro r hr n hn
    subst hn
    exact h.connected hr
  · intro n hN
    have hn : N n := hN n rfl
    exact .seq (call_along (h.control hn _ (by simp [Op.controls]))) fun _ => hf n hn

theorem completeSaga_along (hs : K saga) : (completeSaga saga.id).Along A Q fun _ => True := by
  refine sagaFindOne_along h hs fun found hK => ?_
  cases found with
  | none => exact trivial
  | some t =>
    dsimp only
    split
    · exact trivial
    · exact .seq (call_along (h.save (h.core (hK t rfl) rfl))) fun _ => tell_along h hs rfl rfl

theorem markSagaAsFinalFailure_along (hs : K saga) (m : String) :
    (markSagaAsFinalFailure saga m).Along A Q fun _ => True := by
  refine connect_along h fun n hn => inTransaction_along (h.control hn) ?_ fun _ => trivial
  refine txFindOne_along h hn hs fun found hK => ?_
  cases found with
  | none => exact .seq (commit_along h hn) fun _ => publish_along h rfl
  | some t =>
    exact .seq (call_along (h.txSave hn (h.core (hK t rfl) rfl))) fun _ =>
      .seq (commit_along h hn) fun _ => publish_along h rfl

/-- Compensating steps sends messages; the saga in memory stays the one it is. -/
theorem compensateSteps_along : ∀ (steps : List String) {saga : SagaInstance}, K saga →
    (compensateSteps steps saga).Along A Q fun r => ∀ t, r = .ok t → K t := by
  intro steps
  induction steps with
  | nil =>
    intro saga hs t ht
    cases ht
    exact hs
  | cons s steps ih =>
    intro saga hs
    refine .bind (fun r => ∀ t, r = .ok t → K t) ?_ (fun t hK => ih (hK t rfl))
      fun _ _ _ ht => nomatch ht
    refine .bind (fun _ => True) (publish_along h rfl) (fun _ _ => ?_) fun _ _ _ ht => nomatch ht
    intro t ht
    cases ht
    exact h.core hs rfl

theorem startCompensation_along (hs : K saga) :
    (startCompensation saga).Along A Q fun _ => True := by
  refine connect_along h fun n hn => inTransaction_along (h.control hn) ?_
    fun _ => markSagaAsFinalFailure_along h hs _
  refine .bind _ (compensateSteps_along h _ hs) (fun t hK => ?_) fun _ _ => trivial
  refine txFindOne_along h hn (hK t rfl) fun found hfound => .seq ?_ fun _ =>
    .seq (commit_along h hn) fun _ => publish_along h rfl
  cases found with
  | none => exact trivial
  | some u => exact call_along (h.txSave hn (h.core (hfound u rfl) rfl))

/-- **What follows a failed step.** -/
theorem handleSagaFailure_along (hs : K saga) (s m : String) :
    (handleSagaFailure saga s m).Along A Q fun _ => True := by
  refine connect_along h fun n hn => inTransaction_along (h.control hn) ?_ fun _ => trivial
  refine txFindOne_along h hn hs fun found hK => ?_
  cases found with
  | none => exact trivial
  | some t =>
    have ht : K { t with status := .compensating, currentStep := s, errorMessage := some m } :=
      h.core (hK t rfl) rfl
    exact .seq (call_along (h.txSave hn ht)) fun _ => .seq (commit_along h hn) fun _ =>
      .seq (publish_along h rfl) fun _ => startCompensation_along h ht

/-- **A step of a saga**, with what follows if it fails. -/
theorem executeSagaStep_along (hs : K saga) {s : String} (hstep : s ∈ sagaSteps)
    {action : Async App Unit} (ha : action.Along A Q fun _ => True) :
    (executeSagaStep saga.id s action).Along A Q fun _ => True := by
  refine .rescue (withLock_along h.inward (h.lock hs hstep) ?_ fun _ => trivial) fun e =>
    .seq (inward_along h.inward rfl rfl) fun _ => sagaFindOne_along h hs fun found hK => ?_
  · refine sagaFindOne_along h hs fun found hK => ?_
    cases found with
    | none => exact trivial
    | some t =>
      dsimp only
      split
      · exact trivial
      · exact .seq (call_along (h.save (h.core (hK t rfl) rfl))) fun _ => .seq ha fun _ =>
          .seq (call_along (h.save (h.core (hK t rfl) rfl))) fun _ => tell_along h hs rfl rfl
  · cases found with
    | none => exact trivial
    | some t => exact handleSagaFailure_along h (hK t rfl) _ _

end Sagas

/-! ### The saga of an order -/

/-- What starting the saga of the order under the key `k` comes to, if `K` is to know it. -/
structure SagaStart (A : Op → Prop) (Q : (o : Op) → Except Err (Op.Val o) → Prop)
    (K : SagaInstance → Prop) (k : String) : Prop where
  lock : MayLock A ("lock:" ++ creationLock sagaType k)
  find : A (.sagaFindOne { correlationId := some k, sagaType := some sagaType })
  found : ∀ {s : SagaInstance},
    Q (.sagaFindOne { correlationId := some k, sagaType := some sagaType }) (.ok (some s)) → K s
  insert : ∀ data steps, A (.sagaInsert (newSaga sagaType k data steps))
  inserted : ∀ {data steps} {s : SagaInstance},
    Q (.sagaInsert (newSaga sagaType k data steps)) (.ok s) → K s

omit [Hashes] in
/-- A saga is looked for under a correlation id. -/
theorem findSagaByCorrelationId_along {K : SagaInstance → Prop} {c : Option String}
    {f : Option SagaInstance → Async App Unit}
    (hfind : A (.sagaFindOne { correlationId := c, sagaType := some sagaType }))
    (hfound : ∀ s : SagaInstance,
      Q (.sagaFindOne { correlationId := c, sagaType := some sagaType }) (.ok (some s)) → K s)
    (hnone : (f none).Along A Q fun _ => True)
    (hsome : ∀ s, K s → (f (some s)).Along A Q fun _ => True) :
    ((findSagaByCorrelationId c (some sagaType)).bind f).Along A Q fun _ => True := by
  refine .bind (fun r => ∀ s, r = .ok (some s) → K s) (call_told hfind ?_) ?_ fun _ _ => trivial
  · intro r hr s hs
    subst hs
    exact hfound s hr
  · intro found hK
    cases found with
    | none => exact hnone
    | some s => exact hsome s (hK s rfl)

section Sagas

variable {K : SagaInstance → Prop} {N : ℕ → Prop} (h : SagaWork A Q K N)
include h

theorem startSaga_along {k : String} (hstart : SagaStart A Q K k) (data : SagaData)
    (steps : List String) : (startSaga sagaType k data steps).Along A Q
      fun r => ∀ s, r = .ok s → K s := by
  refine withLock_along h.inward hstart.lock ?_ fun _ _ hs => nomatch hs
  refine .bind (fun r => ∀ s, r = .ok (some s) → K s) (call_told hstart.find ?_) ?_
    fun _ _ _ hs => nomatch hs
  · intro r hr s hs
    subst hs
    exact hstart.found hr
  · intro found hK
    cases found with
    | some s =>
      intro t ht
      cases ht
      exact hK s rfl
    | none =>
      refine .bind (fun r => ∀ s, r = .ok s → K s) (call_told (hstart.insert _ _) ?_) ?_
        fun _ _ _ hs => nomatch hs
      · intro r hr s hs
        subst hs
        exact hstart.inserted hr
      · intro s hK
        refine .bind (fun _ => True) (tell_along h (hK s rfl) rfl rfl) (fun _ _ => ?_)
          fun _ _ _ hs => nomatch hs
        intro t ht
        cases ht
        exact hK s rfl

theorem handleOrderCreated_along {e : OrderCreatedEvent}
    (hstart : ∀ k, e.correlationId = some k → SagaStart A Q K k)
    (hpay : ∀ s, K s → (paymentAction s e).Along A Q fun _ => True) :
    (handleOrderCreated e).Along A Q fun _ => True := by
  unfold handleOrderCreated
  split
  · exact trivial
  · next k hk =>
    refine .bind _ (startSaga_along h (hstart k (truthy_eq_some.mp hk).1) _ _) (fun s hK => ?_)
      fun _ _ => trivial
    exact executeSagaStep_along h (hK s rfl) (by simp [sagaSteps]) (hpay s (hK s rfl))

theorem handlePaymentProcessed_along {e : PaymentProcessedEvent}
    (hfind : A (.sagaFindOne { correlationId := e.correlationId, sagaType := some sagaType }))
    (hfound : ∀ s : SagaInstance,
      Q (.sagaFindOne { correlationId := e.correlationId, sagaType := some sagaType })
        (.ok (some s)) → K s)
    (hconfirm : ∀ c, (ConfirmOrderHandler.execute ⟨e.orderId, some e.paymentId, c⟩).Along A Q
      fun _ => True) : (handlePaymentProcessed e).Along A Q fun _ => True := by
  refine findSagaByCorrelationId_along hfind hfound trivial fun s hs => ?_
  refine .seq (executeSagaStep_along h hs (by simp [sagaSteps]) ?_) fun _ => completeSaga_along h hs
  exact .seq (hconfirm _) fun _ => inward_along h.inward rfl rfl

theorem handlePaymentFailed_along {e : PaymentFailedEvent}
    (hfind : A (.sagaFindOne { correlationId := e.correlationId, sagaType := some sagaType }))
    (hfound : ∀ s : SagaInstance,
      Q (.sagaFindOne { correlationId := e.correlationId, sagaType := some sagaType })
        (.ok (some s)) → K s)
    (hcancel : ∀ reason c, (CancelOrderHandler.execute ⟨e.orderId, e.userId, reason, c⟩).Along A Q
      fun _ => True) : (handlePaymentFailed e).Along A Q fun _ => True := by
  refine findSagaByCorrelationId_along hfind hfound trivial fun s hs => ?_
  exact .rescue (.seq (hcancel _ _) fun _ => call_along (h.save (h.core hs rfl))) fun _ =>
    handleSagaFailure_along h hs _ _

end Sagas

/-! ### What most programs have in common -/

/-- The operation writes nothing but sagas that were read, locks and the log, and tells of nothing
but a saga. -/
def Op.Common : Op → Prop
  | .orderInsert _ => False
  | .orderSave _ => False
  | .paymentInsert _ => False
  | .paymentSave _ => False
  | .sagaInsert _ => False
  | .eventStoreSave _ => False
  | .redisSet key _ _ => ∃ sagaId stepName, key = "lock:" ++ stepLock sagaId stepName
  | .kafkaSend topic key message => message.isDomain = false ∧
    topic = selectTopic "saga-events" message ∧ key = messageKey message
  | .publishAll _ => False
  | .setImmediate task => ∃ message, task = .publishSagaEvent message ∧ message.isAside = true
  | _ => True

theorem Op.Common.of_inward {o : Op} (h : o.Inward) : o.Common := by
  obtain ⟨hl, hs⟩ := h
  cases o <;> simp [Op.isLocal] at hl <;> simp [Op.starts] at hs <;> exact trivial

/-- Whoever does not mind the common operations does not mind work on sagas, whichever they are. -/
theorem SagaWork.of_common (hA : ∀ o : Op, o.Common → A o) :
    SagaWork A Q (fun _ => True) fun _ => True where
  inward := fun o ho => hA o (.of_inward ho)
  core := fun _ _ => trivial
  lock := fun _ _ => ⟨fun _ _ => hA _ ⟨_, _, rfl⟩, fun _ => hA _ trivial⟩
  find := fun _ => hA _ trivial
  found := fun _ _ => trivial
  save := fun _ => hA _ trivial
  connect := hA _ trivial
  connected := fun _ => trivial
  control := by
    intro n _ o ho
    simp only [Op.controls, List.mem_cons, List.not_mem_nil, or_false] at ho
    rcases ho with rfl | rfl | rfl | rfl <;> exact hA _ trivial
  txFind := fun _ _ => hA _ trivial
  txFound := fun _ _ => trivial
  txSave := fun _ _ => hA _ trivial
  send := fun hm => hA _ ⟨hm, rfl, rfl⟩
  tell := fun _ hm _ => hA _ ⟨_, rfl, hm⟩

/-- Nor does he mind the start of a saga, if he minds neither its lock nor its row. -/
theorem SagaStart.of_common (hA : ∀ o : Op, o.Common → A o) (hinsert : ∀ s, A (.sagaInsert s))
    {k : String} (hset : ∀ tok ttl, A (.redisSet ("lock:" ++ creationLock sagaType k) tok ttl)) :
    SagaStart A Q (fun _ => True) k where
  lock := ⟨hset, fun _ => hA _ trivial⟩
  find := hA _ trivial
  found := fun _ => trivial
  insert := fun _ _ => hinsert _
  inserted := fun _ => trivial

omit [Hashes] in
/-- A payment is requested, and the payment system called. -/
theorem paymentAction_along {saga : SagaInstance} {e : OrderCreatedEvent}
    (hA : ∀ o : Op, o.Inward → A o) (hinsert : ∀ p, A (.paymentInsert p))
    (hcharge : ∀ p c, A (.setImmediate (.externalPayment p c))) :
    (paymentAction saga e).Along A Q fun _ => True :=
  .seq (.seq (call_along (hinsert _)) fun p => .seq (call_along (hcharge p _)) fun _ => trivial)
    fun _ => inward_along hA rfl rfl

end Programs

/-! ### Predicates that mind few operations -/

/-- The predicate minds neither decisions about orders nor the results of payments. -/
structure Lenient [Hashes] (A : Op → Prop) : Prop where
  common : ∀ o : Op, o.Common → A o
  orderSave : ∀ y, A (.orderSave y)
  paymentSave : ∀ p, A (.paymentSave p)
  announce : ∀ events, Announcement events → A (.setImmediate (.publishAll events))
  report : ∀ payment c (e : Event), e.IsOf payment c → A (.publishAll [e])

/-- Nor does it mind how a saga is started: of all operations but that an order is inserted, that an
event is stored, sent or handed to its handlers, and that one is published that is not the result
of a payment or of a decision about an order. -/
structure Indifferent [Hashes] (A : Op → Prop) : Prop extends Lenient A where
  set : ∀ key tok ttl, A (.redisSet key tok ttl)
  sagaInsert : ∀ s, A (.sagaInsert s)
  paymentInsert : ∀ p, A (.paymentInsert p)
  charge : ∀ p c, A (.setImmediate (.externalPayment p c))

namespace Lenient

variable [Hashes] {A : Op → Prop} (h : Lenient A)
include h

theorem inward {o : Op} (ho : o.Inward) : A o := h.common o (.of_inward ho)

theorem cancelOrder (command : CancelOrderCommand) :
    (CancelOrderHandler.execute command).Only A :=
  (cancelOrder_along (L := fun _ => True) (fun _ => h.inward) (h.common _ trivial)
    (fun _ _ => trivial) (fun _ _ => h.orderSave _) fun _ _ events he _ => h.announce events he).only

theorem confirmOrder (command : ConfirmOrderCommand) :
    (ConfirmOrderHandler.execute command).Only A :=
  (confirmOrder_along (L := fun _ => True) (fun _ => h.inward) (h.common _ trivial)
    (fun _ _ => trivial) (fun _ _ _ => h.orderSave _)
    fun _ _ events he _ => h.announce events he).only

theorem cleanupOrders (orders : List Order) :
    (SagaMaintenanceController.cleanupOrders orders).Only A :=
  (cleanupOrders_along (fun _ => h.common _ trivial) (fun _ => h.common _ trivial)
    (fun _ => h.common _ trivial) (fun command => .of_only (h.cancelOrder command)
      fun _ => trivial) orders).only

theorem lockTest {test : LockTest}
    (hset : ∀ key ∈ test.key?, ∀ tok ttl, A (.redisSet ("lock:" ++ key) tok ttl)) :
    test.run.Only A :=
  (lockTest_along (fun _ => h.inward) (fun key hk => ⟨hset key hk, fun _ => h.common _ trivial⟩)
    (fun _ _ _ => h.common _ trivial) fun _ => h.common _ trivial).only

/-- **The requests that place no order**, nor test a lock the predicate minds. -/
theorem request {r : Request} (hr : ∀ dto userId, ¬r.Places dto userId)
    (hset : ∀ test, r = .lockTest test → ∀ key ∈ test.key?, ∀ tok ttl,
      A (.redisSet ("lock:" ++ key) tok ttl)) : (Job.request r).run.Only A := by
  cases r with
  | createOrder dto userId => exact absurd (Or.inl rfl) (hr dto userId)
  | createTestOrder dto userId => exact absurd (Or.inr rfl) (hr dto userId)
  | cancelOrder id userId reason => exact .bind (h.cancelOrder _) fun _ => trivial
  | confirmOrder id paymentId => exact .bind (h.confirmOrder _) fun _ => trivial
  | cleanupPendingOrders =>
    exact .bind (.bind (.perform (h.common _ trivial)) h.cleanupOrders) fun _ => trivial
  | lockTest test => exact h.lockTest (hset test rfl)

theorem externalPayment (payment : Payment) (c : Option String) :
    (ProcessPaymentHandler.externalPayment payment c).Only A :=
  (externalPayment_along (fun _ => h.inward) (fun _ _ => h.paymentSave _)
    fun e he => h.report payment c e he).only

theorem handlePaymentProcessed (e : PaymentProcessedEvent) :
    (OrderProcessingSaga.handlePaymentProcessed e).Only A :=
  (handlePaymentProcessed_along (.of_common h.common) (h.common _ trivial) (fun _ _ => trivial)
    fun _ => .of_only (h.confirmOrder _) fun _ => trivial).only

theorem handlePaymentFailed (e : PaymentFailedEvent) :
    (OrderProcessingSaga.handlePaymentFailed e).Only A :=
  (handlePaymentFailed_along (.of_common h.common) (h.common _ trivial) (fun _ _ => trivial)
    fun _ _ => .of_only (h.cancelOrder _) fun _ => trivial).only

end Lenient

namespace Indifferent

variable [Hashes] {A : Op → Prop} (h : Indifferent A)
include h

/-- **The requests that place no order.** -/
theorem request {r : Request} (hr : ∀ dto userId, ¬r.Places dto userId) :
    (Job.request r).run.Only A :=
  h.toLenient.request hr fun _ _ _ _ => h.set _

theorem handleOrderCreated (e : OrderCreatedEvent) :
    (OrderProcessingSaga.handleOrderCreated e).Only A :=
  (handleOrderCreated_along (.of_common h.common)
    (fun _ _ => .of_common h.common h.sagaInsert (h.set _))
    fun _ _ => paymentAction_along (fun _ => h.inward) h.paymentInsert h.charge).only

end Indifferent

end CqrsSaga
