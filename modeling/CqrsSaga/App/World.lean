import CqrsSaga.Async.Pool
import CqrsSaga.Store.Lease
import CqrsSaga.App.Messages

/-!
# The world and what is done to it

PostgreSQL, Redis, Kafka, the in-process event bus and the parts of Node that start
work of their own, as one shared state with one operation for each call the
application awaits or whose effect others can see.  Every operation is atomic; an
`await` between two of them is a point where anybody else may move.

Drawn values — row ids, lock tokens, `uuidv4()`, `Math.random()` — and failures are
left to the `Choice` of the step.  What is assumed of the services: a failing operation
leaves the world as it was, except that a command to Redis may also be carried out with
its reply lost.  So no reply to a query or a `COMMIT` is lost, and a message sent to Kafka
is appended once, or its send fails and it is not.  A connection to the database is always
free: `connect` never waits for one.  And `release` ends a transaction that a failed
`COMMIT` or `ROLLBACK` has left open, where TypeORM hands the connection back as it is.

## Main definitions

* `Err` — what is thrown.
* `Op`, `App` — the operations and what they answer.
* `World`, `World.perform`, `World.exec` — the shared state and its operations.
* `app` — the machine.

## Main results

* `World.exec_eq_perform`, `World.exec_cases` — an operation fails or is performed.
-/

namespace CqrsSaga

/-! ### Errors -/

/-- What is thrown. -/
inductive Err
  /-- A database, Redis or Kafka operation failed. -/
  | injected (message : String)
  /-- An insert collided with the unique index on `orders.idempotencyKey`. -/
  | uniqueViolation (key : String)
  /-- An amount does not fit its column. -/
  | numericOverflow
  /-- A transaction was to be ended that is not open. -/
  | transactionNotStarted
  /-- `DuplicateOrderException`. -/
  | duplicateOrder (existingOrderId idempotencyKey : String)
  /-- `NotFoundException`. -/
  | notFound (message : String)
  /-- `ConflictException`. -/
  | conflict (message : String)
  /-- `ForbiddenException`. -/
  | forbidden (message : String)
  /-- `Error`. -/
  | error (message : String)
  deriving DecidableEq, Repr

namespace Err

/-- `error.message`. -/
def message : Err → String
  | injected m => m
  | uniqueViolation _ => "duplicate key value violates unique constraint"
  | numericOverflow => "numeric field overflow"
  | transactionNotStarted =>
    "Transaction is not started yet, start transaction before committing or rolling it back."
  | duplicateOrder _ _ => "Order with this product combination already exists"
  | notFound m => m
  | conflict m => m
  | forbidden m => m
  | error m => m

/-- `error.code`: set on the errors of the database driver.  A
`DuplicateOrderException` carries a `code` in its response body, not here. -/
def code : Err → Option String
  | uniqueViolation _ => some "23505"
  | numericOverflow => some "22003"
  | _ => none

/-- `error.detail`. -/
def detail : Err → Option String
  | uniqueViolation key =>
    some ("Key (\"" ++ "idempotencyKey" ++ ("\")=(" ++ key ++ ") already exists."))
  | _ => none

end Err

/-! ### Operations -/

/-- The lines of the log that tell how a run went. -/
inductive LogLine
  /-- `acquireLock`: `Failed to acquire lock`. -/
  | lockNotAcquired (lockKey : String)
  /-- `executeSagaStep`: `Saga step failed`. -/
  | stepFailed (stepName sagaId : String)
  /-- The last line of a step's action: `… command executed for saga`. -/
  | commandExecuted (stepName sagaId : String)
  deriving DecidableEq, Repr

/-- The calls with an effect beyond the caller. -/
inductive Op
  /-- `orderRepository.findOne`. -/
  | orderFindOne (q : OrderWhere)
  /-- `orderRepository.find`. -/
  | orderFind (q : OrderWhere)
  /-- `orderRepository.save` of a created entity. -/
  | orderInsert (o : NewOrder)
  /-- `orderRepository.save` of a loaded entity. -/
  | orderSave (o : Order)
  /-- `paymentRepository.findOne`. -/
  | paymentFindOne (q : PaymentWhere)
  /-- `paymentRepository.save` of a created entity. -/
  | paymentInsert (p : NewPayment)
  /-- `paymentRepository.save` of a saved entity. -/
  | paymentSave (p : Payment)
  /-- `sagaRepository.findOne`. -/
  | sagaFindOne (q : SagaWhere)
  /-- `sagaRepository.save` of a created entity. -/
  | sagaInsert (s : NewSaga)
  /-- `sagaRepository.save` of a loaded entity. -/
  | sagaSave (s : SagaInstance)
  /-- `dataSource.createQueryRunner()` and `queryRunner.connect()`. -/
  | connect
  /-- `queryRunner.startTransaction()`. -/
  | startTransaction (runner : ℕ)
  /-- `queryRunner.manager.findOne` with `pessimistic_write`. -/
  | txSagaFindOne (runner : ℕ) (id : String)
  /-- `queryRunner.manager.save`. -/
  | txSagaSave (runner : ℕ) (s : SagaInstance)
  /-- `queryRunner.commitTransaction()`. -/
  | commitTransaction (runner : ℕ)
  /-- `queryRunner.rollbackTransaction()`. -/
  | rollbackTransaction (runner : ℕ)
  /-- `queryRunner.release()`. -/
  | release (runner : ℕ)
  /-- `eventStoreRepository.save`. -/
  | eventStoreSave (e : EventStore)
  /-- The random string of `generateToken`. -/
  | generateToken
  /-- `redis.set(key, token, 'PX', ttl, 'NX')`; whether it answered `OK`. -/
  | redisSet (key token : String) (ttl : ℕ)
  /-- `redis.eval(unlockScript, 1, key, token)`; whether it answered 1. -/
  | redisUnlock (key token : String)
  /-- `redis.eval(renewScript, 1, key, token, ttl)`; whether it answered 1. -/
  | redisRenew (key token : String) (ttl : ℕ)
  /-- `redis.exists(key)`; whether it answered 1. -/
  | redisExists (key : String)
  /-- `producer.send`. -/
  | kafkaSend (topic : String) (key : Option String) (message : Message)
  /-- `eventBus.publishAll`. -/
  | publishAll (events : List Event)
  /-- `setImmediate`. -/
  | setImmediate (task : Task)
  /-- `setTimeout`; how long it takes is up to the schedule. -/
  | sleep (ms : ℕ)
  /-- `Math.random() > 0.2`. -/
  | random
  /-- `uuidv4()`. -/
  | uuidv4
  /-- A line of the log. -/
  | log (line : LogLine)
  deriving DecidableEq

/-- What a successful call answers. -/
def Op.Val : Op → Type
  | .orderFindOne _ => Option Order
  | .orderFind _ => List Order
  | .orderInsert _ => Order
  | .paymentFindOne _ => Option Payment
  | .paymentInsert _ => Payment
  | .sagaFindOne _ => Option SagaInstance
  | .sagaInsert _ => SagaInstance
  | .connect => ℕ
  | .txSagaFindOne _ _ => Option SagaInstance
  | .generateToken => String
  | .redisSet _ _ _ => Bool
  | .redisUnlock _ _ => Bool
  | .redisRenew _ _ _ => Bool
  | .redisExists _ => Bool
  | .random => Bool
  | .uuidv4 => String
  | _ => Unit

/-- The operations of the application. -/
abbrev App : Interface where
  Op := Op
  Val := Op.Val
  Err := Err

/-- The calls that go to Redis. -/
def Op.isRedis : Op → Bool
  | .redisSet _ _ _ => true
  | .redisUnlock _ _ => true
  | .redisRenew _ _ _ => true
  | .redisExists _ => true
  | _ => false

/-- The calls that stay in the process, and do not fail. -/
def Op.isLocal : Op → Bool
  | .generateToken => true
  | .publishAll _ => true
  | .setImmediate _ => true
  | .sleep _ => true
  | .random => true
  | .uuidv4 => true
  | .log _ => true
  | _ => false

/-! ### The world -/

/-- An open transaction. -/
structure Transaction where
  /-- The query runner it was started on. -/
  runner : ℕ
  /-- The sagas whose rows it has locked. -/
  locks : List String
  /-- The rows it will write. -/
  writes : List SagaInstance

/-- A record in Kafka; without a `key` it carries the current time as one. -/
structure KafkaRecord where
  topic : String
  key : Option String
  message : Message
  deriving DecidableEq, Repr

/-- The shared state. -/
structure World where
  /-- The time, in milliseconds. -/
  clock : ℕ
  orders : OrderTable
  payments : PaymentTable
  sagas : SagaTable
  eventStore : List EventStore
  /-- The open transactions. -/
  transactions : List Transaction
  /-- Which activity created which query runner; runners are numbered from 0. -/
  runners : List ℕ
  /-- The lock server. -/
  redis : Lease.Server String String
  /-- The lock tokens drawn so far, with the activity that drew them. -/
  tokens : List (ℕ × String)
  /-- The events published so far, oldest first. -/
  published : List Event
  /-- The messages sent so far, oldest first. -/
  kafka : List KafkaRecord
  /-- The log, oldest first. -/
  log : List LogLine

/-- Nothing is stored, held or published. -/
def World.empty (clock : ℕ) : World :=
  ⟨clock, .empty, .empty, .empty, [], [], [], .init, [], [], [], []⟩

/-- How an operation fails. -/
inductive Fault
  /-- It is not carried out. -/
  | refused (message : String)
  /-- Redis carries it out, but the reply does not arrive. -/
  | replyLost (message : String)
  deriving DecidableEq, Repr

/-- What one operation leaves to chance. -/
structure Choice where
  /-- Whether it fails. -/
  fault : Option Fault := none
  /-- The identifier it draws. -/
  text : String := ""
  /-- How the coin falls. -/
  coin : Bool := true
  deriving DecidableEq, Repr

namespace World

/-! ### The tables -/

/-- Insert an order.  The stored amount is rounded; the entity handed back is the one
in memory. -/
def insertOrder (w : World) (id : String) (n : NewOrder) : Option (World × Except Err Order) :=
  if (w.orders.find? fun o => decide (o.id = id)).isSome then none
  else
    match decimal102 n.totalAmount with
    | none => some (w, .error .numericOverflow)
    | some amount =>
      match w.orders.save ⟨{ n with totalAmount := amount }, id, none, w.clock, w.clock⟩ with
      | none => some (w, .error (.uniqueViolation (n.idempotencyKey.getD "")))
      | some orders => some ({ w with orders }, .ok ⟨n, id, none, w.clock, w.clock⟩)

/-- Save an order that was loaded: every column is written. -/
def saveOrder (w : World) (o : Order) : World × Except Err Unit :=
  match decimal102 o.totalAmount with
  | none => (w, .error .numericOverflow)
  | some amount =>
    match w.orders.save { o with totalAmount := amount, updatedAt := w.clock } with
    | none => (w, .error (.uniqueViolation (o.idempotencyKey.getD "")))
    | some orders => ({ w with orders }, .ok ())

/-- Insert a payment, rounding the stored amount. -/
def insertPayment (w : World) (id : String) (n : NewPayment) :
    Option (World × Except Err Payment) :=
  if (w.payments.find? fun p => decide (p.id = id)).isSome then none
  else
    match decimal102 n.amount with
    | none => some (w, .error .numericOverflow)
    | some amount =>
      match w.payments.save ⟨{ n with amount }, id, none, none⟩ with
      | none => none
      | some payments => some ({ w with payments }, .ok ⟨n, id, none, none⟩)

/-- Save a payment that was saved before. -/
def savePayment (w : World) (p : Payment) : World × Except Err Unit :=
  match decimal102 p.amount with
  | none => (w, .error .numericOverflow)
  | some amount =>
    match w.payments.save { p with amount } with
    | none => (w, .ok ())
    | some payments => ({ w with payments }, .ok ())

/-- Write the row of a saga. -/
def putSaga (w : World) (s : SagaInstance) : World :=
  match w.sagas.save { s with updatedAt := w.clock } with
  | none => w
  | some sagas => { w with sagas }

/-- Insert a saga. -/
def insertSaga (w : World) (id : String) (n : NewSaga) : Option (World × SagaInstance) :=
  if (w.sagas.find? fun s => decide (s.id = id)).isSome then none
  else some (w.putSaga ⟨n, id, none, w.clock, w.clock⟩, ⟨n, id, none, w.clock, w.clock⟩)

/-! ### Transactions -/

/-- A transaction of another query runner has locked the row of a saga. -/
def lockedBy (w : World) (runner : Option ℕ) (id : String) : Bool :=
  w.transactions.any fun t => decide (some t.runner ≠ runner) && decide (id ∈ t.locks)

/-- The transaction open on a query runner. -/
def transaction (w : World) (runner : ℕ) : Option Transaction :=
  w.transactions.find? fun t => decide (t.runner = runner)

/-- Replace the transaction of a query runner. -/
def setTransaction (w : World) (t : Transaction) : World :=
  { w with transactions := t :: w.transactions.filter fun u => decide (u.runner ≠ t.runner) }

/-- End the transaction of a query runner. -/
def endTransaction (w : World) (runner : ℕ) : World :=
  { w with transactions := w.transactions.filter fun u => decide (u.runner ≠ runner) }

/-- Read a row for update inside a transaction; `none` while another one has locked it. -/
def txFindSaga (w : World) (runner : ℕ) (id : String) :
    Option (World × Except Err (Option SagaInstance)) :=
  match w.transaction runner with
  | none => some (w, .error .transactionNotStarted)
  | some t =>
    if w.lockedBy (some runner) id then none
    else
      match w.sagas.find? fun s => decide (s.id = id) with
      | none => some (w, .ok none)
      | some s => some (w.setTransaction { t with locks := id :: t.locks }, .ok (some s))

/-- Write a row inside a transaction: nobody else sees it before the commit. -/
def txSaveSaga (w : World) (runner : ℕ) (s : SagaInstance) : Option (World × Except Err Unit) :=
  match w.transaction runner with
  | none => some (w, .error .transactionNotStarted)
  | some t =>
    if w.lockedBy (some runner) s.id then none
    else some (w.setTransaction { t with locks := s.id :: t.locks, writes := t.writes ++ [s] },
      .ok ())

/-- Commit: the rows are written in the order they were saved. -/
def commit (w : World) (runner : ℕ) : World × Except Err Unit :=
  match w.transaction runner with
  | none => (w, .error .transactionNotStarted)
  | some t => (t.writes.foldl putSaga (w.endTransaction runner), .ok ())

/-- Roll back. -/
def rollback (w : World) (runner : ℕ) : World × Except Err Unit :=
  match w.transaction runner with
  | none => (w, .error .transactionNotStarted)
  | some _ => (w.endTransaction runner, .ok ())

/-! ### Performing operations -/

/-- A call of the lock server. -/
def callRedis (w : World) (key token : String) (c : Lease.Call) : World × Bool :=
  ({ w with redis := (w.redis.serve w.clock key token c).1 },
    (w.redis.serve w.clock key token c).2)

/-- Activity `i` performs an operation that does not fail to be carried out. -/
def perform (w : World) (i : ℕ) (c : Choice) :
    (o : Op) → Option (World × Except Err (Op.Val o) × List Task)
  | .orderFindOne q => some (w, .ok (w.orders.find? q.selects), [])
  | .orderFind q => some (w, .ok (w.orders.findAll q.selects), [])
  | .orderInsert n => (w.insertOrder c.text n).map fun r => (r.1, r.2, [])
  | .orderSave o => some ((w.saveOrder o).1, (w.saveOrder o).2, [])
  | .paymentFindOne q => some (w, .ok (w.payments.find? q.selects), [])
  | .paymentInsert n => (w.insertPayment c.text n).map fun r => (r.1, r.2, [])
  | .paymentSave p => some ((w.savePayment p).1, (w.savePayment p).2, [])
  | .sagaFindOne q => some (w, .ok (w.sagas.find? q.selects), [])
  | .sagaInsert n => (w.insertSaga c.text n).map fun r => (r.1, .ok r.2, [])
  | .sagaSave s => if w.lockedBy none s.id then none else some (w.putSaga s, .ok (), [])
  | .connect => some ({ w with runners := w.runners ++ [i] }, .ok w.runners.length, [])
  | .startTransaction runner => some (w.setTransaction ⟨runner, [], []⟩, .ok (), [])
  | .txSagaFindOne runner id => (w.txFindSaga runner id).map fun r => (r.1, r.2, [])
  | .txSagaSave runner s => (w.txSaveSaga runner s).map fun r => (r.1, r.2, [])
  | .commitTransaction runner => some ((w.commit runner).1, (w.commit runner).2, [])
  | .rollbackTransaction runner => some ((w.rollback runner).1, (w.rollback runner).2, [])
  | .release runner => some (w.endTransaction runner, .ok (), [])
  | .eventStoreSave e => some ({ w with eventStore := w.eventStore ++ [e] }, .ok (), [])
  | .generateToken => some ({ w with tokens := (i, c.text) :: w.tokens }, .ok c.text, [])
  | .redisSet key token ttl =>
    -- an expiry of 0 is an error for Redis
    if ttl = 0 then some (w, .error (.error "ERR invalid expire time in 'set' command"), [])
    else some ((w.callRedis key token (.set ttl)).1, .ok (w.callRedis key token (.set ttl)).2, [])
  | .redisUnlock key token =>
    some ((w.callRedis key token .unlock).1, .ok (w.callRedis key token .unlock).2, [])
  | .redisRenew key token ttl =>
    -- `PEXPIRE key 0` deletes the key
    if ttl = 0 then
      some ((w.callRedis key token .unlock).1, .ok (w.callRedis key token .unlock).2, [])
    else
      some ((w.callRedis key token (.renew ttl)).1, .ok (w.callRedis key token (.renew ttl)).2, [])
  | .redisExists key => some (w, .ok (Lease.live w.redis.entries w.clock key).isSome, [])
  | .kafkaSend topic key message =>
    some ({ w with kafka := w.kafka ++ [⟨topic, key, message⟩] }, .ok (), [])
  | .publishAll events =>
    some ({ w with published := w.published ++ events }, .ok (),
      (events.flatMap Event.deliveries).map .deliver)
  | .setImmediate task => some (w, .ok (), [task])
  | .sleep _ => some (w, .ok (), [])
  | .random => some (w, .ok c.coin, [])
  | .uuidv4 => some (w, .ok c.text, [])
  | .log line => some ({ w with log := w.log ++ [line] }, .ok (), [])

/-- An operation, with whatever the step's choice does to it. -/
def exec (w : World) (i : ℕ) (o : Op) (c : Choice) :
    Option (World × Except Err (Op.Val o) × List Task) :=
  match c.fault with
  | none => w.perform i c o
  | some (.refused m) => if o.isLocal then none else some (w, .error (.injected m), [])
  | some (.replyLost m) =>
    if o.isRedis then (w.perform i c o).map fun r => (r.1, .error (.injected m), r.2.2) else none

end World

/-- The machine the application runs on. -/
abbrev app : Machine App where
  World := World
  Choice := Choice
  Task := Task
  Tick := ℕ
  exec := World.exec
  elapse := fun w d => { w with clock := w.clock + d }

namespace World

variable {w w' : World} {i : ℕ} {o : Op} {c : Choice} {r : Except Err (Op.Val o)} {ts : List Task}

/-- What is done to the world with nothing handed over. -/
theorem of_map {α β : Type} {m : Option (World × α)} {f : α → β} {v : β}
    (h : m.map (fun a => (a.1, f a.2, ([] : List Task))) = some (w', v, ts)) :
    ∃ a, v = f a ∧ m = some (w', a) ∧ ts = [] := by
  obtain ⟨⟨w₁, a⟩, hm, heq⟩ := Option.map_eq_some_iff.mp h
  simp only [Prod.mk.injEq] at heq
  obtain ⟨rfl, rfl, rfl⟩ := heq
  exact ⟨a, rfl, hm, rfl⟩

theorem perform_orderInsert {n : NewOrder} {v : Except Err Order}
    (h : w.perform i c (.orderInsert n) = some (w', v, ts)) :
    w.insertOrder c.text n = some (w', v) ∧ ts = [] := by
  obtain ⟨_, rfl, hins, hts⟩ := of_map (f := id) h
  exact ⟨hins, hts⟩

theorem perform_paymentInsert {n : NewPayment} {v : Except Err Payment}
    (h : w.perform i c (.paymentInsert n) = some (w', v, ts)) :
    w.insertPayment c.text n = some (w', v) ∧ ts = [] := by
  obtain ⟨_, rfl, hins, hts⟩ := of_map (f := id) h
  exact ⟨hins, hts⟩

theorem perform_sagaInsert {n : NewSaga} {v : Except Err SagaInstance}
    (h : w.perform i c (.sagaInsert n) = some (w', v, ts)) :
    ∃ s, v = .ok s ∧ w.insertSaga c.text n = some (w', s) ∧ ts = [] :=
  of_map h

theorem perform_txSagaFindOne {n : ℕ} {y : String} {v : Except Err (Option SagaInstance)}
    (h : w.perform i c (.txSagaFindOne n y) = some (w', v, ts)) :
    w.txFindSaga n y = some (w', v) ∧ ts = [] := by
  obtain ⟨_, rfl, hf, hts⟩ := of_map (f := id) h
  exact ⟨hf, hts⟩

theorem perform_txSagaSave {n : ℕ} {s : SagaInstance} {v : Except Err Unit}
    (h : w.perform i c (.txSagaSave n s) = some (w', v, ts)) :
    w.txSaveSaga n s = some (w', v) ∧ ts = [] := by
  obtain ⟨_, rfl, hf, hts⟩ := of_map (f := id) h
  exact ⟨hf, hts⟩

theorem exec_eq_perform (hc : c.fault = none) : w.exec i o c = w.perform i c o := by
  simp [exec, hc]

/-- **An operation is performed, refused, or performed with its reply lost.** -/
theorem exec_cases (h : w.exec i o c = some (w', r, ts)) :
    (c.fault = none ∧ w.perform i c o = some (w', r, ts)) ∨
    (∃ m, c.fault = some (.refused m) ∧ w' = w ∧ r = .error (.injected m) ∧ ts = [] ∧
      o.isLocal = false) ∨
    ∃ m v, c.fault = some (.replyLost m) ∧ o.isRedis = true ∧
      w.perform i c o = some (w', v, ts) ∧ r = .error (.injected m) := by
  unfold exec at h
  cases hc : c.fault with
  | none =>
    simp only [hc] at h
    exact Or.inl ⟨rfl, h⟩
  | some f =>
    cases f with
    | refused m =>
      simp only [hc] at h
      split at h
      · simp at h
      · next hl =>
        simp only [Option.some.injEq, Prod.mk.injEq] at h
        obtain ⟨rfl, rfl, rfl⟩ := h
        exact Or.inr (Or.inl ⟨m, rfl, rfl, rfl, rfl, by simpa using hl⟩)
    | replyLost m =>
      simp only [hc] at h
      split at h
      · next hr =>
        obtain ⟨⟨w₁, v, ts₁⟩, hp, he⟩ := Option.map_eq_some_iff.mp h
        simp only [Prod.mk.injEq] at he
        obtain ⟨rfl, rfl, rfl⟩ := he
        exact Or.inr (Or.inr ⟨m, v, rfl, hr, hp, rfl⟩)
      · simp at h

/-- What is no call to Redis is performed or refused. -/
theorem exec_cases_of_not_redis (h : w.exec i o c = some (w', r, ts)) (ho : o.isRedis = false) :
    (c.fault = none ∧ w.perform i c o = some (w', r, ts)) ∨
      ∃ m, c.fault = some (.refused m) ∧ w' = w ∧ r = .error (.injected m) ∧ ts = [] ∧
        o.isLocal = false := by
  rcases exec_cases h with hp | hm | ⟨m, v, -, hr, -⟩
  · exact Or.inl hp
  · exact Or.inr hm
  · exact absurd hr (by simp [ho])

/-- A query answers what is found, or is refused. -/
theorem exec_query {v : Op.Val o} (h : w.exec i o c = some (w', r, ts)) (ho : o.isRedis = false)
    (hv : w.perform i c o = some (w, .ok v, [])) :
    w' = w ∧ ts = [] ∧ (r = .ok v ∨ ∃ m, r = .error (.injected m)) := by
  rcases exec_cases_of_not_redis h ho with ⟨-, hp⟩ | ⟨m, -, hw, hr, hts, -⟩
  · obtain ⟨rfl, rfl, rfl⟩ : w = w' ∧ .ok v = r ∧ [] = ts := by simpa [hv] using hp
    exact ⟨rfl, rfl, Or.inl rfl⟩
  · exact ⟨hw, hts, Or.inr ⟨m, hr⟩⟩

/-- Where no reply is lost, an operation is performed or refused. -/
theorem exec_cases_of_reply (h : w.exec i o c = some (w', r, ts))
    (hc : ∀ m, c.fault ≠ some (.replyLost m)) :
    w.perform i c o = some (w', r, ts) ∨
      ∃ m, w' = w ∧ r = .error (.injected m) ∧ ts = [] ∧ o.isLocal = false := by
  rcases exec_cases h with ⟨-, hp⟩ | ⟨m, -, hm⟩ | ⟨m, -, hm, -⟩
  · exact Or.inl hp
  · exact Or.inr ⟨m, hm⟩
  · exact absurd hm (hc m)

/-- **A call that stays in the process does not fail.** -/
theorem exec_local (h : w.exec i o c = some (w', r, ts)) (ho : o.isLocal = true) :
    w.perform i c o = some (w', r, ts) ∧ ∃ v, r = .ok v := by
  have hp : w.perform i c o = some (w', r, ts) := by
    rcases exec_cases h with ⟨-, hp⟩ | ⟨m, -, -, -, -, hl⟩ | ⟨m, v, -, hr, -⟩
    · exact hp
    · rw [ho] at hl
      simp at hl
    · cases o <;> simp [Op.isRedis] at hr <;> simp [Op.isLocal] at ho
  refine ⟨hp, ?_⟩
  cases o <;> simp only [Op.isLocal, Bool.false_eq_true] at ho <;>
    exact ⟨_, (congrArg (fun x => x.2.1) (Option.some.inj hp)).symm⟩

/-- The error an operation throws, if it throws one. -/
def failure (w : World) (i : ℕ) (o : Op) (c : Choice) : Option Err :=
  match w.exec i o c with
  | some (_, .error e, _) => some e
  | _ => none

theorem failure_eq_some {e : Err} (h : w.exec i o c = some (w', .error e, ts)) :
    w.failure i o c = some e := by
  simp [failure, h]

end World

/-- **Where no error is thrown, an operation is performed and returns.** -/
theorem World.exec_of_failure {w w' : World} {i : ℕ} {o : Op} {c : Choice}
    {r : Except Err (Op.Val o)} {ts : List Task} (h : w.exec i o c = some (w', r, ts))
    (hf : w.failure i o c = none) : w.perform i c o = some (w', r, ts) ∧ ∃ v, r = .ok v := by
  cases r with
  | error e => simp [World.failure_eq_some h] at hf
  | ok v =>
    refine ⟨?_, v, rfl⟩
    rcases World.exec_cases h with ⟨-, hp⟩ | ⟨m, -, -, hr, -⟩ | ⟨m, v', -, -, -, hr⟩
    · exact hp
    · simp at hr
    · simp at hr

/-- The unique index was violated. -/
def Err.isUniqueViolation : Err → Bool
  | .uniqueViolation _ => true
  | _ => false

/-- The error activity `i` is thrown, if it is thrown one. -/
def Pool.failure {sys : System app} (p : Pool sys) (i : ℕ) (c : Choice) : Option Err :=
  match p.acts[i]? with
  | some ⟨_, .await o _⟩ => p.world.failure i o c
  | _ => none

/-- No operation fails, except that the unique index may refuse an insert. -/
def World.Unfailing (w : World) (i : ℕ) (o : Op) (c : Choice) : Prop :=
  ∀ e, w.failure i o c = some e → e.isUniqueViolation = true

/-- The step of activity `i` does not fail, except by the unique index. -/
def Pool.Unfailing {sys : System app} (p : Pool sys) (i : ℕ) (c : Choice) : Prop :=
  (p.failure i c).all Err.isUniqueViolation = true

instance {sys : System app} (p : Pool sys) (i : ℕ) (c : Choice) : Decidable (p.Unfailing i c) :=
  inferInstanceAs (Decidable (_ = true))

theorem Pool.Unfailing.world {sys : System app} {p : Pool sys} {i : ℕ} {c : Choice} {t : sys.Tag}
    {o : Op} {k : Except Err (Op.Val o) → Async App sys.Res} (h : p.Unfailing i c)
    (hi : p.acts[i]? = some ⟨t, .await o k⟩) : p.world.Unfailing i o c := by
  intro e he
  unfold Pool.Unfailing Pool.failure at h
  rw [hi] at h
  simp only [he, Option.all_some] at h
  exact h

namespace World

variable {w w' : World} {i : ℕ} {o : Op} {c : Choice} {r : Except Err (Op.Val o)} {ts : List Task}

/-- An operation that does not fail is performed. -/
theorem Unfailing.perform (hc : w.Unfailing i o c) (h : w.exec i o c = some (w', r, ts)) :
    w.perform i c o = some (w', r, ts) := by
  rcases exec_cases h with ⟨-, hp⟩ | ⟨m, -, -, rfl, -⟩ | ⟨m, v, -, -, -, rfl⟩
  · exact hp
  · have := hc _ (failure_eq_some h)
    simp [Err.isUniqueViolation] at this
  · have := hc _ (failure_eq_some h)
    simp [Err.isUniqueViolation] at this

/-- Where no operation fails, an error is a violation of the unique index. -/
theorem Unfailing.error {e : Err} (hc : w.Unfailing i o c)
    (h : w.exec i o c = some (w', .error e, ts)) : ∃ key, e = .uniqueViolation key := by
  have := hc _ (failure_eq_some h)
  cases e <;> simp [Err.isUniqueViolation] at this
  exact ⟨_, rfl⟩

end World

end CqrsSaga
