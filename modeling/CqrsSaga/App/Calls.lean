import CqrsSaga.App.World

/-!
# The calls of the application

One program for each call of a repository, a client library or Node, under the name
it has in the application.

## Main definitions

* `orderRepository`, `paymentRepository`, `sagaRepository`, `eventStoreRepository`,
  `queryRunner`, `redis`, `producer`, `eventBus` — the calls, by the object called.
-/

namespace CqrsSaga

/-- Await an operation of the application. -/
abbrev call (o : Op) : Async App (Op.Val o) := Async.perform (S := App) o

namespace orderRepository

/-- `findOne({ where })`: an order that meets the conditions, if there is one. -/
def findOne (q : OrderWhere) : Async App (Option Order) := call (.orderFindOne q)

/-- `find({ where })`: all of them. -/
def find (q : OrderWhere) : Async App (List Order) := call (.orderFind q)

/-- `save` of an entity made by `create`. -/
def insert (o : NewOrder) : Async App Order := call (.orderInsert o)

/-- `save` of an entity that was loaded. -/
def save (o : Order) : Async App Unit := call (.orderSave o)

end orderRepository

namespace paymentRepository

/-- `findOne({ where })`: a payment that meets the conditions, if there is one. -/
def findOne (q : PaymentWhere) : Async App (Option Payment) := call (.paymentFindOne q)

/-- `save` of an entity made by `create`. -/
def insert (p : NewPayment) : Async App Payment := call (.paymentInsert p)

/-- `save` of an entity that was saved before. -/
def save (p : Payment) : Async App Unit := call (.paymentSave p)

end paymentRepository

namespace sagaRepository

/-- `findOne({ where })`: a saga that meets the conditions, if there is one. -/
def findOne (q : SagaWhere) : Async App (Option SagaInstance) := call (.sagaFindOne q)

/-- `save` of an entity made by `create`. -/
def insert (s : NewSaga) : Async App SagaInstance := call (.sagaInsert s)

/-- `save` of an entity that was loaded. -/
def save (s : SagaInstance) : Async App Unit := call (.sagaSave s)

end sagaRepository

namespace eventStoreRepository

/-- `save` of an entity made by `create`. -/
def save (e : EventStore) : Async App Unit := call (.eventStoreSave e)

end eventStoreRepository

namespace queryRunner

/-- `createQueryRunner` and `connect`. -/
def connect : Async App ℕ := call .connect

/-- `startTransaction()`. -/
def startTransaction (runner : ℕ) : Async App Unit := call (.startTransaction runner)

/-- `manager.findOne(SagaInstance, …)` with a `pessimistic_write` lock. -/
def findOne (runner : ℕ) (id : String) : Async App (Option SagaInstance) :=
  call (.txSagaFindOne runner id)

/-- `manager.save`. -/
def save (runner : ℕ) (s : SagaInstance) : Async App Unit := call (.txSagaSave runner s)

/-- `commitTransaction()`. -/
def commitTransaction (runner : ℕ) : Async App Unit := call (.commitTransaction runner)

/-- `rollbackTransaction()`. -/
def rollbackTransaction (runner : ℕ) : Async App Unit := call (.rollbackTransaction runner)

/-- `release()`: the connection goes back to the pool. -/
def release (runner : ℕ) : Async App Unit := call (.release runner)

end queryRunner

namespace redis

/-- `set(key, token, 'PX', ttl, 'NX')`, and whether it answered `OK`. -/
def set (key token : String) (ttl : ℕ) : Async App Bool := call (.redisSet key token ttl)

/-- `eval(unlockScript, …)`, and whether it answered 1. -/
def unlock (key token : String) : Async App Bool := call (.redisUnlock key token)

/-- `eval(renewScript, …)`, and whether it answered 1. -/
def renew (key token : String) (ttl : ℕ) : Async App Bool := call (.redisRenew key token ttl)

/-- `exists(key)`, and whether it answered 1. -/
def keyExists (key : String) : Async App Bool := call (.redisExists key)

end redis

namespace producer

/-- `send({ topic, messages: [{ key, value }] })`, with the one message as it was before it was
turned into JSON. -/
def send (topic : String) (key : Option String) (message : Message) : Async App Unit :=
  call (.kafkaSend topic key message)

end producer

namespace eventBus

/-- `publishAll(events)`: each event is on its way to its handlers. -/
def publishAll (events : List Event) : Async App Unit := call (.publishAll events)

/-- `publish(event)`. -/
def publish (event : Event) : Async App Unit := publishAll [event]

end eventBus

/-- `setImmediate`: the callback is run later, as an activity of its own. -/
def setImmediate (task : Task) : Async App Unit := call (.setImmediate task)

/-- A promise that `setTimeout` resolves after `ms` milliseconds. -/
def sleep (ms : ℕ) : Async App Unit := call (.sleep ms)

/-- `Math.random() > 0.2`. -/
def random : Async App Bool := call .random

/-- `uuidv4()`. -/
def uuidv4 : Async App String := call .uuidv4

/-- The random string of `generateToken`. -/
def generateToken : Async App String := call .generateToken

/-- A line of the log. -/
def logger (line : LogLine) : Async App Unit := call (.log line)

end CqrsSaga
