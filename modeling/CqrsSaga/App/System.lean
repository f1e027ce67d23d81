import CqrsSaga.App.Controllers

/-!
# The application as a system of activities

Every request, delivery and callback is an activity of its own.  The nodes of a
deployment share the database, Redis and Kafka, and a request or callback never leaves
the node it began on, so the activities of all nodes together form one system; the
in-process event bus delivers an event on the node that published it.

A callback of `setImmediate` that is rejected ends the process of its node, and whatever that node
has begun gets no further.  Activities may always stay where they are, so what holds in every state
of every run holds whether or not processes are ended; only what is said of states in which
nothing goes on any more depends on it.

## Main definitions

* `Request`, `Job`, `application` — the requests, the activities, and the system.
* `Crashed`, `Stopped` — a process has been ended, and nothing goes on any more.
-/

namespace CqrsSaga

/-- A request to `RedisTestController`; nobody has to be authenticated for it. -/
inductive LockTest
  | testDistributedLock (key : String) (duration : Option ℕ) (nodeId : Option String)
  | testSagaCreation (correlationId : String) (nodeId : Option String)
  | checkLockStatus (key : String)
  | manualLockTest (key : String)

/-- A request. -/
inductive Request
  | createOrder (dto : CreateOrderDto) (userId : String)
  | createTestOrder (dto : CreateOrderDto) (userId : String)
  | cancelOrder (id userId : String) (reason : Option String)
  | confirmOrder (id : String) (paymentId : Option String)
  | cleanupPendingOrders
  | lockTest (test : LockTest)

/-- An activity. -/
inductive Job
  /-- A request is served. -/
  | request (r : Request)
  /-- Work handed over earlier is done. -/
  | task (t : Task)

/-- What an activity answers. -/
inductive Answer
  | order (response : OrderResponseDto)
  | cleanup (results : List SagaMaintenanceController.CleanupResult)
  | lockTest (result : RedisTestController.LockTestResult)
  | lockStatus (isLocked : Bool)
  | manualLock (result : RedisTestController.ManualLockResult)
  | done
  deriving DecidableEq, Repr

/-- The controller method of a test of a lock. -/
def LockTest.run : LockTest → Async App Answer
  | testDistributedLock key duration nodeId =>
    .lockTest <$> RedisTestController.testDistributedLock key duration nodeId
  | testSagaCreation correlationId nodeId =>
    .lockTest <$> RedisTestController.testSagaCreation correlationId nodeId
  | checkLockStatus key => .lockStatus <$> RedisTestController.checkLockStatus key
  | manualLockTest key => .manualLock <$> RedisTestController.manualLockTest key

/-- The lock a test tries for. -/
def LockTest.key? : LockTest → Option String
  | testDistributedLock key _ _ => some key
  | testSagaCreation correlationId _ => some ("saga_creation:OrderProcessingSaga:" ++ correlationId)
  | checkLockStatus _ => none
  | manualLockTest key => some key

variable [Hashes]

/-- The controller method of a request. -/
def Request.run : Request → Async App Answer
  | createOrder dto userId => .order <$> OrderController.createOrder dto userId
  | createTestOrder dto userId => .order <$> OrderController.createTestOrder dto userId
  | cancelOrder id userId reason => (fun _ => .done) <$> OrderController.cancelOrder id userId reason
  | confirmOrder id paymentId => (fun _ => .done) <$> OrderController.confirmOrder id paymentId
  | cleanupPendingOrders => .cleanup <$> SagaMaintenanceController.cleanupPendingOrders
  | lockTest test => test.run

/-- The program of an activity. -/
def Job.run : Job → Async App Answer
  | request r => r.run
  | task t => (fun _ => .done) <$> t.run

/-- **The application.** -/
abbrev application : System app where
  Tag := Job
  Res := Answer
  body := Job.run
  spawned := fun t => some (.task t)

/-- Only requests come from outside. -/
def Served (_ : Pool application) : Action application → Prop
  | .start (.task _) => False
  | _ => True

instance Served.decidable (p : Pool application) : ∀ a, Decidable (Served p a)
  | .start (.request _) => isTrue trivial
  | .start (.task _) => isFalse id
  | .run _ _ => isTrue trivial
  | .tick _ => isTrue trivial

/-! ### The end of a process -/

/-- Nobody waits for the work: it is a callback of `setImmediate`.  What an event handler throws
is caught and logged by the event bus. -/
def Task.detached : Task → Bool
  | .deliver _ => false
  | _ => true

/-- Nobody waits for the activity. -/
def Job.detached : Job → Bool
  | .task t => t.detached
  | .request _ => false

/-- The process of a node has been ended: a callback was rejected. -/
def Crashed (p : Pool application) : Prop :=
  ∃ a ∈ p.acts, a.tag.detached = true ∧ ∃ e, a.prog.result? = some (.error e)

/-- Whether a program has thrown can be seen. -/
def decidableThrown {α : Type} :
    ∀ r : Option (Except Err α), Decidable (∃ e, r = some (.error e))
  | none => isFalse (by simp)
  | some (.ok _) => isFalse (by simp)
  | some (.error e) => isTrue ⟨e, rfl⟩

instance (p : Pool application) : Decidable (Crashed p) :=
  have : ∀ a : Activity application,
      Decidable (a.tag.detached = true ∧ ∃ e, a.prog.result? = some (.error e)) :=
    fun a => @instDecidableAnd _ _ inferInstance (decidableThrown a.prog.result?)
  inferInstanceAs (Decidable (∃ a ∈ p.acts, a.tag.detached = true ∧ _))

/-- The activity is still at work: the process goes on, and something is left for it to do. -/
def AtWork (p : Pool application) (i : ℕ) : Prop := ¬Crashed p ∧ ∃ o, p.awaits i = some o

/-- Nothing goes on any more: a process has been ended, or nothing is left to run. -/
def Stopped (p : Pool application) : Prop := Crashed p ∨ p.Quiescent

instance (p : Pool application) : Decidable (Stopped p) :=
  inferInstanceAs (Decidable (Crashed p ∨ p.Quiescent))

end CqrsSaga
