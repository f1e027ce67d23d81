import CqrsSaga.App.RedisLock
import CqrsSaga.App.Kafka

/-!
# The saga manager

`SagaManager`: sagas are created under a lock on their type and correlation id, their
steps are run under a lock on saga and step, and a step that fails is answered by
compensation, in transactions of its own.

## Main definitions

* `SagaManager.startSaga` — the saga of a correlation id, created if there is none.
* `SagaManager.executeSagaStep` — run a step unless it is recorded as completed.
* `SagaManager.completeSaga` — mark a saga as completed.
* `SagaManager.handleSagaFailure`, `startCompensation`, `markSagaAsFinalFailure` — what
  follows a failure.
-/

namespace CqrsSaga

namespace SagaManager

open RedisLockService KafkaService

/-! ### Starting a saga -/

/-- The lock `startSaga` takes. -/
def creationLock (sagaType correlationId : String) : String :=
  "saga_creation:" ++ sagaType ++ ":" ++ correlationId

/-- The row `startSaga` inserts. -/
def newSaga (sagaType correlationId : String) (data : SagaData) (steps : List String) :
    NewSaga where
  sagaType := sagaType
  correlationId := correlationId
  status := .started
  data := data
  completedSteps := []
  compensationSteps := []
  currentStep := (truthy steps.head?).getD "initial"

/-- What `startSaga` does under its lock. -/
def findOrCreate (sagaType correlationId : String) (data : SagaData) (steps : List String) :
    Async App SagaInstance := do
  let existingSaga ← sagaRepository.findOne
    { correlationId := some correlationId, sagaType := some sagaType }
  match existingSaga with
  | some existingSaga => return existingSaga
  | none => do
    let savedSaga ← sagaRepository.insert (newSaga sagaType correlationId data steps)
    setImmediate (.publishSagaEvent (.sagaStarted savedSaga.id sagaType correlationId data))
    return savedSaga

/-- The saga of this type and correlation id, created if there is none; `steps` are the
names of its steps. -/
def startSaga (sagaType correlationId : String) (data : SagaData) (steps : List String) :
    Async App SagaInstance :=
  withLock (creationLock sagaType correlationId) (findOrCreate sagaType correlationId data steps)
    { ttl := 30000, retryCount := 3, retryDelay := 100 }

section Failure

variable [Hashes]

/-! ### Failure and compensation -/

/-- A `try` block in a transaction on `runner`: an error rolls back before `recover` sees
it, and the runner is released in the end. -/
def inTransaction (runner : ℕ) (block : Async App Unit) (recover : Err → Async App Unit) :
    Async App Unit :=
  (block.handle fun error => do
    queryRunner.rollbackTransaction runner
    recover error).andFinally (queryRunner.release runner)

/-- The `try` block of `markSagaAsFinalFailure`. -/
def recordFinalFailure (runner : ℕ) (saga : SagaInstance) (errorMessage : String) :
    Async App Unit := do
  let freshSaga ← queryRunner.findOne runner saga.id
  match freshSaga with
  | some freshSaga => do
    let error := "Compensation failed: " ++ errorMessage
    queryRunner.save runner { freshSaga with status := .failed, errorMessage := some error }
    queryRunner.commitTransaction runner
    publish "saga-events" (.sagaCompensationFailed saga.id saga.correlationId (some error))
  | none => do
    queryRunner.commitTransaction runner
    publish "saga-events" (.sagaCompensationFailed saga.id saga.correlationId none)

/-- Mark a saga as failed for good; an error on the way is only logged. -/
def markSagaAsFinalFailure (saga : SagaInstance) (errorMessage : String) : Async App Unit := do
  let runner ← queryRunner.connect
  queryRunner.startTransaction runner
  inTransaction runner (recordFinalFailure runner saga errorMessage) fun _ => return ()

/-- Compensate one step: the saga in memory notes it, and a message is sent. -/
def compensateStep (saga : SagaInstance) (stepName : String) : Async App SagaInstance := do
  let saga :=
    { saga with compensationSteps := saga.compensationSteps ++ ["compensate_" ++ stepName] }
  publish "saga-events" (.sagaStepCompensated saga.id ("compensate_" ++ stepName))
  return saga

/-- Compensate steps one after the other. -/
def compensateSteps : List String → SagaInstance → Async App SagaInstance
  | [], saga => return saga
  | step :: steps, saga => do
    let saga ← compensateStep saga step
    compensateSteps steps saga

/-- Mark the row of a saga, if it was found, as compensated. -/
def saveCompensated (runner : ℕ) : Option SagaInstance → Async App Unit
  | some freshSaga => queryRunner.save runner { freshSaga with status := .compensated }
  | none => return ()

/-- The `try` block of `startCompensation`. -/
def compensate (runner : ℕ) (saga : SagaInstance) : Async App Unit := do
  let saga ← compensateSteps saga.completedSteps.reverse saga
  let freshSaga ← queryRunner.findOne runner saga.id
  saveCompensated runner freshSaga
  queryRunner.commitTransaction runner
  publish "saga-events" (.sagaCompensated saga.id saga.correlationId saga.compensationSteps)

/-- Compensate the completed steps of a saga, the last one first. -/
def startCompensation (saga : SagaInstance) : Async App Unit := do
  let runner ← queryRunner.connect
  queryRunner.startTransaction runner
  inTransaction runner (compensate runner saga) fun compensationError =>
    markSagaAsFinalFailure saga compensationError.message

/-- The `try` block of `handleSagaFailure`. -/
def beginCompensation (runner : ℕ) (saga : SagaInstance) (failedStep errorMessage : String) :
    Async App Unit := do
  let freshSaga ← queryRunner.findOne runner saga.id
  match freshSaga with
  | none => .throw (.error ("Saga not found: " ++ saga.id))
  | some freshSaga => do
    let freshSaga := { freshSaga with
      status := .compensating, currentStep := failedStep, errorMessage := some errorMessage }
    queryRunner.save runner freshSaga
    queryRunner.commitTransaction runner
    publish "saga-events"
      (.sagaFailed freshSaga.id freshSaga.correlationId failedStep errorMessage)
    startCompensation freshSaga

/-- A step of a saga has failed. -/
def handleSagaFailure (saga : SagaInstance) (failedStep errorMessage : String) :
    Async App Unit := do
  let runner ← queryRunner.connect
  queryRunner.startTransaction runner
  inTransaction runner (beginCompensation runner saga failedStep errorMessage) fun error =>
    .throw error

/-! ### Steps -/

/-- The lock `executeSagaStep` takes. -/
def stepLock (sagaId stepName : String) : String :=
  "saga_step:" ++ sagaId ++ ":" ++ stepName

/-- What `executeSagaStep` does under its lock. -/
def stepSection (sagaId stepName : String) (executeStep : Async App Unit) : Async App Unit := do
  let saga ← sagaRepository.findOne { id := some sagaId }
  match saga with
  | none => .throw (.error ("Saga not found: " ++ sagaId))
  | some saga =>
    if stepName ∈ saga.completedSteps then
      return ()
    else do
      let saga := { saga with currentStep := stepName }
      sagaRepository.save saga
      executeStep
      let saga := { saga with completedSteps := saga.completedSteps ++ [stepName] }
      sagaRepository.save saga
      setImmediate (.publishSagaEvent (.sagaStepCompleted sagaId stepName saga.completedSteps))

/-- The `catch` block of `executeSagaStep`. -/
def stepFailed (sagaId stepName : String) (error : Err) : Async App Unit := do
  logger (.stepFailed stepName sagaId)
  let saga ← sagaRepository.findOne { id := some sagaId }
  match saga with
  | some saga => handleSagaFailure saga stepName error.message
  | none => return ()

/-- Run a step of a saga, unless the saga has it among its completed steps. -/
def executeSagaStep (sagaId stepName : String) (executeStep : Async App Unit) :
    Async App Unit :=
  (withLock (stepLock sagaId stepName) (stepSection sagaId stepName executeStep)
    { ttl := 60000, retryCount := 2, retryDelay := 200 }).handle (stepFailed sagaId stepName)

/-- Mark a saga as completed.  The `catch` block of the source logs the error and throws
it again. -/
def completeSaga (sagaId : String) : Async App Unit := do
  let saga ← sagaRepository.findOne { id := some sagaId }
  match saga with
  | none => .throw (.error ("Saga not found: " ++ sagaId))
  | some saga =>
    if saga.status = .completed then
      return ()
    else do
      sagaRepository.save { saga with status := .completed, currentStep := "completed" }
      setImmediate
        (.publishSagaEvent (.sagaCompleted sagaId saga.correlationId saga.completedSteps))

end Failure

/-! ### Queries -/

/-- The saga with a correlation id, of one type if one is given; an absent correlation id is no
condition. -/
def findSagaByCorrelationId (correlationId sagaType : Option String) :
    Async App (Option SagaInstance) :=
  sagaRepository.findOne { correlationId, sagaType := truthy sagaType }

end SagaManager

end CqrsSaga
