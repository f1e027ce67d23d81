import CqrsSaga.Saga.StepCalls

/-!
# Steps that lose each other's work

A call of `executeSagaStep` reads the row of its saga, runs its action and writes all
columns back, under a lock that only calls for the same step take.  Calls for different
steps of one saga may thus overwrite each other's `completedSteps`; the step that was
lost is run again by the next call for it.  Where the sections of different steps
do not overlap, this cannot happen.

## Main definitions

* `StepCalls.Separate` — a lock is taken only while no other step's lock is held.

## Main results

* `step_runs_once` — in separate runs, **an action runs to completion at most once, and a
  recorded step stays recorded.**
* `overlapping_steps_repeat` — without that, neither holds.
-/

namespace CqrsSaga

open SagaManager

section Apart

variable [Hashes] {sagaId : String}

namespace StepCalls

/-- The key of the lock an operation tries to take. -/
def takes : Op → Option String
  | .redisSet k _ _ => some k
  | _ => none

/-- The sections of different steps do not overlap: a call tries to take the lock of its
step only while no lock of another step is held. -/
def Separate (sagaId : String) (p : Pool (stepCalls sagaId)) : Action (stepCalls sagaId) → Prop
  | .run i _ => ∀ k ∈ (p.awaits i).bind takes, NoOther sagaId p.world k
  | _ => True

/-- The runs in which they do not. -/
def AllowedApart (sagaId : String) (p : Pool (stepCalls sagaId))
    (a : Action (stepCalls sagaId)) : Prop :=
  Allowed sagaId p a ∧ Separate sagaId p a

theorem apart_sound :
    (stepProtocol sagaId none).Sound (Fresh sagaId) (AllowedApart sagaId) := by
  refine sound (fun w hw => ⟨hw, fun h => absurd rfl h⟩) (fun p a ha => ha.1) ?_ ?_
    fun _ _ _ _ _ _ => rfl
  · intro p t s _ hs
    simp at hs
  · intro p i c k tok ttl ha hi _
    exact ha.2 k (by rw [hi]; rfl)

end StepCalls

open StepCalls in
/-- **An action runs at most once, and what is recorded stays recorded**, as long as the
sections of different steps do not overlap. -/
theorem step_runs_once {sagaId : String} {p : Pool (stepCalls sagaId)}
    (hp : Pool.Reachable (Fresh sagaId) (AllowedApart sagaId) p) (s : String) :
    p.world.executions sagaId s ≤ 1 ∧
      (p.world.Recorded sagaId s →
        ∀ p', Pool.Runs (AllowedApart sagaId) p p' → p'.world.Recorded sagaId s) := by
  obtain ⟨g, hH⟩ := apart_sound.reachable hp
  refine ⟨hH.inv.once s, fun hs p' hr => ?_⟩
  obtain ⟨g', -, hm, -⟩ := apart_sound.runs hH hr
  exact hm s hs

end Apart

/-! ### Two steps of one saga -/

open StepCalls

local instance : Hashes := sampleHashes

instance StepCalls.decidableSeparate {sagaId : String} (p : Pool (stepCalls sagaId)) :
    ∀ a, Decidable (Separate sagaId p a)
  | .start _ => isTrue trivial
  | .run i _ => inferInstanceAs (Decidable (∀ k ∈ (p.awaits i).bind takes, _))
  | .tick _ => isTrue trivial

/-- A saga of which no step is completed. -/
def freshSaga : SagaInstance := ⟨newSaga "T" "c" {} [], "saga-1", none, 0, 0⟩

/-- It is stored. -/
def oneSagaStored : World := (World.empty 0).putSaga freshSaga

/-- The calls for its steps. -/
abbrev sagaCalls : System app := stepCalls "saga-1"

/-- A call whose action has nothing to do. -/
def stepCall (stepName : String) : StepCall := ⟨stepName, .ret ()⟩

theorem oneSagaStored_fresh : Fresh "saga-1" oneSagaStored := ⟨rfl, fun _ => rfl⟩

/-- Two calls for one step: the second finds the lock taken, waits, and finds the step
completed. -/
def sameStep : List (Action sagaCalls) :=
  [.start (stepCall "payment_processing"), .start (stepCall "payment_processing"),
    .run 0 { text := "a" }, .run 1 { text := "b" }, .run 0 {}, .run 1 {}, .run 0 {}, .run 0 {},
    .run 0 {}, .run 0 {}, .run 0 {}, .run 0 {}, .run 1 {}, .run 1 {}, .run 1 {}, .run 1 {}]

instance StepCalls.decidableApart (p : Pool sagaCalls) (a : Action sagaCalls) :
    Decidable (Bare "saga-1" p a ∧ Separate "saga-1" p a) := instDecidableAnd

theorem sameStep_played : (Pool.play (fun p a => Bare "saga-1" p a ∧ Separate "saga-1" p a)
    ⟨oneSagaStored, []⟩ sameStep).isSome := by
  decide +kernel

/-- The calls after that. -/
def sameStepDone : Pool sagaCalls := (Pool.play _ ⟨oneSagaStored, []⟩ sameStep).get sameStep_played

/-- The action has run once, the step is recorded, and remains so. -/
theorem step_runs_once_twice :
    sameStepDone.world.executions "saga-1" "payment_processing" ≤ 1 ∧
      ∀ p', Pool.Runs (AllowedApart "saga-1") sameStepDone p' →
        p'.world.Recorded "saga-1" "payment_processing" := by
  have hreach : Pool.Reachable (Fresh "saga-1") (AllowedApart "saga-1") sameStepDone :=
    (Pool.reachable_of_play oneSagaStored_fresh sameStep_played).mono
      fun p a ha => ⟨allowed_of_bare ha.1, ha.2⟩
  obtain ⟨hle, hrec⟩ := step_runs_once hreach "payment_processing"
  exact ⟨hle, hrec (by decide +kernel)⟩

/-- Calls for two steps both read the row before either has recorded its step. -/
def overlap : List (Action sagaCalls) :=
  [.start (stepCall "payment_processing"), .start (stepCall "order_confirmation"),
    .run 0 { text := "a" }, .run 1 { text := "b" }, .run 0 {}, .run 1 {}, .run 0 {}, .run 1 {},
    .run 0 {}, .run 1 {}, .run 0 {}, .run 0 {}]

/-- The second call writes what it has read. -/
def overwrite : List (Action sagaCalls) := [.run 1 {}, .run 1 {}]

/-- A third call runs the first step again. -/
def runAgain : List (Action sagaCalls) :=
  [.run 0 {}, .run 0 {}, .start (stepCall "payment_processing"), .run 2 { text := "c" }, .run 2 {},
    .run 2 {}, .run 2 {}, .run 2 {}]

theorem overlap_played : (Pool.play (Bare "saga-1") ⟨oneSagaStored, []⟩ overlap).isSome := by
  decide +kernel

/-- The first step is recorded. -/
def overlapped : Pool sagaCalls := (Pool.play _ ⟨oneSagaStored, []⟩ overlap).get overlap_played

theorem overwrite_played : (Pool.play (Bare "saga-1") overlapped overwrite).isSome := by
  decide +kernel

/-- It no longer is. -/
def overwritten : Pool sagaCalls := (Pool.play _ overlapped overwrite).get overwrite_played

theorem runAgain_played : (Pool.play (Bare "saga-1") overwritten runAgain).isSome := by
  decide +kernel

/-- Its action has been run again. -/
def ranAgain : Pool sagaCalls := (Pool.play _ overwritten runAgain).get runAgain_played

/-- **A recorded step is lost, and its action runs twice.** -/
theorem overlapping_steps_repeat :
    Pool.Reachable (Fresh "saga-1") (Allowed "saga-1") overlapped ∧
    overlapped.world.Recorded "saga-1" "payment_processing" ∧
    Pool.Runs (Allowed "saga-1") overlapped overwritten ∧
    ¬overwritten.world.Recorded "saga-1" "payment_processing" ∧
    Pool.Runs (Allowed "saga-1") overwritten ranAgain ∧
    ranAgain.world.executions "saga-1" "payment_processing" = 2 := by
  have hruns : ∀ {p p' : Pool sagaCalls} {as : List (Action sagaCalls)},
      Pool.play (Bare "saga-1") p as = some p' → Pool.Runs (Allowed "saga-1") p p' :=
    fun h => (Pool.runs_of_play _ _ _ h).mono fun _ _ => allowed_of_bare
  refine ⟨⟨oneSagaStored, oneSagaStored_fresh, hruns (Option.some_get overlap_played).symm⟩,
    by decide +kernel, hruns (Option.some_get overwrite_played).symm, by decide +kernel,
    hruns (Option.some_get runAgain_played).symm, by decide +kernel⟩

end CqrsSaga
