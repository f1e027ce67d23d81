import CqrsSaga.Saga.LostUpdate

/-!
# Duplicates of one step

Any number of calls of `executeSagaStep` for one step of a saga, say because its event was
delivered more than once.  A call that meets another one in its section tries three times
to take the lock.  If the third attempt fails too, the call treats that as a failure of the
step, and compensates the saga while the other call is still at work.

## Main definitions

* `StepCalls.AllowedSame` — no operation and no action fails, and there is only one step.
* `StepCalls.Patient` — nobody gives up waiting for the lock.

## Main results

* `duplicates_harmless` — **where nobody gives up, the saga comes to no harm, and the step is
  recorded by the time any call has ended.**
* `duplicate_compensates` — where somebody does, the saga is compensated.
-/

namespace CqrsSaga

open SagaManager

section Same

variable [Hashes] {sagaId s : String}

namespace StepCalls

/-- All calls are for the same step, and only operations can make its actions fail. -/
def Same (sagaId s : String) : Action (stepCalls sagaId) → Prop
  | .start t => t.stepName = s ∧ t.action.NoThrow
  | _ => True

/-- The runs looked at: duplicates of one step, with nothing failing. -/
def AllowedSame (sagaId s : String) (p : Pool (stepCalls sagaId))
    (a : Action (stepCalls sagaId)) : Prop :=
  Allowed sagaId p a ∧ Same sagaId s a

/-- The operation comes after the last attempt to take a lock. -/
def givesUp : Op → Bool
  | .log (.lockNotAcquired _) => true
  | _ => false

/-- Nobody has tried for the last time to take a lock that was held. -/
def Patient (p : Pool (stepCalls sagaId)) : Action (stepCalls sagaId) → Prop
  | .run i _ => ∀ o ∈ p.awaits i, givesUp o = false
  | _ => True

/-- Initially the saga is stored, and nothing has gone wrong with it. -/
def FreshUnharmed (sagaId : String) (w : World) : Prop :=
  Fresh sagaId w ∧ w.Unharmed sagaId

theorem same_sound : (stepProtocol sagaId (some s)).Sound (FreshUnharmed sagaId)
    fun p a => AllowedSame sagaId s p a ∧ Patient p a := by
  refine sound (fun w hw => ⟨hw.1, fun _ => hw.2⟩) (fun p a ha => ha.1.1) ?_ ?_ ?_
  · intro p t s' ha hs
    obtain rfl := Option.some.inj hs
    exact ha.1.2
  · intro p i c k tok ttl _ _ hn
    simp at hn
  · intro p i c k ha hi
    have := ha.2 _ hi
    simp [givesUp] at this

end StepCalls

open StepCalls in
/-- **Duplicates do no harm**, as long as nobody gives up waiting for the lock. -/
theorem duplicates_harmless {p : Pool (stepCalls sagaId)}
    (hp : Pool.Reachable (FreshUnharmed sagaId)
      (fun p a => AllowedSame sagaId s p a ∧ Patient p a) p) :
    p.world.Unharmed sagaId ∧
      ∀ a ∈ p.acts, a.prog.awaited? = none → p.world.Recorded sagaId s := by
  obtain ⟨g, hH⟩ := same_sound.reachable hp
  refine ⟨(hH.inv.single s rfl).2, fun a ha hend => ?_⟩
  obtain ⟨i, hi⟩ := List.mem_iff_getElem?.mp ha
  obtain ⟨r, hr⟩ := Async.result?_isSome_of_awaited? hend
  exact hH.post hi hr s rfl

end Same

/-! ### A call gives up -/

open StepCalls

local instance : Hashes := sampleHashes

/-- All calls are for this step. -/
def StepCalls.ForStep (s : String) : Action sagaCalls → Prop
  | .start t => t.stepName = s
  | _ => True

instance StepCalls.decidableForStep (s : String) : ∀ a, Decidable (ForStep s a)
  | .start t => inferInstanceAs (Decidable (t.stepName = s))
  | .run _ _ => isTrue trivial
  | .tick _ => isTrue trivial

instance StepCalls.decidablePatient (p : Pool sagaCalls) : ∀ a, Decidable (Patient p a)
  | .start _ => isTrue trivial
  | .run i _ => inferInstanceAs (Decidable (∀ o ∈ p.awaits i, givesUp o = false))
  | .tick _ => isTrue trivial

/-- Duplicates whose actions have nothing to do. -/
def StepCalls.BareSame (p : Pool sagaCalls) (a : Action sagaCalls) : Prop :=
  Bare "saga-1" p a ∧ ForStep "payment_processing" a

instance (p : Pool sagaCalls) (a : Action sagaCalls) : Decidable (BareSame p a) :=
  instDecidableAnd

instance StepCalls.decidableBarePatient (p : Pool sagaCalls) (a : Action sagaCalls) :
    Decidable (BareSame p a ∧ Patient p a) := instDecidableAnd

theorem StepCalls.allowedSame_of_bare {p : Pool sagaCalls} {a : Action sagaCalls}
    (h : BareSame p a) : AllowedSame "saga-1" "payment_processing" p a := by
  refine ⟨allowed_of_bare h.1, ?_⟩
  cases a with
  | start t =>
    obtain ⟨s, action⟩ := t
    refine ⟨h.2, ?_⟩
    cases action with
    | ret _ => exact trivial
    | throw _ => simp [BareSame, Bare, Except.isOk, Except.toBool] at h
    | await _ _ => simp [BareSame, Bare] at h
  | run i c => exact trivial
  | tick d => exact trivial

theorem oneSagaStored_freshUnharmed : FreshUnharmed "saga-1" oneSagaStored := by
  refine ⟨oneSagaStored_fresh, ⟨freshSaga, List.mem_cons_self, rfl⟩, fun x hx _ => ?_⟩
  obtain rfl := List.mem_singleton.mp hx
  simp [freshSaga, newSaga, SagaStatus.Unharmed]

theorem sameStep_playedPatiently : (Pool.play (fun p a => BareSame p a ∧ Patient p a)
    ⟨oneSagaStored, []⟩ sameStep).isSome := by
  decide +kernel

/-- The second call has waited for the first, and done nothing. -/
theorem duplicates_harmless_twice :
    let p := (Pool.play _ ⟨oneSagaStored, []⟩ sameStep).get sameStep_playedPatiently
    p.world.Unharmed "saga-1" ∧ p.world.Recorded "saga-1" "payment_processing" := by
  have hreach := (Pool.reachable_of_play oneSagaStored_freshUnharmed sameStep_playedPatiently).mono
    fun p a ha => And.intro (allowedSame_of_bare ha.1) ha.2
  obtain ⟨hu, hrec⟩ := duplicates_harmless hreach
  exact ⟨hu, hrec _ (List.mem_cons_self ..) (by decide +kernel)⟩

/-- The second call finds the lock taken three times, while the first is in its section. -/
def giveUp : List (Action sagaCalls) :=
  [.start (stepCall "payment_processing"), .start (stepCall "payment_processing"),
    .run 0 { text := "a" }, .run 1 { text := "b" }, .run 0 {}, .run 0 {}, .run 0 {}] ++
  List.replicate 19 (.run 1 {})

theorem giveUp_played : (Pool.play BareSame ⟨oneSagaStored, []⟩ giveUp).isSome := by
  decide +kernel

/-- The calls after the second has given up. -/
def givenUp : Pool sagaCalls := (Pool.play _ ⟨oneSagaStored, []⟩ giveUp).get giveUp_played

/-- **A duplicate that gives up has the saga compensated.** -/
theorem duplicate_compensates :
    Pool.Reachable (FreshUnharmed "saga-1") (AllowedSame "saga-1" "payment_processing") givenUp ∧
      ∃ x ∈ givenUp.world.sagas, x.id = "saga-1" ∧ x.status = .compensated := by
  have hany : (givenUp.world.sagas.rows.any fun x => x.id = "saga-1" ∧ x.status = .compensated) =
      true := by
    decide +kernel
  obtain ⟨x, hx, hxs⟩ := List.any_eq_true.mp hany
  refine ⟨?_, x, hx, of_decide_eq_true hxs⟩
  exact (Pool.reachable_of_play oneSagaStored_freshUnharmed giveUp_played).mono
    fun _ _ => allowedSame_of_bare

end CqrsSaga
