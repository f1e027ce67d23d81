import CqrsSaga.Saga.Compensation

/-!
# What a call of `handleSagaFailure` leaves

What the three outcomes of a call say about the order of the messages, about the status
of the row and about the steps it lists as compensated.

## Main results

* `compensated_in_order` — **the steps are compensated last to first, up to the first that is not
  announced**, and the row tells which.
* `failure_settled` — **the saga is left `COMPENSATING` exactly where its failure is not
  announced.**
* `compensations_stored` — **the stored `compensationSteps` are the announced ones only where
  nothing had to be compensated.**
-/

namespace CqrsSaga

open SagaManager World

section Calls

variable [Hashes] {saga s : SagaInstance} {w : World} {i : ℕ}

/-- **The steps are compensated last to first, up to the first that is not announced.** -/
theorem compensated_in_order (hs : s ∈ w.sagas) (hid : saga.id = s.id)
    (hfree : ∀ t ∈ w.transactions, s.id ∉ t.locks) (failedStep errorMessage : String) :
    (compensating s.id i fun m => m.type ≠ "SagaFailed").Ends i (fun l _ w' =>
      ∃ x ∈ w'.sagas, x.id = s.id ∧ x.completedSteps = s.completedSteps ∧
        ((∃ b, l = (failureMessage s failedStep errorMessage, true) ::
            (s.completedSteps.reverse.map fun step => (stepMessage s step, true)) ++
              [(compensatedMessage s, b)] ∧ x.status = .compensated) ∨
          ∃ before step after e b, s.completedSteps.reverse = before ++ step :: after ∧
            l = (failureMessage s failedStep errorMessage, true) ::
              (before.map fun step => (stepMessage s step, true)) ++
                [(stepMessage s step, false), (finalFailureMessage s e, b)] ∧
            x.status = .failed ∧ x.errorMessage = some ("Compensation failed: " ++ e)))
      (handleSagaFailure saga failedStep errorMessage) [] w := by
  refine (Handling.handleSagaFailure_ends ⟨hs, rfl, hfree⟩ hid failedStep errorMessage).mono ?_
  rintro l r w' ⟨x, hx, hh⟩
  cases hh with
  | unsent u hb => exact absurd rfl hb
  | sent u hc =>
    cases hc with
    | compensated u b hb => exact ⟨_, hx.row, hx.id, rfl, Or.inl ⟨b, rfl, rfl⟩⟩
    | failed before step after e u b hsteps hb =>
      exact ⟨_, hx.row, hx.id, rfl, Or.inr ⟨before, step, after, e, b, hsteps, rfl, rfl, rfl⟩⟩

/-- The row is as it was, but for the time of its last update. -/
def SagaInstance.SameBut (x s : SagaInstance) : Prop := { x with updatedAt := s.updatedAt } = s

/-- The saga is stored as compensated or failed, or as it was in the row `s`. -/
def World.SettledSaga (w : World) (s : SagaInstance) : Prop :=
  ∃ x ∈ w.sagas, x.id = s.id ∧ (x.status = .compensated ∨ x.status = .failed ∨ x.SameBut s)

/-- **The saga is left `COMPENSATING` exactly where its failure is not announced**, unless it was
at this failure already. -/
theorem failure_settled (hs : s ∈ w.sagas) (hid : saga.id = s.id)
    (hfree : ∀ t ∈ w.transactions, s.id ∉ t.locks) (failedStep errorMessage : String) :
    (compensating s.id i fun _ => True).Ends i (fun l _ w' => w'.SettledSaga s ↔
      (failureMessage s failedStep errorMessage, true) ∈ l ∨
        (s.status = .compensating ∧ s.currentStep = failedStep ∧ s.errorMessage = some errorMessage))
      (handleSagaFailure saga failedStep errorMessage) [] w := by
  refine (Handling.handleSagaFailure_ends ⟨hs, rfl, hfree⟩ hid failedStep errorMessage).mono ?_
  rintro l r w' ⟨x, hx, hh⟩
  cases hh with
  | unsent u hb =>
    constructor
    · rintro ⟨x', hx', hid', hstatus⟩
      obtain rfl := Table.eq_of_pk hx' hx.row (hid'.trans hx.id.symm)
      rcases hstatus with h | h | h
      · exact nomatch h
      · exact nomatch h
      · right
        have hsame : ({ s.begun failedStep errorMessage with
            updatedAt := s.updatedAt } : SagaInstance) = s := h
        rw [← hsame]
        exact ⟨rfl, rfl, rfl⟩
    · rintro (h | ⟨hst, hstep, herr⟩)
      · simp at h
      · refine ⟨_, hx.row, hx.id, Or.inr (Or.inr ?_)⟩
        change ({ s.begun failedStep errorMessage with updatedAt := s.updatedAt } : SagaInstance) = s
        rw [SagaInstance.begun, ← hst, ← hstep, ← herr]
  | sent u hc =>
    refine ⟨fun _ => Or.inl List.mem_cons_self, fun _ => ?_⟩
    cases hc with
    | compensated u b hb => exact ⟨_, hx.row, hx.id, Or.inl rfl⟩
    | failed before step after e u b hsteps hb => exact ⟨_, hx.row, hx.id, Or.inr (Or.inl rfl)⟩

/-- **The stored `compensationSteps` are the announced ones only where nothing had to be
compensated**: the row that is written is another copy than the one the steps are noted in. -/
theorem compensations_stored (hs : s ∈ w.sagas) (hid : saga.id = s.id)
    (hfree : ∀ t ∈ w.transactions, s.id ∉ t.locks) (failedStep errorMessage : String) :
    (compensating s.id i fun _ => False).Ends i (fun l _ w' =>
      (compensatedMessage s, true) ∈ l ∧ ∃ x ∈ w'.sagas, x.id = s.id ∧ x.status = .compensated ∧
        (x.compensationSteps = s.compensations ↔ s.completedSteps = []))
      (handleSagaFailure saga failedStep errorMessage) [] w := by
  refine (Handling.handleSagaFailure_ends ⟨hs, rfl, hfree⟩ hid failedStep errorMessage).mono ?_
  rintro l r w' ⟨x, hx, hh⟩
  cases hh with
  | unsent u hb => exact hb.elim
  | sent u hc =>
    cases hc with
    | failed before step after e u b hsteps hb => exact hb.elim
    | compensated u b hb =>
      obtain rfl : b = true := by
        by_contra h
        exact hb (by simpa using h)
      refine ⟨by simp [compensatedMessage, SagaInstance.compensations, SagaInstance.begun], _, hx.row,
        hx.id, rfl, ?_⟩
      simp [SagaInstance.compensations, SagaInstance.begun]

end Calls

/-! ### Sagas with completed steps -/

section Samples

open Samples

/-- A payment was requested; the next step fails. -/
def oneStepDone : SagaInstance :=
  ⟨⟨"OrderProcessingSaga", "key-1", .started, {}, ["payment_processing"], [], "order_confirmation"⟩,
    "saga-1", none, 0, 0⟩

/-- The saga is stored. -/
def stepDoneStored : World := (World.empty 0).putSaga oneStepDone

theorem oneStepDone_mem : oneStepDone ∈ stepDoneStored.sagas :=
  (mem_putSaga _ _).mpr (Or.inl rfl)

theorem stepDoneStored_free : ∀ t ∈ stepDoneStored.transactions, "saga-1" ∉ t.locks := by
  decide +kernel

/-- The failure of the step is handled. -/
def oneFailure : Async App Unit :=
  handleSagaFailure oneStepDone "order_confirmation" "Order not found"

/-- The order is confirmed as well, and its payment was requested twice: the second request has
waited for the lock in vain. -/
def twoStepsDone : SagaInstance :=
  { oneStepDone with completedSteps := ["payment_processing", "order_confirmation"] }

/-- What the second request has thrown. -/
def lockMissed : String := "Failed to acquire lock: " ++ stepLock "saga-1" "payment_processing"

/-- That saga is stored. -/
def stepsDoneStored : World := (World.empty 0).putSaga twoStepsDone

theorem twoStepsDone_mem : twoStepsDone ∈ stepsDoneStored.sagas :=
  (mem_putSaga _ _).mpr (Or.inl rfl)

theorem stepsDoneStored_free : ∀ t ∈ stepsDoneStored.transactions, "saga-1" ∉ t.locks := by
  decide +kernel

theorem compensated_in_order_two : (compensating "saga-1" 0 fun m => m.type ≠ "SagaFailed").Ends 0
    (fun l _ w' => ∃ x ∈ w'.sagas, x.id = "saga-1" ∧
      x.completedSteps = ["payment_processing", "order_confirmation"] ∧
      ((∃ b, l = (failureMessage twoStepsDone "payment_processing" lockMissed, true) ::
          (["order_confirmation", "payment_processing"].map fun step =>
            (stepMessage twoStepsDone step, true)) ++
            [(compensatedMessage twoStepsDone, b)] ∧ x.status = .compensated) ∨
        ∃ before step after e b,
          ["order_confirmation", "payment_processing"] = before ++ step :: after ∧
          l = (failureMessage twoStepsDone "payment_processing" lockMissed, true) ::
            (before.map fun step => (stepMessage twoStepsDone step, true)) ++
              [(stepMessage twoStepsDone step, false), (finalFailureMessage twoStepsDone e, b)] ∧
          x.status = .failed ∧ x.errorMessage = some ("Compensation failed: " ++ e)))
    (handleSagaFailure twoStepsDone "payment_processing" lockMissed) [] stepsDoneStored :=
  compensated_in_order twoStepsDone_mem rfl stepsDoneStored_free _ _

theorem failure_settled_one : (compensating "saga-1" 0 fun _ => True).Ends 0
    (fun l _ w' => w'.SettledSaga oneStepDone ↔
      (failureMessage oneStepDone "order_confirmation" "Order not found", true) ∈ l ∨
        (oneStepDone.status = .compensating ∧ oneStepDone.currentStep = "order_confirmation" ∧
          oneStepDone.errorMessage = some "Order not found")) oneFailure [] stepDoneStored :=
  failure_settled oneStepDone_mem rfl stepDoneStored_free _ _

theorem compensations_stored_one : (compensating "saga-1" 0 fun _ => False).Ends 0 (fun l _ w' =>
    (compensatedMessage oneStepDone, true) ∈ l ∧ ∃ x ∈ w'.sagas, x.id = "saga-1" ∧
      x.status = .compensated ∧
        (x.compensationSteps = oneStepDone.compensations ↔ oneStepDone.completedSteps = []))
    oneFailure [] stepDoneStored :=
  compensations_stored oneStepDone_mem rfl stepDoneStored_free _ _

/-- The call is played, its operations meeting these choices. -/
def playFailure (bad : Message → Prop) [∀ m, Decidable (bad m)] (cs : List Choice) :
    Option (List (Message × Bool) × Except Err Unit × World) :=
  (compensating "saga-1" 0 bad).play 0 oneFailure cs [] stepDoneStored

/-- The first message is not sent. -/
def failureUnsent : List Choice :=
  List.replicate 5 ({} : Choice) ++
    { fault := some (.refused "broker down") } :: List.replicate 2 ({} : Choice)

theorem failureUnsent_played : (playFailure (fun _ => True) failureUnsent).isSome := by
  decide +kernel

theorem failureUnsent_rows : ∀ out ∈ playFailure (fun _ => True) failureUnsent,
    ∀ x ∈ out.2.2.sagas.rows, x.status = .compensating := by
  decide +kernel

/-- **A saga left `COMPENSATING`**: its failure was not announced. -/
theorem failure_stuck : ¬(compensating "saga-1" 0 fun _ => True).Ends 0
    (fun _ _ w' => w'.SettledSaga oneStepDone) oneFailure [] stepDoneStored := by
  intro h
  obtain ⟨⟨l, r, w'⟩, hp⟩ := Option.isSome_iff_exists.mp failureUnsent_played
  obtain ⟨x, hx, hid, hstatus⟩ := Solo.Ends.of_play (RowKept.refl "saga-1" 0) h hp
  have hc := failureUnsent_rows _ hp x (Table.mem_rows.mpr hx)
  rw [hc] at hstatus
  rcases hstatus with h | h | h
  · exact nomatch h
  · exact nomatch h
  · have hsame := congrArg (fun s : SagaInstance => s.status) h
    rw [hc] at hsame
    exact nomatch hsame

theorem failureSent_played : (playFailure (fun _ => False) (List.replicate 15 {})).isSome := by
  decide +kernel

theorem failureSent_rows : ∀ out ∈ playFailure (fun _ => False) (List.replicate 15 {}),
    ∀ x ∈ out.2.2.sagas.rows, x.compensationSteps = [] := by
  decide +kernel

/-- **A step is announced as compensated, and not stored as such.** -/
theorem compensation_forgotten : ¬(compensating "saga-1" 0 fun _ => False).Ends 0
    (fun _ _ w' => ∃ x ∈ w'.sagas, x.id = "saga-1" ∧ x.compensationSteps = oneStepDone.compensations)
    oneFailure [] stepDoneStored := by
  intro h
  obtain ⟨⟨l, r, w'⟩, hp⟩ := Option.isSome_iff_exists.mp failureSent_played
  obtain ⟨x, hx, -, hsteps⟩ := Solo.Ends.of_play (RowKept.refl "saga-1" 0) h hp
  rw [failureSent_rows _ hp x (Table.mem_rows.mpr hx)] at hsteps
  simp [oneStepDone, SagaInstance.compensations] at hsteps

end Samples

end CqrsSaga
