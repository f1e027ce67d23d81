import CqrsSaga.Async.Solo
import CqrsSaga.App.Rows
import CqrsSaga.App.SagaManager

/-!
# A call of `handleSagaFailure`

The handling of a failure while nobody else touches the row of the saga, the database does what it
is asked, and messages to Kafka may fail to be sent.  Three things can become of it: the first
message is not sent, one of the compensated steps is not announced, or all of them are.  The
row then ends `COMPENSATING`, `FAILED` or `COMPENSATED`.

## Main definitions

* `World.RowKept` — what others may do in the meantime.
* `compensating` — the circumstances of the call; what is noted is the messages, and whether
  they were sent.
* `Compensation` — the three outcomes.

## Main results

* `handleSagaFailure_ends` — **every call ends in one of the three.**
-/

namespace CqrsSaga

open SagaManager KafkaService

/-- The message an operation sends. -/
def Op.message? : Op → Option Message
  | .kafkaSend _ _ m => some m
  | _ => none

/-- The message an operation was to send, and whether it was sent. -/
def Op.sent (o : Op) (r : Except Err (Op.Val o)) : List (Message × Bool) :=
  o.message?.toList.map fun m => (m, r.isOk)

namespace World

/-- The row of the saga `y` is not touched: it is as it was, nobody has locked it, and the
transactions of activity `i` are as they were. -/
structure RowKept (y : String) (i : ℕ) (w w' : World) : Prop where
  row : ∀ s, s.id = y → (s ∈ w'.sagas ↔ s ∈ w.sagas)
  locks : ∀ t ∈ w'.transactions, y ∈ t.locks → t ∈ w.transactions
  own : ∀ n, w.Owner i n → w'.transaction n = w.transaction n
  runners : w.runners <+: w'.runners

theorem RowKept.refl (y : String) (i : ℕ) (w : World) : RowKept y i w w :=
  ⟨fun _ _ => Iff.rfl, fun _ h _ => h, fun _ _ => rfl, List.prefix_rfl⟩

/-- The saga is stored as `x`, and nobody has locked the row. -/
structure RowFree (y : String) (x : SagaInstance) (w : World) : Prop where
  row : x ∈ w.sagas
  id : x.id = y
  free : ∀ t ∈ w.transactions, y ∉ t.locks

/-- The saga is stored as `x`, and activity `i` has a transaction on the query runner `n` that will
write these rows; nobody else has locked the row. -/
structure Writing (y : String) (x : SagaInstance) (i n : ℕ) (ss : List SagaInstance) (w : World) :
    Prop where
  row : x ∈ w.sagas
  id : x.id = y
  owner : w.Owner i n
  open_ : ∃ t, w.transaction n = some t ∧ t.writes = ss
  free : ∀ t ∈ w.transactions, y ∈ t.locks → t.runner = n

/-- The saga is stored as `x`, nobody has locked the row, and the transaction on the query runner
`n` has ended. -/
structure Ended (y : String) (x : SagaInstance) (i n : ℕ) (w : World) : Prop
    extends RowFree y x w where
  owner : w.Owner i n
  closed : w.transaction n = none

variable {y : String} {x : SagaInstance} {i n : ℕ} {ss : List SagaInstance} {w w' : World}

theorem RowFree.kept (h : RowFree y x w) (hk : RowKept y i w w') : RowFree y x w' :=
  ⟨(hk.row x h.id).mpr h.row, h.id, fun t ht hy => h.free t (hk.locks t ht hy) hy⟩

theorem Writing.kept (h : Writing y x i n ss w) (hk : RowKept y i w w') :
    Writing y x i n ss w' where
  row := (hk.row x h.id).mpr h.row
  id := h.id
  owner := h.owner.later hk.runners
  open_ := by
    rw [hk.own n h.owner]
    exact h.open_
  free := fun t ht hy => h.free t (hk.locks t ht hy) hy

theorem Ended.kept (h : Ended y x i n w) (hk : RowKept y i w w') : Ended y x i n w' :=
  ⟨h.toRowFree.kept hk, h.owner.later hk.runners, (hk.own n h.owner).trans h.closed⟩

/-- Ending the transaction that has locked the row leaves it unlocked. -/
theorem Writing.ended (h : Writing y x i n ss w) : Ended y x i n (w.endTransaction n) where
  row := h.row
  id := h.id
  owner := h.owner
  free := by
    intro t ht hy
    obtain ⟨ht, hne⟩ := List.mem_filter.mp ht
    exact of_decide_eq_true hne (h.free t ht hy)
  closed := by
    refine List.find?_eq_none.mpr fun t ht => ?_
    simpa using (List.mem_filter.mp ht).2

theorem RowFree.endTransaction (h : RowFree y x w) (n : ℕ) : RowFree y x (w.endTransaction n) :=
  ⟨h.row, h.id, fun t ht => h.free t (List.mem_filter.mp ht).1⟩

end World

/-- The circumstances of a call: nobody touches the row of the saga `y`, the database does what it
is asked, and of the messages only the ones that satisfy `bad` may fail to be sent. -/
def compensating (y : String) (i : ℕ) (bad : Message → Prop) : Solo app (Message × Bool) where
  Aside := World.RowKept y i
  Can := fun _ o c => c.fault ≠ none → ∃ m ∈ o.message?, bad m
  note := Op.sent

instance (y : String) (i : ℕ) (bad : Message → Prop) [∀ m, Decidable (bad m)] (w : World) (o : Op)
    (c : Choice) : Decidable ((compensating y i bad).Can w o c) :=
  inferInstanceAs (Decidable (c.fault ≠ none → ∃ m ∈ o.message?, bad m))

namespace Handling

open World Solo

variable {y : String} {x : SagaInstance} {i n : ℕ} {ss : List SagaInstance} {w w' : World}
  {bad : Message → Prop} {l : List (Message × Bool)}

/-- An operation that sends nothing is performed. -/
theorem perform_ends {o : Op} {Q : List (Message × Bool) → Except Err (Op.Val o) → World → Prop}
    (ho : o.message? = none) (h : ∀ w', RowKept y i w w' → ∃ v r ts,
      (∀ c, w'.perform i c o = some (v, r, ts)) ∧ Q l r v) :
    (compensating y i bad).Ends i Q (Async.perform (S := App) o) l w := by
  refine .perform fun w' hw => ?_
  obtain ⟨v, r, ts, hp, hQ⟩ := h w' hw
  refine ⟨⟨{}, _, fun h => absurd rfl h, hp {}⟩, fun c v' r' ts' hc he => ?_⟩
  have hfault : c.fault = none := by
    by_contra hne
    obtain ⟨m, hm, -⟩ := hc hne
    rw [ho] at hm
    simp at hm
  have he' := (exec_eq_perform hfault).symm.trans he
  rw [hp c] at he'
  simp only [Option.some.injEq, Prod.mk.injEq] at he'
  obtain ⟨rfl, rfl, -⟩ := he'
  have hnote : (compensating y i bad).note o r = [] := by
    simp [compensating, Op.sent, ho]
  rw [hnote, List.append_nil]
  exact hQ

theorem connect_ends (h : RowFree y x w) : (compensating y i bad).Ends i
    (Ends.Returns fun l' n w' => l' = l ∧ RowFree y x w' ∧ w'.Owner i n) queryRunner.connect l w := by
  refine perform_ends rfl fun w' hw => ⟨_, _, _, fun c => rfl, _, rfl, rfl, ?_, ?_⟩
  · have hk := h.kept hw
    exact ⟨hk.row, hk.id, hk.free⟩
  · exact List.getElem?_concat_length

theorem startTransaction_ends (h : RowFree y x w) (ho : w.Owner i n) :
    (compensating y i bad).Ends i (Ends.Returns fun l' _ w' => l' = l ∧ Writing y x i n [] w')
      (queryRunner.startTransaction n) l w := by
  refine perform_ends rfl fun w' hw => ⟨_, _, _, fun c => rfl, _, rfl, rfl, ?_⟩
  have hk := h.kept hw
  refine ⟨hk.row, hk.id, ho.later hw.runners, ⟨_, w'.transaction_set ⟨n, [], []⟩, rfl⟩,
    fun t ht hy => ?_⟩
  rcases List.mem_cons.mp ht with rfl | ht
  · rfl
  · exact absurd hy (hk.free t (List.mem_filter.mp ht).1)

/-- The row is not locked by anybody else. -/
theorem not_lockedBy (h : Writing y x i n ss w) : w.lockedBy (some n) y = false := by
  by_contra hl
  obtain ⟨t, ht, hb⟩ := List.any_eq_true.mp (by simpa using hl : w.lockedBy (some n) y = true)
  simp only [Bool.and_eq_true, decide_eq_true_eq, ne_eq, Option.some.injEq] at hb
  exact hb.1 (h.free t ht hb.2)

/-- The transaction takes locks on the row, or has more to write. -/
theorem setTransaction_writing {t : Transaction} (h : Writing y x i n ss w)
    (ht : w.transaction n = some t) (ls : List String) (ss' : List SagaInstance) :
    Writing y x i n ss' (w.setTransaction { t with locks := ls, writes := ss' }) := by
  obtain ⟨-, rfl⟩ := mem_of_transaction ht
  refine ⟨h.row, h.id, h.owner, ⟨_, w.transaction_set _, rfl⟩, fun u hu hy => ?_⟩
  rcases List.mem_cons.mp hu with rfl | hu
  · rfl
  · exact h.free u (List.mem_filter.mp hu).1 hy

theorem findOne_ends (h : Writing y x i n ss w) : (compensating y i bad).Ends i
    (Ends.Returns fun l' s w' => l' = l ∧ s = some x ∧ Writing y x i n ss w')
      (queryRunner.findOne n y) l w := by
  refine perform_ends rfl fun w' hw => ?_
  have hk := h.kept hw
  obtain ⟨t, ht, rfl⟩ := hk.open_
  have hfind : w'.sagas.find? (fun s => decide (s.id = y)) = some x := by
    refine Table.find?_eq_some hk.row (decide_eq_true hk.id) fun s hs hid => ?_
    exact Table.eq_of_pk hs hk.row ((of_decide_eq_true hid).trans hk.id.symm)
  refine ⟨_, .ok (some x), [], fun c => ?_, some x, rfl, rfl, rfl,
    setTransaction_writing hk ht (y :: t.locks) _⟩
  simp [World.perform, txFindSaga, ht, not_lockedBy hk, hfind]
  rfl

theorem save_ends {s : SagaInstance} (hs : s.id = y) (h : Writing y x i n ss w) :
    (compensating y i bad).Ends i
      (Ends.Returns fun l' _ w' => l' = l ∧ Writing y x i n (ss ++ [s]) w')
      (queryRunner.save n s) l w := by
  subst hs
  refine perform_ends rfl fun w' hw => ?_
  have hk := h.kept hw
  obtain ⟨t, ht, rfl⟩ := hk.open_
  refine ⟨_, .ok (), [], fun c => ?_, (), rfl, rfl,
    setTransaction_writing hk ht (s.id :: t.locks) _⟩
  simp [World.perform, txSaveSaga, ht, not_lockedBy hk]
  rfl

/-- The row that was saved is stored. -/
theorem commit_ends {s : SagaInstance} (h : Writing y x i n [s] w) (hs : s.id = y) :
    (compensating y i bad).Ends i
      (Ends.Returns fun l' _ w' => l' = l ∧ ∃ u, Ended y { s with updatedAt := u } i n w')
      (queryRunner.commitTransaction n) l w := by
  subst hs
  refine perform_ends rfl fun w' hw => ?_
  have hk := h.kept hw
  obtain ⟨t, ht, hwrites⟩ := hk.open_
  have hended := hk.ended
  have hcommit : w'.commit n = ((w'.endTransaction n).putSaga s, .ok ()) := by
    simp [World.commit, ht, hwrites]
  obtain ⟨u, hu⟩ := putSaga_only (w'.endTransaction n) s
  refine ⟨(w'.endTransaction n).putSaga s, .ok (), [], fun c => ?_, (), rfl, rfl, w'.clock,
    ⟨?_, rfl, ?_⟩, ?_, ?_⟩
  · simp [World.perform, hcommit]
    rfl
  · exact (mem_putSaga (w'.endTransaction n) s).mpr (Or.inl rfl)
  · rw [hu]
    exact hended.free
  · rw [hu]
    exact hended.owner
  · rw [hu]
    exact hended.closed

/-- A transaction that is open is rolled back. -/
theorem rollback_ends (h : Writing y x i n ss w) : (compensating y i bad).Ends i
    (Ends.Returns fun l' _ w' => l' = l ∧ RowFree y x w')
    (queryRunner.rollbackTransaction n) l w := by
  refine perform_ends rfl fun w' hw => ?_
  have hk := h.kept hw
  obtain ⟨t, ht, -⟩ := hk.open_
  refine ⟨w'.endTransaction n, .ok (), [], fun c => ?_, (), rfl, rfl, hk.ended.toRowFree⟩
  simp [World.perform, rollback, ht]
  rfl

/-- One that has ended cannot be. -/
theorem rollback_throws (h : Ended y x i n w) : (compensating y i bad).Ends i
    (fun l' r w' => r = .error .transactionNotStarted ∧ l' = l ∧ Ended y x i n w')
      (queryRunner.rollbackTransaction n) l w := by
  refine perform_ends rfl fun w' hw => ?_
  have hk := h.kept hw
  refine ⟨w', .error .transactionNotStarted, [], fun c => ?_, rfl, rfl, hk⟩
  simp [World.perform, rollback, hk.closed]
  rfl

/-- The query runner is given back. -/
theorem release_ends (h : RowFree y x w) (n : ℕ) : (compensating y i bad).Ends i
    (Ends.Returns fun l' _ w' => l' = l ∧ RowFree y x w') (queryRunner.release n) l w :=
  perform_ends rfl fun _ hw => ⟨_, _, _, fun _ => rfl, (), rfl, rfl, (h.kept hw).endTransaction n⟩

/-- A message is sent, or is not. -/
theorem publish_ends [Hashes] {A : World → Prop} (hA : ∀ w w', RowKept y i w w' → A w → A w')
    (topic : String) (m : Message) (h : A w) : (compensating y i bad).Ends i (fun l' r w' => A w' ∧
      (r = .ok () ∧ l' = l ++ [(m, true)] ∨
        ∃ e, r = .error (.injected e) ∧ bad m ∧ l' = l ++ [(m, false)])) (publish topic m) l w := by
  refine .perform fun w' hw => ?_
  have hsent : ∀ w : World, RowKept y i w { w with
      kafka := w.kafka ++ [⟨selectTopic topic m, messageKey m, m⟩] } :=
    fun w => ⟨fun _ _ => Iff.rfl, fun _ h _ => h, fun _ _ => rfl, List.prefix_rfl⟩
  refine ⟨⟨{}, _, fun h => absurd rfl h, rfl⟩, fun c v r ts hc he => ?_⟩
  rcases exec_cases_of_not_redis he rfl with ⟨-, hp⟩ | ⟨e, hf, rfl, rfl, -⟩
  · simp only [World.perform, Option.some.injEq, Prod.mk.injEq] at hp
    obtain ⟨rfl, rfl, -⟩ := hp
    exact ⟨hA _ _ (hsent w') (hA w w' hw h), Or.inl ⟨rfl, rfl⟩⟩
  · obtain ⟨m', hm, hb⟩ := hc (by simp [hf])
    obtain rfl := Option.some.inj hm
    exact ⟨hA w _ hw h, Or.inr ⟨e, rfl, hb, rfl⟩⟩

end Handling

/-! ### The outcomes -/

/-- A step is announced as compensated. -/
def stepMessage (saga : SagaInstance) (stepName : String) : Message :=
  .sagaStepCompensated saga.id ("compensate_" ++ stepName)

/-- What a saga that was compensated notes in `compensationSteps`. -/
def SagaInstance.compensations (saga : SagaInstance) : List String :=
  saga.compensationSteps ++ saga.completedSteps.reverse.map fun stepName => "compensate_" ++ stepName

/-- The saga is announced as compensated. -/
def compensatedMessage (saga : SagaInstance) : Message :=
  .sagaCompensated saga.id saga.correlationId saga.compensations

/-- The compensation of the saga is announced as failed. -/
def finalFailureMessage (saga : SagaInstance) (errorMessage : String) : Message :=
  .sagaCompensationFailed saga.id saga.correlationId (some ("Compensation failed: " ++ errorMessage))

/-- The saga with a step that has failed. -/
def SagaInstance.begun (s : SagaInstance) (failedStep errorMessage : String) : SagaInstance :=
  { s with status := .compensating, currentStep := failedStep, errorMessage := some errorMessage }

/-- The failure is announced. -/
def failureMessage (s : SagaInstance) (failedStep errorMessage : String) : Message :=
  .sagaFailed s.id s.correlationId failedStep errorMessage

/-- What becomes of the compensation of `saga`, stored as `x`: the messages, and the row. -/
inductive Compensation (bad : Message → Prop) (saga x : SagaInstance) :
    List (Message × Bool) → SagaInstance → Prop
  /-- All steps are compensated, the last one first. -/
  | compensated (u : ℕ) (b : Bool) (hb : b = false → bad (compensatedMessage saga)) :
    Compensation bad saga x
      ((saga.completedSteps.reverse.map fun stepName => (stepMessage saga stepName, true)) ++
        [(compensatedMessage saga, b)]) { x with status := .compensated, updatedAt := u }
  /-- A step is not announced. -/
  | failed (before : List String) (stepName : String) (after : List String) (e : String) (u : ℕ)
      (b : Bool) (h : saga.completedSteps.reverse = before ++ stepName :: after)
      (hb : bad (stepMessage saga stepName)) :
    Compensation bad saga x ((before.map fun stepName => (stepMessage saga stepName, true)) ++
        [(stepMessage saga stepName, false), (finalFailureMessage saga e, b)])
      { x with
        status := .failed, errorMessage := some ("Compensation failed: " ++ e), updatedAt := u }

/-- What becomes of a call for the saga stored as `s`: the messages, and the row. -/
inductive Handled (bad : Message → Prop) (s : SagaInstance) (failedStep errorMessage : String) :
    List (Message × Bool) → SagaInstance → Prop
  /-- The failure is not announced, and nothing is compensated. -/
  | unsent (u : ℕ) (hb : bad (failureMessage s failedStep errorMessage)) :
    Handled bad s failedStep errorMessage [(failureMessage s failedStep errorMessage, false)]
      { s.begun failedStep errorMessage with updatedAt := u }
  | sent (u : ℕ) {ms : List (Message × Bool)} {x : SagaInstance}
      (h : Compensation bad (s.begun failedStep errorMessage)
        { s.begun failedStep errorMessage with updatedAt := u } ms x) :
    Handled bad s failedStep errorMessage ((failureMessage s failedStep errorMessage, true) :: ms) x

namespace Handling

open World Solo

variable {y : String} {x saga : SagaInstance} {i n : ℕ} {w : World} {bad : Message → Prop}
  {l : List (Message × Bool)}

/-- The row is stored, unlocked, and fits what was noted. -/
def Stored (y : String) (K : List (Message × Bool) → SagaInstance → Prop) {α : Type}
    (l : List (Message × Bool)) (_ : Except Err α) (w : World) : Prop :=
  ∃ x, RowFree y x w ∧ K l x

/-- A transaction, with what its `catch` block does and the query runner given back. -/
theorem inTransaction_ends {block : Async App Unit} {recover : Err → Async App Unit}
    {R : List (Message × Bool) → Except Err Unit → World → Prop}
    {K : List (Message × Bool) → SagaInstance → Prop}
    (hb : (compensating y i bad).Ends i R block l w)
    (hok : ∀ l w, R l (.ok ()) w → ∃ x, RowFree y x w ∧ K l x)
    (herr : ∀ l e w, R l (.error e) w → (compensating y i bad).Ends i (Stored y K)
      ((queryRunner.rollbackTransaction n).bind fun _ => recover e) l w) :
    (compensating y i bad).Ends i (Stored y K) (inTransaction n block recover) l w := by
  refine .andFinally (Stored y K) (.handle R hb herr fun l _ w h => hok l w h) ?_
  rintro l r w ⟨x, hx, hK⟩
  refine (release_ends hx n).mono ?_
  rintro l' s w' ⟨-, rfl, rfl, hx'⟩
  exact ⟨x, hx', hK⟩

/-- A transaction that has ended before the error is not rolled back, and the error gives way to
that of the rollback. -/
theorem after_commit {α : Type} {recover : Unit → Async App α}
    {K : List (Message × Bool) → SagaInstance → Prop} (h : Ended y x i n w) (hK : K l x) :
    (compensating y i bad).Ends i (Stored y K)
      ((queryRunner.rollbackTransaction n).bind recover) l w := by
  refine .bind _ (rollback_throws h) ?_ ?_
  · rintro l' a w' ⟨ha, -⟩
    exact nomatch ha
  · rintro l' e w' ⟨-, rfl, hx⟩
    exact ⟨x, hx.toRowFree, hK⟩

/-- Whether or not the transaction is still open: the error goes on, and the row is as it was. -/
theorem rethrown {K : List (Message × Bool) → SagaInstance → Prop} {n : ℕ} {e : Err}
    (h : RowFree y x w) (hK : K l x) : (compensating y i bad).Ends i (Stored y K)
      ((queryRunner.rollbackTransaction n).bind fun _ => (.throw e : Async App Unit)) l w := by
  refine .bind (Stored y K) (perform_ends rfl fun w' hw => ?_) (fun _ _ _ h => h) fun _ _ _ h => h
  have hk := h.kept hw
  refine ⟨(w'.rollback n).1, (w'.rollback n).2, [], fun c => rfl, x, ?_, hK⟩
  unfold rollback
  split
  · exact hk
  · exact hk.endTransaction n

variable [Hashes]

/-- The saga is marked as failed for good. -/
theorem markSagaAsFinalFailure_ends (h : RowFree y x w) (hid : saga.id = y) (e : String) :
    (compensating y i bad).Ends i (Stored y fun l' x' => ∃ u b,
      l' = l ++ [(finalFailureMessage saga e, b)] ∧ x' = { x with
        status := .failed, errorMessage := some ("Compensation failed: " ++ e), updatedAt := u })
      (markSagaAsFinalFailure saga e) l w := by
  subst hid
  refine .next (connect_ends h) ?_
  rintro l n w ⟨rfl, h, ho⟩
  refine .next (startTransaction_ends h ho) ?_
  rintro l - w ⟨rfl, h⟩
  refine inTransaction_ends (R := fun l' r w' => ∃ u b, l' = l ++ [(finalFailureMessage saga e, b)] ∧
    Ended saga.id { x with
      status := .failed, errorMessage := some ("Compensation failed: " ++ e), updatedAt := u } i n w')
    ?_ ?_ ?_
  · refine .next (findOne_ends h) ?_
    rintro l _ w ⟨rfl, rfl, h⟩
    refine .next (save_ends h.id h) ?_
    rintro l - w ⟨rfl, h⟩
    refine .next (commit_ends h h.id) ?_
    rintro l - w ⟨rfl, u, h⟩
    refine (publish_ends (fun _ _ hk h => h.kept hk) _ _ h).mono ?_
    rintro l' r w' ⟨h, ⟨-, rfl⟩ | ⟨e, -, -, rfl⟩⟩
    · exact ⟨u, true, rfl, h⟩
    · exact ⟨u, false, rfl, h⟩
  · rintro l' w' ⟨u, b, hl, h⟩
    exact ⟨_, h.toRowFree, u, b, hl, rfl⟩
  · rintro l' e w' ⟨u, b, hl, h⟩
    exact after_commit h ⟨u, b, hl, rfl⟩

/-- A step is announced as compensated, or is not. -/
theorem compensateStep_ends {A : World → Prop} (hA : ∀ w w', RowKept y i w w' → A w → A w')
    (saga : SagaInstance) (step : String) (h : A w) : (compensating y i bad).Ends i
      (fun l' r w' => A w' ∧ ((r = .ok { saga with
          compensationSteps := saga.compensationSteps ++ ["compensate_" ++ step] } ∧
        l' = l ++ [(stepMessage saga step, true)]) ∨ ∃ e, r = .error (.injected e) ∧
          bad (stepMessage saga step) ∧ l' = l ++ [(stepMessage saga step, false)]))
      (compensateStep saga step) l w := by
  refine .bind _ (publish_ends hA "saga-events" (stepMessage saga step) h) ?_ ?_
  · rintro l' _ w' ⟨h, ⟨-, rfl⟩ | ⟨e, hr, -⟩⟩
    · exact ⟨h, Or.inl ⟨rfl, rfl⟩⟩
    · exact nomatch hr
  · rintro l' e w' ⟨h, ⟨hr, -⟩ | ⟨e', hr, hb, rfl⟩⟩
    · exact nomatch hr
    · exact ⟨h, Or.inr ⟨e', by rw [Except.error.inj hr], hb, rfl⟩⟩

/-- Steps are announced as compensated one after the other, until one is not. -/
theorem compensateSteps_ends {A : World → Prop} (hA : ∀ w w', RowKept y i w w' → A w → A w') :
    ∀ (steps : List String) (saga : SagaInstance) (l : List (Message × Bool)) (w : World), A w →
      (compensating y i bad).Ends i (fun l' r w' => A w' ∧
        ((r = .ok { saga with compensationSteps :=
            saga.compensationSteps ++ steps.map (fun stepName => "compensate_" ++ stepName) } ∧
          l' = l ++ steps.map fun stepName => (stepMessage saga stepName, true)) ∨
        ∃ e before stepName after, r = .error (.injected e) ∧ steps = before ++ stepName :: after ∧
          bad (stepMessage saga stepName) ∧
          l' = l ++ (before.map fun stepName => (stepMessage saga stepName, true)) ++
            [(stepMessage saga stepName, false)])) (compensateSteps steps saga) l w := by
  intro steps
  induction steps with
  | nil => exact fun saga l w h => ⟨h, Or.inl (by simp)⟩
  | cons step steps ih =>
    intro saga l w h
    refine .bind _ (compensateStep_ends hA saga step h) ?_ ?_
    · rintro l' s w' ⟨h, ⟨hr, rfl⟩ | ⟨e, hr, -⟩⟩
      · obtain rfl := Except.ok.inj hr
        refine (ih _ _ w' h).mono ?_
        rintro l'' r w'' ⟨h, ⟨rfl, rfl⟩ | ⟨e, before, stepName, after, rfl, rfl, hb, rfl⟩⟩
        · exact ⟨h, Or.inl (by simp [stepMessage])⟩
        · exact ⟨h, Or.inr ⟨e, step :: before, stepName, after, rfl, rfl, hb, by simp [stepMessage]⟩⟩
      · exact nomatch hr
    · rintro l' e w' ⟨h, ⟨hr, -⟩ | ⟨e', hr, hb, rfl⟩⟩
      · exact nomatch hr
      · refine ⟨h, Or.inr ⟨e', [], step, steps, ?_, rfl, hb, by simp⟩⟩
        rw [Except.error.inj hr]

/-- What is left of the compensation once a step was not announced. -/
theorem compensationFailed_ends {before after : List String} {stepName e : String}
    (h : Writing y x i n [] w) (hid : saga.id = y)
    (hsteps : saga.completedSteps.reverse = before ++ stepName :: after)
    (hb : bad (stepMessage saga stepName)) {l₀ : List (Message × Bool)}
    (hl : l = l₀ ++ (before.map fun stepName => (stepMessage saga stepName, true)) ++
      [(stepMessage saga stepName, false)]) :
    (compensating y i bad).Ends i
      (Stored y fun l' x' => ∃ ms, l' = l₀ ++ ms ∧ Compensation bad saga x ms x')
      ((queryRunner.rollbackTransaction n).bind fun _ => markSagaAsFinalFailure saga e) l w := by
  refine .next (rollback_ends h) ?_
  rintro l - w ⟨rfl, h⟩
  refine (markSagaAsFinalFailure_ends h hid e).mono ?_
  rintro l' r w' ⟨x', h', u, b, rfl, rfl⟩
  refine ⟨_, h', _, ?_, .failed before stepName after e u b hsteps hb⟩
  rw [hl]
  simp

/-- The saga is compensated, or marked as failed for good. -/
theorem startCompensation_ends (h : RowFree y x w) (hid : saga.id = y) :
    (compensating y i bad).Ends i
      (Stored y fun l' x' => ∃ ms, l' = l ++ ms ∧ Compensation bad saga x ms x')
      (startCompensation saga) l w := by
  subst hid
  refine .next (connect_ends h) ?_
  rintro l n w ⟨rfl, h, ho⟩
  refine .next (startTransaction_ends h ho) ?_
  rintro l - w ⟨rfl, h⟩
  -- either a step was not announced, with the transaction still open, or all is committed
  refine inTransaction_ends (R := fun l' r w' =>
    (∃ e before stepName after, r = .error (.injected e) ∧ Writing saga.id x i n [] w' ∧
      saga.completedSteps.reverse = before ++ stepName :: after ∧ bad (stepMessage saga stepName) ∧
      l' = l ++ (before.map fun stepName => (stepMessage saga stepName, true)) ++
        [(stepMessage saga stepName, false)]) ∨
    ∃ ms x', l' = l ++ ms ∧ Compensation bad saga x ms x' ∧ Ended saga.id x' i n w') ?_ ?_ ?_
  · refine .bind _ (compensateSteps_ends (fun _ _ hk h => h.kept hk) _ saga l w h) ?_ ?_
    · rintro l' s w' ⟨h, ⟨hr, rfl⟩ | ⟨e, before, stepName, after, hr, -⟩⟩
      · obtain rfl := Except.ok.inj hr
        refine .next (findOne_ends h) ?_
        rintro l' _ w ⟨rfl, rfl, h⟩
        refine .next (save_ends h.id h) ?_
        rintro l' - w ⟨rfl, h⟩
        refine .next (commit_ends h h.id) ?_
        rintro l' - w ⟨rfl, u, h⟩
        refine (publish_ends (fun _ _ hk h => h.kept hk) "saga-events" (compensatedMessage saga)
          h).mono ?_
        rintro l' r w' ⟨h, ⟨-, rfl⟩ | ⟨e, -, hb, rfl⟩⟩
        · exact Or.inr ⟨_, _, List.append_assoc .., .compensated u true (fun h => nomatch h), h⟩
        · exact Or.inr ⟨_, _, List.append_assoc .., .compensated u false (fun _ => hb), h⟩
      · exact nomatch hr
    · rintro l' e w' ⟨h, ⟨hr, -⟩ | ⟨e', before, stepName, after, hr, hsteps, hb, rfl⟩⟩
      · exact nomatch hr
      · exact Or.inl ⟨e', before, stepName, after, by rw [Except.error.inj hr], h, hsteps, hb, rfl⟩
  · rintro l' w' (⟨e, before, stepName, after, hr, -⟩ | ⟨ms, x', rfl, hc, h⟩)
    · exact nomatch hr
    · exact ⟨x', h.toRowFree, ms, rfl, hc⟩
  · rintro l' e w' (⟨e', before, stepName, after, hr, h, hsteps, hb, hl⟩ | ⟨ms, x', rfl, hc, h⟩)
    · exact compensationFailed_ends h rfl hsteps hb hl
    · exact after_commit h ⟨ms, rfl, hc⟩

/-- **A call of `handleSagaFailure`** ends in one of the three ways. -/
theorem handleSagaFailure_ends {s : SagaInstance} (h : RowFree y s w) (hid : saga.id = y)
    (failedStep errorMessage : String) : (compensating y i bad).Ends i
      (Stored y (Handled bad s failedStep errorMessage))
      (handleSagaFailure saga failedStep errorMessage) [] w := by
  subst hid
  refine .next (connect_ends h) ?_
  rintro l n w ⟨rfl, h, ho⟩
  refine .next (startTransaction_ends h ho) ?_
  rintro l - w ⟨rfl, h⟩
  refine inTransaction_ends (R := Stored saga.id (Handled bad s failedStep errorMessage)) ?_ ?_ ?_
  · refine .next (findOne_ends h) ?_
    rintro l' _ w ⟨rfl, rfl, h⟩
    refine .next (save_ends h.id h) ?_
    rintro l' - w ⟨rfl, h⟩
    refine .next (commit_ends h h.id) ?_
    rintro l' - w ⟨rfl, u, h⟩
    refine .bind _ (publish_ends (fun _ _ hk h => h.kept hk) "saga-events"
      (failureMessage s failedStep errorMessage) h) ?_ ?_
    · rintro l' _ w' ⟨h, ⟨-, rfl⟩ | ⟨e, hr, -⟩⟩
      · refine .mono ?_ (startCompensation_ends h.toRowFree h.id)
        rintro l' r w' ⟨x, h, ms, rfl, hc⟩
        exact ⟨x, h, .sent u hc⟩
      · exact nomatch hr
    · rintro l' e w' ⟨h, ⟨hr, -⟩ | ⟨e', -, hb, rfl⟩⟩
      · exact nomatch hr
      · exact ⟨_, h.toRowFree, .unsent u hb⟩
  · exact fun l w h => h
  · rintro l e w ⟨x, h, hK⟩
    exact rethrown h hK

end Handling

end CqrsSaga
