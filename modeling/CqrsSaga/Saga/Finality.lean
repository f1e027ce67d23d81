import CqrsSaga.Saga.Copies

/-!
# Final states of a saga

A saga is final once its status is `COMPLETED`, `COMPENSATED` or `FAILED`.  Only
`completeSaga` looks at the status it has read, and only for `COMPLETED`; everybody else
writes over whatever it is.  A final saga stays as it is, and none of its steps runs again,
as long as nobody goes on with a row that was final when it was read, and nobody has read
the row and is still to write it when another call makes the saga final.

## Main definitions

* `SagaStatus.Final`, `World.SagaIs` — final states, and the stored one.
* `World.Guarded`, `Finality.Careful` — who may read the row of a saga, and when it may become
  final.
* `Finality.Copying`, `finality` — which calls are still to write a row, and what the calls agree
  on.

## Main results

* `Finality.finality_sound` — the calls keep to the protocol.
* `final_stays` — **a final saga stays as it is, and no step of it runs**, in careful runs.
* `final_lost` — in others neither holds.
-/

namespace CqrsSaga

open SagaManager RedisLockService KafkaService

/-- Nothing is left to be done. -/
def SagaStatus.Final (s : SagaStatus) : Prop := s = .completed ∨ s = .compensated ∨ s = .failed

instance (s : SagaStatus) : Decidable s.Final :=
  inferInstanceAs (Decidable (s = .completed ∨ s = .compensated ∨ s = .failed))

/-! ### Operations -/

/-- Whether the saga manager makes the call itself. -/
def Op.ofManager : Op → Bool
  | .sagaFindOne _ | .sagaInsert _ | .sagaSave _ => true
  | .connect | .startTransaction _ | .txSagaFindOne _ _ | .txSagaSave _ _ => true
  | .commitTransaction _ | .rollbackTransaction _ | .release _ => true
  | .generateToken | .redisSet _ _ _ | .redisUnlock _ _ | .redisRenew _ _ _ | .redisExists _ => true
  | .sleep _ | .log _ | .kafkaSend _ _ _ | .setImmediate (.publishSagaEvent _) => true
  | _ => false

/-- Whether a call belongs to the action of a step, or is the line of the log it ends with. -/
def Op.ofAction : Op → Bool
  | .log (.commandExecuted _ _) => true
  | o => !o.ofManager

/-- The status an operation writes back. -/
def Op.savedStatus? : Op → Option SagaStatus
  | .sagaSave s => some s.status
  | _ => none

/-- What actions do writes neither sagas nor transactions. -/
theorem Op.aside_of_action {o : Op} (h : o.ofManager = false) :
    .sagas ∉ o.writes ∧ .transactions ∉ o.writes := by
  cases o <;> simp_all [Op.ofManager, Op.writes]

namespace World

/-- The stored status of the saga. -/
def SagaIs (w : World) (x : String) (status : SagaStatus) : Prop :=
  ∃ s ∈ w.sagas, s.id = x ∧ s.status = status

instance (w : World) (x : String) (status : SagaStatus) : Decidable (w.SagaIs x status) :=
  inferInstanceAs (Decidable (∃ s ∈ w.sagas.rows, s.id = x ∧ s.status = status))

/-- The rows an operation writes. -/
def rowsOf (w : World) : Op → List SagaInstance
  | .sagaSave s => [s]
  | .commitTransaction n => ((w.transaction n).map Transaction.writes).getD []
  | _ => []

/-- A transaction has locked the row of the saga. -/
def RowLocked (w : World) (x : String) : Prop := ∃ t ∈ w.transactions, x ∈ t.locks

variable {w w' : World} {x : String} {status status' : SagaStatus} {i : ℕ} {o : Op} {c : Choice}
  {r : Except Err (Op.Val o)} {ts : List Task}

/-- There is one status. -/
theorem SagaIs.unique (h : w.SagaIs x status) (h' : w.SagaIs x status') : status = status' := by
  obtain ⟨s, hs, hid, rfl⟩ := h
  obtain ⟨s', hs', hid', rfl⟩ := h'
  rw [Table.eq_of_pk hs hs' (hid.trans hid'.symm)]

theorem sagaIs_congr (h : w'.sagas = w.sagas) : w'.SagaIs x status ↔ w.SagaIs x status := by
  unfold SagaIs
  rw [h]

/-- The status of a saga whose row is written. -/
theorem sagaIs_putSaga {s : SagaInstance} (hid : s.id = x) :
    (w.putSaga s).SagaIs x status ↔ s.status = status := by
  constructor
  · rintro ⟨y, hy, hyid, rfl⟩
    rcases (mem_putSaga w s).mp hy with rfl | ⟨-, hne⟩
    · rfl
    · exact absurd (hyid.trans hid.symm) hne
  · exact fun h => ⟨_, (mem_putSaga w s).mpr (Or.inl rfl), hid, h⟩

theorem sagaIs_putSaga_of_ne {s : SagaInstance} (hid : s.id ≠ x) :
    (w.putSaga s).SagaIs x status ↔ w.SagaIs x status := by
  refine exists_congr fun y => ⟨fun ⟨hy, hyid, hst⟩ => ?_, fun ⟨hy, hyid, hst⟩ => ?_⟩
  · exact ⟨(putSaga_of_ne (hyid.trans_ne hid.symm)).mp hy, hyid, hst⟩
  · exact ⟨(putSaga_of_ne (hyid.trans_ne hid.symm)).mpr hy, hyid, hst⟩

/-- Only what is read or written within a transaction is locked. -/
theorem exec_rowLocked (h : w.exec i o c = some (w', r, ts)) (hl : w'.RowLocked x) :
    w.RowLocked x ∨ (∃ n, o = .txSagaFindOne n x) ∨ ∃ n s, o = .txSagaSave n s ∧ s.id = x := by
  obtain ⟨u, hu, hx⟩ := hl
  rcases exec_transactions h u hu with hu | ⟨n, -, rfl⟩ | ⟨t, ht, y, ho, rfl⟩ | ⟨t, ht, s, ho, rfl⟩
  · exact Or.inl ⟨u, hu, hx⟩
  · exact absurd hx List.not_mem_nil
  · rcases List.mem_cons.mp hx with rfl | hx
    · exact Or.inr (Or.inl ⟨_, ho⟩)
    · exact Or.inl ⟨t, ht, hx⟩
  · rcases List.mem_cons.mp hx with rfl | hx
    · exact Or.inr (Or.inr ⟨_, s, ho, rfl⟩)
    · exact Or.inl ⟨t, ht, hx⟩

end World

/-! ### The calls -/

/-- The saga a call is about. -/
def ManagerCall.sagaId : ManagerCall → String
  | executeSagaStep sagaId _ => sagaId
  | completeSaga sagaId => sagaId
  | handleSagaFailure saga _ _ => saga.id
  | executeOrderCancellationStep saga _ => saga.id

/-- The action of a step does nothing the saga manager does itself. -/
def ManagerCall.Proper : ManagerCall → Prop
  | executeSagaStep _ call => call.action.Only fun o : Op => o.ofManager = false
  | completeSaga _ => True
  | handleSagaFailure _ _ _ => True
  | executeOrderCancellationStep _ _ => False

/-- The commands the steps of the order saga run are such actions. -/
theorem orderSteps_proper :
    (∀ command, (ProcessPaymentHandler.execute command).Only fun o : Op => o.ofManager = false) ∧
      ∀ command, (ConfirmOrderHandler.execute command).Only fun o : Op => o.ofManager = false := by
  refine ⟨fun command => .bind (.perform rfl) fun payment => .bind (.perform rfl) fun _ => trivial,
    fun command => .bind (.perform rfl) fun found => ?_⟩
  cases found with
  | none => exact trivial
  | some order =>
    dsimp only
    split
    · exact trivial
    · exact .bind (.perform rfl) fun _ => .bind (.perform rfl) fun _ =>
        .bind (.perform rfl) fun _ => .perform rfl

/-- A call that reads the row of the saga `x` does not go on with it if it is final. -/
def World.Guarded (w : World) (x : String) : ManagerCall → Op → Prop
  | .executeSagaStep y call, .sagaFindOne _ =>
    y = x → ∀ s ∈ w.sagas, s.id = x → s.status.Final → call.stepName ∈ s.completedSteps
  | .completeSaga y, .sagaFindOne _ =>
    y = x → ∀ s ∈ w.sagas, s.id = x → s.status.Final → s.status = .completed
  | _, .txSagaFindOne _ y => y = x → ∀ s ∈ w.sagas, s.id = x → ¬s.status.Final
  | _, _ => True

namespace Finality

/-- What a call that has read a row is still to do with it. -/
inductive Copy
  /-- Run a step and note it. -/
  | step
  /-- Store that the saga is completed. -/
  | complete

/-- The calls, and which of them are still to write a row they have read. -/
structure Copying where
  tags : List ManagerCall
  copy : ℕ → Option Copy

/-- Activity `i` has a copy, or none any more. -/
def Copying.take (g : Copying) (i : ℕ) (k : Option Copy) : Copying :=
  { g with copy := Function.update g.copy i k }

@[simp] theorem Copying.take_tags (g : Copying) (i : ℕ) (k : Option Copy) :
    (g.take i k).tags = g.tags := rfl

@[simp] theorem Copying.take_self (g : Copying) (i : ℕ) (k : Option Copy) :
    (g.take i k).copy i = k := Function.update_self ..

theorem Copying.take_of_ne (g : Copying) {i j : ℕ} (h : j ≠ i) (k : Option Copy) :
    (g.take i k).copy j = g.copy j := Function.update_of_ne h ..

/-- Activity `i`, if it works on the saga `x` and has a copy, stores this status. -/
def Copying.Agrees (g : Copying) (x : String) (status : SagaStatus) (i : ℕ) : Prop :=
  ∀ t, g.tags[i]? = some t → t.sagaId = x → ∀ k, g.copy i = some k →
    k = .complete ∧ status = .completed

end Finality

section Calls

variable [Hashes]

namespace Finality

/-- The calls looked at. -/
def Proper (_ : Pool managerCalls) : Action managerCalls → Prop
  | .start t => t.Proper
  | _ => True

/-- The call, if it is about the saga `x`, neither runs a step nor is about to store another
status. -/
def Yields (x : String) (status : SagaStatus) (a : Activity managerCalls) : Prop :=
  a.tag.sagaId = x → ∀ o ∈ a.prog.awaited?, o.ofAction = false ∧
    ∀ status' ∈ o.savedStatus?, status' = status

/-- Where activity `i` makes the saga `x` final, nobody else is between the read and the last
write of its row, except to store the same status. -/
def Alone (x : String) (p : Pool managerCalls) (i : ℕ) (o : Op) : Prop :=
  ∀ s ∈ p.world.rowsOf o, s.id = x → s.status.Final →
    ∀ j < p.acts.length, j ≠ i → ∀ b ∈ p.acts[j]?, Yields x s.status b

/-- No call goes on with a final row of the saga `x`, or makes it final under another one. -/
def Careful (x : String) (p : Pool managerCalls) : Action managerCalls → Prop
  | .run i _ => ∀ a ∈ p.acts[i]?, ∀ o ∈ a.prog.awaited?,
    p.world.Guarded x a.tag o ∧ Alone x p i o
  | _ => True

/-- A final saga is locked by nobody, and nobody is to write another status. -/
structure Inv (x : String) (w : World) (g : Copying) : Prop where
  tx : w.TxOk
  unlocked : ∀ status, status.Final → w.SagaIs x status → ¬w.RowLocked x
  agrees : ∀ status, status.Final → w.SagaIs x status → ∀ i, g.Agrees x status i

end Finality

open Finality

/-- **What the calls agree on.** -/
def finality (x : String) : Protocol managerCalls where
  Ghost := Copying
  Inv := Finality.Inv x
  Mono := fun w g w' g' => (∀ status, status.Final → w.SagaIs x status → w'.SagaIs x status) ∧
    w.runners <+: w'.runners ∧ g.tags <+: g'.tags
  Keep := fun j w g w' g' => g'.copy j = g.copy j ∧ World.TxKeep j w w' ∧
    w.runners <+: w'.runners
  CanRun := fun w g i o _ => (∀ t, g.tags[i]? = some t → w.Guarded x t o) ∧
    ∀ s ∈ w.rowsOf o, s.id = x → s.status.Final → ∀ j, j ≠ i → g.Agrees x s.status j
  Assert := fun i o _ g => (o.ofAction = true → g.copy i = some .step) ∧
    (∀ status, o.savedStatus? = some status → g.copy i = some .complete ∧ status = .completed ∨
      g.copy i = some .step ∧ ∀ t, g.tags[i]? = some t → t.sagaId = x → ¬status.Final) ∧
    (o.ofAction = false → o.savedStatus? = none → g.copy i = none)
  Fits := fun g l => g.tags = l ∧ ∀ i k, g.copy i = some k → i < l.length
  Born := fun i t _ g => t.Proper ∧ g.tags[i]? = some t ∧ g.copy i = none
  Post := fun i _ _ _ g => g.copy i = none
  mono_refl := fun _ _ => ⟨fun _ _ h => h, List.prefix_rfl, List.prefix_rfl⟩
  mono_trans := fun h h' => ⟨fun status hf hs => h'.1 status hf (h.1 status hf hs),
    h.2.1.trans h'.2.1, h.2.2.trans h'.2.2⟩
  keep_refl := fun j w _ => ⟨rfl, .refl j w, List.prefix_rfl⟩
  keep_trans := fun h h' => ⟨h'.1.trans h.1, h.2.1.trans h.2.2 h'.2.1, h.2.2.trans h'.2.2⟩

namespace Finality

variable {x y : String} {i n : ℕ} {t : ManagerCall} {k : Option Copy} {w w' : World} {g : Copying}
  {o : Op} {c : Choice} {r : Except Err (Op.Val o)} {ts : List Task}

/-- Activity `i` was started as the call `t`, and this is what it is still to do. -/
def At (i : ℕ) (t : ManagerCall) (k : Option Copy) (_ : World) (g : Copying) : Prop :=
  g.tags[i]? = some t ∧ g.copy i = k

theorem at_stable : (finality x).Stable i (At i t k) := by
  rintro w g w' g' ⟨-, -, ⟨l, hl⟩⟩ ⟨hk, -⟩ - ⟨ht, hc⟩
  refine ⟨?_, hk.trans hc⟩
  rw [← hl, List.getElem?_append_left (List.getElem?_eq_some_iff.mp ht).1]
  exact ht

theorem owner_lasting (n : ℕ) : (finality x).Lasting fun w _ => w.Owner i n :=
  fun _ _ _ _ hm _ h => h.later hm.2.1

omit [Hashes] in
/-- Whoever works on the saga with a copy that is no confirmation works on one not final. -/
theorem not_final {status : SagaStatus} (hI : Inv x w g) (ha : At i t (some .step) w g)
    (hid : t.sagaId = x) (hf : status.Final) : ¬w.SagaIs x status :=
  fun hs => nomatch (hI.agrees status hf hs i t ha.1 hid _ ha.2).1

/-! ### Accounts -/

/-- What an operation of activity `i` leaves, with the copies brought up to date. -/
theorem respects (htx : World.TxRespects i w w')
    (hstay : ∀ status, status.Final → w.SagaIs x status → w'.SagaIs x status)
    (hnew : ∀ status, status.Final → w'.SagaIs x status → ¬w'.RowLocked x ∧
      (∀ j, j ≠ i → g.Agrees x status j) ∧ (g.take i k).Agrees x status i) :
    (finality x).Respects i w g w' (g.take i k) where
  inv := by
    refine ⟨htx.1, fun status hf hs => (hnew status hf hs).1, fun status hf hs j => ?_⟩
    by_cases hj : j = i
    · exact hj ▸ (hnew status hf hs).2.2
    · intro t ht hid c hc
      exact (hnew status hf hs).2.1 j hj t ht hid c ((g.take_of_ne hj k).symm.trans hc)
  mono := ⟨hstay, htx.2.1, List.prefix_rfl⟩
  keep := fun j hj => ⟨g.take_of_ne hj k, htx.2.2 j hj, htx.2.1⟩
  fits := by
    rintro l hl ⟨htags, hlt⟩
    refine ⟨htags, fun j c hc => ?_⟩
    by_cases hj : j = i
    · exact hj ▸ hl
    · exact hlt j c ((g.take_of_ne hj k).symm.trans hc)

/-- An operation that changes no status, and reads no final row for update. -/
theorem respects_aside (hI : Inv x w g) (he : w.exec i o c = some (w', r, ts))
    (hown : w.Owns i o) (hsaga : ∀ status, w'.SagaIs x status ↔ w.SagaIs x status)
    (hfind : (∃ n, o = .txSagaFindOne n x) → ∀ status, status.Final → ¬w.SagaIs x status)
    (hk : ∀ status, status.Final → w.SagaIs x status → (g.take i k).Agrees x status i) :
    (finality x).Respects i w g w' (g.take i k) := by
  refine respects (World.exec_tx hI.tx hown he) (fun status _ => (hsaga status).mpr)
    fun status hf hs => ?_
  have hs := (hsaga status).mp hs
  refine ⟨fun hl => ?_, fun j _ => hI.agrees status hf hs j, hk status hf hs⟩
  rcases World.exec_rowLocked he hl with hl | hn | ⟨n, s, rfl, rfl⟩
  · exact hI.unlocked status hf hs hl
  · exact hfind hn status hf hs
  · obtain ⟨u, hu, hx⟩ := hown.2 n s rfl
    exact hI.unlocked status hf hs ⟨u, (World.mem_of_transaction hu).1, hx⟩

/-! ### Operations -/

omit [Hashes] in
theorem at_take {k' : Option Copy} (h : At i t k w g) : At i t k' w' (g.take i k') :=
  ⟨h.1, g.take_self i k'⟩

omit [Hashes] in
theorem agrees_none (status : SagaStatus) : (g.take i none).Agrees x status i :=
  fun _ _ _ _ hc => nomatch (g.take_self i none).symm.trans hc

/-- What is asserted of an operation of a call that has nothing to do with a row. -/
theorem assert_free (ho : o.ofAction = false) (hs : o.savedStatus? = none)
    (ha : At i t none w g) : (finality x).Assert i o w g :=
  ⟨by simp [ho], by simp [hs], fun _ _ => ha.2⟩

/-- What is asserted of an operation of an action. -/
theorem assert_step (ho : o.ofAction = true) (hs : o.savedStatus? = none)
    (ha : At i t (some .step) w g) : (finality x).Assert i o w g :=
  ⟨fun _ => ha.2, by simp [hs], by simp [ho]⟩

/-- An operation that writes neither sagas nor transactions. -/
theorem aside_atomic {Φ : (finality x).Assn (Op.Val o)}
    (hw : .sagas ∉ o.writes ∧ .transactions ∉ o.writes) (hI : Inv x w g)
    (ha : (finality x).Assert i o w g)
    (h : ∀ c w' r ts, (finality x).CanRun w g i o c → w.exec i o c = some (w', r, ts) →
      ∃ k, (∀ status, status.Final → w.SagaIs x status → (g.take i k).Agrees x status i) ∧
        Φ r w' (g.take i k)) : (finality x).atomic i o Φ w g := by
  refine ⟨ha, fun c w' r ts hc he l hl hf => ?_⟩
  obtain ⟨k, hk, hΦ⟩ := h c w' r ts hc he
  have hown : w.Owns i o := by
    constructor
    · intro n hn
      cases o <;> simp [Op.runner?] at hn <;> simp [Op.writes] at hw
    · rintro n s rfl
      simp [Op.writes] at hw
  refine (respects_aside hI he hown (fun _ => World.sagaIs_congr ((World.exec_frame he).sagas hw.1))
    ?_ hk).settles (by simp) hl hf hΦ
  rintro ⟨n, rfl⟩
  simp [Op.writes] at hw

/-- An operation of a call that has nothing to do with a row. -/
theorem free_triple (ho : o.ofAction = false) (hs : o.savedStatus? = none)
    (hw : .sagas ∉ o.writes ∧ .transactions ∉ o.writes) :
    (finality x).Triple i (At i t none) (call o) fun _ => At i t none :=
  .perform at_stable (fun _ => at_stable) fun _ _ hI ha =>
    aside_atomic hw hI (assert_free ho hs ha) fun _ _ _ _ _ _ =>
      ⟨none, fun status _ _ => agrees_none status, at_take ha⟩

/-- What a call has to do once it has read a row, or not. -/
def Found (x y : String) (i : ℕ) (t : ManagerCall) (K : SagaInstance → Option Copy) :
    (finality x).Assn (Option SagaInstance)
  | .ok (some row), w, g => row.id = y ∧ (y = x → row.status.Final → K row = none) ∧
      At i t (K row) w g
  | _, w, g => At i t none w g

theorem found_stable {K : SagaInstance → Option Copy} (r : Except Err (Option SagaInstance)) :
    (finality x).Stable i (Found x y i t K r) := by
  rcases r with e | (_ | row)
  · exact at_stable
  · exact at_stable
  · exact (Protocol.Stable.const _).and ((Protocol.Stable.const _).and at_stable)

/-- The row of a saga is read; what is to be done with it is `K`. -/
theorem findOne_triple {K : SagaInstance → Option Copy}
    (hK : ∀ (w : World) row, w.Guarded x t (.sagaFindOne { id := some y }) →
      row ∈ w.sagas → row.id = x → y = x → row.status.Final → K row = none) (hy : t.sagaId = y) :
    (finality x).Triple i (At i t none) (sagaRepository.findOne { id := some y })
      (Found x y i t K) := by
  refine .perform at_stable found_stable fun (w : World) (g : Copying) hI ha => aside_atomic
    (by simp [Op.writes]) hI (assert_free rfl rfl ha) fun c w' r ts hc he => ?_
  have hnone : ∃ k, (∀ status, status.Final → w.SagaIs x status →
      (g.take i k).Agrees x status i) ∧ At i t none w' (g.take i k) :=
    ⟨none, fun status _ _ => agrees_none status, at_take ha⟩
  obtain ⟨rfl, -, rfl | ⟨m, rfl⟩⟩ := World.exec_query he rfl rfl
  · cases hfind : w'.sagas.find? (SagaWhere.selects { id := some y }) with
    | none => exact hnone
    | some row =>
      have hmem := Table.mem_of_find? hfind
      have hid : row.id = y := SagaWhere.selects_id (Table.find?_some hfind) rfl
      have hfin : y = x → row.status.Final → K row = none := fun hyx hf =>
        hK w' row (hc.1 t ha.1) hmem (hid.trans hyx) hyx hf
      refine ⟨K row, fun status hf hs t' ht' htx c hc => ?_, hid, hfin, at_take ha⟩
      obtain rfl : t = t' := Option.some.inj (ha.1.symm.trans ht')
      have hyx : y = x := hy.symm.trans htx
      obtain rfl : row.status = status := World.SagaIs.unique ⟨row, hmem, hid.trans hyx, rfl⟩ hs
      rw [hfin hyx hf] at hc
      cases (g.take_self i none).symm.trans hc
  · exact hnone

/-! ### Writing a row -/

/-- What is left to do after a call that may have failed. -/
def left {α : Type} (k : Option Copy) : Except Err α → Option Copy
  | .ok _ => k
  | .error _ => none

/-- A refused operation. -/
theorem refused {l : List ManagerCall} (hI : Inv x w g) (hl : i < l.length)
    (hf : (finality x).Fits g l) {Φ : World → Copying → Prop} (h : Φ w (g.take i none)) :
    (finality x).Settles i l w g w [] Φ := by
  have htx : World.TxRespects i w w := .of_same hI.tx rfl rfl List.prefix_rfl
  exact (respects htx (fun _ _ hs => hs) fun status hfin hs => ⟨hI.unlocked status hfin hs,
    fun j _ => hI.agrees status hfin hs j, agrees_none status⟩).settles rfl hl hf h

/-- A row is written that is not that of `x`, or not final, or stored as completed. -/
theorem putSaga_respects {s : SagaInstance} (hI : Inv x w g) (ha : At i t k w g)
    (hl : w.lockedBy none s.id = false) (hid : s.id = t.sagaId) {k' : Option Copy}
    (hk : s.id = x → (k = some .step ∧ ¬s.status.Final) ∨
      (k' = none ∧ k = some .complete ∧ s.status = .completed ∧
        ∀ j, j ≠ i → g.Agrees x s.status j)) :
    (finality x).Respects i w g (w.putSaga s) (g.take i k') := by
  -- a save takes no row lock
  have hlock : (w.putSaga s).RowLocked x → w.RowLocked x := by
    obtain ⟨u, hu⟩ := World.putSaga_only w s
    rw [hu]
    exact fun h => h
  refine respects (World.sagaSave_respects hI.tx hl) (fun status hf hs => ?_) fun status hf hs => ?_
  · by_cases hx : s.id = x
    · -- a final row of `x` is written only as completed, which it is then
      rcases hk hx with ⟨rfl, -⟩ | ⟨-, rfl, hst, -⟩
      · exact absurd hs (not_final hI ha (hid.symm.trans hx) hf)
      · have hag := hI.agrees status hf hs i t ha.1 (hid.symm.trans hx) _ ha.2
        exact (World.sagaIs_putSaga hx).mpr (hst.trans hag.2.symm)
    · exact (World.sagaIs_putSaga_of_ne hx).mpr hs
  · by_cases hx : s.id = x
    · obtain rfl := (World.sagaIs_putSaga hx).mp hs
      rcases hk hx with ⟨-, hn⟩ | ⟨rfl, -, -, hothers⟩
      · exact absurd hf hn
      · refine ⟨fun h => ?_, hothers, agrees_none _⟩
        obtain ⟨u, hu, hxu⟩ := hlock h
        exact World.not_locked hl hu (by simp) (hx ▸ hxu)
    · have hs := (World.sagaIs_putSaga_of_ne hx).mp hs
      refine ⟨fun h => hI.unlocked status hf hs (hlock h), fun j _ => hI.agrees status hf hs j, ?_⟩
      intro t' ht' htx
      obtain rfl : t = t' := Option.some.inj (ha.1.symm.trans ht')
      exact absurd (hid.trans htx) hx

/-- A row is written by a call that runs a step. -/
theorem stepSave_triple {s : SagaInstance} (hid : s.id = t.sagaId)
    (hf : s.id = x → ¬s.status.Final) (k : Option Copy) :
    (finality x).Triple i (At i t (some .step)) (sagaRepository.save s)
      fun r => At i t (left k r) := by
  refine .perform at_stable (fun _ => at_stable) fun (w : World) (g : Copying) hI ha => ⟨⟨?_, ?_, ?_⟩,
    fun c w' r ts _ he l hl hfits => ?_⟩
  · exact fun h => nomatch h
  · intro status hs
    obtain rfl := Option.some.inj hs
    refine Or.inr ⟨ha.2, fun t' ht' htx => ?_⟩
    obtain rfl : t = t' := Option.some.inj (ha.1.symm.trans ht')
    exact hf (hid.trans htx)
  · exact fun _ h => nomatch h
  · rcases World.exec_cases_of_not_redis he rfl with ⟨-, hp⟩ | ⟨m, -, rfl, rfl, rfl, -⟩
    · have hr : r = .ok () := by
        simp only [World.perform] at hp
        split at hp
        · simp at hp
        · exact (congrArg (fun z => z.2.1) (Option.some.inj hp)).symm
      obtain ⟨hlock, rfl⟩ := World.perform_sagaSave hp
      subst hr
      exact (putSaga_respects hI ha hlock hid fun hx => Or.inl ⟨rfl, hf hx⟩).settles (by simp) hl
        hfits (at_take ha)
    · exact refused hI hl hfits (at_take ha)

/-- The row is written by which a saga is completed. -/
theorem completeSave_triple {s : SagaInstance} (hid : s.id = t.sagaId)
    (hs : s.status = .completed) :
    (finality x).Triple i (At i t (some .complete)) (sagaRepository.save s)
      fun _ => At i t none := by
  refine .perform at_stable (fun _ => at_stable) fun (w : World) (g : Copying) hI ha => ⟨⟨?_, ?_, ?_⟩,
    fun c w' r ts hc he l hl hfits => ?_⟩
  · exact fun h => nomatch h
  · intro status h
    obtain rfl := Option.some.inj h
    exact Or.inl ⟨ha.2, hs⟩
  · exact fun _ h => nomatch h
  · rcases World.exec_cases_of_not_redis he rfl with ⟨-, hp⟩ | ⟨m, -, rfl, rfl, rfl, -⟩
    · obtain ⟨hlock, rfl⟩ := World.perform_sagaSave hp
      refine (putSaga_respects hI ha hlock hid fun hx => Or.inr ⟨rfl, rfl, hs, ?_⟩).settles (by simp)
        hl hfits (at_take ha)
      exact hc.2 s (by simp [World.rowsOf]) hx (Or.inl hs)
    · exact refused hI hl hfits (at_take ha)

/-! ### The action of a step -/

/-- What is left to do when the action starts: nothing, if it throws at once. -/
def toRun : Async App Unit → Option Copy
  | .throw _ => none
  | _ => some .step

theorem action_wp {q : Async App Unit} (hq : q.Only fun o : Op => o.ofManager = false) :
    ∀ w g, At i t (toRun q) w g →
      (finality x).wp i q (fun r => At i t (left (some .step) r)) w g := by
  induction q with
  | ret a => exact fun w g ha => at_stable.later ha
  | throw e => exact fun w g ha => at_stable.later ha
  | await o k ih =>
    refine fun w g ha => (at_stable.later ha).mono fun w g hI ha => ?_
    have haction : o.ofAction = true := by
      have hm := hq.1
      cases o <;> simp_all [Op.ofManager, Op.ofAction]
    have hsaved : o.savedStatus? = none := by
      have hm := hq.1
      cases o <;> simp_all [Op.ofManager, Op.savedStatus?]
    refine aside_atomic (Op.aside_of_action hq.1) hI (assert_step haction hsaved ha)
      fun c w' r ts _ _ => ⟨toRun (k r), fun status hf hs t' ht' htx => ?_,
        ih r (hq.2 r) w' _ (at_take ha)⟩
    exact absurd hs (not_final hI ha (Option.some.inj (ha.1.symm.trans ht') ▸ htx) hf)

/-- The action, and the line of the log it ends with. -/
theorem execute_triple {action : Async App Unit} {line : LogLine}
    (ha : action.Only fun o : Op => o.ofManager = false) (hline : (Op.log line).ofAction = true) :
    (finality x).Triple i (At i t (toRun action)) (action.bind fun _ => logger line)
      fun r => At i t (left (some .step) r) := by
  refine .bind (fun r => At i t (left (some .step) r)) (fun w g _ hw => action_wp ha w g hw)
    (fun _ => ?_) fun e => .throw at_stable fun _ _ _ h => h
  refine .perform at_stable (fun _ => at_stable) fun (w : World) (g : Copying) hI hw =>
    aside_atomic (by simp [Op.writes]) hI (assert_step hline rfl hw) fun c w' r ts _ he =>
      ⟨some .step, fun status hf hs t' ht' htx => ?_, ?_⟩
  · exact absurd hs (not_final hI hw (Option.some.inj (hw.1.symm.trans ht') ▸ htx) hf)
  · obtain ⟨-, v, rfl⟩ := World.exec_local he rfl
    exact at_take hw

/-! ### Failures -/

omit [Hashes] in
theorem guarded_txFind : w.Guarded x t (.txSagaFindOne n y) ↔
    (y = x → ∀ s ∈ w.sagas, s.id = x → ¬s.status.Final) := by
  cases t <;> exact Iff.rfl

/-- What a call knows of the row it has read for update. -/
def Seen (y : String) (i n : ℕ) (row : SagaInstance) (w : World) (_ : Copying) : Prop :=
  (w.Owner i n ∧ w.Locks n row.id) ∧ row.id = y

theorem seen_stable (n : ℕ) (row : SagaInstance) : (finality x).Stable i (Seen y i n row) := by
  rintro w g w' g' hm ⟨-, hk, hp⟩ - ⟨⟨ho, hl⟩, hid⟩
  exact ⟨⟨ho.later hp, hk.locks ho hl⟩, hid⟩

/-- An operation on a query runner of the call's own that changes no status. -/
theorem tx_atomic {Φ : (finality x).Assn (Op.Val o)} (ho : o.ofAction = false)
    (hs : o.savedStatus? = none) (hw : .sagas ∉ o.writes) (hI : Inv x w g) (ha : At i t none w g)
    (hown : w.Owns i o)
    (h : ∀ c w' r ts, w.exec i o c = some (w', r, ts) → Φ r w' (g.take i none)) :
    (finality x).atomic i o Φ w g := by
  refine ⟨assert_free ho hs ha, fun c w' r ts hc he l hl hf => ?_⟩
  refine (respects_aside hI he hown (fun _ => World.sagaIs_congr ((World.exec_frame he).sagas hw))
    ?_ fun status _ _ => agrees_none status).settles (by simp) hl hf (h c w' r ts he)
  rintro ⟨n, rfl⟩ status hfin ⟨s, hs, hid, rfl⟩
  exact guarded_txFind.mp (hc.1 t ha.1) rfl s hs hid hfin

/-- A transaction is committed. -/
theorem commit_triple (n : ℕ) :
    (finality x).Triple i (fun w g => At i t none w g ∧ w.Owner i n)
      (queryRunner.commitTransaction n) fun _ => At i t none := by
  refine .perform (at_stable.and (owner_lasting n).stable) (fun _ => at_stable)
    fun (w : World) (g : Copying) hI hw => ⟨assert_free rfl rfl hw.1, fun c w' r ts hc he l hl hf => ?_⟩
  rcases World.exec_cases_of_not_redis he rfl with ⟨-, hp⟩ | ⟨m, -, rfl, rfl, rfl, -⟩
  · obtain rfl := (congrArg Prod.fst (Option.some.inj hp) : (w.commit n).1 = w')
    refine (respects (World.commit_respects hI.tx hw.2) ?_ ?_).settles (by simp) hl hf (at_take hw.1)
    all_goals intro status hfin hs
    all_goals rcases w.commit_cases n with ⟨-, hsame⟩ | ⟨u, hu, hsagas, htxs⟩
    · rw [hsame]
      exact hs
    · -- a final row is not among those that are written
      obtain ⟨s, hsm, hid, hst⟩ := hs
      refine ⟨s, ?_, hid, hst⟩
      rw [hsagas]
      refine (World.putSagas_of_ne u.writes _ fun y hy hys => ?_).mpr hsm
      have hum := (World.mem_of_transaction hu).1
      refine hI.unlocked status hfin ⟨s, hsm, hid, hst⟩ ⟨u, hum, ?_⟩
      rw [← hid, hys]
      exact hI.tx.writes u hum y hy
    · rw [hsame] at hs ⊢
      exact ⟨hI.unlocked status hfin hs, fun j _ => hI.agrees status hfin hs j, agrees_none status⟩
    · obtain ⟨s, hsm, hid, rfl⟩ := hs
      have hum := (World.mem_of_transaction hu).1
      have hold : (w.commit n).1.RowLocked x → ∃ v ∈ w.transactions, v.runner ≠ n ∧ x ∈ v.locks := by
        rintro ⟨v, hv, hx⟩
        rw [htxs] at hv
        obtain ⟨hv, hne⟩ := List.mem_filter.mp hv
        exact ⟨v, hv, by simpa using hne, hx⟩
      rw [hsagas] at hsm
      rcases World.saved_sagas u.writes _ hsm with ⟨y, hy, rfl⟩ | hsm
      · refine ⟨fun h => ?_, hc.2 y ?_ hid hfin, agrees_none _⟩
        · -- nobody else has locked what is written
          obtain ⟨v, hv, hne, hx⟩ := hold h
          have hyl := hI.tx.writes u hum y hy
          have hyid : y.id = x := hid
          exact hne ((hI.tx.exclusive v hv u hum x hx (hyid ▸ hyl)).trans
            (World.mem_of_transaction hu).2)
        · simp [World.rowsOf, hu, hy]
      · have hs : w.SagaIs x s.status := ⟨s, hsm, hid, rfl⟩
        refine ⟨fun h => ?_, fun j _ => hI.agrees _ hfin hs j, agrees_none _⟩
        obtain ⟨v, hv, -, hx⟩ := hold h
        exact hI.unlocked _ hfin hs ⟨v, hv, hx⟩
  · exact refused hI hl hf (at_take hw.1)

theorem control_triple (n : ℕ) : ∀ o ∈ Op.controls n,
    (finality x).Triple i (fun w g => At i t none w g ∧ w.Owner i n)
      (Async.perform (S := App) o) fun _ => At i t none := by
  intro o ho
  by_cases hcommit : o = .commitTransaction n
  · subst hcommit
    exact commit_triple n
  have hparts : o.ofAction = false ∧ o.savedStatus? = none ∧ .sagas ∉ o.writes ∧
      ∀ r s, o ≠ .txSagaSave r s := by
    simp only [Op.controls, List.mem_cons, List.not_mem_nil, or_false] at ho
    rcases ho with rfl | rfl | rfl | rfl
    · simp [Op.ofAction, Op.ofManager, Op.savedStatus?, Op.writes]
    · exact absurd rfl hcommit
    · simp [Op.ofAction, Op.ofManager, Op.savedStatus?, Op.writes]
    · simp [Op.ofAction, Op.ofManager, Op.savedStatus?, Op.writes]
  obtain ⟨ha, hs, hw, hsave⟩ := hparts
  exact .perform (at_stable.and (owner_lasting n).stable) (fun _ => at_stable) fun w g hI h =>
    tx_atomic ha hs hw hI h.1 (.of_owner h.2 (fun r => Op.runner?_control ho) hsave)
      fun _ _ _ _ _ => at_take h.1

theorem connect_triple : (finality x).Triple i (At i t none) queryRunner.connect
    fun r w g => At i t none w g ∧ ∀ n, r = .ok n → w.Owner i n := by
  refine .perform at_stable (fun r => at_stable.and (.all fun n => .imp fun _ =>
    (owner_lasting n).stable)) fun (w : World) (g : Copying) hI ha => aside_atomic
      (by simp [Op.writes]) hI (assert_free rfl rfl ha) fun c w' r ts _ he =>
        ⟨none, fun status _ _ => agrees_none status, at_take ha, fun n hn => World.exec_connect he hn⟩

theorem txFind_triple (n : ℕ) (y : String) :
    (finality x).Triple i (fun w g => At i t none w g ∧ w.Owner i n) (queryRunner.findOne n y)
      fun r w g => At i t none w g ∧ ∀ row, r = .ok (some row) → Seen y i n row w g := by
  refine .perform (at_stable.and (owner_lasting n).stable) (fun r => at_stable.and
    (.all fun row => .imp fun _ => seen_stable n row)) fun (w : World) (g : Copying) hI hw =>
      tx_atomic rfl rfl (by simp [Op.writes]) hI hw.1 (.of_owner hw.2
        (fun r hr => (Option.some.inj hr).symm) fun r s h => nomatch h) fun c w' r ts he =>
          ⟨at_take hw.1, fun row hr => ?_⟩
  have hrunners := World.exec_runners he
  rcases World.exec_cases_of_not_redis he rfl with ⟨-, hp⟩ | ⟨m, -, -, rfl, -⟩
  · obtain ⟨-, -, hseen⟩ := World.perform_txFind hp
    obtain ⟨hl, -, hid⟩ := hseen row hr
    exact ⟨⟨hw.2.later hrunners, hid ▸ hl⟩, hid⟩
  · simp at hr

theorem txSave_triple (n : ℕ) (row s : SagaInstance) (hs : s.id = row.id) :
    (finality x).Triple i
      (fun w g => (At i t none w g ∧ w.Owner i n) ∧ Seen y i n row w g) (queryRunner.save n s)
      fun _ => At i t none := by
  refine .perform ((at_stable.and (owner_lasting n).stable).and (seen_stable n row))
    (fun _ => at_stable) fun (w : World) (g : Copying) hI hw => tx_atomic rfl rfl
      (by simp [Op.writes]) hI hw.1.1 ?_ fun _ _ _ _ _ => at_take hw.1.1
  refine ⟨fun r hr => Option.some.inj hr ▸ hw.1.2, fun r s' h => ?_⟩
  obtain ⟨rfl, rfl⟩ := Op.txSagaSave.inj h
  exact hs ▸ hw.2.1.2

/-- The handling of a failure keeps to the protocol. -/
theorem compensating (y : String) :
    Compensating (finality x) i y (At i t none) (Seen y i) where
  stable := at_stable
  owner := owner_lasting
  seen := seen_stable
  connect := connect_triple
  control := control_triple
  find := fun n => txFind_triple n y
  save := by
    rintro n row s ⟨status, currentStep, errorMessage, -, rfl⟩
    exact txSave_triple n row _ rfl
  send := fun m => free_triple rfl rfl (by simp [Op.writes])

theorem handleSagaFailure_triple (saga : SagaInstance) (failedStep errorMessage : String) :
    (finality x).Triple i (At i t none) (handleSagaFailure saga failedStep errorMessage)
      fun _ => At i t none :=
  (compensating saga.id).handleSagaFailure_triple rfl _ _ fun _ _ _ _ h => h.2

/-! ### Every call -/

/-- What a call does under its lock. -/
theorem stepSection_triple {call : StepCall}
    (ha : call.action.Only fun o : Op => o.ofManager = false) :
    (finality x).Triple i (At i (.executeSagaStep y call) none)
      (stepSection y call.stepName
        (call.action.bind fun _ => logger (.commandExecuted call.stepName y)))
      fun _ => At i (.executeSagaStep y call) none := by
  refine .bind _ (findOne_triple (y := y) (K := fun row =>
    if call.stepName ∈ row.completedSteps then none else some .step) ?_ rfl) (fun found => ?_)
      fun e => .fail at_stable
  · intro w row hg hrow hid hyx hf
    exact if_pos (hg hyx row hrow hid hf)
  cases found with
  | none => exact .fail at_stable
  | some row =>
    refine .assuming (fun w g _ h => (⟨h.1, h.2.1⟩ : row.id = y ∧ _)) fun ⟨hid, hfin⟩ => ?_
    refine .pre (fun w g _ h => h.2.2) ?_
    -- a step recorded as done is skipped; else the row that was read is not final, and the copy
    -- is in hand until its last save
    by_cases hmem : call.stepName ∈ row.completedSteps
    · simp only [if_pos hmem]
      exact .skip at_stable
    simp only [if_neg hmem] at hfin ⊢
    have hnot : row.id = x → ¬row.status.Final :=
      fun hx hf => nomatch hfin (hid.symm.trans hx) hf
    refine .bind (fun r => At i (.executeSagaStep y call) (left (toRun call.action) r))
      (stepSave_triple (t := .executeSagaStep y call) (s := { row with currentStep := call.stepName })
        hid hnot _) (fun _ => ?_) fun e => .fail at_stable
    refine .bind (fun r => At i (.executeSagaStep y call) (left (some .step) r))
      (execute_triple ha rfl) (fun _ => ?_) fun e => .fail at_stable
    refine .bind (fun _ => At i (.executeSagaStep y call) none) ?_ (fun _ => free_triple rfl rfl
      (by simp [Op.writes])) fun e => .fail at_stable
    refine (stepSave_triple (t := .executeSagaStep y call) (s := { row with
      currentStep := call.stepName, completedSteps := _ }) hid hnot none).post ?_
    rintro (e | v) w g - h
    · exact h
    · exact h

theorem step_triple {call : StepCall} (ha : call.action.Only fun o : Op => o.ofManager = false) :
    (finality x).Triple i (At i (.executeSagaStep y call) none) (call.run y)
      fun _ => At i (.executeSagaStep y call) none := by
  refine .rescue at_stable (withLock_keeps at_stable (fun o ho hne => ?_) (stepSection_triple ha))
    fun e => .seq at_stable (free_triple rfl rfl (by simp [Op.writes])) fun _ => ?_
  · cases o with
    | log line =>
      cases line with
      | commandExecuted s y => exact absurd rfl (hne s y)
      | _ => exact free_triple rfl rfl (by simp [Op.writes])
    | generateToken | redisSet | redisUnlock | redisRenew | redisExists | sleep =>
      exact free_triple rfl rfl (by simp [Op.writes])
    | _ => simp [Op.isLockService] at ho
  · refine .bind _ (findOne_triple (y := y) (K := fun _ => none) (fun _ _ _ _ _ _ _ => rfl) rfl)
      (fun found => ?_) fun e => .fail at_stable
    cases found with
    | none => exact .skip at_stable
    | some row => exact .pre (fun w g _ h => h.2.2) (handleSagaFailure_triple row _ _)

theorem completeSaga_triple (y : String) :
    (finality x).Triple i (At i (.completeSaga y) none) (completeSaga y)
      fun _ => At i (.completeSaga y) none := by
  refine .bind _ (findOne_triple (y := y) (K := fun row =>
    if row.status = .completed then none else some .complete) ?_ rfl) (fun found => ?_)
      fun e => .fail at_stable
  · intro w row hg hrow hid hyx hf
    exact if_pos (hg hyx row hrow hid hf)
  cases found with
  | none => exact .fail at_stable
  | some row =>
    refine .assuming (fun w g _ h => h.1) fun hid => ?_
    refine .pre (fun w g _ h => h.2.2) ?_
    dsimp only
    by_cases hc : row.status = .completed
    · simp only [if_pos hc]
      exact .skip at_stable
    · simp only [if_neg hc]
      exact .bind _ (completeSave_triple hid rfl) (fun _ => free_triple rfl rfl
        (by simp [Op.writes])) fun e => .fail at_stable

/-! ### Soundness -/

/-- No transaction is open. -/
def Fresh (w : World) : Prop := w.transactions = []

/-- The runs looked at. -/
abbrev Allowed (x : String) (p : Pool managerCalls) (a : Action managerCalls) : Prop :=
  Proper p a ∧ Careful x p a

/-- Who is between the read and the last write of a row can be told from what he awaits. -/
theorem agrees_of_yields {p : Pool managerCalls} {g : Copying} {status : SagaStatus} {j : ℕ}
    (hH : (finality x).Holds p g) (hf : status.Final)
    (ha : ∀ b ∈ p.acts[j]?, Yields x status b) : g.Agrees x status j := by
  intro t ht hid k hk
  obtain ⟨htags, hlt⟩ := hH.fits
  obtain ⟨b, hb, rfl⟩ : ∃ b, p.acts[j]? = some b ∧ b.tag = t := by
    rw [htags, Pool.tags, List.getElem?_map, Option.map_eq_some_iff] at ht
    exact ht
  obtain ⟨t, q⟩ := b
  cases ho : q.awaited? with
  | none =>
    obtain ⟨r, hr⟩ := Async.result?_isSome_of_awaited? ho
    cases (hH.post hb hr : g.copy j = none).symm.trans hk
  | some o =>
    -- what is awaited tells whether a row is held, and what is to be written of it
    obtain ⟨hact, hst⟩ := ha _ hb hid o ho
    cases q with
    | await o' k' =>
      obtain rfl : o' = o := Option.some.inj ho
      obtain ⟨-, hsave, hfree⟩ := hH.assert hb
      cases hs : o'.savedStatus? with
      | none => cases (hfree hact hs).symm.trans hk
      | some status' =>
        obtain rfl := hst status' hs
        rcases hsave status' hs with ⟨hc, hcompleted⟩ | ⟨-, hn⟩
        · exact ⟨Option.some.inj (hk.symm.trans hc), hcompleted⟩
        · exact absurd hf (hn t ht hid)
    | ret a => simp [Async.awaited?] at ho
    | throw e => simp [Async.awaited?] at ho

/-- **The calls keep to the protocol.** -/
theorem finality_sound (x : String) : (finality x).Sound Fresh (Allowed x) where
  init := by
    intro w hw
    -- no transaction is open at first, so no row is locked
    have hnone : ¬w.RowLocked x := by
      rintro ⟨t, ht, -⟩
      rw [show w.transactions = [] from hw] at ht
      exact List.not_mem_nil ht
    exact ⟨⟨[], fun _ => none⟩, ⟨.of_nil hw, fun _ _ _ => hnone, fun _ _ _ _ _ ht => by simp at ht⟩,
      rfl, fun _ _ h => nomatch h⟩
  start := by
    rintro p t g ⟨hp, -⟩ hI ⟨htags, hlt⟩
    have hnone : g.copy p.acts.length = none := by
      cases hc : g.copy p.acts.length with
      | none => rfl
      | some k =>
        have := hlt _ k hc
        simp [Pool.tags] at this
    refine ⟨{ g with tags := g.tags ++ [t] }, ⟨hI.tx, hI.unlocked, fun status hf hs i t' ht' hid k hk =>
      ?_⟩, ⟨fun _ _ h => h, List.prefix_rfl, List.prefix_append ..⟩,
      fun j _ => ⟨rfl, .refl j _, List.prefix_rfl⟩, ⟨by rw [htags], fun i k hk => ?_⟩, hp,
      ?_, hnone⟩
    · refine hI.agrees status hf hs i t' ?_ hid k hk
      rw [← ht']
      exact (List.getElem?_append_left (htags ▸ hlt i k hk)).symm
    · rw [List.length_append]
      exact Nat.lt_add_right _ (hlt i k hk)
    · have hlen : p.acts.length = g.tags.length := by simp [htags, Pool.tags]
      rw [hlen]
      exact List.getElem?_concat_length
  tick := by
    intro p d g _ hI
    have htx : World.TxRespects p.acts.length p.world { p.world with clock := p.world.clock + d } :=
      .of_same hI.tx rfl rfl List.prefix_rfl
    exact ⟨⟨htx.1, hI.unlocked, hI.agrees⟩, ⟨fun _ _ h => h, List.prefix_rfl, List.prefix_rfl⟩,
      fun j => ⟨rfl, fun r _ => ⟨rfl, fun _ _ _ _ => Iff.rfl⟩, List.prefix_rfl⟩⟩
  canRun := by
    -- a write of a copy goes ahead only where all other copies of a finished saga agree with it
    rintro p i c t o k g ⟨-, hc⟩ hi hH
    obtain ⟨hguard, hothers⟩ := hc _ hi o rfl
    refine ⟨fun t' ht' => ?_, fun s hs hid hf j hj => ?_⟩
    · rw [hH.fits.1, Pool.tags, List.getElem?_map, hi] at ht'
      obtain rfl := Option.some.inj ht'
      exact hguard
    · exact agrees_of_yields hH hf fun b hb =>
        hothers s hs hid hf j (List.getElem?_eq_some_iff.mp hb).1 hj b hb
  body := by
    rintro i t w g ⟨hp, ht, hcopy⟩ hI
    cases t with
    | executeSagaStep y call =>
      exact ((step_triple hp).post fun _ _ _ _ h => h.2) w g hI ⟨ht, hcopy⟩
    | completeSaga y =>
      exact ((completeSaga_triple y).post fun _ _ _ _ h => h.2) w g hI ⟨ht, hcopy⟩
    | handleSagaFailure saga failedStep errorMessage =>
      exact ((handleSagaFailure_triple saga _ _).post fun _ _ _ _ h => h.2) w g hI ⟨ht, hcopy⟩
    | executeOrderCancellationStep saga event => exact hp.elim

end Finality

/-- **A final saga stays as it is, and none of its steps runs any more**, in careful runs. -/
theorem final_stays {x : String} {status : SagaStatus} (hf : status.Final)
    {p p' : Pool managerCalls} (hp : Pool.Reachable Finality.Fresh (Finality.Allowed x) p)
    (hs : p.world.SagaIs x status) (hr : Pool.Runs (Finality.Allowed x) p p') :
    p'.world.SagaIs x status ∧ ∀ (i : ℕ) (a : Activity managerCalls) (o : Op),
      p'.acts[i]? = some a → a.tag.sagaId = x → a.prog.awaited? = some o → o.ofAction = false := by
  obtain ⟨g, hH⟩ := (finality_sound x).reachable hp
  obtain ⟨g', hH', hm⟩ := (finality_sound x).runs hH hr
  have hs' := hm.1 status hf hs
  refine ⟨hs', fun i a o ha hid ho => ?_⟩
  -- whoever runs a step has a copy, and may not have one
  obtain ⟨t, q⟩ := a
  cases q with
  | await o' k =>
    obtain rfl := Option.some.inj ho
    cases hact : o'.ofAction with
    | false => rfl
    | true =>
      have hcopy := (hH'.assert ha).1 hact
      have ht : g'.tags[i]? = some t := by rw [hH'.fits.1, Pool.tags, List.getElem?_map, ha]; rfl
      cases (hH'.inv.agrees status hf hs' i t ht hid _ hcopy).1
  | ret a => simp [Async.awaited?] at ho
  | throw e => simp [Async.awaited?] at ho

end Calls

/-! ### A completed saga -/

section Completed

open Samples

instance World.Guarded.decidable (w : World) (x : String) : ∀ t o, Decidable (w.Guarded x t o)
  | .executeSagaStep y call, .sagaFindOne _ =>
    inferInstanceAs (Decidable (y = x → ∀ s ∈ w.sagas.rows, s.id = x → s.status.Final →
      call.stepName ∈ s.completedSteps))
  | .completeSaga y, .sagaFindOne _ =>
    inferInstanceAs (Decidable (y = x → ∀ s ∈ w.sagas.rows, s.id = x → s.status.Final →
      s.status = .completed))
  | .handleSagaFailure _ _ _, .sagaFindOne _ => isTrue trivial
  | .executeOrderCancellationStep _ _, .sagaFindOne _ => isTrue trivial
  | _, .txSagaFindOne _ y =>
    decidable_of_iff (y = x → ∀ s ∈ w.sagas.rows, s.id = x → ¬s.status.Final)
      Finality.guarded_txFind.symm
  | t, .orderFindOne _ | t, .orderFind _ | t, .orderInsert _ | t, .orderSave _
  | t, .paymentFindOne _ | t, .paymentInsert _ | t, .paymentSave _ | t, .sagaInsert _
  | t, .sagaSave _ | t, .connect | t, .startTransaction _ | t, .txSagaSave _ _
  | t, .commitTransaction _ | t, .rollbackTransaction _ | t, .release _ | t, .eventStoreSave _
  | t, .generateToken | t, .redisSet _ _ _ | t, .redisUnlock _ _ | t, .redisRenew _ _ _
  | t, .redisExists _ | t, .kafkaSend _ _ _ | t, .publishAll _ | t, .setImmediate _ | t, .sleep _
  | t, .random | t, .uuidv4 | t, .log _ => isTrue (by cases t <;> exact trivial)

namespace Finality

instance decidableYields (x : String) (status : SagaStatus) (a : Activity managerCalls) :
    Decidable (Yields x status a) :=
  inferInstanceAs (Decidable (a.tag.sagaId = x → ∀ o ∈ a.prog.awaited?, Op.ofAction o = false ∧
    ∀ status' ∈ Op.savedStatus? o, status' = status))

instance decidableAlone (x : String) (p : Pool managerCalls) (i : ℕ) (o : Op) :
    Decidable (Alone x p i o) :=
  inferInstanceAs (Decidable (∀ s ∈ World.rowsOf p.world o, s.id = x → s.status.Final →
    ∀ j < p.acts.length, j ≠ i → ∀ b ∈ p.acts[j]?, Yields x s.status b))

instance decidableCareful (x : String) (p : Pool managerCalls) : ∀ a, Decidable (Careful x p a)
  | .start _ => isTrue trivial
  | .run i _ => inferInstanceAs (Decidable (∀ a ∈ p.acts[i]?, ∀ o ∈ a.prog.awaited?,
      World.Guarded p.world x a.tag o ∧ Alone x p i o))
  | .tick _ => isTrue trivial

/-- Calls whose actions have nothing to do. -/
def Bare (_ : Pool managerCalls) : Action managerCalls → Prop
  | .start (.executeSagaStep _ call) => call.action.awaited? = none
  | .start (.executeOrderCancellationStep _ _) => False
  | _ => True

instance decidableBare (p : Pool managerCalls) : ∀ a, Decidable (Bare p a)
  | .start (.executeSagaStep _ call) => inferInstanceAs (Decidable (call.action.awaited? = none))
  | .start (.executeOrderCancellationStep _ _) => isFalse id
  | .start (.completeSaga _) => isTrue trivial
  | .start (.handleSagaFailure _ _ _) => isTrue trivial
  | .run _ _ => isTrue trivial
  | .tick _ => isTrue trivial

theorem proper_of_bare {p : Pool managerCalls} {a : Action managerCalls} (h : Bare p a) :
    Proper p a := by
  rcases a with t | ⟨i, c⟩ | d
  · cases t with
    | executeSagaStep sagaId call => exact .of_awaited? h
    | executeOrderCancellationStep saga event => exact h
    | _ => exact trivial
  · exact trivial
  · exact trivial

theorem oneSagaStored_quiet : Fresh oneSagaStored := rfl

/-- A step is run, and the saga completed. -/
def stepAndComplete : List (Action managerCalls) :=
  bareStep "payment_processing" :: List.replicate 8 (.run 0 { text := "a" }) ++
    .start (.completeSaga "saga-1") :: List.replicate 3 (.run 1 {})

theorem stepAndComplete_played : (Pool.play (fun p a => Bare p a ∧ Careful "saga-1" p a)
    ⟨oneSagaStored, []⟩ stepAndComplete).isSome := by
  decide +kernel

/-- The saga is completed. -/
def completedSaga : Pool managerCalls :=
  (Pool.play _ ⟨oneSagaStored, []⟩ stepAndComplete).get stepAndComplete_played

/-- The step is called once more. -/
def sameStepAgain : List (Action managerCalls) :=
  bareStep "payment_processing" :: List.replicate 4 (.run 2 { text := "b" })

theorem sameStepAgain_played : (Pool.play (fun p a => Bare p a ∧ Careful "saga-1" p a)
    completedSaga sameStepAgain).isSome := by
  decide +kernel

/-- It finds that the step has run. -/
theorem final_stays_sameStep :
    let p := (Pool.play _ completedSaga sameStepAgain).get sameStepAgain_played
    p.world.SagaIs "saga-1" .completed ∧ ∀ (i : ℕ) (a : Activity managerCalls) (o : Op),
      p.acts[i]? = some a → a.tag.sagaId = "saga-1" → a.prog.awaited? = some o →
        o.ofAction = false :=
  final_stays (Or.inl rfl)
    ((Pool.reachable_of_play oneSagaStored_quiet stepAndComplete_played).mono
      fun _ _ h => ⟨proper_of_bare h.1, h.2⟩)
    (by decide +kernel)
    ((Pool.runs_of_play _ _ _ (Option.some_get sameStepAgain_played).symm).mono
      fun _ _ h => ⟨proper_of_bare h.1, h.2⟩)

/-- Another step is called, and runs; a failure is handled meanwhile. -/
def stepAndFailure : List (Action managerCalls) :=
  bareStep "order_confirmation" :: List.replicate 4 (.run 2 { text := "b" }) ++
    .start (.handleSagaFailure freshSaga "order_confirmation" "late") :: List.replicate 5 (.run 3 {})

theorem stepAndFailure_played :
    (Pool.play Bare completedSaga stepAndFailure).isSome := by
  decide +kernel

end Finality

open Finality in
/-- **The completed saga is to be compensated, while a step of it runs.** -/
theorem final_lost : ∃ p p' : Pool managerCalls, Pool.Reachable Fresh Proper p ∧
    p.world.SagaIs "saga-1" .completed ∧ Pool.Runs Proper p p' ∧
    p'.world.SagaIs "saga-1" .compensating ∧ ∃ (i : ℕ) (a : Activity managerCalls) (o : Op),
      p'.acts[i]? = some a ∧ a.tag.sagaId = "saga-1" ∧ a.prog.awaited? = some o ∧
        o.ofAction = true := by
  refine ⟨completedSaga, (Pool.play _ completedSaga stepAndFailure).get stepAndFailure_played,
    (Pool.reachable_of_play oneSagaStored_quiet stepAndComplete_played).mono
      fun _ _ h => proper_of_bare h.1,
    by decide +kernel, (Pool.runs_of_play _ _ _ (Option.some_get stepAndFailure_played).symm).mono
      fun _ _ h => proper_of_bare h, by decide +kernel, 2, ?_⟩
  have hact : ((((Pool.play Bare completedSaga stepAndFailure).get
      stepAndFailure_played).acts[2]?.any fun a => decide (a.tag.sagaId = "saga-1") &&
        a.prog.awaited?.any Op.ofAction)) = true := by
    decide +kernel
  obtain ⟨a, ha, h⟩ := (Option.any_eq_true _ _).mp hact
  obtain ⟨hid, ho⟩ := Bool.and_eq_true_iff.mp h
  obtain ⟨o, ho, hact⟩ := (Option.any_eq_true _ _).mp ho
  exact ⟨a, o, ha, of_decide_eq_true hid, ho, hact⟩

end Completed

end CqrsSaga
