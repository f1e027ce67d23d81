import CqrsSaga.App.OrderProcessingSaga
import CqrsSaga.Saga.Failure
import CqrsSaga.Saga.LostUpdate

/-!
# Copies of a saga

Calls of the saga manager read the row of a saga, keep it while they do something else and
write all columns back, long after others may have done the same.  What is stored about a
saga may thus be out of date.  But it is never wrong: no copy, whether stored, about to be
written by a transaction or in the memory of a call, lists a step twice or lists one whose
action has not run to completion.

## Main definitions

* `ManagerCall`, `managerCalls` — the calls, and the system of any number of them.
* `World.Sound` — what holds of every copy.
* `copyProtocol` — what the calls agree on.

## Main results

* `copies_sound` — the calls keep to the protocol.
* `recorded_steps_ran` — **stored steps are distinct, and their actions have run.**
-/

namespace CqrsSaga

open SagaManager OrderProcessingSaga RedisLockService KafkaService

/-- The row of a saga an operation is to write. -/
def Op.savedSaga? : Op → Option SagaInstance
  | .sagaSave s => some s
  | .txSagaSave _ s => some s
  | _ => none

/-- Whether an operation adds a saga. -/
def Op.addsSaga : Op → Bool
  | .sagaInsert _ => true
  | _ => false

theorem Op.leavesSagas.saves {o : Op} (h : o.leavesSagas) :
    o.savedSaga? = none ∧ o.addsSaga = false := by
  cases o <;> simp_all [Op.leavesSagas, Op.writes, Op.savedSaga?, Op.addsSaga]

namespace World

variable {w w' : World} {i : ℕ} {o : Op} {c : Choice} {r : Except Err (Op.Val o)} {ts : List Task}

/-- The steps of a saga are distinct, and their actions have run to completion. -/
def Sound (w : World) (x : SagaInstance) : Prop :=
  x.completedSteps.Nodup ∧ ∀ s ∈ x.completedSteps, 0 < w.executions x.id s

/-- More may have been run since. -/
theorem Sound.later {x : SagaInstance} (h : w.Sound x)
    (he : ∀ id s, w.executions id s ≤ w'.executions id s) : w'.Sound x :=
  ⟨h.1, fun s hs => Nat.lt_of_lt_of_le (h.2 s hs) (he _ s)⟩

/-- Other columns do not matter. -/
theorem Sound.rewrite {x y : SagaInstance} (h : w.Sound x) (hid : y.id = x.id)
    (hs : y.completedSteps = x.completedSteps) : w.Sound y := by
  unfold Sound
  rw [hid, hs]
  exact h

/-- A step that was not listed may be noted once its action has run. -/
theorem Sound.note {x : SagaInstance} {s : String} (h : w.Sound x) (hs : s ∉ x.completedSteps)
    (he : 0 < w.executions x.id s) {currentStep : String} :
    w.Sound { x with currentStep, completedSteps := x.completedSteps ++ [s] } := by
  refine ⟨List.nodup_append.mpr ⟨h.1, List.nodup_singleton s, ?_⟩, fun s' hs' => ?_⟩
  · rintro a ha b hb rfl
    exact hs (List.mem_singleton.mp hb ▸ ha)
  · rcases List.mem_append.mp hs' with hs' | hs'
    · exact h.2 s' hs'
    · rw [List.mem_singleton.mp hs']
      exact he

end World

section Calls

variable [Hashes]

/-- A call on a saga. -/
inductive ManagerCall
  | executeSagaStep (sagaId : String) (call : StepCall)
  | completeSaga (sagaId : String)
  | handleSagaFailure (saga : SagaInstance) (failedStep errorMessage : String)
  | executeOrderCancellationStep (saga : SagaInstance) (event : PaymentFailedEvent)

/-- The program of a call. -/
def ManagerCall.run : ManagerCall → Async App Unit
  | executeSagaStep sagaId call => call.run sagaId
  | completeSaga sagaId => SagaManager.completeSaga sagaId
  | handleSagaFailure saga failedStep errorMessage =>
    SagaManager.handleSagaFailure saga failedStep errorMessage
  | executeOrderCancellationStep saga event =>
    OrderProcessingSaga.executeOrderCancellationStep saga event

/-- Any number of calls.  What they hand to `setImmediate` writes no saga, and is not followed. -/
abbrev managerCalls : System app where
  Tag := ManagerCall
  Res := Unit
  body := ManagerCall.run
  spawned := fun _ => none

namespace Copies

/-- The runs looked at.  Operations may fail and locks run out at any time; the actions of
steps mind their own business, and the saga whose order is to be cancelled was read. -/
def Allowed (p : Pool managerCalls) : Action managerCalls → Prop
  | .start (.executeSagaStep _ call) => call.action.Only fun o : Op => o.leavesSagas
  | .start (.executeOrderCancellationStep saga _) => saga ∈ p.world.sagas
  | _ => True

/-- No transaction is open, and no step is completed. -/
def Fresh (w : World) : Prop := w.transactions = [] ∧ ∀ x ∈ w.sagas, x.completedSteps = []

/-- The invariant. -/
structure Inv (w : World) : Prop where
  stored : ∀ x ∈ w.sagas, w.Sound x
  pending : ∀ x, w.Pending x → w.Sound x

/-- What the calls agree on. -/
def copyProtocol : Protocol managerCalls where
  Ghost := Unit
  Inv := fun w _ => Inv w
  Mono := fun w _ w' _ =>
    (∀ id s, w.executions id s ≤ w'.executions id s) ∧ w.runners <+: w'.runners
  Keep := fun _ _ _ _ _ => True
  CanRun := fun _ _ _ _ _ => True
  Assert := fun _ _ _ _ => True
  Fits := fun _ _ => True
  Born := fun _ t w _ =>
    match t with
    | .executeSagaStep _ call => call.action.Only fun o : Op => o.leavesSagas
    | .executeOrderCancellationStep saga _ => w.Sound saga
    | _ => True
  Post := fun _ _ _ _ _ => True
  mono_refl := fun _ _ => ⟨fun _ _ => Nat.le_refl _, List.prefix_rfl⟩
  mono_trans := fun h h' => ⟨fun id s => (h.1 id s).trans (h'.1 id s), h.2.trans h'.2⟩
  keep_refl := fun _ _ _ => trivial
  keep_trans := fun _ _ => trivial

variable {w w' : World} {i : ℕ} {o : Op}

/-! ### Operations -/

omit [Hashes] in
/-- What an operation that writes none but sound rows leaves. -/
theorem perform_inv {c : Choice} {r : Except Err (Op.Val o)} {ts : List Task} (hI : Inv w)
    (h : w.perform i c o = some (w', r, ts)) (he : ∀ id s, w.executions id s ≤ w'.executions id s)
    (hadd : o.addsSaga = false) (hs : ∀ x ∈ o.savedSaga?, w.Sound x) : Inv w' := by
  -- rows that are sound before are sound after
  have hrows : (∀ x ∈ w'.sagas, ∃ y, w.Sound y ∧ x.id = y.id ∧ x.completedSteps = y.completedSteps) →
      (∀ x, w'.Pending x → w.Sound x) → Inv w' := by
    refine fun hrow hpend => ⟨fun x hx => ?_, fun x hx => (hpend x hx).later he⟩
    obtain ⟨y, hy, hid, hsteps⟩ := hrow x hx
    exact (hy.rewrite hid hsteps).later he
  have hsame : w'.sagas = w.sagas →
      ∀ x ∈ w'.sagas, ∃ y, w.Sound y ∧ x.id = y.id ∧ x.completedSteps = y.completedSteps :=
    fun heq x hx => ⟨x, hI.stored x (heq ▸ hx), rfl, rfl⟩
  by_cases hctl : ∃ n, o ∈ Op.controls n
  · obtain ⟨n, hn⟩ := hctl
    obtain ⟨hpend, ss, hss, hsagas⟩ := World.perform_control hn h
    refine hrows (fun x hx => ?_) fun x hx => hI.pending x (hpend x hx)
    rw [hsagas] at hx
    rcases World.saved_sagas ss w hx with ⟨y, hy, rfl⟩ | hx
    · exact ⟨y, hI.pending y (hss y hy), rfl, rfl⟩
    · exact ⟨x, hI.stored x hx, rfl, rfl⟩
  cases o with
  | sagaInsert n => simp [Op.addsSaga] at hadd
  | sagaSave s =>
    obtain ⟨-, rfl⟩ := World.perform_sagaSave h
    obtain ⟨t, ht⟩ := World.putSaga_only w s
    refine hrows (fun x hx => ?_) fun x hx => hI.pending x (by rw [ht] at hx; exact hx)
    rcases (World.mem_putSaga w s).mp hx with rfl | ⟨hx, -⟩
    · exact ⟨s, hs s rfl, rfl, rfl⟩
    · exact ⟨x, hI.stored x hx, rfl, rfl⟩
  | txSagaFindOne n id =>
    obtain ⟨hpend, hsagas, -⟩ := World.perform_txFind h
    exact hrows (hsame hsagas) fun x hx => hI.pending x (hpend x hx)
  | txSagaSave n s =>
    obtain ⟨hpend, hsagas⟩ := World.perform_txSave h
    refine hrows (hsame hsagas) fun x hx => ?_
    rcases hpend x hx with rfl | hx
    · exact hs x rfl
    · exact hI.pending x hx
  | startTransaction n | commitTransaction n | rollbackTransaction n | release n =>
    exact absurd ⟨n, by simp [Op.controls]⟩ hctl
  | _ =>
    have hf := World.perform_frame h
    refine hrows (hsame (hf.sagas (by simp [Op.writes]))) fun x hx => ?_
    unfold World.Pending at hx
    rw [hf.transactions (by simp [Op.writes])] at hx
    exact hI.pending x hx

/-- **An operation that writes none but sound rows leaves all rows sound.** -/
theorem exec_inv {c : Choice} {r : Except Err (Op.Val o)} {ts : List Task} (hI : Inv w)
    (h : World.exec w i o c = some (w', r, ts)) (hadd : o.addsSaga = false)
    (hs : ∀ x ∈ o.savedSaga?, w.Sound x) : Inv w' ∧ copyProtocol.Mono w () w' () := by
  have he : ∀ id s, w.executions id s ≤ w'.executions id s :=
    fun _ _ => (World.exec_log h).sublist.count_le _
  refine ⟨?_, he, World.exec_runners h⟩
  rcases World.exec_cases h with ⟨-, hp⟩ | ⟨m, -, rfl, -⟩ | ⟨m, v, -, -, hp, -⟩
  · exact perform_inv hI hp he hadd hs
  · exact hI
  · exact perform_inv hI hp he hadd hs

variable {F : World → Unit → Prop}

theorem sound_lasting (x : SagaInstance) : copyProtocol.Lasting fun w _ => w.Sound x :=
  fun _ _ _ _ hm _ h => h.later hm.1

theorem owner_lasting (n : ℕ) : copyProtocol.Lasting fun w _ => w.Owner i n :=
  fun _ _ _ _ hm _ h => h.later hm.2

theorem executed_lasting (id s : String) :
    copyProtocol.Lasting fun w _ => 0 < w.executions id s :=
  fun _ _ _ _ hm _ h => Nat.lt_of_lt_of_le h (hm.1 id s)

/-- What an operation answers, once it is known that it leaves all rows sound. -/
theorem op_atomic {Φ : copyProtocol.Assn (Op.Val o)} (hI : Inv w) (hadd : o.addsSaga = false)
    (hs : ∀ x ∈ o.savedSaga?, w.Sound x)
    (h : ∀ c w' r ts, w.exec i o c = some (w', r, ts) → Inv w' → copyProtocol.Mono w () w' () →
      Φ r w' ()) : copyProtocol.atomic i o Φ w () := by
  refine ⟨trivial, fun c w' r ts _ he l _ _ => ?_⟩
  obtain ⟨hI', hm⟩ := exec_inv hI he hadd hs
  exact .quiet (by simp) () hI' hm (fun _ _ _ => trivial) trivial (h c w' r ts he hI' hm)

/-- An operation that writes no saga keeps what lasts. -/
theorem quiet_triple (hF : copyProtocol.Lasting F) (hadd : o.addsSaga = false)
    (hs : o.savedSaga? = none) : copyProtocol.Triple i F (call o) fun _ => F :=
  .perform hF.stable (fun _ => hF.stable) fun w g hI hw =>
    op_atomic hI hadd (by simp [hs]) fun _ _ _ _ _ hI' hm => hF hm hI' hw

/-- A sound row is written. -/
theorem save_triple (hF : copyProtocol.Lasting F) (hadd : o.addsSaga = false)
    (hs : ∀ w, F w () → ∀ x ∈ o.savedSaga?, w.Sound x) :
    copyProtocol.Triple i F (call o) fun _ => F :=
  .perform hF.stable (fun _ => hF.stable) fun w _ hI hw =>
    op_atomic hI hadd (hs w hw) fun _ _ _ _ _ hI' hm => hF hm hI' hw

/-- A program that writes no saga. -/
theorem leaves_triple {α : Type} {p : Async App α} (hF : copyProtocol.Lasting F)
    (hp : p.Only fun o : Op => o.savedSaga? = none ∧ o.addsSaga = false) :
    copyProtocol.Triple i F p fun _ => F := by
  intro w _ _ hw
  refine Protocol.wp_of_only hF.stable (fun o w _ ho hI hw => ?_) hp hw
  exact op_atomic hI ho.2 (by simp [ho.1]) fun _ _ _ _ _ hI' hm => hF hm hI' hw

/-- The row of a saga is read. -/
theorem findOne_triple (hF : copyProtocol.Lasting F) (q : SagaWhere) :
    copyProtocol.Triple i F (sagaRepository.findOne q) fun r w g =>
      F w g ∧ ∀ x, r = .ok (some x) → w.Sound x ∧ q.selects x = true := by
  refine .perform hF.stable (fun r => hF.stable.and (.all fun x => .imp fun _ =>
    (sound_lasting x).stable.and (.const _))) fun w g hI hw =>
      op_atomic hI rfl (by simp [Op.savedSaga?]) fun c w' r ts he hI' hm =>
        ⟨hF hm hI' hw, fun x hx => ?_⟩
  obtain ⟨rfl, -, rfl | ⟨m, rfl⟩⟩ := World.exec_query he rfl rfl
  · have hfound := Except.ok.inj hx
    exact ⟨hI.stored x (Table.mem_of_find? hfound), Table.find?_some hfound⟩
  · simp at hx

/-- The row of a saga is read for update. -/
theorem txFind_triple (hF : copyProtocol.Lasting F) (n : ℕ) (id : String) :
    copyProtocol.Triple i F (queryRunner.findOne n id) fun r w g =>
      F w g ∧ ∀ x, r = .ok (some x) → w.Sound x ∧ x.id = id := by
  refine .perform hF.stable (fun r => hF.stable.and (.all fun x => .imp fun _ =>
    (sound_lasting x).stable.and (.const _))) fun w g hI hw =>
      op_atomic hI rfl (by simp [Op.savedSaga?]) fun c w' r ts he hI' hm =>
        ⟨hF hm hI' hw, fun x hx => ?_⟩
  rcases World.exec_cases_of_not_redis he rfl with ⟨-, hp⟩ | ⟨m, -, -, rfl, -⟩
  · obtain ⟨-, -, hfound⟩ := World.perform_txFind hp
    obtain ⟨-, hmem, hid⟩ := hfound x hx
    exact ⟨(hI.stored x hmem).later hm.1, hid⟩
  · simp at hx

/-- A query runner is opened. -/
theorem connect_triple (hF : copyProtocol.Lasting F) :
    copyProtocol.Triple i F queryRunner.connect fun r w g => F w g ∧ ∀ n, r = .ok n → w.Owner i n := by
  refine .perform hF.stable (fun r => hF.stable.and (.all fun n => .imp fun _ =>
    (owner_lasting n).stable)) fun w g hI hw =>
      op_atomic hI rfl (by simp [Op.savedSaga?]) fun c w' r ts he hI' hm =>
        ⟨hF hm hI' hw, fun n hn => World.exec_connect he hn⟩

/-! ### Failures -/

/-- The handling of a failure writes what it has read. -/
theorem compensating (hF : copyProtocol.Lasting F) (id : String) :
    Compensating copyProtocol i id F fun _ x w _ => w.Sound x ∧ x.id = id where
  stable := hF.stable
  owner := owner_lasting
  seen := fun _ x => (sound_lasting x).stable.and (.const _)
  connect := connect_triple hF
  control := by
    intro n o ho
    refine (quiet_triple hF ?_ ?_).pre fun _ _ _ h => h.1
    all_goals
      simp only [Op.controls, List.mem_cons, List.not_mem_nil, or_false] at ho
      rcases ho with rfl | rfl | rfl | rfl <;> rfl
  find := fun n => (txFind_triple hF n id).pre fun _ _ _ h => h.1
  save := by
    rintro n x s ⟨status, currentStep, errorMessage, -, rfl⟩
    refine Protocol.Triple.conseq (fun _ _ _ h => ⟨h.1.1, h.2.1⟩) (fun _ _ _ _ h => h.1)
      (save_triple (o := .txSagaSave n _) (hF.and (sound_lasting x)) rfl fun w hw y hy => ?_)
    obtain rfl := Option.some.inj hy
    exact hw.2.rewrite rfl rfl
  send := fun m => quiet_triple hF rfl rfl

theorem handleSagaFailure_triple (hF : copyProtocol.Lasting F) (saga : SagaInstance)
    (failedStep errorMessage : String) :
    copyProtocol.Triple i F (handleSagaFailure saga failedStep errorMessage) fun _ => F :=
  (compensating hF saga.id).handleSagaFailure_triple rfl _ _ fun _ _ _ _ h => h.2

/-! ### The calls -/

/-- A saga of this id is read. -/
theorem findById_triple (hF : copyProtocol.Lasting F) (id : String) :
    copyProtocol.Triple i F (sagaRepository.findOne { id := some id }) fun r w g =>
      F w g ∧ ∀ x, r = .ok (some x) → w.Sound x ∧ x.id = id := by
  refine (findOne_triple hF _).post fun r w g _ h => ⟨h.1, fun x hx => ?_⟩
  obtain ⟨hs, hsel⟩ := h.2 x hx
  exact ⟨hs, SagaWhere.selects_id hsel rfl⟩

theorem true_lasting : copyProtocol.Lasting fun _ _ => True := .const True

/-- The assertion that says nothing. -/
abbrev Nothing (_ : World) (_ : Unit) : Prop := True

/-- What a read has found is sound. -/
theorem found_stable (id : String) (r : Except Err (Option SagaInstance)) :
    copyProtocol.Stable i fun w _ => Nothing w () ∧
      ∀ x, r = .ok (some x) → w.Sound x ∧ x.id = id :=
  true_lasting.stable.and (.all fun x => .imp fun _ => (sound_lasting x).stable.and (.const _))

/-- The action of a step has run to completion, and says so. -/
theorem executed_triple {sagaId s : String} {x : SagaInstance} (hid : x.id = sagaId) :
    copyProtocol.Triple i (fun w _ => w.Sound x) (logger (.commandExecuted s sagaId))
      fun _ w _ => w.Sound x ∧ 0 < w.executions x.id s := by
  have hx := sound_lasting x
  refine .perform hx.stable (fun _ => hx.stable.and (executed_lasting x.id s).stable)
    fun w _ hI hw => op_atomic hI rfl (by simp [Op.savedSaga?]) fun c w' r ts he hI' hm =>
      ⟨hx hm hI' hw, ?_⟩
  obtain ⟨hp, -⟩ := World.exec_local he rfl
  simp only [World.perform, Option.some.injEq, Prod.mk.injEq] at hp
  obtain ⟨rfl, -, -⟩ := hp
  simp [World.executions, hid]

/-- What `executeSagaStep` does under its lock: the step it notes was not listed in the row it
has read, and its action has run. -/
theorem stepSection_triple {sagaId s : String} {action : Async App Unit}
    (ha : action.Only fun o : Op => o.leavesSagas) :
    copyProtocol.Triple i Nothing
      (stepSection sagaId s (action.bind fun _ => logger (.commandExecuted s sagaId)))
      fun _ => Nothing := by
  refine .bind _ (findById_triple true_lasting sagaId) (fun found => ?_)
    fun e => .throw (found_stable sagaId _) fun _ _ _ _ => trivial
  cases found with
  | none => exact .throw (found_stable sagaId _) fun _ _ _ _ => trivial
  | some x =>
    refine .assuming (fun w g _ h => (h.2 x rfl).2) fun hid => ?_
    refine .pre (F := fun (w : World) _ => w.Sound x) (fun w g _ h => (h.2 x rfl).1) ?_
    have hx := sound_lasting x
    by_cases hmem : s ∈ x.completedSteps
    · simp only [if_pos hmem]
      exact .ret hx.stable fun _ _ _ _ => trivial
    simp only [if_neg hmem]
    refine .bind _ (save_triple (o := .sagaSave _) hx rfl fun w hw y hy => ?_) (fun _ => ?_)
      fun e => .throw hx.stable fun _ _ _ _ => trivial
    · obtain rfl := Option.some.inj hy
      exact hw.rewrite rfl rfl
    -- the action, and the line of the log it ends with
    have hran : copyProtocol.Lasting fun w _ => w.Sound x ∧ 0 < w.executions x.id s :=
      hx.and (executed_lasting x.id s)
    refine .bind (fun r (w : World) _ => w.Sound x ∧ ((∃ v, r = .ok v) → 0 < w.executions x.id s)) ?_
      (fun _ => ?_) fun e => .throw (hx.stable.and (.imp fun _ => (executed_lasting x.id s).stable))
        fun _ _ _ _ => trivial
    · refine .bind _ (leaves_triple hx (ha.mono fun o h => h.saves)) (fun _ => ?_)
        fun e => .throw hx.stable fun w g _ h => ⟨h, fun ⟨v, hv⟩ => by simp at hv⟩
      exact (executed_triple hid).post fun _ _ _ _ h => ⟨h.1, fun _ => h.2⟩
    refine .pre (fun w g _ h => ⟨h.1, h.2 ⟨_, rfl⟩⟩) (.bind _ (save_triple (o := .sagaSave _) hran rfl
      fun w hw y hy => ?_) (fun _ => ?_) fun e => .throw hran.stable fun _ _ _ _ => trivial)
    · obtain rfl := Option.some.inj hy
      exact hw.1.note hmem hw.2
    · exact (quiet_triple hran rfl rfl).post fun _ _ _ _ _ => trivial

/-- A call of `executeSagaStep`. -/
theorem step_triple {sagaId : String} {call : StepCall}
    (ha : call.action.Only fun o : Op => o.leavesSagas) :
    copyProtocol.Triple i Nothing (call.run sagaId) fun _ => Nothing := by
  have hT := true_lasting
  refine .rescue hT.stable (withLock_keeps hT.stable (fun o ho _ => ?_) (stepSection_triple ha))
    fun e => .seq hT.stable (quiet_triple hT rfl rfl) fun _ => ?_
  · exact quiet_triple hT (by cases o <;> simp_all [Op.isLockService, Op.addsSaga])
      (by cases o <;> simp_all [Op.isLockService, Op.savedSaga?])
  · refine .seq hT.stable (quiet_triple hT rfl rfl) fun found => ?_
    cases found with
    | none => exact .skip hT.stable
    | some x => exact handleSagaFailure_triple hT x _ _

theorem completeSaga_triple (sagaId : String) :
    copyProtocol.Triple i Nothing (completeSaga sagaId) fun _ => Nothing := by
  refine .bind _ (findById_triple true_lasting sagaId) (fun found => ?_)
    fun e => .throw (found_stable sagaId _) fun _ _ _ _ => trivial
  cases found with
  | none => exact .throw (found_stable sagaId _) fun _ _ _ _ => trivial
  | some x =>
    refine .pre (F := fun (w : World) _ => w.Sound x) (fun w g _ h => (h.2 x rfl).1) ?_
    have hx := sound_lasting x
    dsimp only
    split
    · exact .ret hx.stable fun _ _ _ _ => trivial
    · refine .bind _ (save_triple (o := .sagaSave _) hx rfl fun w hw y hy => ?_) (fun _ => ?_)
        fun e => .throw hx.stable fun _ _ _ _ => trivial
      · obtain rfl := Option.some.inj hy
        exact hw.rewrite rfl rfl
      · exact (quiet_triple hx rfl rfl).post fun _ _ _ _ _ => trivial

omit [Hashes] in
/-- The cancellation of an order by its saga writes no saga. -/
theorem cancelOrder_only (command : CancelOrderCommand) : (CancelOrderHandler.execute command).Only
    fun o : Op => o.savedSaga? = none ∧ o.addsSaga = false := by
  have hop : ∀ o : Op, o.savedSaga? = none ∧ o.addsSaga = false → (call o).Only
      fun o : Op => o.savedSaga? = none ∧ o.addsSaga = false := fun o h => .perform h
  refine .bind (hop _ ⟨rfl, rfl⟩) fun found => ?_
  cases found with
  | none => exact trivial
  | some o =>
    dsimp only
    split
    · exact trivial
    · split
      · exact trivial
      · exact .bind (hop _ ⟨rfl, rfl⟩) fun _ => .bind (hop _ ⟨rfl, rfl⟩) fun _ =>
          .bind (hop _ ⟨rfl, rfl⟩) fun _ => hop _ ⟨rfl, rfl⟩

/-- The copy that is written in the end was sound when it was read. -/
theorem cancellation_triple (saga : SagaInstance) (event : PaymentFailedEvent) :
    copyProtocol.Triple i (fun w _ => w.Sound saga)
      (OrderProcessingSaga.executeOrderCancellationStep saga event) fun _ w _ => w.Sound saga := by
  have hs := sound_lasting saga
  refine .rescue hs.stable (.seq hs.stable (leaves_triple hs (cancelOrder_only _)) fun _ => ?_)
    fun e => handleSagaFailure_triple hs saga _ _
  refine save_triple (o := .sagaSave _) hs rfl fun w hw y hy => ?_
  obtain rfl := Option.some.inj hy
  exact hw.rewrite rfl rfl

/-! ### Soundness -/

/-- **The calls keep to the protocol.** -/
theorem copies_sound : copyProtocol.Sound Fresh Allowed where
  init := by
    rintro w ⟨htx, hsteps⟩
    refine ⟨(), ⟨fun x hx => ?_, ?_⟩, trivial⟩
    · simp [World.Sound, hsteps x hx]
    · simp [World.Pending, htx]
  start := by
    intro p t g ha hI _
    refine ⟨(), hI, copyProtocol.mono_refl _ _, fun _ _ => trivial, trivial, ?_⟩
    cases t with
    | executeSagaStep sagaId call => exact ha
    | completeSaga sagaId => exact trivial
    | handleSagaFailure saga failedStep errorMessage => exact trivial
    | executeOrderCancellationStep saga event => exact hI.stored saga ha
  tick := fun p d g _ hI => ⟨⟨hI.stored, hI.pending⟩, copyProtocol.mono_refl p.world (),
    fun _ => trivial⟩
  canRun := fun _ _ _ _ _ _ _ _ _ _ => trivial
  body := by
    intro i t w g hb hI
    cases t with
    | executeSagaStep sagaId call => exact step_triple hb w g hI trivial
    | completeSaga sagaId => exact completeSaga_triple sagaId w g hI trivial
    | handleSagaFailure saga failedStep errorMessage =>
      exact handleSagaFailure_triple true_lasting saga _ _ w g hI trivial
    | executeOrderCancellationStep saga event =>
      exact ((cancellation_triple saga event).post fun _ _ _ _ _ => trivial) w g hI hb

end Copies

open Copies in
/-- **The stored steps of a saga are distinct, and their actions have run to completion**, in
whatever order the calls read and write, and whichever operations fail. -/
theorem recorded_steps_ran {p : Pool managerCalls} (hp : Pool.Reachable Fresh Allowed p)
    {x : SagaInstance} (hx : x ∈ p.world.sagas) :
    x.completedSteps.Nodup ∧ ∀ s ∈ x.completedSteps, 0 < p.world.executions x.id s := by
  obtain ⟨g, hH⟩ := copies_sound.reachable hp
  exact hH.inv.stored x hx

end Calls

/-! ### Two calls overlap -/

open Samples

/-- Allowed runs whose actions have nothing to do. -/
def Copies.Bare (p : Pool managerCalls) : Action managerCalls → Prop
  | .start (.executeSagaStep _ call) => call.action.awaited? = none
  | .start (.executeOrderCancellationStep saga _) => saga ∈ p.world.sagas.rows
  | _ => True

instance Copies.decidableBare (p : Pool managerCalls) : ∀ a, Decidable (Bare p a)
  | .start (.executeSagaStep _ call) => inferInstanceAs (Decidable (call.action.awaited? = none))
  | .start (.executeOrderCancellationStep saga _) =>
    inferInstanceAs (Decidable (saga ∈ p.world.sagas.rows))
  | .start (.completeSaga _) => isTrue trivial
  | .start (.handleSagaFailure _ _ _) => isTrue trivial
  | .run _ _ => isTrue trivial
  | .tick _ => isTrue trivial

theorem Copies.allowed_of_bare {p : Pool managerCalls} {a : Action managerCalls} (h : Bare p a) :
    Allowed p a := by
  cases a with
  | start t =>
    cases t with
    | executeSagaStep sagaId call => exact .of_awaited? h
    | executeOrderCancellationStep saga event => exact h
    | completeSaga sagaId => exact trivial
    | handleSagaFailure saga failedStep errorMessage => exact trivial
  | run i c => exact trivial
  | tick d => exact trivial

/-- The call of a step whose action has nothing to do. -/
def bareStep (stepName : String) : Action managerCalls :=
  .start (.executeSagaStep "saga-1" ⟨stepName, .ret ()⟩)

/-- Two calls read the row before either has noted its step, and both note it. -/
def overlappingCopies : List (Action managerCalls) :=
  [bareStep "payment_processing", bareStep "order_confirmation",
    .run 0 { text := "a" }, .run 1 { text := "b" }] ++
  (List.replicate 5 [.run 0 {}, .run 1 {}]).flatten

theorem overlappingCopies_played :
    (Pool.play Copies.Bare ⟨oneSagaStored, []⟩ overlappingCopies).isSome := by
  decide +kernel

/-- The late copy lists one step, and not the other. -/
theorem recorded_steps_ran_overlapping :
    ∃ x ∈ ((Pool.play Copies.Bare ⟨oneSagaStored, []⟩ overlappingCopies).get
        overlappingCopies_played).world.sagas,
      x.completedSteps = ["order_confirmation"] ∧ x.completedSteps.Nodup ∧
        ∀ s ∈ x.completedSteps, 0 < ((Pool.play Copies.Bare ⟨oneSagaStored, []⟩
          overlappingCopies).get overlappingCopies_played).world.executions x.id s := by
  have hany : (((Pool.play Copies.Bare ⟨oneSagaStored, []⟩ overlappingCopies).get
      overlappingCopies_played).world.sagas.rows.any
        fun x => x.completedSteps = ["order_confirmation"]) = true := by
    decide +kernel
  obtain ⟨x, hx, hxs⟩ := List.any_eq_true.mp hany
  have hfresh : Copies.Fresh oneSagaStored := by
    refine ⟨rfl, fun x hx => ?_⟩
    obtain rfl := List.mem_singleton.mp hx
    rfl
  exact ⟨x, hx, of_decide_eq_true hxs, recorded_steps_ran
    ((Pool.reachable_of_play hfresh overlappingCopies_played).mono
      fun _ _ => Copies.allowed_of_bare) hx⟩

end CqrsSaga
