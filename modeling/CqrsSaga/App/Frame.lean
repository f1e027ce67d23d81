import Mathlib.Data.List.Infix
import CqrsSaga.App.World

/-!
# What an operation leaves alone

Every operation writes at most one part of the world, a commit two.  This module says
which, so that an invariant about one part is kept by all operations that write
another one without looking at them.

## Main definitions

* `Part`, `Op.writes` — the parts of the world, and which of them an operation writes.
* `World.Frame` — what an operation leaves alone.

## Main results

* `World.perform_frame`, `World.exec_frame` — an operation leaves alone what it does not write.
* `World.perform_tasks` — only the event bus and `setImmediate` start work.
* `World.exec_starts` — what they start.
-/

namespace CqrsSaga

/-- The parts of the world invariants speak of. -/
inductive Part
  | orders | payments | sagas | eventStore | transactions | runners | redis | tokens | published
  | log
  deriving DecidableEq

/-- The parts an operation may write. -/
def Op.writes : Op → List Part
  | .orderInsert _ => [.orders]
  | .orderSave _ => [.orders]
  | .paymentInsert _ => [.payments]
  | .paymentSave _ => [.payments]
  | .sagaInsert _ => [.sagas]
  | .sagaSave _ => [.sagas]
  | .eventStoreSave _ => [.eventStore]
  | .connect => [.runners]
  | .startTransaction _ => [.transactions]
  | .txSagaFindOne _ _ => [.transactions]
  | .txSagaSave _ _ => [.transactions]
  | .commitTransaction _ => [.sagas, .transactions]
  | .rollbackTransaction _ => [.transactions]
  | .release _ => [.transactions]
  | .generateToken => [.tokens]
  | .redisSet _ _ _ => [.redis]
  | .redisUnlock _ _ => [.redis]
  | .redisRenew _ _ _ => [.redis]
  | .publishAll _ => [.published]
  | .log _ => [.log]
  | _ => []

/-- Whether an operation starts work of its own. -/
def Op.starts : Op → Bool
  | .publishAll _ => true
  | .setImmediate _ => true
  | _ => false

/-- Whether an operation sends a message to Kafka. -/
def Op.sends : Op → Bool
  | .kafkaSend _ _ _ => true
  | _ => false

/-- The order an operation writes back. -/
def Op.savedOrder? : Op → Option Order
  | .orderSave o => some o
  | _ => none

theorem Op.savedOrder?_eq_none {o : Op} (h : .orders ∉ o.writes) : o.savedOrder? = none := by
  cases o with
  | orderSave y => exact absurd List.mem_cons_self h
  | _ => rfl

namespace World

/-- `w'` differs from `w` at most in the parts `o` writes. -/
structure Frame (o : Op) (w w' : World) : Prop where
  clock : w'.clock = w.clock
  orders : .orders ∉ o.writes → w'.orders = w.orders
  payments : .payments ∉ o.writes → w'.payments = w.payments
  sagas : .sagas ∉ o.writes → w'.sagas = w.sagas
  eventStore : .eventStore ∉ o.writes → w'.eventStore = w.eventStore
  transactions : .transactions ∉ o.writes → w'.transactions = w.transactions
  runners : .runners ∉ o.writes → w'.runners = w.runners
  redis : .redis ∉ o.writes → w'.redis = w.redis
  tokens : .tokens ∉ o.writes → w'.tokens = w.tokens
  published : .published ∉ o.writes → w'.published = w.published
  kafka : o.sends = false → w'.kafka = w.kafka
  log : .log ∉ o.writes → w'.log = w.log

theorem Frame.refl (o : Op) (w : World) : Frame o w w := by
  constructor <;> intros <;> rfl

variable {w w' : World} {i : ℕ} {c : Choice}

/-! ### The writers, one part each -/

theorem insertOrder_only {id : String} {n : NewOrder} {r : Except Err Order}
    (h : w.insertOrder id n = some (w', r)) : ∃ t, w' = { w with orders := t } := by
  unfold insertOrder at h
  split at h
  · simp at h
  · cases hd : decimal102 n.totalAmount with
    | none =>
      simp only [hd, Option.some.injEq, Prod.mk.injEq] at h
      exact ⟨w.orders, h.1.symm⟩
    | some amount =>
      simp only [hd] at h
      split at h
      · simp only [Option.some.injEq, Prod.mk.injEq] at h
        exact ⟨w.orders, h.1.symm⟩
      · next t _ =>
        simp only [Option.some.injEq, Prod.mk.injEq] at h
        exact ⟨t, h.1.symm⟩

theorem saveOrder_only (w : World) (o : Order) : ∃ t, (w.saveOrder o).1 = { w with orders := t } := by
  unfold saveOrder
  split
  · exact ⟨w.orders, rfl⟩
  · split
    · exact ⟨w.orders, rfl⟩
    · next t _ => exact ⟨t, rfl⟩

theorem insertPayment_only {id : String} {n : NewPayment} {r : Except Err Payment}
    (h : w.insertPayment id n = some (w', r)) : ∃ t, w' = { w with payments := t } := by
  unfold insertPayment at h
  split at h
  · simp at h
  · cases hd : decimal102 n.amount with
    | none =>
      simp only [hd, Option.some.injEq, Prod.mk.injEq] at h
      exact ⟨w.payments, h.1.symm⟩
    | some amount =>
      simp only [hd] at h
      split at h
      · simp at h
      · next t _ =>
        simp only [Option.some.injEq, Prod.mk.injEq] at h
        exact ⟨t, h.1.symm⟩

theorem savePayment_only (w : World) (p : Payment) :
    ∃ t, (w.savePayment p).1 = { w with payments := t } := by
  unfold savePayment
  split
  · exact ⟨w.payments, rfl⟩
  · split
    · exact ⟨w.payments, rfl⟩
    · next t _ => exact ⟨t, rfl⟩

theorem putSaga_only (w : World) (s : SagaInstance) : ∃ t, w.putSaga s = { w with sagas := t } := by
  unfold putSaga
  split
  · exact ⟨w.sagas, rfl⟩
  · next t _ => exact ⟨t, rfl⟩

theorem putSagas_only (w : World) : ∀ ss : List SagaInstance,
    ∃ t, ss.foldl putSaga w = { w with sagas := t } := by
  intro ss
  induction ss generalizing w with
  | nil => exact ⟨w.sagas, rfl⟩
  | cons s ss ih =>
    obtain ⟨t, ht⟩ := putSaga_only w s
    obtain ⟨t', ht'⟩ := ih (w.putSaga s)
    exact ⟨t', by rw [List.foldl_cons, ht', ht]⟩

theorem insertSaga_only {id : String} {n : NewSaga} {s : SagaInstance}
    (h : w.insertSaga id n = some (w', s)) : ∃ t, w' = { w with sagas := t } := by
  unfold insertSaga at h
  split at h
  · simp at h
  · simp only [Option.some.injEq, Prod.mk.injEq] at h
    rw [← h.1]
    exact putSaga_only w _

theorem txFindSaga_only {runner : ℕ} {id : String} {r : Except Err (Option SagaInstance)}
    (h : w.txFindSaga runner id = some (w', r)) : ∃ t, w' = { w with transactions := t } := by
  unfold txFindSaga at h
  split at h
  · simp only [Option.some.injEq, Prod.mk.injEq] at h
    exact ⟨w.transactions, h.1.symm⟩
  · split at h
    · simp at h
    · split at h
      · simp only [Option.some.injEq, Prod.mk.injEq] at h
        exact ⟨w.transactions, h.1.symm⟩
      · simp only [Option.some.injEq, Prod.mk.injEq] at h
        exact ⟨_, h.1.symm⟩

theorem txSaveSaga_only {runner : ℕ} {s : SagaInstance} {r : Except Err Unit}
    (h : w.txSaveSaga runner s = some (w', r)) : ∃ t, w' = { w with transactions := t } := by
  unfold txSaveSaga at h
  split at h
  · simp only [Option.some.injEq, Prod.mk.injEq] at h
    exact ⟨w.transactions, h.1.symm⟩
  · split at h
    · simp at h
    · simp only [Option.some.injEq, Prod.mk.injEq] at h
      exact ⟨_, h.1.symm⟩

theorem commit_only (w : World) (runner : ℕ) :
    ∃ t u, (w.commit runner).1 = { w with sagas := t, transactions := u } := by
  unfold commit
  split
  · exact ⟨w.sagas, w.transactions, rfl⟩
  · next t _ =>
    obtain ⟨u, hu⟩ := putSagas_only (w.endTransaction runner) t.writes
    exact ⟨u, _, hu⟩

theorem rollback_only (w : World) (runner : ℕ) :
    ∃ t, (w.rollback runner).1 = { w with transactions := t } := by
  unfold rollback
  split
  · exact ⟨w.transactions, rfl⟩
  · exact ⟨_, rfl⟩

/-! ### All operations -/

/-- **An operation leaves alone what it does not write.** -/
theorem perform_frame {o : Op} {r : Except Err (Op.Val o)} {ts : List Task}
    (h : w.perform i c o = some (w', r, ts)) : Frame o w w' := by
  -- operation by operation: the table the new state differs in is one the operation writes
  cases o with
  | orderInsert n =>
    obtain ⟨t, rfl⟩ := insertOrder_only (perform_orderInsert h).1
    constructor <;> simp [Op.writes]
  | orderSave o =>
    simp only [perform, Option.some.injEq, Prod.mk.injEq] at h
    obtain ⟨t, ht⟩ := saveOrder_only w o
    rw [← h.1, ht]
    constructor <;> simp [Op.writes]
  | paymentInsert n =>
    obtain ⟨t, rfl⟩ := insertPayment_only (perform_paymentInsert h).1
    constructor <;> simp [Op.writes]
  | paymentSave p =>
    simp only [perform, Option.some.injEq, Prod.mk.injEq] at h
    obtain ⟨t, ht⟩ := savePayment_only w p
    rw [← h.1, ht]
    constructor <;> simp [Op.writes]
  | sagaInsert n =>
    obtain ⟨s, -, hi, -⟩ := perform_sagaInsert h
    obtain ⟨t, rfl⟩ := insertSaga_only hi
    constructor <;> simp [Op.writes]
  | sagaSave s =>
    simp only [perform] at h
    split at h
    · simp at h
    · simp only [Option.some.injEq, Prod.mk.injEq] at h
      obtain ⟨t, ht⟩ := putSaga_only w s
      rw [← h.1, ht]
      constructor <;> simp [Op.writes]
  | txSagaFindOne runner id =>
    obtain ⟨t, rfl⟩ := txFindSaga_only (perform_txSagaFindOne h).1
    constructor <;> simp [Op.writes]
  | txSagaSave runner s =>
    obtain ⟨t, rfl⟩ := txSaveSaga_only (perform_txSagaSave h).1
    constructor <;> simp [Op.writes]
  | commitTransaction runner =>
    simp only [perform, Option.some.injEq, Prod.mk.injEq] at h
    obtain ⟨t, u, ht⟩ := commit_only w runner
    rw [← h.1, ht]
    constructor <;> simp [Op.writes]
  | rollbackTransaction runner =>
    simp only [perform, Option.some.injEq, Prod.mk.injEq] at h
    obtain ⟨t, ht⟩ := rollback_only w runner
    rw [← h.1, ht]
    constructor <;> simp [Op.writes]
  | redisSet key token ttl =>
    simp only [perform] at h
    -- Redis refuses a lifetime of 0
    split at h <;>
    · simp only [Option.some.injEq, Prod.mk.injEq] at h
      rw [← h.1]
      constructor <;> simp [Op.writes, callRedis]
  | redisRenew key token ttl =>
    simp only [perform] at h
    split at h <;>
    · simp only [Option.some.injEq, Prod.mk.injEq] at h
      rw [← h.1]
      constructor <;> simp [Op.writes, callRedis]
  | _ =>
    simp only [perform, Option.some.injEq, Prod.mk.injEq] at h
    rw [← h.1]
    constructor <;> simp [Op.writes, Op.sends, setTransaction, endTransaction, callRedis]

theorem exec_frame {o : Op} {r : Except Err (Op.Val o)} {ts : List Task}
    (h : w.exec i o c = some (w', r, ts)) : Frame o w w' := by
  rcases exec_cases h with ⟨-, hp⟩ | ⟨m, -, rfl, -⟩ | ⟨m, v, -, -, hp, -⟩
  · exact perform_frame hp
  · exact Frame.refl o w'
  · exact perform_frame hp

/-- **Only the event bus and `setImmediate` start work.** -/
theorem perform_tasks {o : Op} {r : Except Err (Op.Val o)} {ts : List Task}
    (h : w.perform i c o = some (w', r, ts)) (ho : o.starts = false) : ts = [] := by
  cases o with
  | publishAll es => simp [Op.starts] at ho
  | setImmediate t => simp [Op.starts] at ho
  | sagaSave s =>
    simp only [perform] at h
    split at h
    · simp at h
    · simp only [Option.some.injEq, Prod.mk.injEq] at h
      exact h.2.2.symm
  | redisSet key token ttl =>
    simp only [perform] at h
    split at h <;>
    · simp only [Option.some.injEq, Prod.mk.injEq] at h
      exact h.2.2.symm
  | redisRenew key token ttl =>
    simp only [perform] at h
    split at h <;>
    · simp only [Option.some.injEq, Prod.mk.injEq] at h
      exact h.2.2.symm
  | orderInsert n | paymentInsert n | sagaInsert n | txSagaFindOne n m | txSagaSave n m =>
    obtain ⟨v, -, he⟩ := Option.map_eq_some_iff.mp h
    exact (congrArg (fun x => x.2.2) he).symm
  | _ => exact (congrArg (fun x => x.2.2) (Option.some.inj h)).symm

theorem exec_tasks {o : Op} {r : Except Err (Op.Val o)} {ts : List Task}
    (h : w.exec i o c = some (w', r, ts)) (ho : o.starts = false) : ts = [] := by
  rcases exec_cases h with ⟨-, hp⟩ | ⟨m, -, -, -, hts, -⟩ | ⟨m, v, -, -, hp, -⟩
  · exact perform_tasks hp ho
  · exact hts
  · exact perform_tasks hp ho

/-- **What an operation starts**: the task it is given, or the deliveries of the events it is
given. -/
theorem exec_starts {o : Op} {r : Except Err (Op.Val o)} {ts : List Task} {R : Task → Prop}
    (h : w.exec i o c = some (w', r, ts)) (hset : ∀ task, o = .setImmediate task → R task)
    (hpub : ∀ events, o = .publishAll events → ∀ d : Delivery, d.event ∈ events → R (.deliver d)) :
    ∀ task ∈ ts, R task := by
  by_cases hs : o.starts = true
  · cases o with
    | setImmediate task =>
      obtain ⟨hp, -⟩ := exec_local h rfl
      simp only [perform, Option.some.injEq, Prod.mk.injEq] at hp
      obtain ⟨-, -, rfl⟩ := hp
      intro t ht
      rw [List.mem_singleton.mp ht]
      exact hset task rfl
    | publishAll events =>
      obtain ⟨hp, -⟩ := exec_local h rfl
      simp only [perform, Option.some.injEq, Prod.mk.injEq] at hp
      obtain ⟨-, -, rfl⟩ := hp
      intro t ht
      obtain ⟨d, hd, rfl⟩ := List.mem_map.mp ht
      obtain ⟨e, he, hde⟩ := List.mem_flatMap.mp hd
      exact hpub events rfl d (by rw [Event.event_of_delivery hde]; exact he)
    | _ => simp [Op.starts] at hs
  · rw [exec_tasks h (by simpa using hs)]
    intro t ht
    exact absurd ht List.not_mem_nil

/-! ### What only grows -/

/-- The log only grows. -/
theorem exec_log {o : Op} {r : Except Err (Op.Val o)} {ts : List Task}
    (h : w.exec i o c = some (w', r, ts)) : w.log <+: w'.log := by
  by_cases hl : .log ∈ o.writes
  · cases o <;> simp [Op.writes] at hl
    obtain ⟨hp, -⟩ := exec_local h rfl
    simp only [perform, Option.some.injEq, Prod.mk.injEq] at hp
    rw [← hp.1]
    exact List.prefix_append ..
  · rw [(exec_frame h).log hl]

/-- Of what has been published, stored as an event and sent, nothing is taken back. -/
theorem exec_records {o : Op} {r : Except Err (Op.Val o)} {ts : List Task}
    (h : w.exec i o c = some (w', r, ts)) :
    w.published <+: w'.published ∧ w.eventStore <+: w'.eventStore ∧ w.kafka <+: w'.kafka := by
  have hf := exec_frame h
  refine ⟨?_, ?_, ?_⟩
  · by_cases hl : .published ∈ o.writes
    · cases o <;> simp [Op.writes] at hl
      obtain ⟨hp, -⟩ := exec_local h rfl
      simp only [perform, Option.some.injEq, Prod.mk.injEq] at hp
      rw [← hp.1]
      exact List.prefix_append ..
    · rw [hf.published hl]
  · by_cases hl : .eventStore ∈ o.writes
    · cases o <;> simp [Op.writes] at hl
      rcases exec_cases_of_not_redis h rfl with ⟨-, hp⟩ | ⟨m, -, rfl, -⟩
      · simp only [perform, Option.some.injEq, Prod.mk.injEq] at hp
        rw [← hp.1]
        exact List.prefix_append ..
      · exact List.prefix_rfl
    · rw [hf.eventStore hl]
  · by_cases hl : o.sends = true
    · cases o <;> simp [Op.sends] at hl
      rcases exec_cases_of_not_redis h rfl with ⟨-, hp⟩ | ⟨m, -, rfl, -⟩
      · simp only [perform, Option.some.injEq, Prod.mk.injEq] at hp
        rw [← hp.1]
        exact List.prefix_append ..
      · exact List.prefix_rfl
    · rw [hf.kafka (by simpa using hl)]

/-- Query runners are only added. -/
theorem exec_runners {o : Op} {r : Except Err (Op.Val o)} {ts : List Task}
    (h : w.exec i o c = some (w', r, ts)) : w.runners <+: w'.runners := by
  by_cases hl : .runners ∈ o.writes
  · cases o <;> simp [Op.writes] at hl
    rcases exec_cases_of_not_redis h rfl with ⟨-, hp⟩ | ⟨m, -, rfl, -⟩
    · simp only [perform, Option.some.injEq, Prod.mk.injEq] at hp
      rw [← hp.1]
      exact List.prefix_append ..
    · exact List.prefix_rfl
  · rw [(exec_frame h).runners hl]

end World

end CqrsSaga
