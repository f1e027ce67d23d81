import Mathlib.Data.Fintype.EquivFin
import CqrsSaga.App.Callbacks
import CqrsSaga.Flow.Runs
import CqrsSaga.Lock.Service
import CqrsSaga.Progress.Ends
import CqrsSaga.Progress.Routine

/-!
# Nobody waits for ever

A connection to the database is taken to be always free: each transaction holds one, and
`handleSagaFailure` holds its own while `startCompensation` waits for another, so that as many
failures at once as the pool has connections would wait for each other for ever.  Then the only
thing an operation of the application may have to wait for is the row of a saga that another
activity has locked.  Whoever has locked a row does with it what is left to do in the same
transaction, and none of that has to wait: the row is written under the lock that is held, and the
transaction is committed, or rolled back and given up with its query runner.  No activity has two
transactions open at a time.  So there is no deadlock, and no transaction outlives the activity that
began it, as long as query runners can be released.

## Main definitions

* `World.Blocked` — the operation has to wait for the row of a saga.
* `World.Holds` — the activity has locked a row.
* `Releasing`, `Steady` — the restrictions on runs: no release of a query runner fails, nor anything
  that would end the process.

## Main results

* `World.exec_of_not_blocked` — any other operation can be performed.
* `no_deadlock` — **as long as anything is left to do, some activity can move.**
* `transactions_at_work` — **an open transaction belongs to an activity that is still at work.**
* `work_completes` — **all work can be brought to its end, and then no transaction is open.**
-/

namespace CqrsSaga

open SagaManager RedisLockService KafkaService

/-! ### Waiting -/

/-- The row an operation has to wait for while another query runner has locked it. -/
def Op.waits : Op → Option (Option ℕ × String)
  | .sagaSave s => some (none, s.id)
  | .txSagaFindOne n id => some (some n, id)
  | .txSagaSave n s => some (some n, s.id)
  | _ => none

namespace World

/-- The operation has to wait. -/
def Blocked (w : World) (o : Op) : Prop :=
  ∃ n id, o.waits = some (n, id) ∧ w.lockedBy n id = true

/-- Activity `i` has locked a row. -/
def Holds (w : World) (i : ℕ) : Prop := ∃ n id, w.Owner i n ∧ w.Locks n id

variable {w w' : World} {i n : ℕ} {o : Op} {c : Choice} {r : Except Err (Op.Val o)}
  {ts : List Task}

/-- There is always an id that no row has. -/
theorem exists_fresh (ids : List String) : ∃ x, x ∉ ids := by
  obtain ⟨x, hx⟩ := Infinite.exists_notMem_finset ids.toFinset
  exact ⟨x, fun h => hx (List.mem_toFinset.mpr h)⟩

theorem insertOrder_of_fresh {id : String} (n : NewOrder) (h : id ∉ w.orders.rows.map Order.id) :
    ∃ x, w.insertOrder id n = some x := by
  have hfind : w.orders.find? (fun o => decide (o.id = id)) = none := by
    refine Table.find?_eq_none.mpr fun o ho => decide_eq_false ?_
    rintro rfl
    exact h (List.mem_map_of_mem ho)
  rw [insertOrder, hfind]
  simp only [Option.isSome_none, Bool.false_eq_true, if_false]
  split
  · exact ⟨_, rfl⟩
  · split <;> exact ⟨_, rfl⟩

theorem insertPayment_of_fresh {id : String} (n : NewPayment)
    (h : id ∉ w.payments.rows.map Payment.id) : ∃ x, w.insertPayment id n = some x := by
  have hfind : w.payments.find? (fun p => decide (p.id = id)) = none := by
    refine Table.find?_eq_none.mpr fun p hp => decide_eq_false ?_
    rintro rfl
    exact h (List.mem_map_of_mem hp)
  rw [insertPayment, hfind]
  simp only [Option.isSome_none, Bool.false_eq_true, if_false]
  split
  · exact ⟨_, rfl⟩
  · next amount _ =>
    obtain ⟨t, ht⟩ :=
      w.payments.save_isSome_of_uk_none (r := ⟨{ n with amount }, id, none, none⟩) rfl
    rw [ht]
    exact ⟨_, rfl⟩

theorem insertSaga_of_fresh {id : String} (n : NewSaga)
    (h : id ∉ w.sagas.rows.map SagaInstance.id) : ∃ x, w.insertSaga id n = some x := by
  have hfind : w.sagas.find? (fun s => decide (s.id = id)) = none := by
    refine Table.find?_eq_none.mpr fun s hs => decide_eq_false ?_
    rintro rfl
    exact h (List.mem_map_of_mem hs)
  rw [insertSaga, hfind]
  exact ⟨_, rfl⟩

theorem txFindSaga_of_not_locked {n : ℕ} {id : String} (h : w.lockedBy (some n) id = false) :
    ∃ x, w.txFindSaga n id = some x := by
  unfold txFindSaga
  split
  · exact ⟨_, rfl⟩
  · rw [h]
    simp only [Bool.false_eq_true, if_false]
    split <;> exact ⟨_, rfl⟩

theorem txSaveSaga_of_not_locked {n : ℕ} {s : SagaInstance}
    (h : w.lockedBy (some n) s.id = false) : ∃ x, w.txSaveSaga n s = some x := by
  unfold txSaveSaga
  split
  · exact ⟨_, rfl⟩
  · rw [h]
    exact ⟨_, rfl⟩

/-- **An operation that does not have to wait can be performed**, without failing. -/
theorem exec_of_not_blocked (h : ¬w.Blocked o) (i : ℕ) :
    ∃ c w' r ts, c.fault = none ∧ w.exec i o c = some (w', r, ts) := by
  have hfree : ∀ n id, o.waits = some (n, id) → w.lockedBy n id = false := by
    intro n id ho
    cases hl : w.lockedBy n id with
    | false => rfl
    | true => exact absurd ⟨n, id, ho, hl⟩ h
  -- it suffices that the operation is performed for some draw
  suffices hp : ∃ text x, w.perform i { text } o = some x by
    obtain ⟨text, ⟨w', r, ts⟩, hp⟩ := hp
    exact ⟨{ text }, w', r, ts, rfl, hp⟩
  cases o with
  | orderInsert n =>
    obtain ⟨id, hid⟩ := exists_fresh (w.orders.rows.map Order.id)
    obtain ⟨x, hx⟩ := insertOrder_of_fresh n hid
    exact ⟨id, _, by rw [perform, hx, Option.map_some]⟩
  | paymentInsert n =>
    obtain ⟨id, hid⟩ := exists_fresh (w.payments.rows.map Payment.id)
    obtain ⟨x, hx⟩ := insertPayment_of_fresh n hid
    exact ⟨id, _, by rw [perform, hx, Option.map_some]⟩
  | sagaInsert n =>
    obtain ⟨id, hid⟩ := exists_fresh (w.sagas.rows.map SagaInstance.id)
    obtain ⟨x, hx⟩ := insertSaga_of_fresh n hid
    exact ⟨id, _, by rw [perform, hx, Option.map_some]⟩
  | sagaSave s =>
    have hl : ¬w.lockedBy none s.id = true := by simp [hfree none s.id rfl]
    exact ⟨"", _, if_neg hl⟩
  | txSagaFindOne n id =>
    obtain ⟨x, hx⟩ := txFindSaga_of_not_locked (hfree _ _ rfl)
    exact ⟨"", _, by rw [perform, hx, Option.map_some]⟩
  | txSagaSave n s =>
    obtain ⟨x, hx⟩ := txSaveSaga_of_not_locked (hfree _ _ rfl)
    exact ⟨"", _, by rw [perform, hx, Option.map_some]⟩
  | redisSet key token ttl | redisRenew key token ttl =>
    by_cases httl : ttl = 0
    · exact ⟨"", _, if_pos httl⟩
    · exact ⟨"", _, if_neg httl⟩
  | _ => exact ⟨"", _, rfl⟩

/-! ### Who owns a transaction -/

/-- Activity `i` has no transaction open, unless on the query runner `n`. -/
def OpenOnly (w : World) (i : ℕ) (n : Option ℕ) : Prop :=
  ∀ r, w.Owner i r → some r ≠ n → w.transaction r = none

/-- Who has no transaction open holds no row. -/
theorem OpenOnly.not_holds (h : w.OpenOnly i none) : ¬w.Holds i := by
  rintro ⟨n, id, ho, t, ht, -⟩
  rw [h n ho (by simp)] at ht
  cases ht

theorem OpenOnly.weaken (h : w.OpenOnly i none) (n : Option ℕ) : w.OpenOnly i n :=
  fun r ho _ => h r ho (by simp)

theorem OpenOnly.congr {n : Option ℕ} (h : w.OpenOnly i n) (hr : w'.runners = w.runners)
    (ht : w'.transactions = w.transactions) : w'.OpenOnly i n := by
  intro r ho hne
  unfold Owner at ho
  rw [hr] at ho
  rw [transaction, ht]
  exact h r ho hne

/-- Query runners are only added by those who connect. -/
theorem exec_runners_cases (h : w.exec i o c = some (w', r, ts)) :
    w'.runners = w.runners ∨ o = .connect ∧ w'.runners = w.runners ++ [i] := by
  by_cases hw : .runners ∈ o.writes
  · cases o <;> simp [Op.writes] at hw
    rcases exec_cases_of_not_redis h rfl with ⟨-, hp⟩ | ⟨m, -, rfl, -⟩
    · simp only [perform, Option.some.injEq, Prod.mk.injEq] at hp
      exact Or.inr ⟨rfl, by rw [← hp.1]⟩
    · exact Or.inl rfl
  · exact Or.inl ((exec_frame h).runners hw)

/-- Nobody gets a query runner by what somebody else does. -/
theorem exec_owner {j n : ℕ} (h : w.exec i o c = some (w', r, ts)) (hj : j ≠ i)
    (ho : w'.Owner j n) : w.Owner j n := by
  unfold Owner at ho ⊢
  rcases exec_runners_cases h with hr | ⟨-, hr⟩
  · rw [← hr]
    exact ho
  · rw [hr] at ho
    rcases Nat.lt_or_ge n w.runners.length with hlt | hge
    · rwa [List.getElem?_append_left hlt] at ho
    · rw [List.getElem?_append_right hge] at ho
      exact absurd (List.mem_singleton.mp (List.mem_of_getElem? ho)) hj

/-- Only the transaction that is worked on changes. -/
theorem exec_transaction_of_ne {m : ℕ} (ho : o.runner? = some n) (hm : m ≠ n)
    (he : w.exec i o c = some (w', r, ts)) : w'.transaction m = w.transaction m := by
  have hset : ∀ t : Transaction, t.runner = n →
      (w.setTransaction t).transaction m = w.transaction m := fun t ht =>
    transaction_set_of_ne w t fun heq => hm (heq.trans ht)
  have hend : (w.endTransaction n).transaction m = w.transaction m :=
    transaction_end_of_ne w hm
  rcases exec_cases he with ⟨-, hp⟩ | ⟨_, -, rfl, -⟩ | ⟨_, _, -, hr, -⟩
  · cases o with
    | startTransaction n' =>
      obtain rfl := Option.some.inj ho
      obtain rfl := (congrArg Prod.fst (Option.some.inj hp) : w.setTransaction ⟨_, [], []⟩ = w')
      exact hset _ rfl
    | txSagaFindOne n' id =>
      obtain rfl := Option.some.inj ho
      rcases txFindSaga_cases (perform_txSagaFindOne hp).1 with
        ⟨rfl, -⟩ | ⟨t, s, ht, -, -, -, -, rfl⟩
      · rfl
      · exact hset _ (mem_of_transaction ht).2
    | txSagaSave n' s =>
      obtain rfl := Option.some.inj ho
      rcases txSaveSaga_cases (perform_txSagaSave hp).1 with ⟨rfl, -⟩ | ⟨t, ht, -, rfl⟩
      · rfl
      · exact hset _ (mem_of_transaction ht).2
    | commitTransaction n' =>
      obtain rfl := Option.some.inj ho
      obtain rfl := (congrArg Prod.fst (Option.some.inj hp) : (w.commit _).1 = w')
      rcases w.commit_cases n' with ⟨-, hsame⟩ | ⟨t, -, -, htxs⟩
      · rw [hsame]
      · rw [transaction, htxs]
        exact hend
    | rollbackTransaction n' =>
      obtain rfl := Option.some.inj ho
      obtain rfl := (congrArg Prod.fst (Option.some.inj hp) : (w.rollback _).1 = w')
      rcases w.rollback_cases n' with hr | hr
      · rw [hr]
      · rw [hr]
        exact hend
    | release n' =>
      obtain rfl := Option.some.inj ho
      obtain rfl := (congrArg Prod.fst (Option.some.inj hp) : w.endTransaction _ = w')
      exact hend
    | _ => cases ho
  · rfl
  · cases o <;> simp [Op.isRedis] at hr <;> simp [Op.runner?] at ho

theorem transaction_end (w : World) (n : ℕ) : (w.endTransaction n).transaction n = none := by
  refine List.find?_eq_none.mpr fun t ht => ?_
  simpa using (List.mem_filter.mp ht).2

theorem transaction_commit (w : World) (n : ℕ) : (w.commit n).1.transaction n = none := by
  rcases w.commit_cases n with ⟨hnone, hsame⟩ | ⟨t, -, -, htxs⟩
  · rw [hsame, hnone]
  · rw [transaction, htxs]
    exact w.transaction_end n

theorem transaction_rollback (w : World) (n : ℕ) : (w.rollback n).1.transaction n = none := by
  unfold rollback
  cases ht : w.transaction n with
  | none => exact ht
  | some t => exact w.transaction_end n

/-- Every open transaction is on a query runner that was created. -/
def Claimed (w : World) : Prop := ∀ t ∈ w.transactions, ∃ i, w.Owner i t.runner

theorem Claimed.exec (h : w.Claimed) (ho : w.Owns i o) (he : w.exec i o c = some (w', r, ts)) :
    w'.Claimed := by
  have hrunners := exec_runners he
  intro u hu
  rcases exec_transactions he u hu with hu | ⟨n, rfl, rfl⟩ | ⟨t, ht, id, -, rfl⟩ |
    ⟨t, ht, s, -, rfl⟩
  · obtain ⟨j, hj⟩ := h u hu
    exact ⟨j, hj.later hrunners⟩
  · exact ⟨i, (ho.1 n rfl).later hrunners⟩
  · obtain ⟨j, hj⟩ := h t ht
    exact ⟨j, hj.later hrunners⟩
  · obtain ⟨j, hj⟩ := h t ht
    exact ⟨j, hj.later hrunners⟩

end World

/-! ### What the activities agree on -/

section Application

variable [Hashes]

/-- **What the activities agree on.**  The ghost state tells who created which query runner. -/
def rowLocks : Protocol application where
  Ghost := List ℕ
  Inv := fun w g => w.TxOk ∧ w.runners = g ∧ w.Claimed
  Mono := fun w _ w' _ => w.runners <+: w'.runners
  Keep := fun j w _ w' _ => World.TxKeep j w w' ∧ w.runners <+: w'.runners ∧
    ∀ n, w'.Owner j n → w.Owner j n
  CanRun := fun _ _ _ o c => ∀ n, o = .release n → c.fault = none
  Assert := fun i o w _ => w.Holds i → ¬w.Blocked o
  Fits := fun g l => ∀ i ∈ g, i < l.length
  Born := fun i _ w _ => w.OpenOnly i none
  Post := fun i _ _ w _ => w.OpenOnly i none
  mono_refl := fun _ _ => List.prefix_rfl
  mono_trans := fun h h' => h.trans h'
  keep_refl := fun j w _ => ⟨.refl j w, List.prefix_rfl, fun _ h => h⟩
  keep_trans := fun h h' => ⟨h.1.trans h.2.1 h'.1, h.2.1.trans h'.2.1,
    fun n ho => h.2.2 n (h'.2.2 n ho)⟩

namespace RowLocks

variable {w w' : World} {g : List ℕ} {i n : ℕ} {o : Op} {c : Choice} {r : Except Err (Op.Val o)}
  {ts : List Task}

theorem openOnly_stable (i : ℕ) (n : Option ℕ) :
    rowLocks.Stable i fun w _ => w.OpenOnly i n := by
  rintro w g w' g' - ⟨hk, -, ho⟩ - h r hr hne
  exact ((hk r (ho r hr)).1).trans (h r (ho r hr) hne)

theorem owner_lasting (i n : ℕ) : rowLocks.Lasting fun w _ => w.Owner i n :=
  fun _ _ _ _ hm _ h => h.later hm

/-- What an operation of activity `i` leaves. -/
theorem settles {l : List Job} {Φ : World → List ℕ → Prop} (hI : rowLocks.Inv w g)
    (ho : w.Owns i o) (he : w.exec i o c = some (w', r, ts)) (hl : i < l.length)
    (hf : rowLocks.Fits g l) (h : Φ w' w'.runners) : rowLocks.Settles i l w g w' ts Φ := by
  obtain ⟨htx, rfl, hclaimed⟩ := hI
  obtain ⟨htx', hp, hkeep⟩ := World.exec_tx htx ho he
  -- whoever has a query runner was there before
  have hlt : ∀ j ∈ w'.runners, j < l.length := by
    intro j hj
    rcases World.exec_runners_cases he with hr | ⟨-, hr⟩
    · exact hf j (hr ▸ hj)
    · rw [hr] at hj
      rcases List.mem_append.mp hj with hj | hj
      · exact hf j hj
      · exact List.mem_singleton.mp hj ▸ hl
  refine ⟨w'.runners, ⟨htx', rfl, hclaimed.exec ho he⟩, hp, fun j _ hj => ⟨hkeep j hj, hp,
    fun n => World.exec_owner he hj⟩, fun j hj => ?_, fun k t _ m hm => ?_, h⟩
  · rw [List.length_append]
    exact Nat.lt_add_right _ (hlt j hj)
  · exact absurd (hlt _ (List.mem_of_getElem? hm)) (by omega)

/-- An operation that is about neither transactions nor query runners. -/
theorem aside_atomic {F : World → List ℕ → Prop} (hr : o.runner? = none)
    (hw : .transactions ∉ o.writes ∧ .runners ∉ o.writes)
    (hF : ∀ w w' g g', w'.runners = w.runners → w'.transactions = w.transactions → F w g → F w' g')
    (hI : rowLocks.Inv w g) (ha : rowLocks.Assert i o w g) (h : F w g) :
    rowLocks.atomic i o (fun _ => F) w g := by
  refine ⟨ha, fun c w' r ts _ he l hl hf => settles hI ⟨fun n hn => ?_, ?_⟩ he hl hf ?_⟩
  · rw [hr] at hn
    cases hn
  · rintro n s rfl
    cases hr
  · have hframe := World.exec_frame he
    exact hF w w' g _ (hframe.runners hw.2) (hframe.transactions hw.1) h

omit [Hashes] in
theorem ordinary_aside (h : o.Ordinary) :
    o.runner? = none ∧ .transactions ∉ o.writes ∧ .runners ∉ o.writes := by
  cases o <;> first | exact absurd h id | simp [Op.runner?, Op.writes]

/-! ### Between transactions -/

/-- Activity `i` has no transaction open. -/
abbrev Closed (i : ℕ) (w : World) (_ : List ℕ) : Prop := w.OpenOnly i none

theorem closed_stable (i : ℕ) : rowLocks.Stable i (Closed i) := openOnly_stable i none

/-- Who has no transaction open may wait. -/
theorem closed_assert (h : Closed i w g) : rowLocks.Assert i o w g :=
  fun hh => absurd hh h.not_holds

theorem closed_aside (hr : o.runner? = none)
    (hw : .transactions ∉ o.writes ∧ .runners ∉ o.writes) :
    rowLocks.Triple i (Closed i) (call o) fun _ => Closed i :=
  .perform (closed_stable i) (fun _ => closed_stable i) fun _ _ hI h =>
    aside_atomic hr hw (fun _ _ _ _ hr ht h => h.congr hr ht) hI (closed_assert h) h

/-- A query runner is created. -/
theorem connect_triple : rowLocks.Triple i (Closed i) queryRunner.connect fun r w g =>
    Closed i w g ∧ ∀ n, r = .ok n → w.Owner i n := by
  refine .perform (closed_stable i) (fun r => (closed_stable i).and (.all fun n => .imp fun _ =>
    (owner_lasting i n).stable)) fun (w : World) g hI h => ⟨closed_assert h,
      fun c w' r ts _ he l hl hf => ?_⟩
  have hown : w.Owns i .connect := ⟨fun _ h => (by cases h), fun _ _ h => (by cases h)⟩
  refine settles hI hown he hl hf ⟨fun m hm _ => ?_, fun n hn => World.exec_connect he hn⟩
  have hsame : w'.transaction m = w.transaction m := by
    rw [World.transaction, (World.exec_frame he).transactions (by simp [Op.writes])]
    rfl
  rw [hsame]
  cases ht : w.transaction m with
  | none => rfl
  | some t =>
    -- the query runner was there before, and had no transaction of `i`
    obtain ⟨hmem, rfl⟩ := World.mem_of_transaction ht
    obtain ⟨j, hj⟩ := hI.2.2 t hmem
    obtain rfl := (hj.later (World.exec_runners he)).unique hm
    rw [h _ hj (by simp)] at ht
    cases ht

/-! ### In a transaction -/

/-- Activity `i` has no transaction open but on its query runner `n`. -/
def Within (i n : ℕ) (w : World) (_ : List ℕ) : Prop := w.Owner i n ∧ w.OpenOnly i (some n)

/-- The transaction of activity `i` on `n`, if there is one, has locked nothing. -/
def Begun (i n : ℕ) (w : World) (g : List ℕ) : Prop :=
  Within i n w g ∧ ∀ t, w.transaction n = some t → t.locks = []

theorem within_stable (i n : ℕ) : rowLocks.Stable i (Within i n) :=
  (owner_lasting i n).stable.and (openOnly_stable i (some n))

theorem begun_stable (i n : ℕ) : rowLocks.Stable i (Begun i n) := by
  rintro w g w' g' hm hk hI ⟨h, hl⟩
  refine ⟨within_stable i n hm hk hI h, fun t ht => hl t ?_⟩
  rw [← (hk.1 n h.1).1]
  exact ht

omit [Hashes] in
theorem Begun.not_holds (h : Begun i n w g) : ¬w.Holds i := by
  rintro ⟨m, id, ho, t, ht, hid⟩
  by_cases hm : m = n
  · subst hm
    rw [h.2 t ht] at hid
    exact List.not_mem_nil hid
  · rw [h.1.2 m ho fun heq => hm (Option.some.inj heq)] at ht
    cases ht

omit [Hashes] in
theorem within_of_closed (ho : w.Owner i n) (h : Closed i w g) : Within i n w g :=
  ⟨ho, h.weaken _⟩

omit [Hashes] in
/-- Work on the query runner leaves the others as they were. -/
theorem Within.exec (h : Within i n w g) (he : w.exec i o c = some (w', r, ts))
    (ho : o.runner? = some n) : Within i n w' w'.runners := by
  refine ⟨h.1.later (World.exec_runners he), fun m hm hne => ?_⟩
  have hmn : m ≠ n := fun heq => hne (heq ▸ rfl)
  rw [World.exec_transaction_of_ne ho hmn he]
  refine h.2 m ?_ hne
  rcases World.exec_runners_cases he with hr | ⟨rfl, -⟩
  · unfold World.Owner at hm ⊢
    rwa [hr] at hm
  · cases ho

omit [Hashes] in
/-- Nothing is left open once the transaction is ended. -/
theorem Within.closed (h : Within i n w g) (ht : w.transaction n = none) : Closed i w g := by
  intro m hm _
  by_cases hmn : m = n
  · rw [hmn, ht]
  · exact h.2 m hm fun heq => hmn (Option.some.inj heq)

/-- A message is sent in between. -/
theorem begun_send (m : Message) :
    rowLocks.Triple i (Begun i n) (publish "saga-events" m) fun _ => Begun i n := by
  refine .perform (begun_stable i n) (fun _ => begun_stable i n)
    fun (w : World) (g : List ℕ) hI h => aside_atomic rfl (by simp [Op.writes])
      (fun w w' g g' hr ht h => ?_) hI
      (fun hh => absurd hh h.not_holds) h
  refine ⟨⟨?_, h.1.2.congr hr ht⟩, fun t => ?_⟩
  · unfold World.Owner
    rw [hr]
    exact h.1.1
  · rw [World.transaction, ht]
    exact h.2 t

/-- An operation on the query runner that saves no row, and does not have to wait. -/
theorem control_atomic {Φ : rowLocks.Assn (Op.Val o)} (hI : rowLocks.Inv w g)
    (h : Within i n w g) (ho : o.runner? = some n) (hs : ∀ r s, o ≠ .txSagaSave r s)
    (hw : rowLocks.Assert i o w g)
    (hΦ : ∀ c w' r ts, rowLocks.CanRun w g i o c → w.exec i o c = some (w', r, ts) →
      Within i n w' w'.runners → Φ r w' w'.runners) : rowLocks.atomic i o Φ w g := by
  refine ⟨hw, fun c w' r ts hc he l hl hf => ?_⟩
  have hown : w.Owns i o := .of_owner h.1 (fun r hr => Option.some.inj (hr.symm.trans ho)) hs
  exact settles hI hown he hl hf (hΦ c w' r ts hc he (h.exec he ho))

/-- A transaction is begun. -/
theorem start_triple : rowLocks.Triple i (fun w g => Closed i w g ∧ w.Owner i n)
    (queryRunner.startTransaction n) fun r w g =>
      (r = .ok () → Begun i n w g) ∧ ∀ e, r = .error e → Closed i w g := by
  refine .perform ((closed_stable i).and (owner_lasting i n).stable)
    (fun r => (Protocol.Stable.imp fun _ => begun_stable i n).and (.all fun e => .imp fun _ =>
      closed_stable i)) fun (w : World) (g : List ℕ) hI h => ?_
  refine control_atomic hI (within_of_closed h.2 h.1) rfl (fun _ _ h => by cases h)
    (closed_assert h.1) fun c w' r ts _ he hwithin => ?_
  rcases World.exec_cases_of_not_redis he rfl with ⟨-, hp⟩ | ⟨m, -, rfl, rfl, -⟩
  · simp only [World.perform, Option.some.injEq, Prod.mk.injEq] at hp
    obtain ⟨rfl, rfl, -⟩ := hp
    refine ⟨fun _ => ⟨hwithin, fun t ht => ?_⟩, fun e he => by cases he⟩
    rw [World.transaction_set w ⟨n, [], []⟩] at ht
    rw [← Option.some.inj ht]
  · exact ⟨fun h => (by cases h), fun _ _ => h.1⟩

/-- Activity `i` has locked the row of the saga `id`. -/
def Locked (i n : ℕ) (id : String) (w : World) (g : List ℕ) : Prop :=
  Within i n w g ∧ w.Locks n id

theorem locked_stable (i n : ℕ) (id : String) : rowLocks.Stable i (Locked i n id) :=
  fun _ _ _ _ hm hk hI h => ⟨within_stable i n hm hk hI h.1, hk.1.locks h.1.1 h.2⟩

/-- What is known once a row was looked for: it is locked, if it was found. -/
def Found (i n : ℕ) (id : String) : rowLocks.Assn (Option SagaInstance)
  | .ok (some x), w, g => x.id = id ∧ Locked i n id w g
  | _, w, g => Begun i n w g

theorem found_stable (id : String) (r : Except Err (Option SagaInstance)) :
    rowLocks.Stable i (Found i n id r) := by
  rcases r with e | (_ | x)
  · exact begun_stable i n
  · exact begun_stable i n
  · exact (Protocol.Stable.const _).and (locked_stable i n id)

/-- A row is read for update. -/
theorem find_triple (id : String) :
    rowLocks.Triple i (Begun i n) (queryRunner.findOne n id) (Found i n id) := by
  refine .perform (begun_stable i n) (found_stable id) fun (w : World) (g : List ℕ) hI h => ?_
  refine control_atomic hI h.1 rfl (fun _ _ h => by cases h) (fun hh => absurd hh h.not_holds)
    fun c w' r ts _ he hwithin => ?_
  have hnone : ∀ {v : Except Err (Option SagaInstance)}, (∀ x, v ≠ .ok (some x)) →
      ∀ {g'}, Begun i n w g' → Found i n id v w g' := by
    intro v hv g' hb
    rcases v with e | (_ | x)
    · exact hb
    · exact hb
    · exact absurd rfl (hv x)
  rcases World.exec_cases_of_not_redis he rfl with ⟨-, hp⟩ | ⟨m, -, rfl, rfl, -⟩
  · rcases World.txFindSaga_cases (World.perform_txSagaFindOne hp).1 with
      ⟨rfl, hv⟩ | ⟨t, s, ht, -, -, hid, rfl, rfl⟩
    · exact hnone hv ⟨hwithin, h.2⟩
    · obtain ⟨-, rfl⟩ := World.mem_of_transaction ht
      exact ⟨hid, hwithin, _, World.transaction_set w _, List.mem_cons_self⟩
  · exact hnone (fun x hx => by cases hx) ⟨hwithin, h.2⟩

/-- The row that is locked can be written without waiting. -/
theorem save_triple (s : SagaInstance) :
    rowLocks.Triple i (Locked i n s.id) (queryRunner.save n s) fun _ => Within i n := by
  refine .perform (locked_stable i n s.id) (fun _ => within_stable i n)
    fun (w : World) (g : List ℕ) hI h => ⟨fun _ hb => ?_, fun c w' r ts _ he l hl hf => ?_⟩
  · obtain ⟨m, id, hwaits, hl⟩ := hb
    obtain ⟨rfl, rfl⟩ : some n = m ∧ s.id = id := by simpa [Op.waits] using hwaits
    -- no other transaction has locked the row
    obtain ⟨t, ht, hid⟩ := h.2
    obtain ⟨u, hu, hlu⟩ := List.any_eq_true.mp hl
    simp only [Bool.and_eq_true, decide_eq_true_eq] at hlu
    obtain ⟨hmem, rfl⟩ := World.mem_of_transaction ht
    exact hlu.1 (congrArg some (hI.1.exclusive u hu t hmem s.id hlu.2 hid))
  · have hown : w.Owns i (.txSagaSave n s) := by
      refine ⟨fun r hr => Option.some.inj hr ▸ h.1.1, fun r s' hs => ?_⟩
      obtain ⟨rfl, rfl⟩ := Op.txSagaSave.inj hs
      exact h.2
    exact settles hI hown he hl hf (h.1.exec he rfl)

/-- Ending a transaction never has to wait. -/
theorem control_assert (ho : o ∈ Op.controls n) : rowLocks.Assert i o w g := by
  rintro - ⟨m, id, hw, -⟩
  simp only [Op.controls, List.mem_cons, List.not_mem_nil, or_false] at ho
  rcases ho with rfl | rfl | rfl | rfl <;> cases hw

omit [Hashes] in
theorem control_noSave (ho : o ∈ Op.controls n) : ∀ r s, o ≠ .txSagaSave r s := by
  rintro r s rfl
  simp [Op.controls] at ho

/-- A transaction that is committed or rolled back is over. -/
theorem finish_triple (o : Op) (ho : o = .commitTransaction n ∨ o = .rollbackTransaction n) :
    rowLocks.Triple i (Within i n) (call o) fun r w g =>
      Within i n w g ∧ ((∃ v, r = .ok v) → Closed i w g) := by
  have hmem : o ∈ Op.controls n := by rcases ho with rfl | rfl <;> simp [Op.controls]
  have hrunner : o.runner? = some n := by rcases ho with rfl | rfl <;> rfl
  refine .perform (within_stable i n) (fun r => (within_stable i n).and (.imp fun _ =>
    closed_stable i)) fun (w : World) (g : List ℕ) hI h => ?_
  refine control_atomic hI h hrunner (control_noSave hmem) (control_assert hmem)
    fun c w' r ts _ he hwithin => ⟨hwithin, fun hr => hwithin.closed ?_⟩
  obtain ⟨v, rfl⟩ := hr
  rcases ho with rfl | rfl
  · rcases World.exec_cases_of_not_redis he rfl with ⟨-, hp⟩ | ⟨m, -, -, hm, -⟩
    · obtain rfl := (congrArg Prod.fst (Option.some.inj hp) : (w.commit n).1 = w')
      exact w.transaction_commit n
    · cases hm
  · rcases World.exec_cases_of_not_redis he rfl with ⟨-, hp⟩ | ⟨m, -, -, hm, -⟩
    · obtain rfl := (congrArg Prod.fst (Option.some.inj hp) : (w.rollback n).1 = w')
      exact w.transaction_rollback n
    · cases hm

/-- A query runner that is released has no transaction. -/
theorem release_triple :
    rowLocks.Triple i (Within i n) (queryRunner.release n) fun _ => Closed i := by
  refine .perform (within_stable i n) (fun _ => closed_stable i)
    fun (w : World) (g : List ℕ) hI h => ?_
  have hmem : Op.release n ∈ Op.controls n := by simp [Op.controls]
  refine control_atomic hI h rfl (control_noSave hmem) (control_assert hmem)
    fun c w' r ts hc he hwithin => hwithin.closed ?_
  have hp : w.perform i c (.release n) = some (w', r, ts) := World.exec_eq_perform (hc n rfl) ▸ he
  obtain rfl := (congrArg Prod.fst (Option.some.inj hp) : w.endTransaction n = w')
  exact w.transaction_end n

/-! ### The handling of a failure -/

variable {saga : SagaInstance}

theorem commit_triple : rowLocks.Triple i (Within i n) (queryRunner.commitTransaction n)
    fun r w g => Within i n w g ∧ ((∃ v, r = .ok v) → Closed i w g) :=
  finish_triple _ (Or.inl rfl)

/-- Messages are sent while no transaction is open. -/
theorem closed_send (m : Message) :
    rowLocks.Triple i (Closed i) (publish "saga-events" m) fun _ => Closed i :=
  closed_aside rfl (by simp [Op.writes])

theorem within_of {p : Async App Unit} (hp : rowLocks.Triple i (Closed i) p fun _ => Closed i) :
    rowLocks.Triple i (fun w g => Closed i w g ∧ w.Owner i n) p fun _ => Within i n :=
  (hp.frame (owner_lasting i n)).post fun _ _ _ _ h => within_of_closed h.2 h.1

/-- Commit, and go on without a transaction. -/
theorem commit_seq {p : Async App Unit} (hp : rowLocks.Triple i (Closed i) p fun _ => Closed i) :
    rowLocks.Triple i (Within i n) ((queryRunner.commitTransaction n).bind fun _ => p)
      fun _ => Within i n := by
  refine .bind _ commit_triple (fun _ => ?_) fun e => ?_
  · exact (within_of hp).pre fun w g _ h => ⟨h.2 ⟨_, rfl⟩, h.1.1⟩
  · exact .pre (fun w g _ h => h.1) (.fail (within_stable i n))

/-- **A block in a transaction**: whatever becomes of it, no transaction is open afterwards. -/
theorem inTransaction_triple {block : Async App Unit} {recover : Err → Async App Unit}
    (hb : rowLocks.Triple i (Begun i n) block fun _ => Within i n)
    (hr : ∀ e, rowLocks.Triple i (Closed i) (recover e) fun _ => Closed i) :
    rowLocks.Triple i (Begun i n) (inTransaction n block recover) fun _ => Closed i := by
  refine .andFinally (fun _ => Within i n) (.handle (fun _ => Within i n) hb (fun e => ?_)
    fun a => .skip (within_stable i n)) fun r => release_triple.post ?_
  · refine .bind _ (finish_triple _ (Or.inr rfl)) (fun _ => ?_) fun e => ?_
    · exact (within_of (hr e)).pre fun w g _ h => ⟨h.2 ⟨_, rfl⟩, h.1.1⟩
    · exact .pre (fun w g _ h => h.1) (.fail (within_stable i n))
  · rintro (e | v) w g - h
    · exact (closed_stable i).later h
    · exact (closed_stable i).later h

/-- Open a query runner, begin a transaction and go on. -/
theorem connected_triple {p : ℕ → Async App Unit}
    (hp : ∀ n, rowLocks.Triple i (Begun i n) (p n) fun _ => Closed i) :
    rowLocks.Triple i (Closed i) (queryRunner.connect.bind fun n =>
      (queryRunner.startTransaction n).bind fun _ => p n) fun _ => Closed i := by
  refine .bind _ connect_triple (fun n => ?_) fun e => ?_
  · refine .bind _ (start_triple.pre fun w g _ h => ⟨h.1, h.2 n rfl⟩) (fun _ => ?_) fun e => ?_
    · exact (hp n).pre fun w g _ h => h.1 rfl
    · exact .pre (fun w g _ h => h.2 e rfl) (.fail (closed_stable i))
  · exact .pre (fun w g _ h => h.1) (.fail (closed_stable i))

/-- Look for a row, and go on with what was found. -/
theorem find_seq {id : String} {f : Option SagaInstance → Async App Unit}
    (hnone : rowLocks.Triple i (Begun i n) (f none) fun _ => Within i n)
    (hsome : ∀ x, x.id = id → rowLocks.Triple i (Locked i n id) (f (some x)) fun _ => Within i n) :
    rowLocks.Triple i (Begun i n) ((queryRunner.findOne n id).bind f) fun _ => Within i n := by
  refine .bind _ (find_triple id) (fun found => ?_) fun e => ?_
  · cases found with
    | none => exact hnone
    | some x =>
      exact .assuming (fun w g _ h => h.1) fun hid => (hsome x hid).pre fun w g _ h => h.2
  · exact .pre (fun w g _ h => h.1) (.fail (within_stable i n))

/-- Write the row that is locked, commit, and go on without a transaction. -/
theorem save_seq {s : SagaInstance} {id : String} {p : Async App Unit} (hid : s.id = id)
    (hp : rowLocks.Triple i (Closed i) p fun _ => Closed i) :
    rowLocks.Triple i (Locked i n id) ((queryRunner.save n s).bind fun _ =>
      (queryRunner.commitTransaction n).bind fun _ => p) fun _ => Within i n := by
  subst hid
  exact .bind _ (save_triple s) (fun _ => commit_seq hp) fun e => .fail (within_stable i n)

theorem markSagaAsFinalFailure_triple (errorMessage : String) :
    rowLocks.Triple i (Closed i) (markSagaAsFinalFailure saga errorMessage) fun _ => Closed i := by
  refine connected_triple fun n => inTransaction_triple (find_seq ?_ fun x hid => ?_)
    fun _ => .skip (closed_stable i)
  · exact (commit_seq (closed_send _)).pre fun _ _ _ h => h.1
  · exact save_seq hid (closed_send _)

/-- Messages are sent while the transaction has locked nothing. -/
theorem compensateSteps_triple : ∀ (steps : List String) (saga : SagaInstance),
    rowLocks.Triple i (Begun i n) (compensateSteps steps saga) fun _ => Begun i n := by
  intro steps
  induction steps with
  | nil => exact fun saga => .skip (begun_stable i n)
  | cons step steps ih =>
    intro saga
    refine .seq (begun_stable i n) (.seq (begun_stable i n) (begun_send _) fun _ => ?_)
      fun s => ih s
    exact .skip (begun_stable i n)

theorem startCompensation_triple :
    rowLocks.Triple i (Closed i) (startCompensation saga) fun _ => Closed i := by
  refine connected_triple fun n => inTransaction_triple (.bind _ (compensateSteps_triple _ saga)
    (fun s => find_seq ?_ fun x hid => ?_) fun e => ?_) fun _ => markSagaAsFinalFailure_triple _
  · exact (commit_seq (closed_send _)).pre fun _ _ _ h => h.1
  · exact save_seq hid (closed_send _)
  · exact .pre (fun _ _ _ h => h.1) (.fail (within_stable i n))

/-- **The handling of a failure leaves no transaction open.** -/
theorem handleSagaFailure_triple (failedStep errorMessage : String) :
    rowLocks.Triple i (Closed i) (handleSagaFailure saga failedStep errorMessage)
      fun _ => Closed i := by
  refine connected_triple fun n => inTransaction_triple (find_seq ?_ fun x hid => ?_)
    fun _ => .fail (closed_stable i)
  · exact .pre (fun _ _ _ h => h.1) (.fail (within_stable i n))
  · exact save_seq hid (.seq (closed_stable i) (closed_send _) fun _ => startCompensation_triple)

/-! ### All programs -/

omit [Hashes] in
theorem isLockService_aside (h : o.isLockService = true) :
    o.runner? = none ∧ .transactions ∉ o.writes ∧ .runners ∉ o.writes := by
  cases o <;> simp [Op.isLockService] at h <;> simp [Op.runner?, Op.writes]

/-- Whatever else a program does, it does between transactions. -/
theorem routine (i : ℕ) : Routine rowLocks i (Closed i) where
  stable := closed_stable i
  ordinary := by
    intro o w g ho hI h
    obtain ⟨hr, hw⟩ := ordinary_aside ho
    exact aside_atomic hr hw (fun _ _ _ _ hr ht h => h.congr hr ht) hI (closed_assert h) h
  locked := by
    intro α key fn options _ hfn
    refine withLock_keeps (closed_stable i) (fun o ho _ => ?_) fun _ _ _ h =>
      Protocol.wp_of_only (closed_stable i) (fun o w g ho hI h => ?_) hfn h
    · obtain ⟨hr, hw⟩ := isLockService_aside ho
      exact closed_aside hr hw
    · obtain ⟨hr, hw⟩ := ordinary_aside ho
      exact aside_atomic hr hw (fun _ _ _ _ hr ht h => h.congr hr ht) hI (closed_assert h) h
  lockTest := by
    intro test w g _ hw
    have haside : test.run.Only fun o : Op =>
        o.runner? = none ∧ .transactions ∉ o.writes ∧ .runners ∉ o.writes :=
      (lockTest_along (fun o ho => ordinary_aside ho.ordinary)
        (fun _ _ => ⟨fun _ _ => isLockService_aside rfl, fun _ => isLockService_aside rfl⟩)
        (fun _ _ _ => isLockService_aside rfl) fun _ => isLockService_aside rfl).only
    refine Protocol.wp_of_only (closed_stable i) (fun o w g ho hI h => ?_) haside hw
    exact aside_atomic ho.1 ho.2 (fun _ _ _ _ hr ht h => h.congr hr ht) hI (closed_assert h) h
  failure := fun _ => handleSagaFailure_triple

/-- No query runner has been created. -/
def Fresh (w : World) : Prop := w.transactions = [] ∧ w.runners = []

end RowLocks

/-- The operation releases a query runner. -/
def Op.releases : Op → Bool
  | .release _ => true
  | _ => false

/-- No release of a query runner fails. -/
def Releasing (p : Pool application) : Action application → Prop
  | .run i c => ∀ o ∈ p.awaits i, o.releases = true → c.fault = none
  | _ => True

namespace RowLocks

/-- **Every activity keeps to the agreements.** -/
theorem sound : rowLocks.Sound Fresh Releasing where
  init := by
    rintro w ⟨ht, hr⟩
    exact ⟨[], ⟨.of_nil ht, hr, fun t hm => by simp [ht] at hm⟩, fun i hi => by simp at hi⟩
  start := by
    rintro p t g - hI hf
    refine ⟨g, hI, List.prefix_rfl, fun j _ => ⟨.refl j _, List.prefix_rfl, fun _ h => h⟩,
      fun i hi => ?_, fun n hn => ?_⟩
    · rw [List.length_append]
      exact Nat.lt_add_right _ (hf i hi)
    · have hlt := hf _ (hI.2.1 ▸ List.mem_of_getElem? hn)
      simp [Pool.tags] at hlt
  tick := by
    rintro p d g - hI
    exact ⟨⟨hI.1.of_subset (fun _ h => h) fun x hx => ⟨x, hx, rfl⟩, hI.2.1, hI.2.2⟩,
      List.prefix_rfl, fun j => ⟨fun _ _ => ⟨rfl, fun _ _ _ _ => Iff.rfl⟩, List.prefix_rfl,
        fun _ h => h⟩⟩
  canRun := by
    rintro p i c t o k g ha hi - n rfl
    exact ha _ (Pool.awaits_eq_some.mpr ⟨t, k, hi⟩) rfl
  body := fun i t w g hb hI => (routine i).job t w g hI hb

end RowLocks

namespace RowLocks

omit [Hashes] in
/-- The transaction of a query runner is the one that is open on it. -/
theorem transaction_of_mem {w : World} (h : w.TxOk) {t : Transaction} (ht : t ∈ w.transactions) :
    w.transaction t.runner = some t := by
  cases hfind : w.transaction t.runner with
  | none =>
    have hne := List.find?_eq_none.mp hfind t ht
    simp at hne
  | some u =>
    obtain ⟨hu, hr⟩ := World.mem_of_transaction hfind
    rw [h.single u hu t ht hr]

/-- Whoever has a transaction open has something left to do. -/
theorem owner_awaits {p : Pool application} {g : List ℕ} (hH : rowLocks.Holds p g)
    {t : Transaction} (ht : t ∈ World.transactions p.world) :
    ∃ i o, World.Owner p.world i t.runner ∧ p.awaits i = some o := by
  obtain ⟨i, hi⟩ := hH.inv.2.2 t ht
  have hlt : i < p.acts.length := by
    have h := hH.fits i (hH.inv.2.1 ▸ List.mem_of_getElem? hi)
    simpa [Pool.tags] using h
  have ha : p.acts[i]? = some p.acts[i] := List.getElem?_eq_getElem hlt
  cases ho : p.acts[i].prog.awaited? with
  | some o => exact ⟨i, o, hi, by rw [Pool.awaits, ha, Option.bind_some, ho]⟩
  | none =>
    -- whoever has ended has none open
    obtain ⟨r, hr⟩ := Async.result?_isSome_of_awaited? ho
    have hnone := hH.post ha hr _ hi (by simp)
    rw [transaction_of_mem hH.inv.1 ht] at hnone
    cases hnone

/-- As long as anything is left to do, some activity can move. -/
theorem progress {p : Pool application} (hp : Pool.Reachable Fresh Releasing p)
    (hleft : ¬p.Quiescent) : ∃ i c p', c.fault = none ∧ p.next (.run i c) = some p' := by
  obtain ⟨g, hH⟩ := sound.reachable hp
  -- an activity that does not have to wait can move
  have hmove : ∀ i o, p.awaits i = some o → ¬World.Blocked p.world o →
      ∃ i c p', c.fault = none ∧ p.next (.run i c) = some p' := by
    intro i o hi hb
    obtain ⟨t, k, ha⟩ := Pool.awaits_eq_some.mp hi
    obtain ⟨c, w', r, ts, hc, he⟩ := World.exec_of_not_blocked hb i
    exact ⟨i, c, _, hc, by rw [Pool.next, ha]; dsimp only; rw [he]⟩
  obtain ⟨a, hmem, ho⟩ : ∃ a ∈ p.acts, a.prog.awaited? ≠ none := by
    simpa [Pool.Quiescent] using hleft
  obtain ⟨i, ha⟩ := List.mem_iff_getElem?.mp hmem
  obtain ⟨o, ho⟩ := Option.ne_none_iff_exists'.mp ho
  have hi : p.awaits i = some o := by rw [Pool.awaits, ha, Option.bind_some, ho]
  by_cases hb : World.Blocked p.world o
  · -- it waits for a row, and whoever has locked that does not have to wait
    obtain ⟨n, id, -, hl⟩ := hb
    obtain ⟨t, ht, hl⟩ := List.any_eq_true.mp hl
    simp only [Bool.and_eq_true, decide_eq_true_eq] at hl
    obtain ⟨j, o', hj, ho'⟩ := owner_awaits hH ht
    obtain ⟨u, k, hu⟩ := Pool.awaits_eq_some.mp ho'
    exact hmove j o' ho' (hH.assert hu ⟨t.runner, id, hj, t, transaction_of_mem hH.inv.1 ht, hl.2⟩)
  · exact hmove i o hi hb

end RowLocks

/-- An activity moves, and nothing fails. -/
def Unhindered (_ : Pool application) (a : Action application) : Prop :=
  ∃ i c, a = .run i c ∧ c.fault = none

open RowLocks in
/-- **An open transaction belongs to an activity that is still at work.** -/
theorem transactions_at_work {p : Pool application} (hp : Pool.Reachable Fresh Releasing p) :
    ∀ t ∈ World.transactions p.world, ∃ i o, World.Owner p.world i t.runner ∧
      p.awaits i = some o := by
  obtain ⟨g, hH⟩ := sound.reachable hp
  exact fun t ht => owner_awaits hH ht

open RowLocks in
/-- **There is no deadlock**: as long as the process goes on and anything is left to do, some
activity can move, without any failure. -/
theorem no_deadlock {p : Pool application} (hp : Pool.Reachable Fresh Releasing p) :
    Stopped p ∨ ∃ i c p', c.fault = none ∧ p.next (.run i c) = some p' := by
  by_cases h : p.Quiescent
  · exact Or.inl (Or.inr h)
  · exact Or.inr (progress hp h)

/-- Only requests come from outside, no release of a query runner fails, and nothing that would end
the process. -/
def Steady (p : Pool application) (a : Action application) : Prop :=
  Served p a ∧ Releasing p a ∧ Undisturbed p a

theorem Steady.of_unhindered {p : Pool application} {a : Action application}
    (h : Unhindered p a) : Steady p a := by
  obtain ⟨i, c, rfl, hc⟩ := h
  exact ⟨trivial, fun _ _ _ => hc, fun _ _ _ => hc⟩

open RowLocks in
/-- **All work can be brought to its end**, as long as the process goes on: however the activities
move from now on, as long as nothing fails and no request comes in, they come to where nothing is
left to do and no transaction is open, and no callback is rejected on the way. -/
theorem work_completes {p : Pool application} (hp : Pool.Reachable Fresh Steady p) :
    (∃ p', Pool.Runs Unhindered p p' ∧ p'.Quiescent) ∧
      ∀ p', Pool.Runs Unhindered p p' → ¬Crashed p' ∧ ((∀ q, ¬Pool.Step Unhindered p' q) →
        p'.Quiescent ∧ World.transactions p'.world = []) := by
  have hsteady : ∀ p', Pool.Runs Unhindered p p' → Pool.Reachable Fresh Steady p' :=
    fun p' hr => hp.runs (hr.mono fun _ _ => .of_unhindered)
  have hreach : ∀ p', Pool.Runs Unhindered p p' → Pool.Reachable Fresh Releasing p' :=
    fun p' hr => (hsteady p' hr).mono fun _ _ h => h.2.1
  have hend : ∀ p', Pool.Runs Unhindered p p' → (∀ q, ¬Pool.Step Unhindered p' q) →
      p'.Quiescent := by
    intro p' hr hstuck
    by_contra hleft
    obtain ⟨i, c, q, hc, hn⟩ := progress (hreach p' hr) hleft
    exact hstuck q ⟨_, ⟨i, c, rfl, hc⟩, hn⟩
  have honly : ∀ q a, Unhindered q a → ∃ i c, a = .run i c := by
    rintro q a ⟨i, c, rfl, -⟩
    exact ⟨i, c, rfl⟩
  obtain ⟨p', hr, hstuck⟩ := application_ranked.exhausts honly hp.tame
  refine ⟨⟨p', hr, hend p' hr hstuck⟩, fun q hq =>
    ⟨callbacks_return ((hsteady q hq).mono fun _ _ h => ⟨h.1, h.2.2⟩), fun hstuck =>
      ⟨hend q hq hstuck, ?_⟩⟩⟩
  -- an open transaction would have an owner with something left to do
  obtain ⟨g, hH⟩ := sound.reachable (hreach q hq)
  refine List.eq_nil_iff_forall_not_mem.mpr fun t ht => ?_
  obtain ⟨i, o, -, ho⟩ := owner_awaits hH ht
  obtain ⟨u, k, hu⟩ := Pool.awaits_eq_some.mp ho
  have hnone := hend q hq hstuck _ (List.mem_of_getElem? hu)
  cases hnone

end Application

/-! ### Two failures of one saga -/

namespace RowLocks

open Samples

instance decidableReleasing (p : Pool application) : ∀ a, Decidable (Releasing p a)
  | .start _ => isTrue trivial
  | .run i c =>
    inferInstanceAs (Decidable (∀ o ∈ p.awaits i, o.releases = true → c.fault = none))
  | .tick _ => isTrue trivial

/-- The saga of an order is stored. -/
def sagaStored : World := (World.empty 0).putSaga
  ⟨newSaga OrderProcessingSaga.sagaType "key-1" {} [], "saga-1", none, 0, 0⟩

/-- The payment of the order has failed, but the order is not there. -/
def paymentLost : Job := .task (.deliver (.paymentFailedSagaHandler
  ⟨"payment-1", "order-1", "user-1", 10, "declined", some "key-1"⟩))

/-- This is announced twice, and one handler has locked the row of the saga. -/
def bothFail : List (Action application) :=
  [.start paymentLost, .start paymentLost, .run 0 {}, .run 1 {}, .run 0 {}, .run 1 {}, .run 0 {},
    .run 1 {}, .run 0 {}, .run 1 {}, .run 0 {}]

theorem bothFail_played : (Pool.play Releasing ⟨sagaStored, []⟩ bothFail).isSome := by
  decide +kernel

/-- The other has to wait for it. -/
def contended : Pool application :=
  (Pool.play Releasing ⟨sagaStored, []⟩ bothFail).get bothFail_played

theorem contended_reachable : Pool.Reachable Fresh Releasing contended :=
  Pool.reachable_of_play (show Fresh sagaStored from ⟨rfl, rfl⟩) bothFail_played

/-- The handler that has locked the row is still at work. -/
theorem transactions_at_work_contended : ∃ t ∈ World.transactions contended.world,
    t.locks = ["saga-1"] ∧ ∃ i o, World.Owner contended.world i t.runner ∧
      contended.awaits i = some o := by
  have hany :
      ((World.transactions contended.world).any fun t => t.locks = ["saga-1"]) = true := by
    decide +kernel
  obtain ⟨t, ht, hl⟩ := List.any_eq_true.mp hany
  exact ⟨t, ht, of_decide_eq_true hl, transactions_at_work contended_reachable t ht⟩

/-- One handler waits, but not for ever. -/
theorem no_deadlock_contended : contended.awaits 1 = some (.txSagaFindOne 1 "saga-1") ∧
    World.lockedBy contended.world (some 1) "saga-1" = true ∧
      ∃ i c p', c.fault = none ∧ contended.next (.run i c) = some p' :=
  ⟨by decide +kernel, by decide +kernel,
    (no_deadlock contended_reachable).resolve_left (by decide +kernel)⟩

instance decidableSteady (p : Pool application) (a : Action application) : Decidable (Steady p a) :=
  instDecidableAnd

/-- An order is placed, and its payment asked for. -/
def charged : Pool application :=
  (Pool.play Steady ⟨World.empty 0, []⟩ placed).get (by decide +kernel)

/-- What is left to do about it can be done. -/
theorem work_completes_charged : (∃ p', Pool.Runs Unhindered charged p' ∧ p'.Quiescent) ∧
    ∀ p', Pool.Runs Unhindered charged p' → ¬Crashed p' ∧
      ((∀ q, ¬Pool.Step Unhindered p' q) →
        p'.Quiescent ∧ World.transactions p'.world = []) :=
  work_completes (Pool.reachable_of_play (show Fresh (World.empty 0) from ⟨rfl, rfl⟩) _)

end RowLocks

end CqrsSaga
