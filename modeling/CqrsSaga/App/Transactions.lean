import CqrsSaga.App.Specs

/-!
# Transactions and row locks

A transaction that has read a row for update keeps everybody else from writing it until
it ends, and what it writes is seen by nobody before it commits.  So the activity that
owns the query runner may rely on the rows it has locked, whatever the others do.  A
transaction ends when it is committed or rolled back; a failed attempt leaves it open, and
then it is assumed to end when the query runner is released.

## Main definitions

* `World.TxOk` — open transactions lock existing rows, each row at most once, and write
  only rows they have locked.
* `Op.runner?`, `World.Owns` — the query runner an operation works on, and whose it is.
* `World.TxKeep` — what the owner of a query runner may rely on.
* `World.Pending` — a row an open transaction will write.

## Main results

* `World.exec_tx` — **every operation respects the transactions of other activities.**
* `World.perform_control`, `World.perform_txFind`, `World.perform_txSave` — what is written when.
* `World.exec_transactions` — what becomes of the transactions.
-/

namespace CqrsSaga

/-- The query runner an operation works on. -/
def Op.runner? : Op → Option ℕ
  | .startTransaction r => some r
  | .txSagaFindOne r _ => some r
  | .txSagaSave r _ => some r
  | .commitTransaction r => some r
  | .rollbackTransaction r => some r
  | .release r => some r
  | _ => none

/-- The operations that begin and end a transaction. -/
def Op.controls (n : ℕ) : List Op :=
  [.startTransaction n, .commitTransaction n, .rollbackTransaction n, .release n]

theorem Op.runner?_control {n r : ℕ} {o : Op} (ho : o ∈ Op.controls n) (hr : o.runner? = some r) :
    r = n := by
  simp only [Op.controls, List.mem_cons, List.not_mem_nil, or_false] at ho
  rcases ho with rfl | rfl | rfl | rfl <;> exact (Option.some.inj hr).symm

namespace World

/-- The open transactions. -/
structure TxOk (w : World) : Prop where
  /-- What is written was locked before. -/
  writes : ∀ t ∈ w.transactions, ∀ s ∈ t.writes, s.id ∈ t.locks
  /-- No row is locked twice. -/
  exclusive : ∀ t ∈ w.transactions, ∀ u ∈ w.transactions, ∀ id ∈ t.locks, id ∈ u.locks →
    t.runner = u.runner
  /-- Locked rows exist. -/
  exist : ∀ t ∈ w.transactions, ∀ id ∈ t.locks, ∃ x ∈ w.sagas, x.id = id
  /-- A query runner has at most one transaction. -/
  single : ∀ t ∈ w.transactions, ∀ u ∈ w.transactions, t.runner = u.runner → t = u

/-- Activity `i` created the query runner `r`. -/
def Owner (w : World) (i r : ℕ) : Prop := w.runners[r]? = some i

/-- The transaction of `r` has locked the row of a saga. -/
def Locks (w : World) (r : ℕ) (id : String) : Prop :=
  ∃ t, w.transaction r = some t ∧ id ∈ t.locks

/-- Activity `i` works on a query runner of its own, and saves only rows it has locked. -/
def Owns (w : World) (i : ℕ) (o : Op) : Prop :=
  (∀ r, o.runner? = some r → w.Owner i r) ∧ ∀ r s, o = .txSagaSave r s → w.Locks r s.id

/-- The transactions of activity `i` are as they were, and so are the rows they have locked. -/
def TxKeep (i : ℕ) (w w' : World) : Prop :=
  ∀ r, w.Owner i r → w'.transaction r = w.transaction r ∧
    ∀ id, w.Locks r id → ∀ y, y.id = id → (y ∈ w'.sagas ↔ y ∈ w.sagas)

variable {w w' w'' : World} {i j r : ℕ} {id : String}

theorem Owner.later (h : w.Owner i r) (hp : w.runners <+: w'.runners) : w'.Owner i r := by
  obtain ⟨l, hl⟩ := hp
  obtain ⟨hlt, -⟩ := List.getElem?_eq_some_iff.mp h
  unfold Owner
  rw [← hl, List.getElem?_append_left hlt]
  exact h

theorem Owner.unique (h : w.Owner i r) (h' : w.Owner j r) : i = j :=
  Option.some.inj (h.symm.trans h')

/-- A query runner belongs to the activity that has created it. -/
theorem exec_connect {c : Choice} {v : Except Err (Op.Val .connect)} {ts : List Task}
    (h : w.exec i .connect c = some (w', v, ts)) {n : ℕ} (hn : v = .ok n) : w'.Owner i n := by
  rcases exec_cases_of_not_redis h rfl with ⟨-, hp⟩ | ⟨m, -, -, hm, -⟩
  · simp only [perform, Option.some.injEq, Prod.mk.injEq] at hp
    obtain ⟨rfl, rfl, -⟩ := hp
    rw [← Except.ok.inj hn]
    exact List.getElem?_concat_length
  · cases hm.symm.trans hn

theorem TxKeep.refl (i : ℕ) (w : World) : TxKeep i w w :=
  fun _ _ => ⟨rfl, fun _ _ _ _ => Iff.rfl⟩

theorem TxKeep.locks (h : TxKeep i w w') (ho : w.Owner i r) (hl : w.Locks r id) :
    w'.Locks r id := by
  obtain ⟨t, ht, hid⟩ := hl
  exact ⟨t, (h r ho).1.trans ht, hid⟩

theorem TxKeep.trans (h : TxKeep i w w') (hp : w.runners <+: w'.runners) (h' : TxKeep i w' w'') :
    TxKeep i w w'' := by
  intro r ho
  obtain ⟨ht, hs⟩ := h r ho
  obtain ⟨ht', hs'⟩ := h' r (ho.later hp)
  exact ⟨ht'.trans ht, fun id hl y hy => (hs' id (h.locks ho hl) y hy).trans (hs id hl y hy)⟩

/-! ### Looking up transactions -/

theorem mem_of_transaction {t : Transaction} (h : w.transaction r = some t) :
    t ∈ w.transactions ∧ t.runner = r :=
  ⟨List.mem_of_find?_eq_some h, by simpa using List.find?_some h⟩

theorem transaction_set (w : World) (t : Transaction) :
    (w.setTransaction t).transaction t.runner = some t := by
  simp [transaction, setTransaction]

theorem transaction_set_of_ne (w : World) (t : Transaction) (h : r ≠ t.runner) :
    (w.setTransaction t).transaction r = w.transaction r := by
  simp only [transaction, setTransaction, List.find?_cons, List.find?_filter]
  rw [decide_eq_false (Ne.symm h)]
  dsimp only
  congr 1
  funext u
  by_cases hu : u.runner = r
  · simp [hu, h]
  · simp [hu]

theorem transaction_end_of_ne (w : World) {r' : ℕ} (h : r ≠ r') :
    (w.endTransaction r').transaction r = w.transaction r := by
  simp only [transaction, endTransaction, List.find?_filter]
  congr 1
  funext u
  by_cases hu : u.runner = r
  · simp [hu, h]
  · simp [hu]

/-- A row nobody has locked is in the locks of no transaction. -/
theorem not_locked {runner : Option ℕ} (h : w.lockedBy runner id = false) {t : Transaction}
    (ht : t ∈ w.transactions) (hr : some t.runner ≠ runner) : id ∉ t.locks := by
  intro hid
  have hany : w.lockedBy runner id = true :=
    List.any_eq_true.mpr ⟨t, ht, by simp [hr, hid]⟩
  rw [h] at hany
  simp at hany

/-! ### Keeping the transactions in order -/

theorem TxOk.set (h : w.TxOk) {t : Transaction} (hw : ∀ s ∈ t.writes, s.id ∈ t.locks)
    (hx : ∀ u ∈ w.transactions, u.runner ≠ t.runner → ∀ id ∈ t.locks, id ∉ u.locks)
    (he : ∀ id ∈ t.locks, ∃ x ∈ w.sagas, x.id = id) : (w.setTransaction t).TxOk := by
  have hmem : ∀ u ∈ (w.setTransaction t).transactions,
      u = t ∨ u ∈ w.transactions ∧ u.runner ≠ t.runner := by
    intro u hu
    rcases List.mem_cons.mp hu with rfl | hu
    · exact Or.inl rfl
    · obtain ⟨hu, hne⟩ := List.mem_filter.mp hu
      exact Or.inr ⟨hu, by simpa using hne⟩
  refine ⟨fun u hu => ?_, fun u hu v hv id hid hid' => ?_, fun u hu => ?_, fun u hu v hv hr => ?_⟩
  · rcases hmem u hu with rfl | ⟨hu, -⟩
    · exact hw
    · exact h.writes u hu
  · -- exclusive: the new transaction's locks are free of the others'
    rcases hmem u hu with rfl | ⟨hu', hne⟩
    · rcases hmem v hv with rfl | ⟨hv', hne'⟩
      · rfl
      · exact absurd hid' (hx v hv' hne' id hid)
    · rcases hmem v hv with rfl | ⟨hv', -⟩
      · exact absurd hid (hx u hu' hne id hid')
      · exact h.exclusive u hu' v hv' id hid hid'
  · rcases hmem u hu with rfl | ⟨hu, -⟩
    · exact he
    · exact h.exist u hu
  · rcases hmem u hu with rfl | ⟨hu, hne⟩
    · rcases hmem v hv with rfl | ⟨-, hne'⟩
      · rfl
      · exact absurd hr.symm hne'
    · rcases hmem v hv with rfl | ⟨hv, -⟩
      · exact absurd hr hne
      · exact h.single u hu v hv hr

/-- No transaction is open. -/
theorem TxOk.of_nil (h : w.transactions = []) : w.TxOk := by
  have hnone : ∀ t, t ∉ w.transactions := by simp [h]
  exact ⟨fun t ht => absurd ht (hnone t), fun t ht => absurd ht (hnone t),
    fun t ht => absurd ht (hnone t), fun t ht => absurd ht (hnone t)⟩

theorem TxOk.of_subset (h : w.TxOk) (ht : ∀ t ∈ w'.transactions, t ∈ w.transactions)
    (hs : ∀ x ∈ w.sagas, ∃ y ∈ w'.sagas, y.id = x.id) : w'.TxOk where
  writes := fun t hm => h.writes t (ht t hm)
  exclusive := fun t hm u hu => h.exclusive t (ht t hm) u (ht u hu)
  exist := by
    intro t hm id hid
    obtain ⟨x, hx, rfl⟩ := h.exist t (ht t hm) id hid
    exact hs x hx
  single := fun t hm u hu => h.single t (ht t hm) u (ht u hu)

theorem TxOk.finish (h : w.TxOk) (r : ℕ) : (w.endTransaction r).TxOk :=
  h.of_subset (fun _ ht => (List.mem_filter.mp ht).1) fun x hx => ⟨x, hx, rfl⟩

/-! ### What becomes of the rows -/

/-- Rows are never deleted. -/
theorem putSaga_persist (w : World) (s : SagaInstance) :
    ∀ x ∈ w.sagas, ∃ y ∈ (w.putSaga s).sagas, y.id = x.id := by
  intro x hx
  by_cases hid : x.id = s.id
  · exact ⟨_, (mem_putSaga w s).mpr (Or.inl rfl), hid.symm⟩
  · exact ⟨x, (mem_putSaga w s).mpr (Or.inr ⟨hx, hid⟩), rfl⟩

theorem putSaga_of_ne {s y : SagaInstance} (h : y.id ≠ s.id) :
    y ∈ (w.putSaga s).sagas ↔ y ∈ w.sagas := by
  rw [mem_putSaga]
  constructor
  · rintro (rfl | ⟨hy, -⟩)
    · exact absurd rfl h
    · exact hy
  · exact fun hy => Or.inr ⟨hy, h⟩

theorem putSagas_persist (ss : List SagaInstance) : ∀ w : World,
    ∀ x ∈ w.sagas, ∃ y ∈ (ss.foldl putSaga w).sagas, y.id = x.id := by
  induction ss with
  | nil => exact fun w x hx => ⟨x, hx, rfl⟩
  | cons s ss ih =>
    intro w x hx
    obtain ⟨y, hy, hyx⟩ := putSaga_persist w s x hx
    obtain ⟨z, hz, hzy⟩ := ih (w.putSaga s) y hy
    exact ⟨z, hz, hzy.trans hyx⟩

theorem putSagas_of_ne {y : SagaInstance} (ss : List SagaInstance) : ∀ w : World,
    (∀ s ∈ ss, y.id ≠ s.id) → (y ∈ (ss.foldl putSaga w).sagas ↔ y ∈ w.sagas) := by
  induction ss with
  | nil => exact fun _ _ => Iff.rfl
  | cons s ss ih =>
    intro w h
    rw [List.foldl_cons, ih _ fun s hs => h s (List.mem_cons_of_mem _ hs),
      putSaga_of_ne (h s List.mem_cons_self)]

/-! ### Every operation -/

/-- The transactions of others are in order and theirs alone. -/
def TxRespects (i : ℕ) (w w' : World) : Prop :=
  w'.TxOk ∧ w.runners <+: w'.runners ∧ ∀ j, j ≠ i → TxKeep j w w'

theorem TxRespects.of_same (h : w.TxOk) (ht : w'.transactions = w.transactions)
    (hs : w'.sagas = w.sagas) (hr : w.runners <+: w'.runners) : TxRespects i w w' := by
  refine ⟨h.of_subset (fun t hm => ht ▸ hm) fun x hx => ⟨x, hs ▸ hx, rfl⟩, hr, ?_⟩
  intro j _ r _
  refine ⟨by rw [transaction, ht, transaction], fun id _ y _ => by rw [hs]⟩

/-- A transaction of `i` is replaced. -/
theorem TxRespects.set (ho : w.Owner i r) {t : Transaction} (htr : t.runner = r)
    (hok : (w.setTransaction t).TxOk) : TxRespects i w (w.setTransaction t) := by
  refine ⟨hok, List.prefix_rfl, fun j hj r' ho' => ⟨?_, fun _ _ _ _ => Iff.rfl⟩⟩
  refine transaction_set_of_ne w t ?_
  rintro rfl
  rw [htr] at ho'
  exact hj (ho'.unique ho)

/-- A transaction of `i` is ended. -/
theorem TxRespects.finish (h : w.TxOk) (ho : w.Owner i r) :
    TxRespects i w (w.endTransaction r) := by
  refine ⟨h.finish r, List.prefix_rfl, fun j hj r' ho' => ⟨?_, fun _ _ _ _ => Iff.rfl⟩⟩
  refine transaction_end_of_ne w ?_
  rintro rfl
  exact hj (ho'.unique ho)

theorem txFindSaga_respects {v : Except Err (Option SagaInstance)} (h : w.TxOk)
    (ho : w.Owner i r) (hf : w.txFindSaga r id = some (w', v)) : TxRespects i w w' := by
  rcases txFindSaga_cases hf with ⟨rfl, -⟩ | ⟨t, s, ht, hlock, hs, hid, -, rfl⟩
  · exact .of_same h rfl rfl List.prefix_rfl
  · obtain ⟨hmem, rfl⟩ := mem_of_transaction ht
    refine .set ho rfl (h.set (fun s hs => ?_) (fun u hu hne id' hid => ?_) fun id' hid' => ?_)
    · exact List.mem_cons_of_mem _ (h.writes t hmem s hs)
    · rcases List.mem_cons.mp hid with rfl | hid
      · exact not_locked hlock hu fun heq => hne (Option.some.inj heq)
      · exact fun hid' => hne (h.exclusive t hmem u hu id' hid hid').symm
    · rcases List.mem_cons.mp hid' with rfl | hid'
      · exact ⟨s, hs, hid⟩
      · exact h.exist t hmem id' hid'

theorem txSaveSaga_respects {s : SagaInstance} {v : Except Err Unit} (h : w.TxOk)
    (ho : w.Owner i r) (hl : w.Locks r s.id) (hf : w.txSaveSaga r s = some (w', v)) :
    TxRespects i w w' := by
  obtain ⟨t, ht, hid⟩ := hl
  rcases txSaveSaga_cases hf with ⟨rfl, -⟩ | ⟨t', ht', -, rfl⟩
  · exact .of_same h rfl rfl List.prefix_rfl
  · obtain rfl : t = t' := Option.some.inj (ht.symm.trans ht')
    obtain ⟨hmem, rfl⟩ := mem_of_transaction ht
    have hlocks : ∀ id', id' ∈ s.id :: t.locks → id' ∈ t.locks := by
      intro id' hid'
      rcases List.mem_cons.mp hid' with rfl | hid'
      · exact hid
      · exact hid'
    refine .set ho rfl (h.set (fun x hx => ?_) (fun u hu hne id' hid' hu' => ?_) fun id' hid' => ?_)
    · rcases List.mem_append.mp hx with hx | hx
      · exact List.mem_cons_of_mem _ (h.writes t hmem x hx)
      · rw [List.mem_singleton.mp hx]
        exact List.mem_cons_self
    · exact hne (h.exclusive t hmem u hu id' (hlocks id' hid') hu').symm
    · exact h.exist t hmem id' (hlocks id' hid')

theorem commit_respects (h : w.TxOk) (ho : w.Owner i r) : TxRespects i w (w.commit r).1 := by
  unfold commit
  cases ht : w.transaction r with
  | none => exact .of_same h rfl rfl List.prefix_rfl
  | some t =>
    obtain ⟨hmem, rfl⟩ := mem_of_transaction ht
    obtain ⟨u, hu⟩ := putSagas_only (w.endTransaction t.runner) t.writes
    have hend : TxRespects i w (w.endTransaction t.runner) := .finish h ho
    dsimp only
    refine ⟨hend.1.of_subset (fun v hv => ?_) (putSagas_persist _ _), ?_, fun j hj r' ho' => ?_⟩
    · rw [hu] at hv
      exact hv
    · rw [hu]
      exact List.prefix_rfl
    · refine ⟨?_, fun id hl y hy => ?_⟩
      · rw [hu]
        exact (hend.2.2 j hj r' ho').1
      · -- another transaction has locked none of the rows that are written
        refine putSagas_of_ne _ _ fun s hs heq => ?_
        obtain ⟨v, hv, hid⟩ := hl
        obtain ⟨hvm, rfl⟩ := mem_of_transaction hv
        rw [← hy, heq] at hid
        have hrun := h.exclusive v hvm t hmem s.id hid (h.writes t hmem s hs)
        rw [hrun] at ho'
        exact hj (ho'.unique ho)

theorem insertSaga_respects {n : NewSaga} {s : SagaInstance} (h : w.TxOk)
    (hi : w.insertSaga id n = some (w', s)) : TxRespects i w w' := by
  obtain ⟨u, hu⟩ := insertSaga_only hi
  obtain ⟨hs, hfresh, hmem⟩ := insertSaga_cases hi
  refine ⟨h.of_subset (fun t ht => by rw [hu] at ht; exact ht)
    fun x hx => ⟨x, (hmem x).mpr (Or.inr hx), rfl⟩, by rw [hu],
    fun j _ r _ => ⟨by rw [hu]; rfl, ?_⟩⟩
  intro id' hl y hy
  rw [hmem y]
  constructor
  · rintro (rfl | hy)
    · -- a locked row exists already
      obtain ⟨t, ht, hid⟩ := hl
      obtain ⟨x, hx, hxid⟩ := h.exist t (mem_of_transaction ht).1 id' hid
      refine absurd ?_ (hfresh x hx)
      rw [hxid, ← hy, hs]
    · exact hy
  · exact Or.inr

theorem sagaSave_respects {s : SagaInstance} (h : w.TxOk) (hl : w.lockedBy none s.id = false) :
    TxRespects i w (w.putSaga s) := by
  obtain ⟨u, hu⟩ := putSaga_only w s
  refine ⟨h.of_subset (fun t ht => by rw [hu] at ht; exact ht) (putSaga_persist w s),
    by rw [hu], fun j _ r _ => ⟨by rw [hu]; rfl, ?_⟩⟩
  rintro id' ⟨t, ht, hid⟩ y hy
  refine putSaga_of_ne ?_
  rintro heq
  rw [← hy, heq] at hid
  exact not_locked hl (mem_of_transaction ht).1 (by simp) hid

/-- **Every operation respects the transactions of other activities.** -/
theorem exec_tx {o : Op} {c : Choice} {v : Except Err (Op.Val o)} {ts : List Task} (h : w.TxOk)
    (ho : w.Owns i o) (he : w.exec i o c = some (w', v, ts)) : TxRespects i w w' := by
  have hsame : TxRespects i w w := .of_same h rfl rfl List.prefix_rfl
  rcases exec_cases he with ⟨-, hp⟩ | ⟨m, -, rfl, -⟩ | ⟨m, v', -, hr, hp, -⟩
  · -- the operation ran; what is neither a transaction nor a saga leaves both as they are
    have hframe := perform_frame hp
    cases o with
    | sagaInsert n =>
      obtain ⟨s, -, hi, -⟩ := perform_sagaInsert hp
      exact insertSaga_respects h hi
    | sagaSave s =>
      simp only [perform] at hp
      split at hp
      · simp at hp
      · next hl =>
        obtain rfl := (congrArg Prod.fst (Option.some.inj hp) : w.putSaga s = w')
        exact sagaSave_respects h (by simpa using hl)
    | connect =>
      obtain rfl := (congrArg Prod.fst (Option.some.inj hp) : { w with runners := _ } = w')
      exact .of_same h rfl rfl (List.prefix_append _ _)
    | startTransaction r =>
      obtain rfl := (congrArg Prod.fst (Option.some.inj hp) : w.setTransaction ⟨r, [], []⟩ = w')
      exact .set (ho.1 r rfl) rfl (h.set (by simp) (by simp) (by simp))
    | txSagaFindOne r id =>
      exact txFindSaga_respects h (ho.1 r rfl) (perform_txSagaFindOne hp).1
    | txSagaSave r s =>
      exact txSaveSaga_respects h (ho.1 r rfl) (ho.2 r _ rfl) (perform_txSagaSave hp).1
    | commitTransaction r =>
      obtain rfl := (congrArg Prod.fst (Option.some.inj hp) : (w.commit r).1 = w')
      exact commit_respects h (ho.1 r rfl)
    | rollbackTransaction r =>
      obtain rfl := (congrArg Prod.fst (Option.some.inj hp) : (w.rollback r).1 = w')
      rcases w.rollback_cases r with hr | hr
      · rw [hr]
        exact hsame
      · rw [hr]
        exact .finish h (ho.1 r rfl)
    | release r =>
      obtain rfl := (congrArg Prod.fst (Option.some.inj hp) : w.endTransaction r = w')
      exact .finish h (ho.1 r rfl)
    | _ =>
      refine .of_same h (hframe.transactions (by simp [Op.writes]))
        (hframe.sagas (by simp [Op.writes])) ?_
      rw [hframe.runners (by simp [Op.writes])]
  · -- it failed before it ran
    exact hsame
  · have hframe := perform_frame hp
    have hw : .transactions ∉ o.writes ∧ .sagas ∉ o.writes ∧ .runners ∉ o.writes := by
      cases o <;> simp [Op.isRedis] at hr <;> simp [Op.writes]
    refine .of_same h (hframe.transactions hw.1) (hframe.sagas hw.2.1) ?_
    rw [hframe.runners hw.2.2]

/-- Whoever works on a query runner of his own without saving owns what he does. -/
theorem Owns.of_owner {n : ℕ} {o : Op} (h : w.Owner i n) (hr : ∀ r, o.runner? = some r → r = n)
    (hs : ∀ r s, o ≠ .txSagaSave r s) : w.Owns i o :=
  ⟨fun r hr' => hr r hr' ▸ h, fun r s ho => absurd ho (hs r s)⟩

/-! ### What is written when -/

/-- The row is among those an open transaction will write. -/
def Pending (w : World) (x : SagaInstance) : Prop := ∃ t ∈ w.transactions, x ∈ t.writes

/-- The sagas after some of the pending rows have been written. -/
def WritesPending (w w' : World) : Prop :=
  ∃ ss : List SagaInstance, (∀ x ∈ ss, w.Pending x) ∧ w'.sagas = (ss.foldl putSaga w).sagas

theorem WritesPending.of_same (h : w'.sagas = w.sagas) : WritesPending w w' :=
  ⟨[], fun _ h => absurd h List.not_mem_nil, h⟩

theorem putSaga_congr (h : w'.sagas = w.sagas) (hc : w'.clock = w.clock) (s : SagaInstance) :
    (w'.putSaga s).sagas = (w.putSaga s).sagas := by
  unfold putSaga
  rw [h, hc]
  split <;> simp [h]

theorem putSagas_congr (ss : List SagaInstance) : ∀ {w w' : World}, w'.sagas = w.sagas →
    w'.clock = w.clock → (ss.foldl putSaga w').sagas = (ss.foldl putSaga w).sagas := by
  induction ss with
  | nil => exact fun h _ => h
  | cons s ss ih =>
    intro w w' h hc
    exact ih (putSaga_congr h hc s) (by simp [hc])

theorem pending_set {t : Transaction} {x : SagaInstance}
    (h : (w.setTransaction t).Pending x) : x ∈ t.writes ∨ w.Pending x := by
  obtain ⟨u, hu, hx⟩ := h
  rcases List.mem_cons.mp hu with rfl | hu
  · exact Or.inl hx
  · exact Or.inr ⟨u, (List.mem_filter.mp hu).1, hx⟩

theorem pending_finish {x : SagaInstance} (h : (w.endTransaction r).Pending x) : w.Pending x := by
  obtain ⟨u, hu, hx⟩ := h
  exact ⟨u, (List.mem_filter.mp hu).1, hx⟩

/-- Beginning or ending a transaction writes nothing but pending rows. -/
theorem perform_control {n : ℕ} {o : Op} {c : Choice} {v : Except Err (Op.Val o)} {ts : List Task}
    (ho : o ∈ Op.controls n) (h : w.perform i c o = some (w', v, ts)) :
    (∀ x, w'.Pending x → w.Pending x) ∧ WritesPending w w' := by
  simp only [Op.controls, List.mem_cons, List.not_mem_nil, or_false] at ho
  rcases ho with rfl | rfl | rfl | rfl
  · obtain rfl := (congrArg Prod.fst (Option.some.inj h) : w.setTransaction ⟨n, [], []⟩ = w')
    refine ⟨fun x hx => ?_, .of_same rfl⟩
    rcases pending_set hx with hx | hx
    · exact absurd hx List.not_mem_nil
    · exact hx
  · obtain rfl := (congrArg Prod.fst (Option.some.inj h) : (w.commit n).1 = w')
    rcases w.commit_cases n with ⟨-, hsame⟩ | ⟨t, ht, hsagas, htxs⟩
    · rw [hsame]
      exact ⟨fun _ hx => hx, .of_same rfl⟩
    · refine ⟨fun x hx => ?_, t.writes, fun x hx => ⟨t, (mem_of_transaction ht).1, hx⟩, ?_⟩
      · obtain ⟨u, hu, hx⟩ := hx
        exact pending_finish ⟨u, htxs ▸ hu, hx⟩
      · exact hsagas.trans (putSagas_congr _ rfl rfl)
  · obtain rfl := (congrArg Prod.fst (Option.some.inj h) : (w.rollback n).1 = w')
    rcases w.rollback_cases n with hr | hr
    · rw [hr]
      exact ⟨fun _ hx => hx, .of_same rfl⟩
    · rw [hr]
      exact ⟨fun _ hx => pending_finish hx, .of_same rfl⟩
  · obtain rfl := (congrArg Prod.fst (Option.some.inj h) : w.endTransaction n = w')
    exact ⟨fun _ hx => pending_finish hx, .of_same rfl⟩

/-- A row is read for update: it is locked from then on. -/
theorem perform_txFind {n : ℕ} {c : Choice} {v : Except Err (Option SagaInstance)}
    {ts : List Task} (h : w.perform i c (.txSagaFindOne n id) = some (w', v, ts)) :
    (∀ x, w'.Pending x → w.Pending x) ∧ w'.sagas = w.sagas ∧
      ∀ x, v = .ok (some x) → w'.Locks n id ∧ x ∈ w.sagas ∧ x.id = id := by
  rcases txFindSaga_cases (perform_txSagaFindOne h).1 with
    ⟨rfl, hnone⟩ | ⟨t, s, ht, -, hs, hid, rfl, rfl⟩
  · exact ⟨fun _ hx => hx, rfl, fun x hx => absurd hx (hnone x)⟩
  · obtain ⟨hmem, rfl⟩ := mem_of_transaction ht
    refine ⟨fun x hx => ?_, rfl, fun x hx => ?_⟩
    · rcases pending_set hx with hx | hx
      · exact ⟨t, hmem, hx⟩
      · exact hx
    · obtain rfl : s = x := Option.some.inj (Except.ok.inj hx)
      exact ⟨⟨_, transaction_set w _, List.mem_cons_self⟩, hs, hid⟩

/-- A row is written within a transaction. -/
theorem perform_txSave {n : ℕ} {s : SagaInstance} {c : Choice} {v : Except Err Unit}
    {ts : List Task} (h : w.perform i c (.txSagaSave n s) = some (w', v, ts)) :
    (∀ x, w'.Pending x → x = s ∨ w.Pending x) ∧ w'.sagas = w.sagas := by
  rcases txSaveSaga_cases (perform_txSagaSave h).1 with ⟨rfl, -⟩ | ⟨t, ht, -, rfl⟩
  · exact ⟨fun _ hx => Or.inr hx, rfl⟩
  · refine ⟨fun x hx => ?_, rfl⟩
    rcases pending_set hx with hx | hx
    · rcases List.mem_append.mp hx with hx | hx
      · exact Or.inr ⟨t, (mem_of_transaction ht).1, hx⟩
      · exact Or.inl (List.mem_singleton.mp hx)
    · exact Or.inr hx

/-- **What becomes of the transactions**: one is begun, or locks or writes another row, or some
end. -/
theorem exec_transactions {i : ℕ} {o : Op} {c : Choice} {v : Except Err (Op.Val o)} {ts : List Task}
    (he : w.exec i o c = some (w', v, ts)) : ∀ u ∈ w'.transactions, u ∈ w.transactions ∨
      (∃ n, o = .startTransaction n ∧ u = ⟨n, [], []⟩) ∨
      (∃ t ∈ w.transactions, ∃ id, o = .txSagaFindOne t.runner id ∧
        u = { t with locks := id :: t.locks }) ∨
      ∃ t ∈ w.transactions, ∃ s, o = .txSagaSave t.runner s ∧
        u = { t with locks := s.id :: t.locks, writes := t.writes ++ [s] } := by
  intro u hu
  by_cases hw : .transactions ∈ o.writes
  · rcases exec_cases he with ⟨-, hp⟩ | ⟨m, -, rfl, -⟩ | ⟨m, v', -, hr, -⟩
    · -- a transaction that is set replaces that of its runner
      have hset : ∀ {t : Transaction}, u ∈ (w.setTransaction t).transactions →
          u = t ∨ u ∈ w.transactions := by
        intro t hu
        rcases List.mem_cons.mp hu with rfl | hu
        · exact Or.inl rfl
        · exact Or.inr (List.mem_filter.mp hu).1
      have hend : ∀ {n : ℕ}, u ∈ (w.endTransaction n).transactions → u ∈ w.transactions :=
        fun hu => (List.mem_filter.mp hu).1
      cases o with
      | startTransaction n =>
        obtain rfl := (congrArg Prod.fst (Option.some.inj hp) : w.setTransaction ⟨n, [], []⟩ = w')
        rcases hset hu with rfl | hu
        · exact Or.inr (Or.inl ⟨n, rfl, rfl⟩)
        · exact Or.inl hu
      | txSagaFindOne n id =>
        rcases txFindSaga_cases (perform_txSagaFindOne hp).1 with ⟨rfl, -⟩ | ⟨t, s, ht, -, -, -, -, rfl⟩
        · exact Or.inl hu
        · obtain ⟨hmem, rfl⟩ := mem_of_transaction ht
          rcases hset hu with rfl | hu
          · exact Or.inr (Or.inr (Or.inl ⟨t, hmem, id, rfl, rfl⟩))
          · exact Or.inl hu
      | txSagaSave n s =>
        rcases txSaveSaga_cases (perform_txSagaSave hp).1 with ⟨rfl, -⟩ | ⟨t, ht, -, rfl⟩
        · exact Or.inl hu
        · obtain ⟨hmem, rfl⟩ := mem_of_transaction ht
          rcases hset hu with rfl | hu
          · exact Or.inr (Or.inr (Or.inr ⟨t, hmem, s, rfl, rfl⟩))
          · exact Or.inl hu
      | commitTransaction n =>
        obtain rfl := (congrArg Prod.fst (Option.some.inj hp) : (w.commit n).1 = w')
        rcases w.commit_cases n with ⟨-, hsame⟩ | ⟨t, -, -, htxs⟩
        · exact Or.inl (hsame ▸ hu)
        · exact Or.inl (hend (htxs ▸ hu))
      | rollbackTransaction n =>
        obtain rfl := (congrArg Prod.fst (Option.some.inj hp) : (w.rollback n).1 = w')
        rcases w.rollback_cases n with hr | hr
        · exact Or.inl (hr ▸ hu)
        · exact Or.inl (hend (hr ▸ hu))
      | release n =>
        obtain rfl := (congrArg Prod.fst (Option.some.inj hp) : w.endTransaction n = w')
        exact Or.inl (hend hu)
      | _ => simp [Op.writes] at hw
    · exact Or.inl hu
    · cases o <;> simp [Op.isRedis] at hr <;> simp [Op.writes] at hw
  · rw [(exec_frame he).transactions hw] at hu
    exact Or.inl hu

end World

end CqrsSaga
