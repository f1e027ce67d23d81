import CqrsSaga.App.Cells
import CqrsSaga.Saga.Begun

/-!
# What belongs to an order

The orders, payments, sagas, row locks and locks that belong to the order under a key.  An operation
about the order stays with what belongs to it: neither its answer nor what it leaves depends on
anything else, and nothing else is touched.

## Main definitions

* `World.Owned` — the cells that belong to the order under a key.
* `World.About`, `World.TxOf` — the operation, and the open transactions, are about that order.
* `World.footprint` — these cells, and what the operation uses of its own.

## Main results

* `World.confined_of_about` — **an operation about an order stays within its footprint.**
* `World.footprints_apart` — **what belongs to orders under different keys is apart.**
-/

namespace CqrsSaga

open SagaManager

/-- What an operation uses of its own: the id of the row it inserts, or its query runner. -/
def Op.Uses (c : Choice) (o : Op) (x : Cell) : Prop :=
  match o with
  | .orderInsert _ => x = .orderId c.text
  | .paymentInsert _ => x = .paymentId c.text
  | .sagaInsert _ => x = .sagaId c.text
  | .connect => x = .runners
  | o => ∃ n ∈ o.runner?, x = .transaction n

namespace World

/-- The lock is one that is taken for the order under the key `k`. -/
def LockOf (w : World) (k key : String) : Prop :=
  key = startLock k ∨
    ∃ y stepName, w.SagaKeyed y k ∧ stepName ∈ sagaSteps ∧ key = "lock:" ++ stepLock y stepName

/-- The cell belongs to the order under the key `k`. -/
def Owned (w : World) (k : String) : Cell → Prop
  | .orders key => key = some k
  | .payments x => w.Keyed x k
  | .sagas c => c = k
  | .rowLock y => w.SagaKeyed y k
  | .entry key => w.LockOf k key
  | _ => False

/-- What an operation about the order under the key `k` reads and writes. -/
def footprint (w : World) (k : String) (o : Op) (c : Choice) : Footprint Cell where
  reads := {x | x = .clock ∨ w.Owned k x ∨ o.Uses c x}
  writes := {x | w.Owned k x ∨ o.Uses c x}
  sub := fun _ => Or.inr

theorem mem_writes {w : World} {k : String} {o : Op} {c : Choice} {x : Cell} :
    x ∈ (w.footprint k o c).writes ↔ w.Owned k x ∨ o.Uses c x := Iff.rfl

/-- The operation is about the order under the key `k`. -/
def About (w : World) (i : ℕ) (k : String) : Op → Prop
  | .orderFindOne q => q.idempotencyKey = some k ∨ ∃ x, q.id = some x ∧ w.Keyed x k
  | .orderFind _ => False
  | .orderInsert n => n.idempotencyKey = some k
  | .orderSave o => o.idempotencyKey = some k ∧ w.Keyed o.id k
  | .paymentFindOne _ => False
  | .paymentInsert n => w.Keyed n.orderId k
  | .paymentSave p => w.Keyed p.orderId k ∧ ∃ q ∈ w.payments, q.id = p.id ∧ q.orderId = p.orderId
  | .sagaFindOne q => q.correlationId = some k ∨ ∃ y, q.id = some y ∧ w.SagaKeyed y k
  | .sagaInsert n => n.correlationId = k
  | .sagaSave s => s.correlationId = k ∧ w.SagaKeyed s.id k
  | .startTransaction n => w.Owner i n
  | .txSagaFindOne n y => w.Owner i n ∧ w.SagaKeyed y k
  | .txSagaSave n s => w.Owner i n ∧ s.correlationId = k ∧ w.SagaKeyed s.id k
  | .commitTransaction n => w.Owner i n
  | .rollbackTransaction n => w.Owner i n
  | .release n => w.Owner i n
  | .redisSet key _ _ => w.LockOf k key
  | .redisUnlock key _ => w.LockOf k key
  | .redisRenew key _ _ => w.LockOf k key
  | .redisExists key => w.LockOf k key
  | _ => True

/-- The open transactions of activity `i` are about the order under the key `k`. -/
def TxOf (w : World) (i : ℕ) (k : String) : Prop :=
  ∀ t ∈ w.transactions, w.Owner i t.runner → (∀ y ∈ t.locks, w.SagaKeyed y k) ∧
    ∀ s ∈ t.writes, s.correlationId = k ∧ w.SagaKeyed s.id k

variable {w w' : World} {i : ℕ} {k x y : String} {o : Op} {c : Choice}

/-! ### Queries -/

/-- The order is stored under the key wherever the orders under the key are the same. -/
theorem Keyed.congr (h : w.look (.orders (some k)) = w'.look (.orders (some k)))
    (hx : w.Keyed x k) : w'.Keyed x k := by
  obtain ⟨o, ho, hid, hk⟩ := hx
  exact ⟨o, (Table.mem_congr (f := fun o : Order => o.idempotencyKey) (by rw [hk]; exact h)).mp ho,
    hid, hk⟩

theorem SagaKeyed.congr (h : w.look (.sagas k) = w'.look (.sagas k)) (hy : w.SagaKeyed y k) :
    w'.SagaKeyed y k := by
  obtain ⟨s, hs, hid, hk⟩ := hy
  exact ⟨s, (Table.mem_congr (f := fun s : SagaInstance => s.correlationId)
    (by rw [hk]; exact h)).mp hs,
    hid, hk⟩

/-- An order has one key. -/
theorem Keyed.unique (h : w.Keyed x k) {o : Order} (ho : o ∈ w.orders) (hx : o.id = x) :
    o.idempotencyKey = some k := by
  obtain ⟨o', ho', hid, hk⟩ := h
  rw [Table.eq_of_pk ho ho' (hx.trans hid.symm), hk]

theorem orderFindOne_slice {q : OrderWhere} (h : w.About i k (.orderFindOne q)) :
    w.orders.find? q.selects =
      (w.orders.slice (fun o => o.idempotencyKey) (some k)).find? q.selects := by
  refine Table.find?_slice fun o ho hq => ?_
  rcases h with hk | ⟨x, hid, hx⟩
  · exact OrderWhere.selects_key hq hk
  · exact hx.unique ho (OrderWhere.selects_id hq hid)

theorem sagaFindOne_slice {q : SagaWhere} (h : w.About i k (.sagaFindOne q)) :
    w.sagas.find? q.selects = (w.sagas.slice (fun s => s.correlationId) k).find? q.selects := by
  refine Table.find?_slice fun s hs hq => ?_
  rcases h with hk | ⟨y, hid, hy⟩
  · exact SagaWhere.selects_correlationId hq hk
  · exact hy.unique hs (SagaWhere.selects_id hq hid)

/-! ### Operations -/

section Agree

variable (hs : worldCells.SameOn (w.footprint k o c).reads w w')
include hs

theorem same_owned {x : Cell} (hx : w.Owned k x) : w.look x = w'.look x := hs x (Or.inr (Or.inl hx))

theorem same_used {x : Cell} (hx : o.Uses c x) : w.look x = w'.look x := hs x (Or.inr (Or.inr hx))

theorem same_clock : w.clock = w'.clock := hs .clock (Or.inl rfl)

end Agree

theorem agree_orderFindOne {q : OrderWhere} (h : w.About i k (.orderFindOne q))
    (hs : worldCells.SameOn (w.footprint k (.orderFindOne q) c).reads w w') :
    Agree (w.footprint k (.orderFindOne q) c) i (.orderFindOne q) c w w' := by
  have horders : w.look (.orders (some k)) = w'.look (.orders (some k)) := same_owned hs rfl
  have h' : w'.About i k (.orderFindOne q) := h.imp_right
    fun ⟨x, hid, hx⟩ => ⟨x, hid, hx.congr horders⟩
  have hfind : w.orders.find? q.selects = w'.orders.find? q.selects := by
    rw [orderFindOne_slice h, orderFindOne_slice h']
    exact congrArg (List.find? q.selects) horders
  have hp : w'.perform i c (.orderFindOne q) = some (w', .ok (w.orders.find? q.selects), []) := by
    rw [hfind]
    rfl
  exact .quiet rfl hp (by simp [Op.WritesCell, Op.writes])

theorem agree_sagaFindOne {q : SagaWhere} (h : w.About i k (.sagaFindOne q))
    (hs : worldCells.SameOn (w.footprint k (.sagaFindOne q) c).reads w w') :
    Agree (w.footprint k (.sagaFindOne q) c) i (.sagaFindOne q) c w w' := by
  have hsagas : w.look (.sagas k) = w'.look (.sagas k) := same_owned hs rfl
  have h' : w'.About i k (.sagaFindOne q) := h.imp_right
    fun ⟨y, hid, hy⟩ => ⟨y, hid, hy.congr hsagas⟩
  have hfind : w.sagas.find? q.selects = w'.sagas.find? q.selects := by
    rw [sagaFindOne_slice h, sagaFindOne_slice h']
    exact congrArg (List.find? q.selects) hsagas
  have hp : w'.perform i c (.sagaFindOne q) = some (w', .ok (w.sagas.find? q.selects), []) := by
    rw [hfind]
    rfl
  exact .quiet rfl hp (by simp [Op.WritesCell, Op.writes])

theorem agree_redisExists {key : String}
    (h : w.LockOf k key)
    (hs : worldCells.SameOn (w.footprint k (.redisExists key) c).reads w w') :
    Agree (w.footprint k (.redisExists key) c) i (.redisExists key) c w w' := by
  have hentry : w.redis.entries.lookup key = w'.redis.entries.lookup key :=
    same_owned hs (x := .entry key) h
  have hp : w'.perform i c (.redisExists key) =
      some (w', .ok (Lease.live w.redis.entries w.clock key).isSome, []) := by
    simp only [perform, Lease.live, hentry, same_clock hs]
  exact .quiet rfl hp (by simp [Op.WritesCell, Op.writes])

/-! Rows. -/

theorem agree_orderInsert {n : NewOrder} (hk : n.idempotencyKey = some k)
    (hs : worldCells.SameOn (w.footprint k (.orderInsert n) c).reads w w') :
    Agree (w.footprint k (.orderInsert n) c) i (.orderInsert n) c w w' := by
  have hW : ∀ x : Cell, x.part? = some .orders → (x ∈ (w.footprint k (.orderInsert n) c).writes ↔
      x = .orders n.idempotencyKey ∨ x = .orderId c.text) := by
    intro x hx
    rw [hk, mem_writes]
    cases x <;> simp [Cell.part?] at hx <;> simp [Owned, Op.Uses]
  rcases look_insertOrder (n := n) (same_clock hs)
    (same_owned hs (by rw [hk]; rfl)) (same_used hs (x := .orderId c.text) rfl)
    with ⟨h, h'⟩ | ⟨w₁, w₁', r, h, h', hx⟩
  · exact Or.inl ⟨by simp only [perform, h]; rfl, by simp only [perform, h']; rfl⟩
  · exact .of_part rfl hW (by simp only [perform, h]; rfl) (by simp only [perform, h']; rfl) hx

theorem agree_orderSave {y : Order} (h : w.About i k (.orderSave y))
    (hs : worldCells.SameOn (w.footprint k (.orderSave y) c).reads w w') :
    Agree (w.footprint k (.orderSave y) c) i (.orderSave y) c w w' := by
  obtain ⟨hk, hy⟩ := h
  have horders : w.look (.orders (some k)) = w'.look (.orders (some k)) := same_owned hs rfl
  have hy' : w'.Keyed y.id k := hy.congr horders
  have hW : ∀ x : Cell, x.part? = some .orders →
      (x ∈ (w.footprint k (.orderSave y) c).writes ↔ x = .orders y.idempotencyKey) := by
    intro x hx
    rw [hk, mem_writes]
    cases x <;> simp [Cell.part?] at hx <;> simp [Owned, Op.Uses, Op.runner?]
  obtain ⟨hr, hx⟩ := look_saveOrder (y := y) (same_clock hs) (by rw [hk]; exact horders)
    (fun x hx hid => (hy.unique hx hid).trans hk.symm)
    (fun x hx hid => (hy'.unique hx hid).trans hk.symm)
    (by obtain ⟨o, ho, hid, -⟩ := hy'; exact ⟨o, ho, hid⟩)
  exact .of_part rfl hW rfl (by rw [hr]; rfl) hx

theorem agree_paymentInsert {n : NewPayment} (hn : w.Keyed n.orderId k)
    (hs : worldCells.SameOn (w.footprint k (.paymentInsert n) c).reads w w') :
    Agree (w.footprint k (.paymentInsert n) c) i (.paymentInsert n) c w w' := by
  have hW : ∀ x : Cell, x.part? = some .payments →
      (x ∈ (w.footprint k (.paymentInsert n) c).writes ↔
        x = .payments n.orderId ∨ x = .paymentId c.text) := by
    intro x hx
    rw [mem_writes]
    cases x <;> simp [Cell.part?] at hx <;> simp [Owned, Op.Uses]
    exact ⟨fun h => h.order_unique hn, fun h => h ▸ hn⟩
  rcases look_insertPayment (n := n) (same_owned hs hn)
    (same_used hs (x := .paymentId c.text) rfl) with
    ⟨h, h'⟩ | ⟨w₁, w₁', r, h, h', hx⟩
  · exact Or.inl ⟨by simp only [perform, h]; rfl, by simp only [perform, h']; rfl⟩
  · exact .of_part rfl hW (by simp only [perform, h]; rfl) (by simp only [perform, h']; rfl) hx

theorem agree_paymentSave {y : Payment} (h : w.About i k (.paymentSave y))
    (hs : worldCells.SameOn (w.footprint k (.paymentSave y) c).reads w w') :
    Agree (w.footprint k (.paymentSave y) c) i (.paymentSave y) c w w' := by
  obtain ⟨hk, q, hq, hid, ho⟩ := h
  have hpayments : w.look (.payments y.orderId) = w'.look (.payments y.orderId) := same_owned hs hk
  have hq' : q ∈ w'.payments :=
    (Table.mem_congr (f := fun p : Payment => p.orderId) (by rw [ho]; exact hpayments)).mp hq
  have hW : ∀ x : Cell, x.part? = some .payments →
      (x ∈ (w.footprint k (.paymentSave y) c).writes ↔ x = .payments y.orderId) := by
    intro x hx
    rw [mem_writes]
    cases x <;> simp [Cell.part?] at hx <;> simp [Owned, Op.Uses, Op.runner?]
    exact ⟨fun h => h.order_unique hk, fun h => h ▸ hk⟩
  obtain ⟨hr, hx⟩ := look_savePayment (y := y) hpayments
    (fun x hx hxid => (Table.eq_of_pk hx hq (hxid.trans hid.symm)) ▸ ho)
    (fun x hx hxid => (Table.eq_of_pk hx hq' (hxid.trans hid.symm)) ▸ ho) ⟨q, hq', hid⟩
  exact .of_part rfl hW rfl (by rw [hr]; rfl) hx

theorem agree_sagaInsert {n : NewSaga} (hk : n.correlationId = k)
    (hs : worldCells.SameOn (w.footprint k (.sagaInsert n) c).reads w w') :
    Agree (w.footprint k (.sagaInsert n) c) i (.sagaInsert n) c w w' := by
  have hW : ∀ x : Cell, x.part? = some .sagas →
      (x ∈ (w.footprint k (.sagaInsert n) c).writes ↔
        x = .sagas n.correlationId ∨ x = .sagaId c.text) := by
    intro x hx
    rw [hk, mem_writes]
    cases x <;> simp [Cell.part?] at hx <;> simp [Owned, Op.Uses]
  rcases look_insertSaga (n := n) (same_clock hs) (same_owned hs hk)
    (same_used hs (x := .sagaId c.text) rfl) with ⟨h, h'⟩ | ⟨w₁, w₁', r, h, h', hx⟩
  · exact Or.inl ⟨by simp only [perform, h]; rfl, by simp only [perform, h']; rfl⟩
  · exact .of_part rfl hW (by simp only [perform, h]; rfl) (by simp only [perform, h']; rfl) hx

theorem agree_sagaSave {y : SagaInstance} (h : w.About i k (.sagaSave y))
    (hs : worldCells.SameOn (w.footprint k (.sagaSave y) c).reads w w') :
    Agree (w.footprint k (.sagaSave y) c) i (.sagaSave y) c w w' := by
  obtain ⟨hk, hy⟩ := h
  have hsagas : w.look (.sagas k) = w'.look (.sagas k) := same_owned hs rfl
  have hlock := lockedBy_congr (same_owned hs (x := .rowLock y.id) hy) none
  have hW : ∀ x : Cell, x.part? = some .sagas →
      (x ∈ (w.footprint k (.sagaSave y) c).writes ↔ x = .sagas k) := by
    intro x hx
    rw [mem_writes]
    cases x <;> simp [Cell.part?] at hx <;> simp [Owned, Op.Uses, Op.runner?]
  cases hl : w.lockedBy none y.id with
  | true => exact Or.inl ⟨by simp [perform, hl], by simp [perform, hlock ▸ hl]⟩
  | false =>
    have hp : w.perform i c (.sagaSave y) = some (w.putSaga y, .ok (), []) := by simp [perform, hl]
    have hp' : w'.perform i c (.sagaSave y) = some (w'.putSaga y, .ok (), []) := by
      simp [perform, hlock ▸ hl]
    exact .of_part rfl hW hp hp'
      fun x hx => look_saveSaga hk (same_clock hs) hsagas hy (hy.congr hsagas) hx

/-! Transactions. -/

/-- What the transactions of a query runner lock belongs to the order, wherever they are the
same. -/
theorem TxOf.locksOnly (ht : w.TxOf i k) {n : ℕ} (ho : w.Owner i n)
    (h : w.look (.transaction n) = w'.look (.transaction n)) :
    w'.LocksOnly n fun y => w.SagaKeyed y k := by
  intro u hu hr
  have hsame : w.transactionsOn n = w'.transactionsOn n := h
  have hmem : u ∈ w.transactionsOn n := hsame ▸ mem_transactionsOn.mpr ⟨hu, hr⟩
  exact (ht u (mem_transactionsOn.mp hmem).1 (hr ▸ ho)).1

/-- The cells of its part an operation on a query runner may write. -/
theorem mem_writes_runner {n : ℕ} (hr : o.runner? = some n) {x : Cell}
    (hx : x.part? = some .transactions) :
    x ∈ (w.footprint k o c).writes ↔
      x = .transaction n ∨ ∃ y, w.SagaKeyed y k ∧ x = .rowLock y := by
  rw [mem_writes]
  cases o <;> simp [Op.runner?] at hr <;> subst hr <;>
    cases x <;> simp [Cell.part?] at hx <;> simp [Owned, Op.Uses, Op.runner?]

theorem agree_startTransaction {n : ℕ} (ho : w.Owner i n) (ht : w.TxOf i k)
    (hs : worldCells.SameOn (w.footprint k (.startTransaction n) c).reads w w') :
    Agree (w.footprint k (.startTransaction n) c) i (.startTransaction n) c w w' := by
  have htx : w.look (.transaction n) = w'.look (.transaction n) := same_used hs ⟨n, rfl, rfl⟩
  exact .of_part rfl (fun x hx => mem_writes_runner rfl hx) rfl rfl fun x hx =>
    look_setTransaction (t := ⟨n, [], []⟩) (fun y hy => absurd hy List.not_mem_nil)
      (ht.locksOnly ho htx) (fun y hy => same_owned hs hy) hx

theorem agree_release {n : ℕ} (ho : w.Owner i n) (ht : w.TxOf i k)
    (hs : worldCells.SameOn (w.footprint k (.release n) c).reads w w') :
    Agree (w.footprint k (.release n) c) i (.release n) c w w' := by
  have htx : w.look (.transaction n) = w'.look (.transaction n) := same_used hs ⟨n, rfl, rfl⟩
  exact .of_part rfl (fun x hx => mem_writes_runner rfl hx) rfl rfl fun x hx =>
    look_endTransaction (ht.locksOnly ho htx) (fun y hy => same_owned hs hy) hx

theorem agree_rollbackTransaction {n : ℕ} (ho : w.Owner i n) (ht : w.TxOf i k)
    (hs : worldCells.SameOn (w.footprint k (.rollbackTransaction n) c).reads w w') :
    Agree (w.footprint k (.rollbackTransaction n) c) i (.rollbackTransaction n) c w w' := by
  have htx : w.look (.transaction n) = w'.look (.transaction n) := same_used hs ⟨n, rfl, rfl⟩
  have hsame := transaction_congr htx
  cases h : w.transaction n with
  | none =>
    exact .unchanged hs (by simp only [perform, rollback, h]; rfl)
      (by simp only [perform, rollback, hsame ▸ h])
  | some t =>
    have hp : w.perform i c (.rollbackTransaction n) = some (w.endTransaction n, .ok (), []) := by
      simp only [perform, rollback, h]
      rfl
    have hp' : w'.perform i c (.rollbackTransaction n) = some (w'.endTransaction n, .ok (), []) := by
      simp only [perform, rollback, hsame ▸ h]
      rfl
    exact .of_part rfl (fun x hx => mem_writes_runner rfl hx) hp hp' fun x hx =>
      look_endTransaction (ht.locksOnly ho htx) (fun y hy => same_owned hs hy) hx

theorem agree_txSagaFindOne {n : ℕ} (ho : w.Owner i n) (hy : w.SagaKeyed y k) (ht : w.TxOf i k)
    (hs : worldCells.SameOn (w.footprint k (.txSagaFindOne n y) c).reads w w') :
    Agree (w.footprint k (.txSagaFindOne n y) c) i (.txSagaFindOne n y) c w w' := by
  have htx : w.look (.transaction n) = w'.look (.transaction n) := same_used hs ⟨n, rfl, rfl⟩
  have hsagas : w.look (.sagas k) = w'.look (.sagas k) := same_owned hs rfl
  have hsame := transaction_congr htx
  have hlock := lockedBy_congr (same_owned hs (x := .rowLock y) hy) (some n)
  cases h : w.transaction n with
  | none =>
    exact .unchanged hs (by simp only [perform, txFindSaga, h]; rfl)
      (by simp only [perform, txFindSaga, hsame ▸ h]; rfl)
  | some t =>
    obtain ⟨hmem, rfl⟩ := mem_of_transaction h
    -- both worlds have the same locks on the row, so both wait or neither does
    cases hl : w.lockedBy (some t.runner) y with
    | true =>
      exact Or.inl ⟨by simp [perform, txFindSaga, h, hl],
        by simp [perform, txFindSaga, hsame ▸ h, hlock ▸ hl]⟩
    | false =>
      -- the row is found among those under the key
      have hfind : w.sagas.find? (fun s => decide (s.id = y)) =
          w'.sagas.find? fun s => decide (s.id = y) := by
        have hslice : ∀ {w : World}, w.SagaKeyed y k → w.sagas.find? (fun s => decide (s.id = y)) =
            (w.sagas.slice (fun s => s.correlationId) k).find? fun s => decide (s.id = y) :=
          fun hy => Table.find?_slice fun s hs hid => hy.unique hs (by simpa using hid)
        rw [hslice hy, hslice (hy.congr hsagas)]
        exact congrArg (List.find? _) hsagas
      cases hf : w.sagas.find? fun s => decide (s.id = y) with
      | none =>
        exact .unchanged hs (by simp only [perform, txFindSaga, h, hl, hf]; rfl)
          (by simp only [perform, txFindSaga, hsame ▸ h, hlock ▸ hl, hfind ▸ hf]; rfl)
      | some s =>
        have hp : w.perform i c (.txSagaFindOne t.runner y) =
            some (w.setTransaction { t with locks := y :: t.locks }, .ok (some s), []) := by
          simp [perform, txFindSaga, h, hl, hf]
          rfl
        have hp' : w'.perform i c (.txSagaFindOne t.runner y) =
            some (w'.setTransaction { t with locks := y :: t.locks }, .ok (some s), []) := by
          simp [perform, txFindSaga, hsame ▸ h, hlock ▸ hl, hfind ▸ hf]
          rfl
        refine .of_part rfl (fun x hx => mem_writes_runner rfl hx) hp hp' fun x hx =>
          look_setTransaction (t := { t with locks := y :: t.locks }) (fun z hz => ?_)
            (ht.locksOnly ho htx) (fun y hy => same_owned hs hy) hx
        rcases List.mem_cons.mp hz with rfl | hz
        · exact hy
        · exact (ht t hmem ho).1 z hz

theorem agree_txSagaSave {n : ℕ} {s : SagaInstance} (h : w.About i k (.txSagaSave n s))
    (ht : w.TxOf i k) (hs : worldCells.SameOn (w.footprint k (.txSagaSave n s) c).reads w w') :
    Agree (w.footprint k (.txSagaSave n s) c) i (.txSagaSave n s) c w w' := by
  obtain ⟨ho, hk, hy⟩ := h
  have htx : w.look (.transaction n) = w'.look (.transaction n) := same_used hs ⟨n, rfl, rfl⟩
  have hsame := transaction_congr htx
  have hlock := lockedBy_congr (same_owned hs (x := .rowLock s.id) hy) (some n)
  -- both worlds hold the same transaction under `n`
  cases h : w.transaction n with
  | none =>
    exact .unchanged hs (by simp only [perform, txSaveSaga, h]; rfl)
      (by simp only [perform, txSaveSaga, hsame ▸ h]; rfl)
  | some t =>
    obtain ⟨hmem, rfl⟩ := mem_of_transaction h
    -- a row locked by another transaction blocks the call in both worlds
    cases hl : w.lockedBy (some t.runner) s.id with
    | true =>
      exact Or.inl ⟨by simp [perform, txSaveSaga, h, hl],
        by simp [perform, txSaveSaga, hsame ▸ h, hlock ▸ hl]⟩
    | false =>
      have hp : w.perform i c (.txSagaSave t.runner s) = some (w.setTransaction
          { t with locks := s.id :: t.locks, writes := t.writes ++ [s] }, .ok (), []) := by
        simp [perform, txSaveSaga, h, hl]
        rfl
      have hp' : w'.perform i c (.txSagaSave t.runner s) = some (w'.setTransaction
          { t with locks := s.id :: t.locks, writes := t.writes ++ [s] }, .ok (), []) := by
        simp [perform, txSaveSaga, hsame ▸ h, hlock ▸ hl]
        rfl
      -- the lock and the write are added alike
      refine .of_part rfl (fun x hx => mem_writes_runner rfl hx) hp hp' fun x hx =>
        look_setTransaction (t := { t with locks := s.id :: t.locks, writes := t.writes ++ [s] })
          (fun z hz => ?_) (ht.locksOnly ho htx) (fun y hy => same_owned hs hy) hx
      rcases List.mem_cons.mp hz with rfl | hz
      · exact hy
      · exact (ht t hmem ho).1 z hz

theorem agree_commitTransaction {n : ℕ} (ho : w.Owner i n) (ht : w.TxOf i k)
    (hs : worldCells.SameOn (w.footprint k (.commitTransaction n) c).reads w w') :
    Agree (w.footprint k (.commitTransaction n) c) i (.commitTransaction n) c w w' := by
  have htx : w.look (.transaction n) = w'.look (.transaction n) := same_used hs ⟨n, rfl, rfl⟩
  have hsagas : w.look (.sagas k) = w'.look (.sagas k) := same_owned hs rfl
  have hsame := transaction_congr htx
  cases h : w.transaction n with
  | none =>
    exact .unchanged hs (by simp only [perform, commit, h]; rfl)
      (by simp only [perform, commit, hsame ▸ h])
  | some t =>
    obtain ⟨hmem, rfl⟩ := mem_of_transaction h
    have hp : w.perform i c (.commitTransaction t.runner) =
        some (t.writes.foldl putSaga (w.endTransaction t.runner), .ok (), []) := by
      simp only [perform, commit, h]
      rfl
    have hp' : w'.perform i c (.commitTransaction t.runner) =
        some (t.writes.foldl putSaga (w'.endTransaction t.runner), .ok (), []) := by
      simp only [perform, commit, hsame ▸ h]
      rfl
    -- all rows that are written are about the order
    have hwrites : ∀ s ∈ t.writes, s.correlationId = k ∧
        (w.endTransaction t.runner).SagaKeyed s.id k ∧
          (w'.endTransaction t.runner).SagaKeyed s.id k := by
      intro s hsw
      obtain ⟨hk, hy⟩ := (ht t hmem ho).2 s hsw
      exact ⟨hk, hy, hy.congr hsagas⟩
    obtain ⟨u, hu⟩ := putSagas_only (w.endTransaction t.runner) t.writes
    obtain ⟨u', hu'⟩ := putSagas_only (w'.endTransaction t.runner) t.writes
    refine Or.inr ⟨_, _, _, _, hp, hp', ?_⟩
    rintro x ⟨P, hP, hmem'⟩
    simp only [Op.writes, List.mem_cons, List.not_mem_nil, or_false] at hmem'
    rcases hmem' with rfl | rfl
    · -- the rows of the sagas
      have hW : x ∈ (w.footprint k (.commitTransaction t.runner) c).writes ↔ x = .sagas k := by
        rw [mem_writes]
        cases x <;> simp [Cell.part?] at hP <;> simp [Owned, Op.Uses, Op.runner?]
      have hclock : w.clock = w'.clock := same_clock hs
      have hclock : (w.endTransaction t.runner).clock = (w'.endTransaction t.runner).clock := hclock
      have hend : (w'.endTransaction t.runner).look x = w'.look x := by
        cases x <;> simp [Cell.part?] at hP <;> rfl
      obtain ⟨hsaved, hother⟩ := look_saveSagas t.writes hclock hsagas hwrites hP
      rw [hW]
      exact ⟨hsaved, fun hne => hend.symm.trans (hother hne)⟩
    · -- the transactions
      have hlook : (t.writes.foldl putSaga (w.endTransaction t.runner)).look x =
          (w.endTransaction t.runner).look x := by
        rw [hu]
        cases x <;> simp [Cell.part?] at hP <;> rfl
      have hlook' : (t.writes.foldl putSaga (w'.endTransaction t.runner)).look x =
          (w'.endTransaction t.runner).look x := by
        rw [hu']
        cases x <;> simp [Cell.part?] at hP <;> rfl
      rw [hlook, hlook', mem_writes_runner rfl hP]
      exact look_endTransaction (ht.locksOnly ho htx) (fun y hy => same_owned hs hy) hP

/-! The lock server. -/

theorem agree_callRedis {key : String} (token : String) (a : Lease.Call) (hkey : w.LockOf k key)
    (ho : o.writes = [.redis]) (hs : worldCells.SameOn (w.footprint k o c).reads w w')
    {r : Bool → Except Err (Op.Val o)}
    (hp : ∀ w : World, w.perform i c o =
      some ((w.callRedis key token a).1, r (w.callRedis key token a).2, [])) :
    Agree (w.footprint k o c) i o c w w' := by
  have hclock : w.clock = w'.clock := same_clock hs
  have hentry : w.look (.entry key) = w'.look (.entry key) := same_owned hs hkey
  obtain ⟨hr, hx⟩ := look_callRedis hclock hentry token a
  obtain ⟨-, hx'⟩ := look_callRedis hclock.symm hentry.symm token a
  refine Or.inr ⟨_, _, _, _, hp w, by rw [hr]; exact hp w', ?_⟩
  rintro x ⟨P, hP, hmem⟩
  rw [ho, List.mem_singleton] at hmem
  subst hmem
  by_cases hxk : x = .entry key
  · exact ⟨fun _ => (hx x hP).1 hxk, fun hw => absurd (Or.inl (hxk ▸ hkey)) hw⟩
  · -- the entry of another lock
    refine ⟨fun hw => ?_, fun _ => (hx x hP).2 hxk⟩
    have hsame : w.look x = w'.look x := hs x (Or.inr hw)
    exact ((hx' x hP).2 hxk).symm.trans (hsame.trans ((hx x hP).2 hxk))

theorem agree_connect (hs : worldCells.SameOn (w.footprint k .connect c).reads w w') :
    Agree (w.footprint k .connect c) i .connect c w w' := by
  have hrunners : w.runners = w'.runners := same_used hs (x := .runners) rfl
  have hW : ∀ x : Cell, x.part? = some .runners →
      (x ∈ (w.footprint k .connect c).writes ↔ x = .runners) := by
    intro x hx
    rw [mem_writes]
    cases x <;> simp [Cell.part?] at hx
    simp [Owned, Op.Uses]
  have hp : w'.perform i c .connect =
      some ({ w' with runners := w'.runners ++ [i] }, .ok w.runners.length, []) := by
    rw [hrunners]
    rfl
  refine .of_part rfl hW rfl hp fun x hx => ?_
  cases x <;> simp [Cell.part?] at hx
  exact ⟨fun _ => congrArg (fun l : List ℕ => l ++ [i]) hrunners, fun hne => absurd rfl hne⟩

/-- **An operation about an order stays with what belongs to it.** -/
theorem confined_of_about (h : w.About i k o) (ht : w.TxOf i k) :
    worldCells.Confined (w.footprint k o c) w i o c := by
  refine confined_of_agree fun w' hs => ?_
  cases o with
  | orderFindOne q => exact agree_orderFindOne h hs
  | orderFind q => exact h.elim
  | orderInsert n => exact agree_orderInsert h hs
  | orderSave y => exact agree_orderSave h hs
  | paymentFindOne q => exact h.elim
  | paymentInsert n => exact agree_paymentInsert h hs
  | paymentSave y => exact agree_paymentSave h hs
  | sagaFindOne q => exact agree_sagaFindOne h hs
  | sagaInsert n => exact agree_sagaInsert h hs
  | sagaSave y => exact agree_sagaSave h hs
  | connect => exact agree_connect hs
  | startTransaction n => exact agree_startTransaction h ht hs
  | txSagaFindOne n y => exact agree_txSagaFindOne h.1 h.2 ht hs
  | txSagaSave n s => exact agree_txSagaSave h ht hs
  | commitTransaction n => exact agree_commitTransaction h ht hs
  | rollbackTransaction n => exact agree_rollbackTransaction h ht hs
  | release n => exact agree_release h ht hs
  | redisSet key token ttl =>
    by_cases hz : ttl = 0
    · -- SET with no lifetime is refused
      exact .unchanged hs (if_pos hz) (if_pos hz)
    · exact agree_callRedis token (.set ttl) (r := .ok) h rfl hs fun w => if_neg hz
  | redisUnlock key token => exact agree_callRedis token .unlock (r := .ok) h rfl hs fun w => rfl
  | redisRenew key token ttl =>
    by_cases hz : ttl = 0
    · -- PEXPIRE with no lifetime deletes the key
      exact agree_callRedis token .unlock (r := .ok) h rfl hs fun w => if_pos hz
    · exact agree_callRedis token (.renew ttl) (r := .ok) h rfl hs fun w => if_neg hz
  | redisExists key => exact agree_redisExists h hs
  | eventStoreSave e | generateToken | kafkaSend t k m | publishAll es | setImmediate t | sleep ms
  | random | uuidv4 | log l =>
    refine .quiet rfl rfl ?_
    rintro x ⟨P, hP, hmem⟩
    cases x <;> simp only [Cell.part?, Option.mem_def, Option.some.injEq, reduceCtorEq] at hP <;>
      subst hP <;> simp [Op.writes] at hmem

/-! ### Different orders -/

/-- A step's lock tells the saga and the step. -/
theorem stepLock_inj {y y' s s' : String} (hs : s ∈ sagaSteps) (hs' : s' ∈ sagaSteps)
    (h : "lock:" ++ stepLock y s = "lock:" ++ stepLock y' s') : y = y' := by
  have hlen : ∀ s ∈ sagaSteps, s.toList.length = 18 := by decide
  have h' := congrArg String.toList h
  simp only [stepLock, String.toList_append, List.append_assoc, List.append_cancel_left_eq] at h'
  have happ := List.append_inj_left' h' (by simp [hlen s hs, hlen s' hs'])
  exact String.toList_inj.mp happ

/-- A lock is taken for one order. -/
theorem LockOf.key_unique {k' key : String} (h : w.LockOf k key)
    (h' : w.LockOf k' key) : k = k' := by
  rcases h with rfl | ⟨y, s, hy, hs, rfl⟩
  · rcases h' with h' | ⟨y', s', -, -, h'⟩
    · exact startLock_inj h'
    · exact absurd h'.symm (stepLock_ne_startLock y' s' k)
  · rcases h' with h' | ⟨y', s', hy', hs', h'⟩
    · exact absurd h' (stepLock_ne_startLock y s k')
    · obtain rfl := stepLock_inj hs hs' h'
      exact hy.key_unique hy'

/-- A cell belongs to one order. -/
theorem Owned.key_unique {k' : String} {x : Cell} (h : w.Owned k x)
    (h' : w.Owned k' x) : k = k' := by
  cases x with
  | orders key => exact Option.some.inj ((h : key = some k).symm.trans h')
  | payments x => exact Keyed.key_unique h h'
  | sagas c => exact (h : c = k).symm.trans h'
  | rowLock y => exact SagaKeyed.key_unique h h'
  | entry key => exact LockOf.key_unique h h'
  | _ => exact h.elim

/-- What an operation uses of its own belongs to no order. -/
theorem Owned.not_used {x : Cell} (h : w.Owned k x) : ¬o.Uses c x := by
  intro hu
  cases o <;> simp only [Op.Uses] at hu <;>
    first
    | (subst hu; exact h)
    | (obtain ⟨n, -, rfl⟩ := hu; exact h)

theorem clock_not_written (w : World) (k : String) (o : Op) (c : Choice) :
    Cell.clock ∉ (w.footprint k o c).writes := by
  rintro (h | h)
  · exact h
  · cases o <;> simp [Op.Uses] at h

theorem reads_disjoint {k' : String} {o' : Op} {c' : Choice} (hk : k ≠ k')
    (hu : ∀ x, o.Uses c x → ¬o'.Uses c' x) :
    Disjoint (w.footprint k o c).reads (w.footprint k' o' c').writes := by
  rw [Set.disjoint_left]
  rintro x (rfl | hx | hx) hx'
  · exact clock_not_written w k' o' c' hx'
  · rcases hx' with hx' | hx'
    · exact hk (hx.key_unique hx')
    · exact hx.not_used hx'
  · rcases hx' with hx' | hx'
    · exact hx'.not_used hx
    · exact hu x hx hx'

/-- **What belongs to orders under different keys is apart.** -/
theorem footprints_apart {k' : String} {o' : Op} {c' : Choice} (hk : k ≠ k')
    (hu : ∀ x, o.Uses c x → ¬o'.Uses c' x) :
    (w.footprint k o c).Apart (w.footprint k' o' c') :=
  ⟨reads_disjoint hk hu, reads_disjoint (Ne.symm hk) fun x hx hx' => hu x hx' hx⟩

end World

end CqrsSaga
