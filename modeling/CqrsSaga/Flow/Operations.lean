import CqrsSaga.Flow.Writes
import CqrsSaga.Lock.Service

/-!
# The operations of the flow of orders

One triple for each operation, or for each kind of operation where nobody minds them.

## Main definitions

* `Op.Quiet` — the operations nobody minds.

## Main results

* `Flow.quiet_triple`, `Flow.read_triple` — operations nobody minds, and queries.
* `Flow.hand_triple` — work is handed over, and a duty with it.
* `Flow.withLock_triple` — locks do not matter, except for what is known when one is taken.
-/

namespace CqrsSaga

open RedisLockService

/-- Nobody minds the operation. -/
def Op.Quiet (o : Op) : Prop :=
  (∀ part ∈ o.writes, part = .redis ∨ part = .tokens ∨ part = .log) ∧ o.starts = false

namespace Flow

variable {R : Regime} {w w' : World} {g : Duties} {i : ℕ} {F G : World → Duties → Prop} {o : Op}

/-- No order is saved that was not read: none is saved at all. -/
theorem saves_none (ho : .orders ∉ o.writes) : ∀ y ∈ o.savedOrder?, Loaded y w := by
  intro y hy
  rw [Op.savedOrder?_eq_none ho] at hy
  simp at hy

/-! ### Operations nobody minds -/

theorem Quiet.orders (ho : o.Quiet) : .orders ∉ o.writes := by
  intro h
  rcases ho.1 _ h with h | h | h <;> simp at h

theorem same_of_quiet {c : Choice} {r : Except Err (Op.Val o)} {ts : List Task} (ho : o.Quiet)
    (h : w.exec i o c = some (w', r, ts)) : w.Same w' := by
  have hframe := World.exec_frame h
  have hnot : ∀ part, part ∈ o.writes → part ≠ .orders ∧ part ≠ .payments ∧ part ≠ .sagas ∧
      part ≠ .eventStore ∧ part ≠ .transactions ∧ part ≠ .published ∧ part ≠ .runners := by
    intro part hp
    rcases ho.1 part hp with rfl | rfl | rfl <;> simp
  refine ⟨hframe.orders fun h => (hnot _ h).1 rfl, hframe.payments fun h => (hnot _ h).2.1 rfl,
    hframe.sagas fun h => (hnot _ h).2.2.1 rfl, hframe.eventStore fun h => (hnot _ h).2.2.2.1 rfl,
    hframe.transactions fun h => (hnot _ h).2.2.2.2.1 rfl,
    hframe.published fun h => (hnot _ h).2.2.2.2.2.1 rfl, ?_⟩
  rw [hframe.runners fun h => (hnot _ h).2.2.2.2.2.2 rfl]

variable [Hashes]

theorem quiet_atomic {Φ : (flow R).Assn (Op.Val o)} (ho : o.Quiet) (hI : Inv R w g)
    (h : ∀ c w' r ts, (flow R).CanRun w g i o c → w.exec i o c = some (w', r, ts) →
      Inv R w' g → Grows R w g w' g → Leaves R i w g w' g → Φ r w' g) :
    (flow R).atomic i o Φ w g := by
  refine ⟨saves_none (Quiet.orders ho), fun c w' r ts hc he l _ hf => ?_⟩
  have hts := World.exec_tasks he ho.2
  refine Protocol.Settles.unseen (by simp [hts]) hI (unseen_of_same (same_of_quiet ho he)) hf ?_
  exact fun hI' hm hk => h c w' r ts hc he hI' hm (hk i)

/-- An operation nobody minds. -/
theorem quiet_triple (hF : (flow R).Stable i F) (ho : o.Quiet) :
    (flow R).Triple i F (Async.perform (S := App) o) fun _ => F :=
  .perform hF (fun _ => hF) fun _ _ hI hw =>
    quiet_atomic ho hI fun _ _ _ _ _ _ hI' hm hk => hF hm hk hI' hw

/-- A call that stays in the process returns. -/
theorem local_triple (hF : (flow R).Stable i F) (ho : o.Quiet) (hl : o.isLocal = true) :
    (flow R).Triple i F (Async.perform (S := App) o) (Returns (P := flow R) F) := by
  refine .perform hF (returns_stable hF) fun w g hI hw => ?_
  refine quiet_atomic ho hI fun c w' r ts _ he hI' hm hk => ⟨?_, hF hm hk hI' hw⟩
  exact (World.exec_local he hl).2

/-- A program that awaits no other operations. -/
theorem quiet_program {α : Type} {p : Async App α} (hF : (flow R).Stable i F)
    (hp : p.Only Op.Quiet) : (flow R).Triple i F p fun _ => F := by
  intro w g _ hw
  exact Protocol.wp_of_only hF (fun _ _ _ ho hI hw => quiet_atomic ho hI
    fun _ _ _ _ _ _ hI' hm hk => hF hm hk hI' hw) hp hw

/-- A query. -/
theorem read_triple {V : Op.Val o → World → Duties → Prop} (value : World → Op.Val o)
    (hF : (flow R).Stable i F) (hV : ∀ v, (flow R).Stable i (V v)) (ho : o.Quiet)
    (hr : o.isRedis = false)
    (hperf : ∀ (w : World) c, w.perform i c o = some (w, .ok (value w), []))
    (h : ∀ w g c, Inv R w g → F w g → (flow R).CanRun w g i o c → V (value w) w g) :
    (flow R).Triple i F (Async.perform (S := App) o) fun r w g =>
      F w g ∧ ∀ v, r = .ok v → V v w g := by
  refine .perform hF (fun r => hF.and (.all fun v => .imp fun _ => hV v)) fun w g hI hw => ?_
  refine quiet_atomic ho hI fun c w' r ts hc he hI' hm hk => ⟨hF hm hk hI' hw, fun v hv => ?_⟩
  rcases World.exec_cases he with ⟨-, hp⟩ | ⟨m, -, -, hr', -⟩ | ⟨m, v', -, hr', -⟩
  · rw [hperf] at hp
    simp only [Option.some.injEq, Prod.mk.injEq] at hp
    obtain ⟨rfl, rfl, -⟩ := hp
    rw [← Except.ok.inj hv]
    exact h w g c hI hw hc
  · rw [hr'] at hv
    simp at hv
  · rw [hr] at hr'
    simp at hr'

/-! ### Work is handed over -/

/-- What the work `n` is to start as needs: the duties as they are, or one of them passed on. -/
theorem hand_triple {task : Task} (hF : (flow R).Stable i F) (hG : (flow R).Stable i G)
    (h : ∀ w g n, Inv R w g → F w g → i < n → ∃ g', Inv R w g' ∧ Grows R w g w g' ∧
      (∀ j, j < n → j ≠ i → Leaves R j w g w g') ∧
      (∀ d x j, g' d x = some j → g d x = some j ∨ j = n) ∧ TaskBorn R n w g' task ∧ G w g') :
    (flow R).Triple i F (setImmediate task) (Returns (P := flow R) G) := by
  refine .perform hF (returns_stable hG) fun w g hI hw =>
    ⟨saves_none (by simp [Op.writes]), fun c w' r ts _ he l hi hf => ?_⟩
  obtain ⟨hp, -⟩ := World.exec_local he rfl
  simp only [World.perform, Option.some.injEq, Prod.mk.injEq] at hp
  obtain ⟨rfl, rfl, rfl⟩ := hp
  obtain ⟨g', hI', hm, hk, hg, hborn, hG'⟩ := h w g l.length hI hw hi
  refine ⟨g', hI', hm, hk, fun d x j hj => ?_, fun k t ht => ?_, ⟨(), rfl⟩, hG'⟩
  · rw [List.length_append]
    rcases hg d x j hj with hj | rfl
    · have := hf d x j hj
      omega
    · simp
  · cases k with
    | zero =>
      obtain rfl : Job.task task = t := by simpa using ht
      exact hborn
    | succ k => simp at ht

/-- Work with which no duty goes. -/
theorem handPlain_triple {task : Task} (hF : (flow R).Stable i F)
    (ht : ∀ n w g, F w g → TaskBorn R n w g task) :
    (flow R).Triple i F (setImmediate task) (Returns (P := flow R) F) :=
  hand_triple hF hF fun w g n hI hw _ => ⟨g, hI, (flow R).mono_refl w g,
    fun j _ _ => (flow R).keep_refl j w g, fun _ _ _ hj => Or.inl hj, ht n w g hw, hw⟩

/-- Work with which a duty goes. -/
theorem handDuty_triple {task : Task} (hF : (flow R).Stable i F) (hG : (flow R).Stable i G)
    (d : Duty) (x : String) (hd : ∀ w g, F w g → g d x = some i)
    (ht : ∀ n w g, Inv R w g → F w g → TaskBorn R n w (g.pass d x (some n)) task)
    (hFG : ∀ n w g, F w g → G w (g.pass d x (some n))) :
    (flow R).Triple i F (setImmediate task) (Returns (P := flow R) G) := by
  refine hand_triple hF hG fun w g n hI hw _ => ⟨g.pass d x (some n), hI.pass (hd w g hw) _,
    .pass (hd w g hw) _, fun j hn hj => .pass (hd w g hw) hj ?_, fun d' x' j hj => ?_,
    ht n w g hI hw, hFG n w g hw⟩
  · rw [ne_eq, Option.some.injEq]
    omega
  · rcases pass_cases hj with h | h
    · exact Or.inr (Option.some.inj h).symm
    · exact Or.inl h

/-! ### Locks -/

/-- A section under a lock; `G` is what is known once its entry has been tried for. -/
theorem withLock_triple {α : Type} {key : String} {fn : Async App α} {options : LockOptions}
    {Q : (flow R).Assn α} (hF : (flow R).Stable i F) (hG : (flow R).Stable i G)
    (hQ : ∀ r, (flow R).Stable i (Q r))
    (hset : ∀ w g tok c, Inv R w g → F w g →
      (flow R).CanRun w g i (.redisSet ("lock:" ++ key) tok options.ttl) c → G w g)
    (hfn : (flow R).Triple i G fn Q) (hN : ∀ e w g, F w g → Q (.error e) w g) :
    (flow R).Triple i F (withLock key fn options) Q := by
  have htaking : Taking (flow R) i ("lock:" ++ key) options F (fun _ => F) (fun _ => G) F := by
    refine ⟨fun _ => hF, fun _ => hG, hF, ?_, fun tok => ?_, fun tok => ?_, fun tok => ?_⟩
    · exact (local_triple hF ⟨by simp [Op.writes], rfl⟩ rfl).post
        fun r w g _ ⟨⟨tok, hr⟩, hw⟩ => ⟨tok, hr, hw⟩
    · refine .perform hF (attempted_stable hF hG) fun w g hI hw => ?_
      refine quiet_atomic ⟨by simp [Op.writes], rfl⟩ hI fun c w' r ts hc he hI' hm hk => ?_
      by_cases hr : r = .ok true
      · exact Or.inl ⟨hr, hG hm hk hI' (hset w g tok c hI hw hc)⟩
      · exact Or.inr ⟨hr, hF hm hk hI' hw⟩
    · exact local_triple hF ⟨by simp [Op.writes], rfl⟩ rfl
    · exact local_triple hF ⟨by simp [Op.writes], rfl⟩ rfl
  exact RedisLockService.withLock_triple htaking hQ (fun _ => hfn)
    (fun tok r => quiet_triple (hQ r) ⟨by simp [Op.writes], rfl⟩) fun e w g _ hw => hN e w g hw

/-! ### Orders and payments -/

/-- What comes of an operation that is performed or refused. -/
theorem write_atomic {Φ : (flow R).Assn (Op.Val o)} (hr : o.isRedis = false)
    (hs : o.starts = false) (hy : ∀ y ∈ o.savedOrder?, Loaded y w) (hI : Inv R w g)
    (hfail : ∀ m, Φ (.error (.injected m)) w g)
    (h : ∀ c w' r ts, (flow R).CanRun w g i o c → w.exec i o c = some (w', r, ts) →
      w.perform i c o = some (w', r, ts) → ∃ g', (flow R).Respects i w g w' g' ∧ Φ r w' g') :
    (flow R).atomic i o Φ w g := by
  refine ⟨hy, fun c w' r ts hc he l hi hf => ?_⟩
  have hts := World.exec_tasks he hs
  rcases World.exec_cases he with ⟨-, hp⟩ | ⟨m, -, rfl, rfl, -⟩ | ⟨m, v, -, hr', -⟩
  · obtain ⟨g', hresp, hΦ⟩ := h c w' r ts hc he hp
    exact hresp.settles (by simp [hts]) hi hf hΦ
  · exact (Protocol.Respects.refl hI).settles (by simp [hts]) hi hf (hfail _)
  · rw [hr] at hr'
    simp at hr'

theorem driving_stable (e : OrderCreatedEvent) : (flow R).Stable i (Driving R i e) :=
  fun _ _ _ _ hm hk _ h => ⟨h.event.later hm, (hk.duties _ _).mp h.duty, hk.charge _ h.duty h.unpaid⟩

theorem orderInsert_triple {n : NewOrder} {k : String} (hk : n.idempotencyKey = some k)
    (hne : k ≠ "") (hst : n.status = .pending) (hplaced : R.placed k n.items) :
    (flow R).Triple i (fun _ _ => True) (orderRepository.insert n) fun r w g =>
      (∀ o, r = .ok o → Driving R i (CreateOrderHandler.createdEvent o n.idempotencyKey) w g) ∧
        ∀ x k', r ≠ .error (.duplicateOrder x k') := by
  refine .perform (.const _) (fun r => (Protocol.Stable.all fun o => .imp fun _ =>
    driving_stable _).and (.const _)) fun w g hI _ => write_atomic rfl rfl (fun _ h => nomatch h) hI
      (fun m => ⟨fun o h => by simp at h, fun x k' h => nomatch Except.error.inj h⟩)
      fun c w' r ts hc _ hp => ?_
  obtain ⟨hins, -⟩ := World.perform_orderInsert hp
  obtain ⟨t, ht⟩ := World.insertOrder_only hins
  rcases World.insertOrder_cases hins with ⟨rfl, hv⟩ | ⟨rfl, key, -, hv, -⟩ |
    ⟨amount, hamount, hv, hfresh, -, hmem⟩
  · exact ⟨g, .refl hI, fun o h => by simp [hv] at h, fun x k' h => by simp [hv] at h⟩
  · exact ⟨g, .refl hI, fun o h => by simp [hv] at h, fun x k' h => by simp [hv] at h⟩
  · rw [ht] at hmem
    refine ⟨_, respects_insertOrder (o := w.newOrderRow c.text n amount) hI ht hmem hfresh
      ⟨k, hk, hne⟩ (decimal102_stored hamount) hst hc.2.1 (fun k' hk' => ?_), fun o ho => ?_,
      fun x k' h => by simp [hv] at h⟩
    · obtain rfl : k = k' := Option.some.inj (hk.symm.trans hk')
      exact hplaced
    obtain rfl := Except.ok.inj (hv.symm.trans ho)
    have hrow : w.newOrderRow c.text n amount ∈ w'.orders := by
      rw [ht]
      exact (hmem _).mpr (Or.inl rfl)
    refine ⟨⟨⟨_, hrow, rfl, rfl, hamount, rfl⟩, fun _ => ⟨k, hk, Or.inl ⟨_, hrow, rfl, hk⟩⟩⟩,
      Duties.pass_self .., fun p hp hpx => ?_⟩
    · -- a payment belongs to an order that was stored before
      rw [ht] at hp
      obtain ⟨y, hy, hid, -⟩ := hI.payments p hp
      exact hfresh y hy (hid.trans hpx)

theorem loaded_lasting (y : Order) : (flow R).Lasting fun w _ => Loaded y w := by
  rintro w g w' g' hm - ⟨o, ho, hc⟩
  obtain ⟨o', ho', hc'⟩ := hm.orders o ho
  exact ⟨o', ho', hc'.trans hc⟩

theorem outcome_lasting {x : String} {status : PaymentStatus}
    (hs : status = .completed ∨ status = .failed) :
    (flow R).Lasting fun w _ => w.Outcome x status :=
  fun _ _ _ _ hm _ h => hm.outcome hs h

/-- The assertion is kept by writes that leave the sagas alone, and all duties. -/
def Aside (R : Regime) (F : World → Duties → Prop) : Prop :=
  ∀ ⦃w w' g⦄, Grows R w g w' g → Inv R w' g → w'.sagas = w.sagas → F w g → F w' g

theorem decided_lasting (x : String) : (flow R).Lasting fun w _ => w.Decided x :=
  fun _ _ _ _ hm _ h => hm.decided x h

theorem paidBy_lasting (x : String) (paymentId : Option String) :
    (flow R).Lasting fun w _ => w.PaidBy x paymentId :=
  fun _ _ _ _ hm _ h => hm.paidBy h

/-- The row may be written: a spared order is cancelled only once its payment has failed, and
one that is vouched for is paid under a completed payment of its own. -/
def Due (R : Regime) (y : Order) (w : World) : Prop :=
  (R.spared y.id → y.status = .cancelled → w.Outcome y.id .failed) ∧
    (R.vouched y.id → y.status = .paid → w.PaidBy y.id y.paymentId)

theorem due_lasting (y : Order) : (flow R).Lasting fun w _ => Due R y w :=
  fun _ _ _ _ hm _ h => ⟨fun hs hy => hm.outcome (Or.inr rfl) (h.1 hs hy),
    fun hv hy => hm.paidBy (h.2 hv hy)⟩

/-- An order is written that was read before. -/
theorem orderSave_triple {y : Order} (hst : y.status = .paid ∨ y.status = .cancelled)
    (hF : (flow R).Stable i F) (hside : Aside R F) :
    (flow R).Triple i (fun w g => F w g ∧ Loaded y w ∧ Due R y w)
      (orderRepository.save y) fun r w g => F w g ∧ (r = .ok () → w.Decided y.id ∧
        (R.undone → y.status = .cancelled → w.Cancelled y.id)) := by
  have hpre : (flow R).Stable i fun w g => F w g ∧ Loaded y w ∧ Due R y w :=
    hF.and ((loaded_lasting y).and (due_lasting y)).stable
  refine .perform hpre (fun r => hF.and (.imp fun _ => (decided_lasting _).stable.and
    (.imp fun hR => .imp fun _ => ?_))) fun w g hI hw => write_atomic rfl rfl
      (fun _ h => Option.some.inj h ▸ hw.2.1) hI (fun e => ⟨hw.1, fun h => by simp at h⟩)
      fun c w' r ts hc _ hp => ?_
  · exact fun _ _ _ _ hm _ _ h => hm.cancelled hR _ h
  · obtain ⟨hf, ⟨o, ho, hcore⟩, hspared, hpaid⟩ := hw
    obtain ⟨hsave, t, ht, hmem⟩ := World.saved_order ho hcore (hI.books.columns o ho).2
    simp only [World.perform, Option.some.injEq, Prod.mk.injEq] at hp
    obtain ⟨rfl, rfl, -⟩ := hp
    have hundone : R.undone → y.status = .cancelled ∨ ¬w.Cancelled y.id :=
      fun hR => (hc.1.2 hR).2 y rfl
    have hresp := respects_saveOrder (i := i) (y := { y with updatedAt := w.clock }) hI ht ho
      hcore.symm hmem hst hpaid hspared hundone
    refine ⟨g, hresp, hside hresp.mono hresp.inv (by rw [ht]) hf, fun _ => ?_⟩
    have hrow : { y with updatedAt := w.clock } ∈ (w.saveOrder y).1.orders := by
      rw [ht]
      exact (hmem _).mpr (Or.inl rfl)
    refine ⟨⟨_, hrow, rfl, ?_⟩, fun _ hy => ⟨_, hrow, rfl, hy⟩⟩
    rcases hst with h | h <;> simp [h]

theorem duty_stable (d : Duty) (x : String) : (flow R).Stable i fun _ g => g d x = some i :=
  fun _ _ _ _ _ hk _ h => (hk.duties d x).mp h

theorem settling_stable (p : Payment) : (flow R).Stable i (Settling i p) := by
  rintro w g w' g' hm hk - ⟨hd, q, hq, hid, ho, hu, ha⟩
  exact ⟨(hk.duties _ _).mp hd, q, hk.settle _ hd q hq ho, hid, ho, hu, ha⟩

/-- The payment of an order is requested. -/
theorem paymentInsert_triple {e : OrderCreatedEvent} {n : NewPayment} (ho : n.orderId = e.orderId)
    (hu : n.userId = e.userId) (ha : n.amount = e.totalAmount) (hst : n.status = .processing) :
    (flow R).Triple i (Driving R i e) (paymentRepository.insert n) fun r w g =>
      g .charge e.orderId = some i ∧ ∀ p, r = .ok p → p.toNewPayment = n ∧ Settling i p w g := by
  refine .perform (driving_stable e) (fun r => (duty_stable _ _).and
    (.all fun p => .imp fun _ => (Protocol.Stable.const _).and (settling_stable p)))
    fun w g hI hw => write_atomic rfl rfl (fun _ h => nomatch h) hI
      (fun e => ⟨hw.duty, fun p h => by simp at h⟩)
      fun c w' r ts hc _ hp => ?_
  obtain ⟨hins, -⟩ := World.perform_paymentInsert hp
  obtain ⟨t, ht⟩ := World.insertPayment_only hins
  rcases World.insertPayment_cases hins with ⟨rfl, hv⟩ | ⟨amount, hamount, hv, -, hmem⟩
  · exact ⟨g, .refl hI, hw.duty, fun p h => by simp [hv] at h⟩
  · rw [ht] at hmem
    obtain ⟨o, hoo, hid, hou, hoa, -⟩ := hw.event.stored
    have hamounts : o.totalAmount = amount := by
      rw [ha] at hamount
      exact Option.some.inj (hoa.symm.trans hamount)
    refine ⟨_, respects_insertPayment (p := World.newPaymentRow c.text n amount) hI ht hmem
      (ho ▸ hw.duty) (ho ▸ hw.unpaid) hst hoo (hid.trans ho.symm) (hou.trans hu.symm) hamounts
      hc.2.1, ?_, fun p hp => ?_⟩
    · exact (Duties.pass_of_ne _ (by simp)).trans hw.duty
    · obtain rfl := Except.ok.inj (hv.symm.trans hp)
      refine ⟨rfl, Duties.pass_self .., ?_⟩
      rw [ht]
      exact ⟨_, (hmem _).mpr (Or.inl rfl), rfl, rfl, rfl, hamount⟩

/-- The payment was settled as it stands. -/
def Settled (i : ℕ) (p : Payment) (w : World) (g : Duties) : Prop :=
  (∃ q ∈ w.payments, q.id = p.id ∧ q.orderId = p.orderId ∧ q.status = p.status) ∧
    (p.status = .completed → g .confirm p.orderId = some i)

theorem settled_stable {p : Payment} (hst : p.status = .completed ∨ p.status = .failed) :
    (flow R).Stable i (Settled i p) := by
  rintro w g w' g' hm hk - ⟨⟨q, hq, hid, ho, hs⟩, hd⟩
  obtain ⟨q', hq', hc, hs'⟩ := hm.payments q hq
  obtain ⟨hid', ho', -⟩ := Payment.core_eq.mp hc
  refine ⟨⟨q', hq', hid'.trans hid, ho'.trans ho, ?_⟩, fun h => (hk.duties _ _).mp (hd h)⟩
  rw [hs' (by rw [hs]; exact hst), hs]

/-- A payment is settled. -/
theorem paymentSave_triple {p : Payment} (hst : p.status = .completed ∨ p.status = .failed) :
    (flow R).Triple i (Settling i p) (paymentRepository.save p) fun r w g =>
      (r = .ok () ∧ Settled i p w g) ∨ (∃ e, r = .error e) ∧ Settling i p w g := by
  refine .perform (settling_stable p) (fun r => ?_) fun w g hI hw =>
    write_atomic rfl rfl (fun _ h => nomatch h) hI (fun m => Or.inr ⟨⟨_, rfl⟩, hw⟩)
    fun c w' r ts _ _ hp => ?_
  · rintro w g w' g' hm hk hI (⟨hr, h⟩ | ⟨hr, h⟩)
    · exact Or.inl ⟨hr, settled_stable hst hm hk hI h⟩
    · exact Or.inr ⟨hr, settling_stable p hm hk hI h⟩
  · obtain ⟨hd, q, hq, hid, ho, hu, ha⟩ := hw
    obtain ⟨hsave, t, ht, hmem⟩ := World.saved_payment ha
    simp only [World.perform, Option.some.injEq, Prod.mk.injEq] at hp
    obtain ⟨rfl, rfl, -⟩ := hp
    have hcore : Payment.core { p with amount := q.amount } = q.core :=
      Payment.core_eq.mpr ⟨hid.symm, ho.symm, hu.symm, rfl⟩
    refine ⟨_, respects_savePayment (p := { p with amount := q.amount }) hI ht hq hcore hmem hd hst,
      Or.inl ⟨hsave, ?_, fun hcomp => ?_⟩⟩
    · rw [ht]
      exact ⟨_, (hmem _).mpr (Or.inl rfl), rfl, rfl, rfl⟩
    · simp [settled, hcomp]

end Flow

end CqrsSaga
