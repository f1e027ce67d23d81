import CqrsSaga.Progress.Course

/-!
# What becomes of an order

The operations of the application, as far as the course of an order is concerned: those that touch
no row and take no lock, those by which the activity an order is with changes what is stored about
it, and those that hand it over.

## Main definitions

* `Op.Minor` — the operation concerns no order.
* `World.RowsKept` — no row is touched, and no lock is taken.

## Main results

* `Course.minor_triple`, `Course.query_triple` — what concerns no order, and queries.
* `Course.sagaSave_triple`, `orderSave_triple`, `paymentInsert_triple`, `sagaInsert_triple`,
  `setLock_triple` — the activity an order is with.
-/

namespace CqrsSaga

open SagaManager RedisLockService KafkaService OrderProcessingSaga

/-! ### Rows that are written -/

namespace World

variable {w w' : World} {x : String}

/-- A saga of the order `x` is written back. -/
theorem HasSaga.put {s y : SagaInstance} (h : w.HasSaga x (some s)) (hc : y.core = s.core) :
    (w.putSaga y).HasSaga x (some y) ∧ w.Elsewhere x (w.putSaga y) := by
  obtain ⟨hid, -, -, hdata⟩ := SagaInstance.core_eq.mp hc
  obtain ⟨t₀, hrow⟩ := h
  obtain ⟨-, hx⟩ := Table.mem_rowsWith.mp (hrow ▸ Set.mem_singleton { s with updatedAt := t₀ })
  have hdx : y.data.orderId = some x := hdata ▸ hx
  obtain ⟨t, ht⟩ := putSaga_only w y
  have hmem : ∀ z, z ∈ t ↔ z = w.stamped y ∨ z ∈ w.sagas ∧ z.id ≠ (w.stamped y).id := by
    intro z
    have := mem_putSaga w y (y := z)
    rwa [ht] at this
  obtain ⟨hself, hother⟩ := Table.rowsWith_replace hmem hrow hid hdx
  rw [ht]
  refine ⟨⟨w.clock, hself⟩, ⟨fun _ _ => rfl, fun z hz => hother _ (by simpa using hz),
    fun _ _ => rfl, fun z hz hnone => ?_, fun o ho => ⟨o, ho, rfl⟩, fun z hz => ?_,
    fun key hu => Or.inl hu⟩⟩
  · rcases (hmem z).mp hz with rfl | ⟨hz, -⟩
    · exact absurd (hnone.symm.trans hdx) (by simp)
    · exact hz
  · by_cases hzy : z.id = y.id
    · exact ⟨w.stamped y, (hmem _).mpr (Or.inl rfl), hzy.symm⟩
    · exact ⟨z, (hmem z).mpr (Or.inr ⟨hz, hzy⟩), rfl⟩

/-- The saga of the order `x` is stored. -/
theorem HasSaga.insert {s : SagaInstance} {id : String} {n : NewSaga} (h : w.HasSaga x none)
    (hn : n.data.orderId = some x) (hins : w.insertSaga id n = some (w', s)) :
    w'.HasSaga x (some s) ∧ w.Elsewhere x w' := by
  obtain ⟨rfl, -, hmem⟩ := insertSaga_cases hins
  obtain ⟨t, rfl⟩ := insertSaga_only hins
  obtain ⟨hself, hother⟩ := Table.rowsWith_insert hmem h hn
  refine ⟨⟨w.clock, hself⟩, ⟨fun _ _ => rfl, fun z hz => hother _ (by simpa using hz),
    fun _ _ => rfl, fun z hz hnone => ?_, fun o ho => ⟨o, ho, rfl⟩,
    fun z hz => ⟨z, (hmem z).mpr (Or.inr hz), rfl⟩, fun key hu => Or.inl hu⟩⟩
  rcases (hmem z).mp hz with rfl | hz
  · exact absurd (hnone.symm.trans hn) (by simp)
  · exact hz

/-- The order `x` is written back. -/
theorem HasOrder.save {o y : Order} (h : w.HasOrder x o) (hc : y.core = o.core)
    (ha : decimal102 o.totalAmount = some o.totalAmount) :
    (w.saveOrder y).2 = .ok () ∧ (w.saveOrder y).1.HasOrder x y ∧
      w.Elsewhere x (w.saveOrder y).1 := by
  obtain ⟨t₀, hrow⟩ := h
  obtain ⟨ho, hx⟩ := Table.mem_rowsWith.mp (hrow ▸ Set.mem_singleton { o with updatedAt := t₀ })
  obtain ⟨hid, -, -, hkey, -⟩ := Order.core_eq.mp hc
  obtain ⟨hok, t, ht, hmem⟩ := saved_order (o := y) ho hc.symm ha
  have hyx : y.id = x := hid.trans hx
  obtain ⟨hself, hother⟩ := Table.rowsWith_replace (r := { y with updatedAt := w.clock })
    (f := fun o : Order => o.id) hmem hrow hid hyx
  rw [ht]
  refine ⟨hok, ⟨w.clock, hself⟩, ⟨hother, fun _ _ => rfl, fun _ _ => rfl, fun _ hz _ => hz,
    fun z hz => ?_, fun z hz => ⟨z, hz, rfl⟩, fun key hu => Or.inl hu⟩⟩
  by_cases hzy : z.id = y.id
  · obtain rfl := Table.eq_of_pk hz ho (hzy.trans hid)
    exact ⟨{ y with updatedAt := w.clock }, (hmem _).mpr (Or.inl rfl), hc⟩
  · exact ⟨z, (hmem z).mpr (Or.inr ⟨hz, hzy⟩), rfl⟩

/-- An order is stored. -/
theorem HasOrder.insert {id : String} {n : NewOrder} {r : Except Err Order} {o : Order}
    (h : w.orderRows id = ∅) (hins : w.insertOrder id n = some (w', r)) (hr : r = .ok o) :
    o = ⟨n, id, none, w.clock, w.clock⟩ ∧ (∃ amount, decimal102 n.totalAmount = some amount ∧
      w'.HasOrder id { o with totalAmount := amount }) ∧ w.Elsewhere id w' ∧
        ∀ k, n.idempotencyKey = some k → ∀ y, ¬w.Keyed y k := by
  subst hr
  rcases insertOrder_cases hins with ⟨-, hr⟩ | ⟨-, key, -, hr, -⟩ |
    ⟨amount, hd, hr, -, hnew, hmem⟩
  · simp at hr
  · simp at hr
  obtain ⟨t, rfl⟩ := insertOrder_only hins
  obtain ⟨hself, hother⟩ := Table.rowsWith_insert (f := fun o : Order => o.id) hmem h rfl
  refine ⟨Except.ok.inj hr, ⟨amount, hd, w.clock, ?_⟩, ⟨hother, fun _ _ => rfl, fun _ _ => rfl,
    fun _ hz _ => hz, fun z hz => ⟨z, (hmem z).mpr (Or.inr hz), rfl⟩, fun z hz => ⟨z, hz, rfl⟩,
    fun key hu => Or.inl hu⟩, fun k hk y hy => ?_⟩
  · rw [Except.ok.inj hr]
    exact hself
  · obtain ⟨z, hz, -, hzk⟩ := hy
    exact hnew k hk z hz hzk

/-- A payment of the order `x` is stored. -/
theorem HasPayment.insert {id : String} {n : NewPayment} {r : Except Err Payment} {p : Payment}
    (h : w.HasPayment x none) (hn : n.orderId = x) (hins : w.insertPayment id n = some (w', r))
    (hr : r = .ok p) : p = ⟨n, id, none, none⟩ ∧
      (∃ amount, w'.HasPayment x (some { p with amount })) ∧ w.Elsewhere x w' := by
  subst hr
  rcases insertPayment_cases hins with ⟨-, hr⟩ | ⟨amount, -, hr, -, hmem⟩
  · simp at hr
  obtain ⟨t, rfl⟩ := insertPayment_only hins
  obtain ⟨hself, hother⟩ := Table.rowsWith_insert (f := fun p : Payment => p.orderId) hmem h hn
  refine ⟨Except.ok.inj hr, ⟨amount, ?_⟩, ⟨fun _ _ => rfl, fun _ _ => rfl, hother,
    fun _ hz _ => hz, fun z hz => ⟨z, hz, rfl⟩, fun z hz => ⟨z, hz, rfl⟩, fun key hu => Or.inl hu⟩⟩
  rw [Except.ok.inj hr]
  exact hself

/-- A payment of the order `x` is written back. -/
theorem HasPayment.save {p q : Payment} (h : w.HasPayment x (some p)) (hid : q.id = p.id)
    (hq : q.orderId = x) {amount : ℚ} (ha : decimal102 q.amount = some amount) :
    (w.savePayment q).1.HasPayment x (some { q with amount }) ∧
      w.Elsewhere x (w.savePayment q).1 := by
  obtain ⟨-, t, ht, hmem⟩ := saved_payment (p := q) (w := w) ha
  obtain ⟨hself, hother⟩ := Table.rowsWith_replace (r := { q with amount })
    (f := fun p : Payment => p.orderId) hmem h hid hq
  rw [ht]
  exact ⟨hself, ⟨fun _ _ => rfl, fun _ _ => rfl, hother, fun _ hz _ => hz,
    fun z hz => ⟨z, hz, rfl⟩, fun z hz => ⟨z, hz, rfl⟩, fun key hu => Or.inl hu⟩⟩

end World

/-! ### Operations that concern no order -/

/-- The activity the task becomes is to do nothing about an order. -/
def Task.Minor : Task → Prop
  | .publishAll events => ∀ e ∈ events, e.Plain
  | .publishSagaEvent _ => True
  | .externalPayment _ _ => False
  | .deliver (.orderCreatedHandler _) => False
  | .deliver (.paymentProcessedSagaHandler _) => False
  | .deliver (.paymentFailedSagaHandler _) => False
  | .deliver _ => True

/-- The operation writes no order, saga or payment, takes no lock, and hands nothing over. -/
def Op.Minor : Op → Prop
  | .orderFindOne _ | .paymentFindOne _ | .sagaFindOne _ | .eventStoreSave _ | .generateToken
  | .redisUnlock _ _ | .kafkaSend _ _ _ | .sleep _ | .random | .uuidv4 | .log _ => True
  | .publishAll events => ∀ e ∈ events, e.Plain
  | .setImmediate task => task.Minor
  | _ => False

namespace World

/-- No order, payment or saga is written, and no lock is taken. -/
structure RowsKept (w w' : World) : Prop where
  orders : w'.orders = w.orders
  payments : w'.payments = w.payments
  sagas : w'.sagas = w.sagas
  locks : ∀ key, w.Unlocked key → w'.Unlocked key

variable {w w' : World} {i : ℕ} {o : Op} {c : Choice} {r : Except Err (Op.Val o)} {ts : List Task}

theorem RowsKept.elsewhere (h : w.RowsKept w') (x : String) : w.Elsewhere x w' where
  orders := fun y _ => orderRows_congr h.orders y
  sagas := fun y _ => sagaRows_congr h.sagas y
  payments := fun y _ => paymentRows_congr h.payments y
  named := fun _ hs _ => h.sagas ▸ hs
  core := fun o ho => ⟨o, h.orders ▸ ho, rfl⟩
  ids := fun s hs => ⟨s, h.sagas ▸ hs, rfl⟩
  locks := fun key hu => Or.inl (h.locks key hu)

theorem rowsKept_of_writes (he : w.exec i o c = some (w', r, ts)) (horders : .orders ∉ o.writes)
    (hpayments : .payments ∉ o.writes) (hsagas : .sagas ∉ o.writes)
    (ho : ∀ key tok ttl, o ≠ .redisSet key tok ttl) : w.RowsKept w' := by
  have hframe := exec_frame he
  exact ⟨hframe.orders horders, hframe.payments hpayments, hframe.sagas hsagas,
    fun key hu => hu.exec he (ho key)⟩

end World

namespace Op.Minor

variable {w w' : World} {i : ℕ} {o : Op} {c : Choice} {r : Except Err (Op.Val o)} {ts : List Task}

theorem rowsKept (ho : o.Minor) (he : w.exec i o c = some (w', r, ts)) : w.RowsKept w' := by
  refine World.rowsKept_of_writes he ?_ ?_ ?_ ?_ <;>
    cases o <;> simp [Op.Minor] at ho <;> simp [Op.writes]

theorem answers (ho : o.Minor) (hp : w.perform i c o = some (w', r, ts)) : ∃ v, r = .ok v := by
  cases o <;> simp only [Op.Minor] at ho <;>
    exact ⟨_, (congrArg (fun x => x.2.1) (Option.some.inj hp)).symm⟩

theorem tasks (ho : o.Minor) (he : w.exec i o c = some (w', r, ts)) : ∀ t ∈ ts, t.Minor := by
  refine World.exec_starts he ?_ ?_
  · rintro task rfl
    exact ho
  · rintro events rfl d hd
    have hplain := ho d.event hd
    cases d <;> simp [Delivery.event, Event.Plain] at hplain <;> exact trivial

end Op.Minor

namespace Course

variable [Hashes] {i n : ℕ} {x k : String} {st st' : Stage} {V V' : View} {K K' : List String}
  {w w' : World} {g : Stages} {l : List Job} {ts : List Task} {F : World → Stages → Prop} {o : Op}
  {s y : SagaInstance}

omit [Hashes] in
theorem taskBorn_of_minor {t : Task} (ht : t.Minor) (h : Free i w g) : TaskBorn i w g t := by
  cases t with
  | publishAll events => exact Or.inr ⟨ht, h⟩
  | publishSagaEvent m => exact h
  | externalPayment p c => exact ht.elim
  | deliver d => cases d <;> simp only [Task.Minor] at ht <;> exact h

/-- What touches no row concerns no agreement. -/
theorem unseen (h : w.RowsKept w') : courses.Unseen w w' := by
  intro g hI
  have horders := World.orderRows_congr h.orders
  have hsagas := World.sagaRows_congr h.sagas
  have hpayments := World.paymentRows_congr h.payments
  refine ⟨⟨fun y => ?_, ?_, fun p hp => ?_, fun k hk => ?_, fun id hid step hstep => ?_⟩,
    fun o ho => ⟨o, h.orders ▸ ho, rfl⟩, fun j => ⟨fun _ _ => rfl, fun _ _ => rfl, fun _ => Iff.rfl,
      fun y _ => horders y, fun y _ => hsagas y, fun _ _ key _ => h.locks key,
        fun y _ => hpayments y⟩⟩
  · exact (hI.rests y).congr (horders y) (hsagas y) (hpayments y) fun key _ => h.locks key
  · rw [h.sagas]
    exact hI.named
  · rw [horders]
    exact hI.payments p (h.payments ▸ hp)
  · refine h.locks _ (hI.starts k fun y hy => hk y ?_)
    unfold World.Keyed
    rw [h.orders]
    exact hy
  · exact h.locks _ (hI.steps id (fun s hs => hid s (h.sagas ▸ hs)) step hstep)

theorem minor_atomic (hF : courses.Stable i F) (ho : o.Minor) (hI : Inv w g) (hw : F w g) :
    courses.atomic i o (fun r w g => (∃ v, r = .ok v) ∧ F w g) w g := by
  refine ⟨trivial, fun c w' r ts hc he l hi hf => ?_⟩
  obtain ⟨hI', hm, hk⟩ := unseen (ho.rowsKept he) g hI
  refine ⟨g, hI', hm, fun j _ _ => hk j, Fits.longer hf _, fun n t hn => ?_,
    ho.answers (World.Unfailing.perform hc.1 he), hF hm (hk i) hI' hw⟩
  obtain ⟨task, htask, ht⟩ := List.mem_filterMap.mp (List.mem_of_getElem? hn)
  obtain rfl := Option.some.inj ht
  exact taskBorn_of_minor (ho.tasks he task htask) (Fits.free hf (Nat.le_add_right _ _))

/-- **What concerns no order keeps whatever others keep.** -/
theorem minor_triple (hF : courses.Stable i F) (ho : o.Minor) :
    courses.Triple i F (call o) (Protocol.Answers fun _ => F) := by
  refine .calls hF (fun _ => hF) fun (w : World) (g : Stages) hI hw =>
    Protocol.atomic_mono ?_ (minor_atomic hF ho hI hw)
  rintro r w g - ⟨⟨v, rfl⟩, hw⟩
  exact ⟨v, rfl, hw⟩

/-- A program of operations that concern no order. -/
theorem minor_keeps {α : Type} {p : Async App α} (hF : courses.Stable i F) (hp : p.Only Op.Minor) :
    courses.Triple i F p fun _ => F := by
  intro w g _ hw
  refine Protocol.wp_of_only hF (fun o w g ho hI hw => Protocol.atomic_mono ?_
    (minor_atomic hF ho hI hw)) hp hw
  exact fun _ _ _ _ h => h.2

/-- A query, of which something is known. -/
theorem query_triple {A : Op.Val o → Prop} (hF : courses.Stable i F)
    (hq : ∀ w g, Inv w g → F w g →
      ∃ v, (∀ i c, w.perform i c o = some (w, .ok v, [])) ∧ A v) :
    courses.Triple i F (call o) (Protocol.Answers fun v w g => A v ∧ F w g) := by
  refine .calls hF (fun _ => (Protocol.Stable.const _).and hF) fun (w : World) (g : Stages) hI hw =>
    ⟨trivial, fun c w' r ts hc he l hi hf => ?_⟩
  obtain ⟨v, hp, hv⟩ := hq w g hI hw
  have hperform := (hp i c).symm.trans (World.Unfailing.perform hc.1 he)
  simp only [Option.some.injEq, Prod.mk.injEq] at hperform
  obtain ⟨rfl, rfl, rfl⟩ := hperform
  exact .refl hI hf ⟨v, rfl, hv, hw⟩

/-! ### The activity an order is with -/

omit [Hashes] in
/-- What has to be known of an order that is with an activity. -/
theorem rests_of_course (hst : st.course = some i) (ho : w.HasOrder x V.order)
    (hs : w.HasSaga x V.saga)
    (hkey : ∀ s, V.saga = some s → V.order.idempotencyKey = some s.correlationId) :
    Rests x st w where
  unknown := by
    rintro rfl
    simp [Stage.course] at hst
  known := fun _ => by
    obtain ⟨t, ht⟩ := ho
    exact ht ▸ Set.singleton_nonempty _
  keyed := fun s hsx => by
    cases hV : V.saga with
    | none =>
      rw [hV] at hs
      exact ((hs : w.sagaRows x = ∅) ▸ hsx : s ∈ (∅ : Set SagaInstance)).elim
    | some s₀ =>
      rw [hV] at hs
      obtain ⟨t, ht⟩ := hs
      obtain ⟨t', ho⟩ := ho
      obtain rfl := Set.mem_singleton_iff.mp (ht ▸ hsx)
      exact World.keyed_iff.mpr ⟨{ V.order with updatedAt := t' }, ho ▸ Set.mem_singleton _,
        hkey s₀ hV⟩
  waiting := by
    rintro m rfl
    simp [Stage.course] at hst
  closed := by
    rintro rfl
    simp [Stage.course] at hst

/-- **The activity an order is with changes what is stored about it.** -/
theorem keeps_settles (V' : View) (K' : List String) (h : At i x st V K w g)
    (hst : st.course = some i) (hI : Inv w g)
    (hf : Fits g l) (he : w.Elsewhere x w') (ho : w'.HasOrder x V'.order)
    (hs : w'.HasSaga x V'.saga) (hp : st.payment = none → w'.HasPayment x V'.payment)
    (hpay : w'.paymentRows x = w.paymentRows x ∨ st.payment = none)
    (hkey : ∀ s, V'.saga = some s → V'.order.idempotencyKey = some s.correlationId)
    (hl : ∀ key ∈ K', V'.LockFor key ∧ w'.Unlocked key) :
    courses.Settles i l w g w' [] (At i x st V' K') := by
  have hself : Function.update g x st = g := by rw [← h.stage, Function.update_eq_self]
  have hat : At i x st V' K' w' (Function.update g x st) := by
    rw [hself]
    exact ⟨h.stage, h.alone, ho, hs, hp, hl⟩
  refine settles hI (h.stage.symm ▸ Stage.Moves.keep st) ?_ he (Or.inl ⟨?_, ?_⟩)
    (rests_of_course hst ho hs hkey) ?_ (fun n t hn => ?_) hat
  · rintro rfl
    simp [Stage.course] at hst
  · exact Or.inl (h.stage.symm ▸ hst)
  · rw [h.stage]
    exact hpay.imp_right Or.inr
  · rw [hself]
    exact Fits.longer hf _
  · simp at hn

omit [Hashes] in
theorem View.LockFor.congr {key : String} (h : V.LockFor key)
    (ho : V'.order.idempotencyKey = V.order.idempotencyKey)
    (hs : ∀ s, V.saga = some s → ∃ s', V'.saga = some s' ∧ s'.id = s.id) : V'.LockFor key := by
  rcases h with ⟨k, hk, rfl⟩ | ⟨s, hVs, step, hstep, rfl⟩
  · exact Or.inl ⟨k, ho.trans hk, rfl⟩
  · obtain ⟨s', hs', hid⟩ := hs s hVs
    exact Or.inr ⟨s', hs', step, hstep, by rw [hid]⟩

/-- Its saga is written back. -/
theorem sagaSave_triple (hst : st.course = some i) (hV : V.saga = some s) (hc : y.core = s.core)
    (hkey : V.order.idempotencyKey = some s.correlationId) :
    courses.Triple i (At i x st V K) (sagaRepository.save y)
      (Protocol.Answers fun _ => At i x st { V with saga := some y } K) := by
  refine .calls (at_stable hst) (fun _ => at_stable hst) fun (w : World) (g : Stages) hI h =>
    ⟨trivial, fun c w' r ts hcan he l hi hf => ?_⟩
  have hp := World.Unfailing.perform hcan.1 he
  simp only [World.perform] at hp
  split at hp
  · simp at hp
  simp only [Option.some.injEq, Prod.mk.injEq] at hp
  obtain ⟨rfl, rfl, rfl⟩ := hp
  obtain ⟨hs, hel⟩ := (hV ▸ h.saga : w.HasSaga x (some s)).put hc
  obtain ⟨hid, -, hco, -⟩ := SagaInstance.core_eq.mp hc
  have hframe := World.exec_frame he
  have hrows := World.orderRows_congr (hframe.orders (by simp [Op.writes])) x
  have hpays := World.paymentRows_congr (hframe.payments (by simp [Op.writes])) x
  refine (keeps_settles { V with saga := some y } K h hst hI hf hel
    (h.order.congr hrows) hs (fun hnone => (h.payment hnone).congr hpays) (Or.inl hpays)
    (fun s' hs' => ?_) fun key hk => ⟨?_, ?_⟩).mono fun _ _ _ h => ⟨(), rfl, h⟩
  · rw [← Option.some.inj hs', hkey, hco]
  · exact View.LockFor.congr (h.locks key hk).1 rfl fun s' hs' =>
      ⟨y, rfl, by rw [hid, Option.some.inj (hV.symm.trans hs')]⟩
  · exact (h.locks key hk).2.exec he (by simp)

/-- Its saga is stored. -/
theorem sagaInsert_triple {n : NewSaga} (hst : st.course = some i) (hV : V.saga = none)
    (hx : n.data.orderId = some x) (hkey : V.order.idempotencyKey = some n.correlationId) :
    courses.Triple i (At i x st V []) (sagaRepository.insert n) (Protocol.Answers fun s w g =>
      (∃ id t, s = ⟨n, id, none, t, t⟩) ∧ At i x st { V with saga := some s }
        [runLock s.id "payment_processing", runLock s.id "order_confirmation"] w g) := by
  refine .calls (at_stable hst) (fun s => (Protocol.Stable.const _).and (at_stable hst))
    fun (w : World) (g : Stages) hI h => ⟨trivial, fun c w' r ts hcan he l hi hf => ?_⟩
  obtain ⟨s, rfl, hins, rfl⟩ := World.perform_sagaInsert (World.Unfailing.perform hcan.1 he)
  obtain ⟨hs, hel⟩ := (hV ▸ h.saga : w.HasSaga x none).insert hx hins
  obtain ⟨hnew, hfresh, -⟩ := World.insertSaga_cases hins
  have hframe := World.exec_frame he
  have hrows := World.orderRows_congr (hframe.orders (by simp [Op.writes])) x
  have hpays := World.paymentRows_congr (hframe.payments (by simp [Op.writes])) x
  have hsid : s.id = c.text := by rw [hnew]
  refine (keeps_settles { V with saga := some s }
    [runLock s.id "payment_processing", runLock s.id "order_confirmation"] h hst hI hf hel
    (h.order.congr hrows) hs (fun hnone => (h.payment hnone).congr hpays) (Or.inl hpays)
    (fun s' hs' => ?_) fun key hk => ?_).mono
      fun _ _ _ h => ⟨s, rfl, ⟨c.text, w.clock, hnew⟩, h⟩
  · rw [← Option.some.inj hs', hkey, hnew]
  · -- nobody has tried for the locks of a saga that was not there
    have hlock : ∀ step ∈ sagaSteps, w'.Unlocked (runLock s.id step) := fun step hstep =>
      World.Unlocked.exec (hI.steps s.id (hsid ▸ hfresh) step hstep) he (by simp)
    have hstep : ∃ step ∈ sagaSteps, key = runLock s.id step := by
      simpa [sagaSteps, or_comm] using hk
    obtain ⟨step, hstep, rfl⟩ := hstep
    exact ⟨Or.inr ⟨s, rfl, step, hstep, rfl⟩, hlock step hstep⟩

/-- It is written back itself. -/
theorem orderSave_triple {y : Order} (hst : st.course = some i) (hc : y.core = V.order.core)
    (ha : decimal102 V.order.totalAmount = some V.order.totalAmount)
    (hkey : ∀ s, V.saga = some s → V.order.idempotencyKey = some s.correlationId) :
    courses.Triple i (At i x st V K) (orderRepository.save y)
      (Protocol.Answers fun _ => At i x st { V with order := y } K) := by
  refine .calls (at_stable hst) (fun _ => at_stable hst) fun (w : World) (g : Stages) hI h =>
    ⟨trivial, fun c w' r ts hcan he l hi hf => ?_⟩
  have hp := World.Unfailing.perform hcan.1 he
  simp only [World.perform, Option.some.injEq, Prod.mk.injEq] at hp
  obtain ⟨rfl, rfl, rfl⟩ := hp
  obtain ⟨hok, ho, hel⟩ := h.order.save hc ha
  obtain ⟨-, -, -, hyk, -⟩ := Order.core_eq.mp hc
  have hframe := World.exec_frame he
  have hrows := World.sagaRows_congr (hframe.sagas (by simp [Op.writes])) x
  have hpays := World.paymentRows_congr (hframe.payments (by simp [Op.writes])) x
  refine (keeps_settles { V with order := y } K h hst hI hf hel ho
    (h.saga.congr hrows) (fun hnone => (h.payment hnone).congr hpays) (Or.inl hpays)
    (fun s hs => hyk.trans (hkey s hs)) fun key hk => ⟨?_, ?_⟩).mono
      fun _ _ _ h => ⟨(), hok, h⟩
  · exact View.LockFor.congr (h.locks key hk).1 hyk fun s hs => ⟨s, hs, rfl⟩
  · exact (h.locks key hk).2.exec he (by simp)

/-- Its payment is stored. -/
theorem paymentInsert_triple {n : NewPayment} (hst : st.course = some i)
    (hnone : st.payment = none) (hV : V.payment = none) (hx : n.orderId = x)
    (hkey : ∀ s, V.saga = some s → V.order.idempotencyKey = some s.correlationId) :
    courses.Triple i (At i x st V K) (paymentRepository.insert n) (Protocol.Answers fun p w g =>
      p.toNewPayment = n ∧ ∃ amount, At i x st { V with payment := some { p with amount } } K w g)
        := by
  refine .calls (at_stable hst) (fun p => (Protocol.Stable.const _).and (.ex fun _ =>
    at_stable hst)) fun (w : World) (g : Stages) hI h =>
      ⟨trivial, fun c w' r ts hcan he l hi hf => ?_⟩
  have hp := World.Unfailing.perform hcan.1 he
  obtain ⟨hins, rfl⟩ := World.perform_paymentInsert hp
  have hok : ∃ p, r = .ok p := by
    cases r with
    | ok p => exact ⟨p, rfl⟩
    | error e =>
      obtain ⟨key, rfl⟩ := World.Unfailing.error hcan.1 he
      rcases World.insertPayment_cases hins with ⟨-, hr⟩ | ⟨amount, -, hr, -⟩
      · exact absurd (Except.error.inj hr) (by simp)
      · exact absurd hr (by simp)
  obtain ⟨p, hr⟩ := hok
  obtain ⟨hpn, ⟨amount, hpay⟩, hel⟩ :=
    (hV ▸ h.payment hnone : w.HasPayment x none).insert hx hins hr
  have hframe := World.exec_frame he
  have hrows := World.orderRows_congr (hframe.orders (by simp [Op.writes])) x
  have hsagas := World.sagaRows_congr (hframe.sagas (by simp [Op.writes])) x
  refine (keeps_settles { V with payment := some { p with amount } } K h hst hI hf
    hel (h.order.congr hrows) (h.saga.congr hsagas) (fun _ => hpay) (Or.inr hnone) hkey
    fun key hk => ⟨(h.locks key hk).1, ?_⟩).mono fun _ _ _ h => ⟨p, hr, ?_, amount, h⟩
  · exact (h.locks key hk).2.exec he (by simp)
  · rw [hpn]

/-- A lock of its is taken: nobody else has tried for it. -/
theorem setLock_triple {key tok : String} {ttl : ℕ} (hst : st.course = some i) (hK : key ∉ K)
    (hkey : ∀ s, V.saga = some s → V.order.idempotencyKey = some s.correlationId)
    (httl : ttl ≠ 0) :
    courses.Triple i (At i x st V (key :: K)) (redis.set key tok ttl) fun r w g =>
      r = .ok true ∧ At i x st V K w g := by
  refine .perform (at_stable hst) (fun r => (Protocol.Stable.const _).and (at_stable hst))
    fun (w : World) (g : Stages) hI h => ⟨trivial, fun c w' r ts hcan he l hi hf => ?_⟩
  obtain ⟨hfor, hfree⟩ := h.locks key List.mem_cons_self
  have hother : ∀ key', key' ≠ key → w.Unlocked key' → w'.Unlocked key' := fun key' hne hu =>
    hu.exec he fun tok' ttl' h' => hne (Op.redisSet.inj h').1.symm
  have hframe := World.exec_frame he
  have hp := World.Unfailing.perform hcan.1 he
  simp only [World.perform, if_neg httl, Option.some.injEq, Prod.mk.injEq] at hp
  have hr : r = .ok true := by rw [← hp.2.1, hfree.set]
  obtain rfl := hp.2.2
  have horders : w'.orders = w.orders := hframe.orders (by simp [Op.writes])
  have hsagas : w'.sagas = w.sagas := hframe.sagas (by simp [Op.writes])
  have hpayments : w'.payments = w.payments := hframe.payments (by simp [Op.writes])
  have hro := World.orderRows_congr horders
  have hrs := World.sagaRows_congr hsagas
  have hrp := World.paymentRows_congr hpayments
  have hel : w.Elsewhere x w' := by
    refine ⟨fun y _ => hro y, fun y _ => hrs y, fun y _ => hrp y, fun z hz _ => hsagas ▸ hz,
      fun o ho => ⟨o, horders ▸ ho, rfl⟩, fun z hz => ⟨z, hsagas ▸ hz, rfl⟩, fun key' hu => ?_⟩
    by_cases hne : key' = key
    · exact Or.inr (hne ▸ (World.LockFor.congr (hro x) (hrs x)).mpr (h.lockFor hfor))
    · exact Or.inl (hother key' hne hu)
  refine (keeps_settles V K h hst hI hf hel (h.order.congr (hro x)) (h.saga.congr (hrs x))
    (fun hnone => (h.payment hnone).congr (hrp x)) (Or.inl (hrp x)) hkey
    fun key' hk => ⟨(h.locks key' (List.mem_cons_of_mem _ hk)).1, ?_⟩).mono
      fun _ _ _ h => ⟨hr, h⟩
  refine hother key' ?_ (h.locks key' (List.mem_cons_of_mem _ hk)).2
  rintro rfl
  exact hK hk

/-! Queries. -/

/-- It is looked for. -/
theorem orderFindOne_triple {q : OrderWhere} (hst : st.course = some i) (hq : q.id = some x)
    (hsel : V.order.id = x → ∀ t, q.selects { V.order with updatedAt := t } = true) :
    courses.Triple i (At i x st V K) (orderRepository.findOne q) (Protocol.Answers fun v w g =>
      (∃ t, v = some { V.order with updatedAt := t }) ∧ At i x st V K w g) := by
  refine query_triple (o := .orderFindOne q) (at_stable hst) fun w g hI h =>
    ⟨_, fun _ _ => rfl, ?_⟩
  obtain ⟨t, ho, hx⟩ := h.order.mem
  refine ⟨t, Table.find?_eq_some ho (hsel hx t) fun z hz hsz => ?_⟩
  exact Table.eq_of_pk hz ho ((OrderWhere.selects_id hsz hq).trans hx.symm)

/-- Its saga is looked for. -/
theorem sagaFindOne_triple (hst : st.course = some i) (hV : V.saga = some s) :
    courses.Triple i (At i x st V K) (sagaRepository.findOne { id := some s.id })
      (Protocol.Answers fun v w g => (∃ t, v = some { s with updatedAt := t }) ∧
        At i x st V K w g) := by
  refine query_triple (o := .sagaFindOne _) (at_stable hst) fun w g hI h =>
    ⟨_, fun _ _ => rfl, ?_⟩
  obtain ⟨t, hs, -⟩ := (hV ▸ h.saga : w.HasSaga x (some s)).mem
  refine ⟨t, Table.find?_eq_some hs (by simp [SagaWhere.selects]) fun z hz hsz => ?_⟩
  exact Table.eq_of_pk hz hs (SagaWhere.selects_id hsz rfl)

omit [Hashes] in
/-- The sagas under the key of an order are its own. -/
theorem sagaRows_of_is (hI : Inv w g) (hk : w.Keyed x k) {z : SagaInstance} (hz : z ∈ w.sagas)
    (his : z.Is sagaType k) : z ∈ w.sagaRows x := by
  obtain ⟨y, hy⟩ := Option.ne_none_iff_exists'.mp (hI.named z hz)
  have hkey := (hI.rests y).keyed z ⟨hz, hy⟩
  rw [his.2] at hkey
  exact ⟨hz, hk.order_unique hkey ▸ hy⟩

omit [Hashes] in
theorem At.keyed (h : At i x st V K w g) (hk : V.order.idempotencyKey = some k) : w.Keyed x k := by
  obtain ⟨t, ho, hx⟩ := h.order.mem
  exact ⟨_, ho, hx, hk⟩

/-- Its saga is looked for by the key of the order. -/
theorem findSaga_triple (hst : st.course = some i) (hV : V.saga = some s)
    (hty : s.sagaType = sagaType) (hkey : V.order.idempotencyKey = some s.correlationId) :
    courses.Triple i (At i x st V K)
      (sagaRepository.findOne { correlationId := some s.correlationId, sagaType := some sagaType })
      (Protocol.Answers fun v w g => (∃ t, v = some { s with updatedAt := t }) ∧
        At i x st V K w g) := by
  refine query_triple (o := .sagaFindOne _) (at_stable hst) fun w g hI h =>
    ⟨_, fun _ _ => rfl, ?_⟩
  obtain ⟨t, hrow⟩ := (hV ▸ h.saga : w.HasSaga x (some s))
  have hs : { s with updatedAt := t } ∈ w.sagas ∧ s.data.orderId = some x :=
    Table.mem_rowsWith.mp (hrow ▸ Set.mem_singleton _)
  refine ⟨t, Table.find?_eq_some hs.1 (World.selects_pair.mpr ⟨hty, rfl⟩) fun z hz hsz => ?_⟩
  have hzx := sagaRows_of_is hI (h.keyed hkey) hz (World.selects_pair.mp hsz)
  rw [hrow] at hzx
  exact hzx

/-- It has no saga yet. -/
theorem findNoSaga_triple (hst : st.course = some i) (hV : V.saga = none)
    (hkey : V.order.idempotencyKey = some k) :
    courses.Triple i (At i x st V K)
      (sagaRepository.findOne { correlationId := some k, sagaType := some sagaType })
      (Protocol.Answers fun v w g => v = none ∧ At i x st V K w g) := by
  refine query_triple (o := .sagaFindOne _) (at_stable hst) fun w g hI h =>
    ⟨_, fun _ _ => rfl, ?_⟩
  refine Table.find?_eq_none.mpr fun z hz => ?_
  by_contra hsz
  have hzx := sagaRows_of_is hI (h.keyed hkey) hz
    (World.selects_pair.mp ((Bool.not_eq_false _).mp hsz))
  rw [show w.sagaRows x = ∅ from (hV ▸ h.saga : w.HasSaga x none)] at hzx
  exact hzx

/-! ### Orders that are handed over -/

omit [Hashes] in
/-- What is stored about the order is now another activity's. -/
theorem At.pass (h : At i x st V K w g) (hf : Fits g l) (hk : w.RowsKept w')
    (hpay : st.payment = none) :
    ∀ n, l.length ≤ n → At n x st' V K w' (Function.update g x st') := by
  intro n hn
  refine ⟨Function.update_self .., fun y hy => ?_, h.order.congr (World.orderRows_congr hk.orders x),
    h.saga.congr (World.sagaRows_congr hk.sagas x),
    fun _ => (h.payment hpay).congr (World.paymentRows_congr hk.payments x),
    fun key hkey => ⟨(h.locks key hkey).1, hk.locks key (h.locks key hkey).2⟩⟩
  rw [Function.update_of_ne hy]
  exact Fits.free (w := w) hf hn y

omit [Hashes] in
/-- Nothing is left with who hands over what it has. -/
theorem At.free (h : At i x st V K w g) (hc : st'.course ≠ some i) (hp : st'.payment ≠ some i) :
    Free i w' (Function.update g x st') := by
  intro y
  by_cases hy : y = x
  · rw [hy, Function.update_self]
    exact ⟨hc, hp⟩
  · rw [Function.update_of_ne hy]
    exact h.alone y hy

/-- **An order is handed over to the activity that is started.** -/
theorem passes_settles {t : Task} (h : At i x st V K w g) (hst : st.course = some i)
    (hpay : st.payment = none) (hI : Inv w g) (hi : i < l.length) (hf : Fits g l)
    (hk : w.RowsKept w') (hm : Stage.Moves i l.length st st') (hst' : st'.course = some l.length)
    (hpay' : st'.payment = none)
    (hkey : ∀ s, V.saga = some s → V.order.idempotencyKey = some s.correlationId)
    (hd : ∀ j, (st' = .driving j ∨ ∃ m, st' = .charging j m) → Drives x (.task t))
    (hb : ∀ w g, At l.length x st' V K w g → TaskBorn l.length w g t) :
    courses.Settles i l w g w' [t] (Free i) := by
  have hat : At l.length x st' V K w' (Function.update g x st') :=
    h.pass hf hk hpay _ (Nat.le_refl l.length)
  refine settles hI (h.stage.symm ▸ hm) ?_ (hk.elsewhere x) (Or.inl ⟨Or.inl ?_, Or.inl ?_⟩)
    (rests_of_course hst' hat.order hat.saga hkey) ?_ (fun n u hu => ?_) (h.free ?_ ?_)
  · rintro rfl
    simp [Stage.course] at hst'
  · exact h.stage.symm ▸ hst
  · exact World.paymentRows_congr hk.payments x
  · refine Fits.update (Fits.longer hf _) (fun j hj => ?_) (fun j hj => ?_) fun j hj => ?_
    · obtain rfl := Option.some.inj (hst'.symm.trans hj)
      simp
    · rw [hpay'] at hj
      cases hj
    · refine ⟨.task t, ?_, hd j hj⟩
      have hcourse : st'.course = some j := by
        rcases hj with rfl | ⟨m, rfl⟩ <;> rfl
      obtain rfl := Option.some.inj (hst'.symm.trans hcourse)
      simp
  · cases n with
    | zero =>
      obtain rfl : Job.task t = u := by simpa using hu
      exact hb _ _ hat
    | succ n => simp at hu
  · rw [hst']
    intro heq
    exact absurd (Option.some.inj heq) (by omega)
  · rw [hpay']
    simp

/-- Its creation is to be published. -/
theorem handLater_triple {e : OrderCreatedEvent} {ord : Order} (hV : V = ⟨ord, none, none⟩)
    (hx : e.orderId = x) (hp : ord.Pends) (hu : ord.userId = e.userId)
    (hk : ord.idempotencyKey = some k) (hek : e.correlationId = some k) :
    courses.Triple i (At i x (.placing i) V [startLock k])
      (setImmediate (.publishAll [.orderCreated e])) (Protocol.Answers fun _ => Free i) := by
  subst hV
  refine .calls (at_stable rfl) (fun _ => free_stable) fun (w : World) (g : Stages) hI h =>
    ⟨trivial, fun c w' r ts hcan he l hi hf => ?_⟩
  have hrows := World.rowsKept_of_writes he (by simp [Op.writes]) (by simp [Op.writes])
    (by simp [Op.writes]) (by simp)
  obtain ⟨-, rfl, rfl⟩ : w = w' ∧ .ok () = r ∧ [_] = ts := by
    simpa [World.perform] using World.Unfailing.perform hcan.1 he
  refine (passes_settles (t := .publishAll [.orderCreated e]) h rfl rfl hI hi hf hrows .hand rfl rfl
    (fun s hs => by cases hs) (fun j hj => ?_)
    fun w g hat => Or.inl ⟨e, rfl, ord, k, hx ▸ hat, hp, hu, hk, hek⟩).mono
      fun _ _ _ h => ⟨(), rfl, h⟩
  rcases hj with hj | ⟨m, hj⟩ <;> cases hj

/-- Its creation is published. -/
theorem publish_triple {e : OrderCreatedEvent} :
    courses.Triple i (Starts i e (.placing i)) (eventBus.publishAll [.orderCreated e])
      (Protocol.Answers fun _ => Free i) := by
  refine .given fun ord => .given fun k => .assuming
    (A := ord.Pends ∧ ord.userId = e.userId ∧ ord.idempotencyKey = some k ∧
      e.correlationId = some k) (fun _ _ _ h => h.2) fun hA => .pre (fun _ _ _ h => h.1) ?_
  refine .calls (at_stable rfl) (fun _ => free_stable) fun (w : World) (g : Stages) hI h =>
    ⟨trivial, fun c w' r ts hcan he l hi hf => ?_⟩
  have hrows := World.rowsKept_of_writes he (by simp [Op.writes]) (by simp [Op.writes])
    (by simp [Op.writes]) (by simp)
  obtain ⟨-, rfl, rfl⟩ : _ = w' ∧ .ok () = r ∧ [_] = ts := by
    simpa [World.perform, Event.deliveries] using World.Unfailing.perform hcan.1 he
  exact (passes_settles (t := .deliver (.orderCreatedHandler e)) h rfl rfl hI hi hf hrows .publish
    rfl rfl (fun s hs => by cases hs) (fun j _ => rfl) fun w g hat => ⟨ord, k, hat, hA⟩).mono
      fun _ _ _ h => ⟨(), rfl, h⟩

/-! ### Orders that are placed, charged for and closed -/

omit [Hashes] in
/-- The order stays with the activity, at another stage. -/
theorem At.moved (h : At i x st V K w g) (hk : w.RowsKept w')
    (hpay : st'.payment = none → st.payment = none) :
    At i x st' V K w' (Function.update g x st') := by
  refine ⟨Function.update_self .., fun y hy => ?_, h.order.congr (World.orderRows_congr hk.orders x),
    h.saga.congr (World.sagaRows_congr hk.sagas x),
    fun hnone => (h.payment (hpay hnone)).congr (World.paymentRows_congr hk.payments x),
    fun key hkey => ⟨(h.locks key hkey).1, hk.locks key (h.locks key hkey).2⟩⟩
  rw [Function.update_of_ne hy]
  exact h.alone y hy

/-- The payment is handed over. -/
theorem charge_triple {p q : Payment} (hV : V.payment = some q) (hx : p.orderId = x)
    (hid : q.id = p.id) (hu : q.userId = p.userId) (hou : V.order.userId = p.userId)
    (hk : V.order.idempotencyKey = some k)
    (hkey : ∀ s, V.saga = some s → V.order.idempotencyKey = some s.correlationId) :
    courses.Triple i (At i x (.driving i) V K) (setImmediate (.externalPayment p (some k)))
      (Protocol.Answers fun _ w g => ∃ m, m ≠ i ∧ At i x (.charging i m) V K w g) := by
  refine .calls (at_stable rfl) (fun _ => .ex fun m => (Protocol.Stable.const _).and
    (at_stable rfl))
    fun (w : World) (g : Stages) hI h => ⟨trivial, fun c w' r ts hcan he l hi hf => ?_⟩
  have hrows := World.rowsKept_of_writes he (by simp [Op.writes]) (by simp [Op.writes])
    (by simp [Op.writes]) (by simp)
  obtain ⟨rfl, rfl, rfl⟩ : w = w' ∧ .ok () = r ∧ [_] = ts := by
    simpa [World.perform] using World.Unfailing.perform hcan.1 he
  have hat : At i x (.charging i l.length) V K w (Function.update g x (.charging i l.length)) :=
    h.moved hrows (by simp [Stage.payment])
  have hpays : w.paymentRows x = {q} := (hV ▸ h.payment rfl : w.HasPayment x (some q))
  refine settles hI (h.stage.symm ▸ .charge) (by simp) (hrows.elsewhere x)
    (Or.inl ⟨Or.inl (h.stage.symm ▸ rfl), Or.inl rfl⟩)
    (rests_of_course (i := i) rfl hat.order hat.saga hkey) ?_ (fun n u hu' => ?_)
    ⟨(), rfl, _, Nat.ne_of_gt hi, hat⟩
  · refine Fits.update (Fits.longer hf _) (fun j hj => ?_) (fun j hj => ?_) fun j hj => ?_
    · obtain rfl := Option.some.inj hj
      simpa using Nat.lt_succ_of_lt hi
    · obtain rfl := Option.some.inj hj
      simp
    · rcases hj with hj | ⟨m, hj⟩
      · cases hj
      · cases hj
        exact (Fits.longer hf _).driving x i h.stage
  · cases n with
    | succ n => simp at hu'
    | zero =>
      obtain rfl : Job.task (.externalPayment p (some k)) = u := by simpa using hu'
      obtain ⟨t, ho, hox⟩ := h.order.mem
      refine ⟨k, q, rfl, ⟨?_, fun y => ?_, hx ▸ hpays, _, ho, hox.trans hx.symm, hou.trans hu.symm,
        hk⟩, hid, hu⟩
      · rw [hx, Function.update_self]
        rfl
      · rw [hx]
        by_cases hy : y = x
        · rw [hy, Function.update_self]
          refine ⟨fun heq => ?_, fun hne => absurd rfl hne⟩
          exact absurd (Option.some.inj heq) (by simp; omega)
        · rw [Function.update_of_ne hy]
          exact (Fits.free (w := w) hf (Nat.le_add_right _ _) y).imp_right fun hp _ => hp

omit [Hashes] in
/-- The order is charged for, and the locks of its confirmation have not been tried for. -/
theorem At.charged {m : ℕ} (h : At i x (.waiting m) V [runLock s.id "order_confirmation"] w g)
    (hV : V.saga = some s) (hp : V.order.Pends) (hr : s.HasRun V.order ["payment_processing"]) :
    Rests x (.waiting m) w where
  unknown := fun hst => by cases hst
  known := fun _ => by
    obtain ⟨t, ht⟩ := h.order
    exact ht ▸ Set.singleton_nonempty _
  keyed := fun s' hs' => by
    obtain ⟨t, ht⟩ := (hV ▸ h.saga : w.HasSaga x (some s))
    obtain rfl := Set.mem_singleton_iff.mp (ht ▸ hs')
    exact h.keyed hr.key
  waiting := fun _ _ =>
    ⟨V.order, s, h.order, hV ▸ h.saga, hp, hr, (h.locks _ List.mem_cons_self).2⟩
  closed := fun hst => by cases hst

/-- Nothing is left to be done but the payment. -/
theorem leave_triple {m : ℕ} {key tok : String} (hm : m ≠ i) (hV : V.saga = some s)
    (hp : V.order.Pends) (hr : s.HasRun V.order ["payment_processing"]) :
    courses.Triple i (At i x (.charging i m) V [runLock s.id "order_confirmation"])
      (redis.unlock key tok) (Protocol.Answers fun _ => Free i) := by
  refine .calls (at_stable rfl) (fun _ => free_stable) fun (w : World) (g : Stages) hI h =>
    ⟨trivial, fun c w' r ts hcan he l hi hf => ?_⟩
  have hrows := World.rowsKept_of_writes he (by simp [Op.writes]) (by simp [Op.writes])
    (by simp [Op.writes]) (by simp)
  have hperform := World.Unfailing.perform hcan.1 he
  obtain rfl := World.perform_tasks hperform rfl
  obtain ⟨v, rfl⟩ : ∃ v, r = .ok v :=
    ⟨_, (congrArg (fun x => x.2.1) (Option.some.inj hperform)).symm⟩
  have hat : At i x (.waiting m) V [runLock s.id "order_confirmation"] w'
      (Function.update g x (.waiting m)) := h.moved hrows (by simp [Stage.payment])
  refine settles hI (h.stage.symm ▸ .leave m) (by simp) (hrows.elsewhere x)
    (Or.inl ⟨Or.inl (h.stage.symm ▸ rfl), Or.inl (World.paymentRows_congr hrows.payments x)⟩)
    (hat.charged hV hp hr) ?_ (fun n u hu => by simp at hu)
    ⟨v, rfl, h.free (by simp [Stage.course]) (by simpa [Stage.payment] using hm)⟩
  refine Fits.update (Fits.longer hf _) (fun j hj => by cases hj) (fun j hj => ?_) fun j hj => ?_
  · obtain rfl := Option.some.inj hj
    exact (Fits.longer hf _).payment x m (h.stage.symm ▸ rfl)
  · rcases hj with hj | ⟨_, hj⟩ <;> cases hj

/-- The result of the payment is published, and handled. -/
theorem report_triple {p : Payment} {e : Event} {d d' : Delivery}
    (hreports : Op.reports? (.publishAll [e]) = some x) (he : e.deliveries = [d, d'])
    (hd : ∀ j w g, Free j w g → TaskBorn j w g (.deliver d))
    (hd' : ∀ j w g o s, At j x (.closing j) ⟨o, some s, some p⟩
      [runLock s.id "order_confirmation"] w g → o.Pends → o.userId = p.userId →
        o.idempotencyKey = some k → s.HasRun o ["payment_processing"] →
          TaskBorn j w g (.deliver d')) :
    courses.Triple i (Pays i x k p) (eventBus.publish e) (Protocol.Answers fun _ => Free i) := by
  refine .calls pays_stable (fun _ => free_stable) fun (w : World) (g : Stages) hI h =>
    ⟨trivial, fun c w' r ts hcan hexec l hi hf => ?_⟩
  have hrows := World.rowsKept_of_writes hexec (by simp [Op.writes]) (by simp [Op.writes])
    (by simp [Op.writes]) (by simp)
  obtain ⟨-, rfl, rfl⟩ : _ = w' ∧ .ok () = r ∧ [_, _] = ts := by
    simpa [World.perform, he] using World.Unfailing.perform hcan.1 hexec
  -- who asked for the payment has left the order
  have hwait : g x = .waiting i := by
    have hpay := h.stage
    have hne := hcan.2 x hreports
    cases hst : g x with
    | charging j m => exact absurd hst (hne j m)
    | waiting m =>
      rw [hst] at hpay
      rw [Option.some.inj hpay]
    | _ =>
      rw [hst] at hpay
      cases hpay
  obtain ⟨o, s, ho, hs, hp, hr, hu⟩ := (hI.rests x).waiting i hwait
  obtain ⟨y, hy, hyx, hyu, hyk⟩ := h.order
  obtain ⟨t, hot, hox⟩ := ho.mem
  obtain rfl := Table.eq_of_pk hy hot (hyx.trans hox.symm)
  have hat : At (l.length + 1) x (.closing (l.length + 1)) ⟨o, some s, some p⟩
      [runLock s.id "order_confirmation"] w' (Function.update g x (.closing (l.length + 1))) := by
    refine ⟨Function.update_self .., fun z hz => ?_, ho.congr (World.orderRows_congr hrows.orders x),
      hs.congr (World.sagaRows_congr hrows.sagas x),
      fun _ => (World.paymentRows_congr hrows.payments x).trans h.payments, fun key hkey => ?_⟩
    · rw [Function.update_of_ne hz]
      exact Fits.free (w := w) hf (Nat.le_succ _) z
    · obtain rfl := List.mem_singleton.mp hkey
      exact ⟨Or.inr ⟨s, rfl, _, by simp [sagaSteps], rfl⟩, hrows.locks _ hu⟩
  have hfree : ∀ j, j = i ∨ j = l.length →
      Free j w' (Function.update g x (.closing (l.length + 1))) := by
    intro j hj z
    by_cases hz : z = x
    · rw [hz, Function.update_self]
      simp only [Stage.course, Stage.payment, ne_eq, Option.some.injEq, reduceCtorEq,
        not_false_eq_true, and_true]
      omega
    · rw [Function.update_of_ne hz]
      rcases hj with rfl | rfl
      · exact (h.alone z).imp_right fun hp => hp hz
      · exact Fits.free (w := w) hf (Nat.le_refl _) z
  refine settles hI (hwait.symm ▸ .report) (by simp) (hrows.elsewhere x)
    (Or.inl ⟨Or.inr (by rw [hwait]; rfl), Or.inl (World.paymentRows_congr hrows.payments x)⟩)
    (rests_of_course (i := l.length + 1) rfl hat.order hat.saga fun s' hs' => ?_) ?_
    (fun n u hn => ?_) ⟨(), rfl, hfree i (Or.inl rfl)⟩
  · rw [← Option.some.inj hs']
    exact hr.key
  · refine Fits.update (Fits.longer hf _) (fun j hj => ?_) (fun j hj => by cases hj) fun j hj => ?_
    · obtain rfl := Option.some.inj hj
      simp
    · rcases hj with hj | ⟨_, hj⟩ <;> cases hj
  · rcases n with _ | _ | n
    · obtain rfl : Job.task (.deliver d) = u := by simpa using hn
      exact hd _ _ _ (hfree _ (Or.inr rfl))
    · obtain rfl : Job.task (.deliver d') = u := by simpa using hn
      exact hd' _ _ _ o s hat hp hyu hyk hr
    · simp at hn

omit [Hashes] in
/-- What is stored about a closed order. -/
theorem rests_of_final (h : Final x w) : Rests x .closed w where
  unknown := fun hst => by cases hst
  known := fun _ => by
    obtain ⟨o, s, p, ho, -⟩ := h
    exact ho ▸ Set.singleton_nonempty _
  keyed := fun s' hs' => by
    obtain ⟨o, s, p, ho, hs, -, hc⟩ := h
    obtain rfl := Set.mem_singleton_iff.mp (hs ▸ hs')
    exact World.keyed_iff.mpr ⟨o, ho ▸ Set.mem_singleton o, hc.key⟩
  waiting := fun _ hst => by cases hst
  closed := fun _ => h

/-- **An order is closed.** -/
theorem close_settles (h : At i x (.closing i) V K w g) (hI : Inv w g) (hf : Fits g l)
    (he : w.Elsewhere x w') (hp : w'.paymentRows x = w.paymentRows x) (hfin : Final x w')
    (hts : ∀ t ∈ ts, t.Minor) : courses.Settles i l w g w' ts (Free i) := by
  have hfit : Fits (Function.update g x .closed) (l ++ ts.filterMap application.spawned) := by
    refine Fits.update (Fits.longer hf _) (fun j hj => by cases hj) (fun j hj => by cases hj)
      fun j hj => ?_
    rcases hj with hj | ⟨_, hj⟩ <;> cases hj
  refine settles hI (h.stage.symm ▸ .close) (by simp) he
    (Or.inl ⟨Or.inl (h.stage.symm ▸ rfl), Or.inl hp⟩) (rests_of_final hfin) hfit
    (fun n u hn => ?_) (h.free (by simp [Stage.course]) (by simp [Stage.payment]))
  obtain ⟨task, htask, hu⟩ := List.mem_filterMap.mp (List.mem_of_getElem? hn)
  obtain rfl := Option.some.inj hu
  refine taskBorn_of_minor (hts task htask) fun z => ?_
  by_cases hz : z = x
  · rw [hz, Function.update_self]
    simp [Stage.course, Stage.payment]
  · rw [Function.update_of_ne hz]
    exact Fits.free (w := w) hf (Nat.le_add_right _ _) z

omit [Hashes] in
theorem final_of_has {ord : Order} {p : Payment} (ho : w.HasOrder x ord)
    (hs : w.HasSaga x (some s)) (hp : w.HasPayment x (some p)) (hc : ord.Concluded s p) :
    Final x w := by
  obtain ⟨t, ht⟩ := ho
  obtain ⟨t', ht'⟩ := hs
  exact ⟨_, _, p, ht, ht', hp, hc.type, hc.key, hc.outcome⟩

/-- The end of the saga is to be published. -/
theorem closeLater_triple {ord : Order} {p : Payment} {m : Message} (hc : ord.Concluded s p) :
    courses.Triple i (At i x (.closing i) ⟨ord, some s, some p⟩ K)
      (setImmediate (.publishSagaEvent m)) (Protocol.Answers fun _ => Free i) := by
  refine .calls (at_stable rfl) (fun _ => free_stable) fun (w : World) (g : Stages) hI h =>
    ⟨trivial, fun c w' r ts hcan he l hi hf => ?_⟩
  obtain ⟨rfl, rfl, rfl⟩ : w = w' ∧ .ok () = r ∧ [_] = ts := by
    simpa [World.perform] using World.Unfailing.perform hcan.1 he
  have hrows := World.rowsKept_of_writes he (by simp [Op.writes]) (by simp [Op.writes])
    (by simp [Op.writes]) (by simp)
  refine (close_settles h hI hf (hrows.elsewhere x) rfl
    (final_of_has h.order h.saga (h.payment rfl) hc) fun t ht => ?_).mono
      fun _ _ _ h => ⟨(), rfl, h⟩
  rw [List.mem_singleton.mp ht]
  exact trivial

/-- The end of the saga is stored. -/
theorem closeSave_triple {ord : Order} {p : Payment} (hy : y.core = s.core)
    (hc : ord.Concluded y p) :
    courses.Triple i (At i x (.closing i) ⟨ord, some s, some p⟩ K) (sagaRepository.save y)
      (Protocol.Answers fun _ => Free i) := by
  refine .calls (at_stable rfl) (fun _ => free_stable) fun (w : World) (g : Stages) hI h =>
    ⟨trivial, fun c w' r ts hcan he l hi hf => ?_⟩
  have hframe := World.exec_frame he
  have hp := World.Unfailing.perform hcan.1 he
  simp only [World.perform] at hp
  split at hp
  · simp at hp
  simp only [Option.some.injEq, Prod.mk.injEq] at hp
  obtain ⟨rfl, rfl, rfl⟩ := hp
  obtain ⟨hs, hel⟩ := World.HasSaga.put h.saga hy
  have hpays := World.paymentRows_congr (hframe.payments (by simp [Op.writes])) x
  have horders := World.orderRows_congr (hframe.orders (by simp [Op.writes])) x
  refine (close_settles h hI hf hel hpays (final_of_has (h.order.congr horders) hs
    ((h.payment rfl).congr hpays) hc) fun t ht => by simp at ht).mono fun _ _ _ h => ⟨(), rfl, h⟩

/-- The result of the payment is stored. -/
theorem paymentSave_triple {p q : Payment} (hid : q.id = p.id) (hx : q.orderId = x)
    (hu : q.userId = p.userId) :
    courses.Triple i (Pays i x k p) (paymentRepository.save q)
      (Protocol.Answers fun _ w g => ∃ amount, Pays i x k { q with amount } w g) := by
  refine .calls pays_stable (fun _ => .ex fun _ => pays_stable)
    fun (w : World) (g : Stages) hI h => ⟨trivial, fun c w' r ts hcan he l hi hf => ?_⟩
  have hframe := World.exec_frame he
  have hunlocked : ∀ key, w.Unlocked key → w'.Unlocked key := fun key hl => hl.exec he (by simp)
  have hp := Option.some.inj (World.Unfailing.perform hcan.1 he)
  obtain rfl : (w.savePayment q).1 = w' := congrArg Prod.fst hp
  have hr : (w.savePayment q).2 = r := congrArg (fun x => x.2.1) hp
  obtain rfl : [] = ts := congrArg (fun x => x.2.2) hp
  obtain ⟨hok, amount, ha⟩ : r = .ok () ∧ ∃ amount, decimal102 q.amount = some amount := by
    rcases World.savePayment_cases w q with ⟨-, -, herr⟩ | ⟨hok, amount, ha, -⟩
    · rw [← hr, herr] at he
      obtain ⟨key, hkey⟩ := World.Unfailing.error hcan.1 he
      simp at hkey
    · exact ⟨hr.symm.trans hok, amount, ha⟩
  obtain ⟨hpay, hel⟩ := World.HasPayment.save (w := w) (x := x) (p := p) h.payments hid hx ha
  have hro := World.orderRows_congr (hframe.orders (by simp [Op.writes])) x
  have hrs := World.sagaRows_congr (hframe.sagas (by simp [Op.writes])) x
  have hself : Function.update g x (g x) = g := Function.update_eq_self ..
  have hst : (g x).payment = some i := h.stage
  -- the rest of what is stored about the order stays
  have hrests : Rests x (g x) (w.savePayment q).1 := by
    refine ⟨fun h' => hro.trans ((hI.rests x).unknown h'), fun h' => hro ▸ (hI.rests x).known h',
      fun s hs => ?_, fun m hm => ?_, fun h' => ?_⟩
    · obtain ⟨o, ho, hok⟩ := World.keyed_iff.mp ((hI.rests x).keyed s (hrs ▸ hs))
      exact World.keyed_iff.mpr ⟨o, hro ▸ ho, hok⟩
    · obtain ⟨o, s, ho, hs, hp, hrun, hlock⟩ := (hI.rests x).waiting m hm
      exact ⟨o, s, ho.congr hro, hs.congr hrs, hp, hrun, hunlocked _ hlock⟩
    · rw [h'] at hst
      cases hst
  have hpays : Pays i x k { q with amount } (w.savePayment q).1 g := by
    obtain ⟨o, ho, hox, hou, hok⟩ := h.order
    exact ⟨hst, h.alone, hpay, o, (hframe.orders (by simp [Op.writes])) ▸ ho, hox,
      hou.trans hu.symm, hok⟩
  refine settles hI (.keep (g x)) (fun h' => ?_) hel (Or.inr ⟨hst, hro, hrs, hunlocked⟩) hrests ?_
    (fun n u hn => by simp at hn) ⟨(), hok, amount, ?_⟩
  · rw [h'] at hst
    cases hst
  · rw [hself]
    exact Fits.longer hf _
  · rw [hself]
    exact hpays

omit [Hashes] in
/-- Nothing is stored about an order that is not known. -/
theorem Inv.unknown (hI : Inv w g) (ho : w.orderRows x = ∅) :
    g x = .unknown ∧ w.HasSaga x none ∧ w.HasPayment x none := by
  refine ⟨?_, Set.eq_empty_iff_forall_notMem.mpr fun s hs => ?_,
    Set.eq_empty_iff_forall_notMem.mpr fun p hp => ?_⟩
  · by_contra hne
    exact ((hI.rests x).known hne).ne_empty ho
  · obtain ⟨o, hox, -⟩ := World.keyed_iff.mp ((hI.rests x).keyed s hs)
    exact (ho ▸ hox : o ∈ (∅ : Set Order))
  · have hne := hI.payments p hp.1
    rw [show p.orderId = x from hp.2] at hne
    exact hne.ne_empty ho

/-- An order is placed. -/
theorem orderInsert_triple {n : NewOrder} (hk : n.idempotencyKey = some k) (hne : k ≠ "")
    (hn : n.status = .pending) :
    courses.Triple i (Free i) (orderRepository.insert n) fun r w g =>
      (∀ e, r = .error e → Free i w g) ∧ ∀ o, r = .ok o → ∃ ord : Order,
        At i o.id (.placing i) ⟨ord, none, none⟩ [startLock k] w g ∧ ord.Pends ∧
          ord.userId = o.userId ∧ ord.idempotencyKey = some k := by
  refine .perform free_stable (fun r => .and (.all fun _ => .imp fun _ => free_stable)
    (.all fun _ => .imp fun _ => .ex fun _ => (at_stable rfl).and (.const _)))
      fun (w : World) (g : Stages) hI hfree => ⟨trivial, fun c w' r ts hcan he l hi hf => ?_⟩
  have hframe := World.exec_frame he
  obtain ⟨hins, rfl⟩ := World.perform_orderInsert (World.Unfailing.perform hcan.1 he)
  cases r with
  | error e =>
    have hsame : w' = w := by
      rcases World.insertOrder_cases hins with ⟨h, -⟩ | ⟨h, -⟩ | ⟨_, -, h, -⟩
      · exact h
      · exact h
      · exact absurd h (by simp)
    subst hsame
    exact .refl hI hf ⟨fun _ _ => hfree, fun o h => by cases h⟩
  | ok o =>
    have hempty : w.orderRows c.text = ∅ := by
      rcases World.insertOrder_cases hins with ⟨-, h⟩ | ⟨-, _, -, h, -⟩ | ⟨_, -, -, hnew, -⟩
      · exact absurd h (by simp)
      · exact absurd h (by simp)
      · exact Set.eq_empty_iff_forall_notMem.mpr fun z hz => hnew z hz.1 hz.2
    obtain ⟨rfl, ⟨amount, ha, ho⟩, hel, hnokey⟩ := World.HasOrder.insert hempty hins rfl
    obtain ⟨hst, hs, hp⟩ := hI.unknown hempty
    have hrs := World.sagaRows_congr (hframe.sagas (by simp [Op.writes])) c.text
    have hrp := World.paymentRows_congr (hframe.payments (by simp [Op.writes])) c.text
    have hat : At i c.text (.placing i) ⟨⟨{ n with totalAmount := amount }, c.text, none, w.clock,
        w.clock⟩, none, none⟩ [startLock k] w' (Function.update g c.text (.placing i)) := by
      refine ⟨Function.update_self .., fun y hy => ?_, ho, hs.congr hrs, fun _ => hp.congr hrp,
        fun key hkey => ?_⟩
      · rw [Function.update_of_ne hy]
        exact hfree y
      · obtain rfl := List.mem_singleton.mp hkey
        exact ⟨Or.inl ⟨k, hk, rfl⟩, (hI.starts k (hnokey k hk)).exec he (by simp)⟩
    have hm : Stage.Moves i l.length (g c.text) (.placing i) := hst.symm ▸ .place
    refine settles hI hm (by simp) hel (Or.inl ⟨Or.inr (by rw [hst]; rfl), Or.inl hrp⟩)
      (rests_of_course (i := i) rfl hat.order hat.saga fun s hs => by cases hs) ?_
      (fun n u hn => by simp at hn) ⟨fun e he => (by cases he), fun o' ho' => ?_⟩
    · refine Fits.update (Fits.longer hf _) (fun j hj => ?_) (fun j hj => by cases hj)
        fun j hj => ?_
      · obtain rfl := Option.some.inj hj
        simpa using hi
      · rcases hj with hj | ⟨_, hj⟩ <;> cases hj
    · obtain rfl := Except.ok.inj ho'
      exact ⟨_, hat, ⟨hn, decimal102_stored ha, k, hne, hk⟩, rfl, hk⟩

end Course

end CqrsSaga
