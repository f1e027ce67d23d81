import CqrsSaga.Flow.Operations
import CqrsSaga.Saga.Failure

/-!
# The sagas of the flow of orders

Reading and writing sagas, for each of those who do: the activity that has the order charged,
the one that confirms it, the one that cancels it, and whoever handles a failure.

## Main definitions

* `Flow.Confirming` — the assertion of the activity that confirms an order.

## Main results

* `Flow.sagaSave_atomic` — what a save of a known saga takes.
* `Flow.failure_triple` — **handling a failure respects what the activities agree on.**
-/

namespace CqrsSaga

open RedisLockService SagaManager KafkaService

namespace Flow

variable {R : Regime} {w w' : World} {g g' : Duties} {x id : String} {i j : ℕ}
  {y : SagaInstance} {l : List String}

/-! ### What is known of rewritten sagas -/

/-- Columns that do not matter may be changed, and the status to one that does not. -/
theorem Known.rewrite {z : SagaInstance} (h : Known R x y w g) (hc : z.core = y.core)
    (hsteps : z.completedSteps = y.completedSteps)
    (hundone : R.undone → z.status = .compensated → w.Cancelled x)
    (hdone : R.orderly → z.status = .completed →
      "payment_processing" ∈ z.completedSteps ∧ "order_confirmation" ∈ z.completedSteps) :
    Known R x z w g := by
  obtain ⟨-, -, hco, hd⟩ := SagaInstance.core_eq.mp hc
  refine ⟨hd ▸ h.order, hd ▸ h.user, hco ▸ h.key, ?_, hundone, hdone, fun hR i hi => ?_, ?_⟩
  · obtain ⟨s, hs, hsc⟩ := h.row
    exact ⟨s, hs, hsc.trans hc.symm⟩
  · rw [hsteps]
    exact h.charged hR i hi
  · rw [hsteps]
    exact h.confirmed

/-- A step may be noted once the order is charged, and confirmation once it is decided. -/
theorem Known.note (h : Known R x y w g) (hg : Grows R w g w g')
    (hcharge : R.orderly → g' .charge x = none) {s : String}
    (hs : s = "order_confirmation" → w.Decided x) :
    Known R x { y with completedSteps := y.completedSteps ++ [s] } w g' := by
  have h' := h.later hg
  refine ⟨h'.order, h'.user, h'.key, h'.row, h'.undone, fun hR hst => ?_, fun hR i hi => ?_,
    fun hm => ?_⟩
  · obtain ⟨hp, hc⟩ := h'.done hR hst
    exact ⟨List.mem_append_left _ hp, List.mem_append_left _ hc⟩
  · rw [hcharge hR] at hi
    simp at hi
  · rcases List.mem_append.mp hm with hm | hm
    · exact h'.confirmed hm
    · exact hs (List.mem_singleton.mp hm).symm

/-- A saga belongs to one order. -/
theorem Known.order_eq (h : Known R x y w g) {x' : String} (hs : w.SagaOf x' y.id) : x' = x := by
  obtain ⟨s, hs, hid, hd⟩ := hs
  obtain ⟨s', hs', hc⟩ := h.row
  obtain ⟨hid', -, -, hd'⟩ := SagaInstance.core_eq.mp hc
  obtain rfl := Table.eq_of_pk hs hs' (hid.trans hid'.symm)
  rw [hd', h.order] at hd
  exact (Option.some.inj hd).symm

theorem Known.sagaOf (h : Known R x y w g) : w.SagaOf x y.id := by
  obtain ⟨s, hs, hc⟩ := h.row
  obtain ⟨hid, -, -, hd⟩ := SagaInstance.core_eq.mp hc
  exact ⟨s, hs, hid, hd ▸ h.order⟩

/-- Once the payment of an order has failed, nobody is to confirm it. -/
theorem not_confirm_of_failed (hI : Inv R w g) (h : w.Outcome x .failed) (j : ℕ) :
    g .confirm x ≠ some j := by
  intro hj
  obtain ⟨p, hp, hpx, hps⟩ := h
  obtain ⟨q, hq, hqx, hqs⟩ := hI.confirming x j hj
  rw [hI.single p hp q hq (hpx.trans hqx.symm), hqs] at hps
  simp at hps

variable [Hashes]

theorem known_lasting (x : String) (y : SagaInstance) : (flow R).Lasting (Known R x y) :=
  fun _ _ _ _ hm _ h => h.later hm

theorem sagaOf_lasting (x id : String) : (flow R).Lasting fun w _ => w.SagaOf x id :=
  fun _ _ _ _ hm _ h => hm.sagaOf h

/-! ### Reading and saving -/

/-- Sagas that are found are known. -/
theorem sagaFindOne_triple {F : World → Duties → Prop} {q : SagaWhere}
    (hF : (flow R).Stable i F) :
    (flow R).Triple i F (sagaRepository.findOne q) fun r w g =>
      F w g ∧ ∀ s, r = .ok (some s) → (∃ x, Known R x s w g) ∧ q.selects s = true := by
  refine (read_triple (o := .sagaFindOne q) (V := fun v w g => ∀ s, v = some s →
    (∃ x, Known R x s w g) ∧ q.selects s = true) (fun w => w.sagas.find? q.selects) hF
    (fun v => ?_) ⟨by simp [Op.writes], rfl⟩ rfl (fun _ _ => rfl) fun w g c hI _ _ s hs => ?_).post
    fun r w g _ hw => ⟨hw.1, fun s hs => hw.2 _ hs s rfl⟩
  · rintro w g w' g' hm - - h s hs
    obtain ⟨⟨x, hk⟩, hq⟩ := h s hs
    exact ⟨⟨x, hk.later hm⟩, hq⟩
  · exact ⟨hI.sagas s (Table.mem_of_find? hs), Table.find?_some hs⟩

/-- The saga of an order is stored. -/
theorem sagaInsert_triple {e : OrderCreatedEvent} {n : NewSaga}
    (horder : n.data.orderId = some e.orderId) (huser : n.data.userId ≠ none)
    (hkey : e.correlationId = some n.correlationId) (hst : n.status = .started)
    (hsteps : n.completedSteps = []) :
    (flow R).Triple i (Driving R i e) (sagaRepository.insert n) fun r w g =>
      Driving R i e w g ∧ ∀ s, r = .ok s → Known R e.orderId s w g := by
  refine .perform (driving_stable e) (fun r => (driving_stable e).and
    (.all fun s => .imp fun _ => (known_lasting _ s).stable)) fun w g hI hw =>
    write_atomic rfl rfl (fun _ h => nomatch h) hI (fun e => ⟨hw, fun s h => by simp at h⟩)
    fun c w' r ts _ _ hp => ?_
  obtain ⟨s, rfl, hins, -⟩ := World.perform_sagaInsert hp
  obtain ⟨t, ht⟩ := World.insertSaga_only hins
  obtain ⟨hs, -, hmem⟩ := World.insertSaga_cases hins
  have htx : World.TxRespects i w w' := World.insertSaga_respects hI.tx hins
  have hkeyed : w.Keyed e.orderId s.correlationId := by
    obtain ⟨o, ho, hid, -, -, hk⟩ := hw.event.stored
    rw [hs]
    exact ⟨o, ho, hid, hk.trans hkey⟩
  obtain ⟨hresp, hknown⟩ := respects_insertSaga (s := s) hI ht htx (by rw [ht] at hmem; exact hmem)
    (by rw [hs]; exact horder) (by rw [hs]; exact huser) hkeyed (by rw [hs]; exact hst)
    (by rw [hs]; exact hsteps)
  refine ⟨g, hresp, ⟨hw.event.later hresp.mono, hw.duty, ?_⟩, fun s' h => ?_⟩
  · rw [ht]
    exact hw.unpaid
  · rw [← Except.ok.inj h]
    exact hknown

/-- A known saga is written. -/
theorem sagaSave_atomic {Φ : (flow R).Assn Unit} (hI : Inv R w g) (hd : Drops i g g')
    (hk : Known R x y w g')
    (hsteps : R.orderly → ∀ j, j ≠ i → g .confirm x = some j → g .charge x = none →
      w.Steps y.id y.completedSteps)
    (hfail : ∀ e, Φ (.error e) w g)
    (hok : Grows R w g (w.putSaga y) g' → (w.putSaga y).payments = w.payments →
      Φ (.ok ()) (w.putSaga y) g') :
    (flow R).atomic i (.sagaSave y) Φ w g := by
  refine write_atomic rfl rfl (fun _ h => nomatch h) hI (fun _ => hfail _)
    fun c w' r ts _ _ hp => ?_
  obtain ⟨hlock, rfl⟩ := World.perform_sagaSave hp
  obtain ⟨t, ht⟩ := World.putSaga_only w y
  have hr : r = .ok () := by
    simp only [World.perform, hlock, Bool.false_eq_true, if_false, Option.some.injEq,
      Prod.mk.injEq] at hp
    exact hp.2.1.symm
  have hresp : (flow R).Respects i w g (w.putSaga y) g' := by
    refine respects_sagas [y] hI hd (World.sagaSave_respects hI.tx hlock) (by rw [ht])
      (by rw [ht]) (by rw [ht]) (by rw [ht]) rfl (fun z hz => ?_)
      (fun hR z hz x' hx' j hj hc hn => ?_)
      fun z hz => ?_
    · rw [List.mem_singleton.mp hz]
      exact ⟨x, hk⟩
    · rw [List.mem_singleton.mp hz] at hx' ⊢
      obtain rfl : x = x' := Option.some.inj (hk.order.symm.trans hx')
      exact hsteps hR j hj hc hn
    · -- no transaction has locked the row
      rw [ht] at hz
      obtain ⟨⟨x', hz'⟩, hl⟩ := hI.pending z hz
      refine ⟨⟨x', hz'.later hd.grows⟩, ?_⟩
      rw [World.steps_putSaga_of_ne ?_]
      · exact hl
      · obtain ⟨u, hu, hzu⟩ := hz
        intro heq
        exact World.not_locked hlock hu (by simp) (heq ▸ hI.tx.writes u hu z hzu)
  subst hr
  exact ⟨g', hresp, hok hresp.mono (by rw [ht])⟩

/-- Whoever is to have the order charged writes its saga. -/
theorem drivingSave_triple {e : OrderCreatedEvent} :
    (flow R).Triple i (fun w g => Driving R i e w g ∧ Known R e.orderId y w g)
      (sagaRepository.save y) fun _ => Driving R i e := by
  refine .perform ((driving_stable e).and (known_lasting _ y).stable) (fun _ => driving_stable e)
    fun w g hI hw => sagaSave_atomic hI (Or.inl rfl) hw.2 (fun _ j _ _ hn => ?_) (fun _ => hw.1)
      fun hm hp => ⟨hw.1.event.later hm, hw.1.duty, ?_⟩
  · rw [hw.1.duty] at hn
    simp at hn
  · unfold World.Unpaid
    rw [hp]
    exact hw.1.unpaid

/-- The step by which an order was charged is recorded. -/
theorem recordSave_triple {s : String} (hs : s ≠ "order_confirmation") :
    (flow R).Triple i (fun w g => g .charge x = some i ∧ Known R x y w g)
      (sagaRepository.save { y with completedSteps := y.completedSteps ++ [s] })
      fun _ _ _ => True := by
  refine .perform ((duty_stable _ x).and (known_lasting x y).stable) (fun _ => .const _)
    fun w g hI hw => ?_
  have hdrop : Drops i g (g.pass .charge x none) := Or.inr ⟨x, hw.1, rfl⟩
  have hcharge : (g.pass .charge x none) .charge x = none := Duties.pass_self ..
  refine sagaSave_atomic hI hdrop (hw.2.note (.pass hw.1 none) (fun _ => hcharge)
    fun h => absurd h hs) (fun _ j _ _ hn => ?_) (fun _ => trivial) fun _ _ => trivial
  rw [hw.1] at hn
  simp at hn

/-- Activity `i` is to confirm the order `x`, whose saga has these steps.  Where steps do not
come in order, nothing is known of them. -/
structure Confirming (R : Regime) (i : ℕ) (x id : String) (l : List String) (w : World)
    (g : Duties) : Prop where
  saga : w.SagaOf x id
  duty : R.orderly → g .confirm x = some i
  charged : R.orderly → Charged x id l w g

theorem confirming_stable (l : List String) : (flow R).Stable i (Confirming R i x id l) :=
  fun _ _ _ _ hm hk _ h => ⟨hm.sagaOf h.saga, fun hR => (hk.duties _ _).mp (h.duty hR),
    fun hR => hk.confirm hR x id l (h.duty hR) (h.charged hR)⟩

omit [Hashes] in
theorem confirming_aside (l : List String) : Aside R (Confirming R i x id l) :=
  fun _ _ _ hm _ hs h => ⟨hm.sagaOf h.saga, h.duty, fun hR =>
    ⟨(h.charged hR).1, hm.sagaOf h.saga, (steps_of_same hs).mpr (h.charged hR).2.2⟩⟩

/-- Whoever is to confirm an order reads its saga. -/
theorem confirmingFind_triple (id : String) (l : List String) :
    (flow R).Triple i (Confirming R i x id l) (sagaRepository.findOne { id := some id })
      fun r w g => Confirming R i x id l w g ∧ ∀ s, r = .ok (some s) →
        Known R x s w g ∧ s.id = id ∧ (R.orderly → s.completedSteps = l) := by
  refine (read_triple (o := .sagaFindOne { id := some id }) (V := fun v w g => ∀ s, v = some s →
    Known R x s w g ∧ s.id = id ∧ (R.orderly → s.completedSteps = l))
    (fun w => w.sagas.find? (SagaWhere.selects { id := some id })) (confirming_stable l)
    (fun v => ?_) ⟨by simp [Op.writes], rfl⟩ rfl (fun _ _ => rfl) fun w g c hI hw _ s hs => ?_).post
    fun r w g _ hw => ⟨hw.1, fun s hs => hw.2 _ hs s rfl⟩
  · rintro w g w' g' hm - - h s hs
    obtain ⟨hk, hid, hl⟩ := h s hs
    exact ⟨hk.later hm, hid, hl⟩
  · have hmem := Table.mem_of_find? hs
    have hid : s.id = id := SagaWhere.selects_id (Table.find?_some hs) rfl
    obtain ⟨x', hk⟩ := hI.sagas s hmem
    obtain rfl : x = x' := hk.order_eq (hid ▸ hw.saga)
    exact ⟨hk, hid, fun hR => World.Steps.unique ⟨s, hmem, hid, rfl⟩ (hw.charged hR).2.2⟩

/-- Whoever is to confirm an order writes its saga. -/
theorem confirmingSave_triple {l : List String} (l' : List String) (hid : y.id = id)
    (hl : R.orderly → y.completedSteps = l') :
    (flow R).Triple i (fun w g => Confirming R i x id l w g ∧ Known R x y w g)
      (sagaRepository.save y) fun r w g => (r = .ok () → Confirming R i x id l' w g) ∧
        ∀ e, r = .error e → Confirming R i x id l w g := by
  refine .perform ((confirming_stable l).and (known_lasting x y).stable) (fun r => ?_)
    fun w g hI hw => sagaSave_atomic hI (Or.inl rfl) hw.2 (fun hR j hj hc _ => ?_)
      (fun e => ⟨fun h => by simp at h, fun _ _ => hw.1⟩) fun hm _ =>
        ⟨fun _ => ⟨hm.sagaOf hw.1.saga, hw.1.duty, fun hR => ?_⟩, fun e h => by simp at h⟩
  · exact (Protocol.Stable.imp fun _ => confirming_stable l').and
      (.all fun e => .imp fun _ => confirming_stable l)
  · rw [hw.1.duty hR] at hc
    exact absurd (Option.some.inj hc).symm hj
  · exact ⟨(hw.1.charged hR).1, hm.sagaOf hw.1.saga, (World.steps_putSaga hid _).mpr (hl hR)⟩

/-- The saga of an order is written whose payment has failed. -/
theorem failedSave_triple :
    (flow R).Triple i (fun w g => w.Outcome x .failed ∧ Known R x y w g)
      (sagaRepository.save y) fun _ _ _ => True := by
  refine .perform ((outcome_lasting (Or.inr rfl)).and (known_lasting x y)).stable
    (fun _ => .const _) fun w g hI hw => sagaSave_atomic hI (Or.inl rfl) hw.2
      (fun _ j _ hc _ => absurd hc (not_confirm_of_failed hI hw.1 j)) (fun _ => trivial)
        fun _ _ => trivial

/-! ### After a failure -/

/-- What is known of a row that was read for update. -/
def Seen (R : Regime) (i : ℕ) (id : String) (n : ℕ) (y : SagaInstance) (w : World) (g : Duties) :
    Prop :=
  (w.Owner i n ∧ w.Locks n y.id) ∧ y ∈ w.sagas ∧ y.id = id ∧
    ∃ x, Known R x y w g ∧ (R.undone → w.Cancelled x)

theorem seen_stable (n : ℕ) (y : SagaInstance) : (flow R).Stable i (Seen R i id n y) := by
  rintro w g w' g' hm hk - ⟨⟨ho, hl⟩, hy, hid, x, hx, hc⟩
  exact ⟨⟨ho.later hm.runners, hk.tx.locks ho hl⟩, ((hk.tx n ho).2 _ hl y rfl).mpr hy, hid, x,
    hx.later hm, fun hR => hm.cancelled hR x (hc hR)⟩

theorem owner_lasting (n : ℕ) : (flow R).Lasting fun w _ => w.Owner i n :=
  fun _ _ _ _ hm _ h => h.later hm.runners

/-- An operation within a transaction of the activity's own: it writes rows that were pending,
and only known rows become pending. -/
theorem tx_atomic {o : Op} {Φ : (flow R).Assn (Op.Val o)} (hr : o.isRedis = false)
    (hs : o.starts = false) (hp : .orders ∉ o.writes ∧ .payments ∉ o.writes ∧
      .eventStore ∉ o.writes ∧ .published ∉ o.writes)
    (hI : Inv R w g) (ho : w.Owns i o) (hfail : ∀ e, Φ (.error e) w g)
    (h : ∀ c w' r ts, (flow R).CanRun w g i o c → w.perform i c o = some (w', r, ts) →
      (∀ z, w'.Pending z → w.Pending z ∨
        (∃ x, Known R x z w g) ∧ w.Steps z.id z.completedSteps) ∧
      w.WritesPending w' ∧ ((flow R).Respects i w g w' g → Φ r w' g)) :
    (flow R).atomic i o Φ w g := by
  refine write_atomic hr hs (saves_none hp.1) hI (fun _ => hfail _) fun c w' r ts hc he hperf => ?_
  obtain ⟨hpend, ⟨ss, hss, hsagas⟩, hΦ⟩ := h c w' r ts hc hperf
  have hframe := World.perform_frame hperf
  have hknown : ∀ z, w'.Pending z → (∃ x, Known R x z w g) ∧ w.Steps z.id z.completedSteps := by
    intro z hz
    rcases hpend z hz with hz | hz
    · exact hI.pending z hz
    · exact hz
  -- what is written has the steps that are stored
  have hsteps : ∀ id l, w.Steps id l ↔ w'.Steps id l := by
    intro id l
    rw [steps_of_same hsagas]
    exact World.steps_putSagas ss w (fun y hy hid => hid ▸ (hI.pending y (hss y hy)).2) l
  have hresp : (flow R).Respects i w g w' g := by
    refine respects_sagas _ hI (Or.inl rfl) (World.exec_tx hI.tx ho he) (hframe.orders hp.1)
      (hframe.payments hp.2.1) (hframe.eventStore hp.2.2.1) (hframe.published hp.2.2.2) hsagas
      (fun y hy => (hI.pending y (hss y hy)).1)
      (fun _ y hy _ _ _ _ _ _ => (hI.pending y (hss y hy)).2) fun z hz => ?_
    obtain ⟨hk, hl⟩ := hknown z hz
    exact ⟨hk, (hsteps _ _).mp hl⟩
  exact ⟨g, hresp, hΦ hresp⟩

/-- **What the handling of a failure takes.** -/
theorem compensating (id : String) :
    Compensating (flow R) i id (fun _ _ => True) (Seen R i id) where
  stable := .const _
  owner := owner_lasting
  seen := seen_stable
  connect := by
    refine .perform (.const _) (fun r => (Protocol.Stable.const _).and (.all fun n => .imp fun _ =>
      (owner_lasting n).stable)) fun w g hI _ => ?_
    have hown : w.Owns i .connect := ⟨fun _ h => (by cases h), fun _ _ h => (by cases h)⟩
    refine tx_atomic rfl rfl (by simp [Op.writes]) hI hown
      (fun e => ⟨trivial, fun n h => by simp at h⟩) fun c w' r ts _ hp => ?_
    simp only [World.perform, Option.some.injEq, Prod.mk.injEq] at hp
    obtain ⟨rfl, rfl, -⟩ := hp
    refine ⟨fun z hz => Or.inl hz, .of_same rfl, fun _ => ⟨trivial, fun n hn => ?_⟩⟩
    rw [← Except.ok.inj hn]
    exact List.getElem?_concat_length
  control := by
    intro n o ho
    have hparts : o.isRedis = false ∧ o.starts = false ∧ (.orders ∉ o.writes ∧
        .payments ∉ o.writes ∧ .eventStore ∉ o.writes ∧ .published ∉ o.writes) ∧
        ∀ r s, o ≠ .txSagaSave r s := by
      simp only [Op.controls, List.mem_cons, List.not_mem_nil, or_false] at ho
      rcases ho with rfl | rfl | rfl | rfl <;> simp [Op.writes, Op.isRedis, Op.starts]
    refine .perform ((Protocol.Stable.const _).and (owner_lasting n).stable) (fun _ => .const _)
      fun w g hI hw => tx_atomic hparts.1 hparts.2.1 hparts.2.2.1 hI
        (.of_owner hw.2 (fun r => Op.runner?_control ho) hparts.2.2.2) (fun _ => trivial)
          fun c w' r ts _ hp => ?_
    obtain ⟨hpend, hwrites⟩ := World.perform_control ho hp
    exact ⟨fun z hz => Or.inl (hpend z hz), hwrites, fun _ => trivial⟩
  find := by
    intro n
    refine .perform ((Protocol.Stable.const _).and (owner_lasting n).stable)
      (fun r => (Protocol.Stable.const _).and (.all fun y => .imp fun _ => seen_stable n y))
      fun w g hI hw => tx_atomic rfl rfl (by simp [Op.writes]) hI
        (.of_owner hw.2 (fun r hr => (Option.some.inj hr).symm) fun r s h => by cases h)
          (fun e => ⟨trivial, fun y h => by simp at h⟩) fun c w' r ts hc hp => ?_
    obtain ⟨hpend, hsagas, hseen⟩ := World.perform_txFind hp
    refine ⟨fun z hz => Or.inl (hpend z hz), .of_same hsagas,
      fun hresp => ⟨trivial, fun y hy => ?_⟩⟩
    obtain ⟨hl, hmem, hid⟩ := hseen y hy
    obtain ⟨x, hk⟩ := hI.sagas y hmem
    refine ⟨⟨hw.2.later hresp.mono.runners, hid ▸ hl⟩, hsagas ▸ hmem, hid, x, hk.later hresp.mono,
      fun hR => hresp.mono.cancelled hR x ?_⟩
    exact (hc.1.2 hR).1 _ rfl y hmem hid x hk.order
  save := by
    rintro n y z ⟨status, currentStep, errorMessage, hst, rfl⟩
    refine .perform (((Protocol.Stable.const _).and (owner_lasting n).stable).and (seen_stable n y))
      (fun _ => .const _) fun w g hI hw => ?_
    obtain ⟨⟨-, ho⟩, ⟨-, hl⟩, hy, hid, x, hk, hc⟩ := hw
    have hown : w.Owns i (.txSagaSave n { y with status, currentStep, errorMessage }) := by
      refine ⟨fun r hr => Option.some.inj hr ▸ ho, fun r s hs => ?_⟩
      obtain ⟨rfl, rfl⟩ := Op.txSagaSave.inj hs
      exact hl
    refine tx_atomic rfl rfl (by simp [Op.writes]) hI hown (fun _ => trivial)
      fun c w' r ts _ hp => ?_
    obtain ⟨hpend, hsagas⟩ := World.perform_txSave hp
    refine ⟨fun z hz => ?_, .of_same hsagas, fun _ => trivial⟩
    -- the copy that was read is written, with another status
    rcases hpend z hz with rfl | hz
    · refine Or.inr ⟨⟨x, hk.rewrite rfl rfl (fun hR _ => hc hR) fun _ h => ?_⟩, y, hy, rfl, rfl⟩
      rcases hst with rfl | rfl | rfl <;> simp at h
    · exact Or.inl hz
  send := fun m => quiet_triple (.const _) ⟨by simp [Op.writes], rfl⟩

/-- **Handling a failure respects what the activities agree on.** -/
theorem failure_triple (saga : SagaInstance) (failedStep errorMessage : String) :
    (flow R).Triple i (fun _ _ => True) (handleSagaFailure saga failedStep errorMessage)
      fun _ _ _ => True :=
  (compensating saga.id).handleSagaFailure_triple rfl failedStep errorMessage
    fun _ _ _ _ h => h.2.2.1

end Flow

end CqrsSaga
