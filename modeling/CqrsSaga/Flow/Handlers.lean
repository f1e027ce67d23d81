import CqrsSaga.Flow.Payments

/-!
# The saga in the flow of orders

The three reactions of the saga: an order that was created is charged, one whose payment
went through is confirmed, and one whose payment has failed is cancelled.

## Main results

* `Flow.handleOrderCreated_triple`, `Flow.handlePaymentProcessed_triple`,
  `Flow.handlePaymentFailed_triple` — **the reactions.**
* `Flow.task_triple` — all work that is handed over.
-/

namespace CqrsSaga

open RedisLockService SagaManager KafkaService OrderProcessingSaga

namespace Flow

variable [Hashes] {R : Regime} {i : ℕ} {x id : String} {y : SagaInstance}

omit [Hashes] in
/-- Another step may be the current one. -/
theorem Known.current {w : World} {g : Duties} (h : Known R x y w g) (s : String) :
    Known R x { y with currentStep := s } w g :=
  h.rewrite rfl rfl h.undone h.done

omit [Hashes] in
/-- Keys are not empty. -/
theorem Inv.key_ne {w : World} {g : Duties} (hI : Inv R w g) {k : String} (h : w.Keyed x k) :
    k ≠ "" := by
  obtain ⟨o, ho, -, hk⟩ := h
  obtain ⟨⟨k', hk', hne⟩, -⟩ := hI.books.columns o ho
  rw [hk] at hk'
  exact Option.some.inj hk' ▸ hne

/-! ### An order was created -/

/-- What is known once the saga of an order has been looked for. -/
def Started (R : Regime) (i : ℕ) (e : OrderCreatedEvent) (s : SagaInstance) (w : World)
    (g : Duties) : Prop :=
  Driving R i e w g ∧ Known R e.orderId s w g

theorem started_stable (e : OrderCreatedEvent) (s : SagaInstance) :
    (flow R).Stable i (Started R i e s) :=
  (driving_stable e).and (known_lasting _ s).stable

/-- The saga with the key of an order is the order's. -/
theorem findOrCreate_triple {e : OrderCreatedEvent} {k : String} (hk : e.correlationId = some k) :
    (flow R).Triple i (Driving R i e) (findOrCreate sagaType k (sagaData e) []) fun r w g =>
      ∀ s, r = .ok s → Started R i e s w g := by
  have hst : ∀ r : Except Err SagaInstance, (flow R).Stable i fun w g =>
      ∀ s, r = .ok s → Started R i e s w g :=
    fun r => .all fun s => .imp fun _ => started_stable e s
  have hthrow : ∀ (err : Err) {G : World → Duties → Prop},
      (flow R).Triple i G (.throw err : Async App SagaInstance) fun r w g =>
        ∀ s, r = .ok s → Started R i e s w g :=
    fun err G => .pre (F := fun _ _ => True) (fun _ _ _ _ => trivial)
      (.throw (.const _) fun _ _ _ _ s h => by simp at h)
  refine .bind _ (sagaFindOne_triple (driving_stable e)) (fun found => ?_) fun err => hthrow err
  cases found with
  | some s =>
    refine Protocol.Triple.pre (F := Started R i e s) (fun w g _ hw => ⟨hw.1, ?_⟩)
      (.ret (started_stable e s) fun w g _ hw s' h => Except.ok.inj h ▸ hw)
    obtain ⟨⟨x, hs⟩, hq⟩ := hw.2 s rfl
    obtain ⟨-, hco⟩ := World.selects_pair.mp hq
    -- the key belongs to one order
    obtain ⟨o, ho, hid, -, -, hkey⟩ := hw.1.event.stored
    have hx : x = e.orderId :=
      World.Keyed.order_unique (hco ▸ hs.key) ⟨o, ho, hid, hkey.trans hk⟩
    exact hx ▸ hs
  | none =>
    refine .bind (fun r w g => ∀ s, r = .ok s → Started R i e s w g)
      (.conseq (fun w g _ hw => hw.1) (fun r w g _ hw s h => ⟨hw.1, hw.2 s h⟩)
        (sagaInsert_triple (e := e) rfl (by simp [newSaga, sagaData]) hk rfl rfl))
      (fun s => ?_) fun err => hthrow err
    refine Protocol.Triple.pre (F := Started R i e s) (fun w g _ hw => hw s rfl) ?_
    refine after (handPlain_triple (started_stable e s) fun _ _ _ _ => trivial) fun _ => ?_
    exact .ret (started_stable e s) fun w g _ hw s' h => Except.ok.inj h ▸ hw

theorem startSaga_triple {e : OrderCreatedEvent} {k : String} (hk : e.correlationId = some k) :
    (flow R).Triple i (Driving R i e) (startSaga sagaType k (sagaData e) []) fun r w g =>
      ∀ s, r = .ok s → Started R i e s w g := by
  refine withLock_triple (driving_stable e) (driving_stable e) (fun r => ?_)
    (fun w g tok c _ hw _ => hw) (findOrCreate_triple hk) fun err w g _ s h => by simp at h
  exact .all fun s => .imp fun _ => started_stable e s

/-- Charging an order: the payment is stored, and the duty to settle it handed over. -/
theorem paymentAction_triple {e : OrderCreatedEvent} {s : SagaInstance} :
    (flow R).Triple i (Started R i e s) (paymentAction s e) fun _ _ g =>
      g .charge e.orderId = some i := by
  have hduty := duty_stable (R := R) (i := i) .charge e.orderId
  have hkeyed : (flow R).Lasting fun w _ => w.Keyed e.orderId s.correlationId := keyed_lasting _ _
  refine .bind (fun _ _ g => g .charge e.orderId = some i) ?_ (fun _ => ?_) fun err => .fail hduty
  · have hinsert := (paymentInsert_triple (R := R) (i := i) (e := e)
      (n := ProcessPaymentHandler.newPayment
        ⟨e.orderId, e.userId, e.totalAmount, .creditCard, some s.correlationId⟩)
      rfl rfl rfl rfl).frame hkeyed
    refine .bind _ (hinsert.pre fun w g _ hw => ⟨hw.1, hw.2.key⟩) (fun p => ?_) fun err => ?_
    · -- the payment is the order's
      refine .assuming (fun w g _ hw => (hw.1.2 p rfl).1) fun hp => ?_
      have horder : p.orderId = e.orderId := congrArg NewPayment.orderId hp
      refine Protocol.Triple.pre (F := fun (w : World) (g : Duties) =>
        g .charge e.orderId = some i ∧ SettlingKeyed i p s.correlationId w g)
        (fun w g _ hw => ?_) ?_
      · exact ⟨hw.1.1, (hw.1.2 p rfl).2, horder.symm ▸ hw.2⟩
      · refine after (handDuty_triple (hduty.and (settlingKeyed_stable p _)) hduty .settle p.orderId
          (fun w g hw => hw.2.1.duty) (fun n w g _ hw => ?_) fun n w g hw => ?_)
          fun _ => .skip hduty
        · exact ⟨⟨Duties.pass_self .., hw.2.1.row⟩, _, rfl, hw.2.2⟩
        · exact (Duties.pass_of_ne _ (by simp)).trans hw.1
    · exact Protocol.Triple.pre (fun w g _ hw => hw.1.1) (.fail hduty)
  · exact (logger_triple hduty _).post fun r w g _ hw => hw.2

/-- The payment step: the order is charged unless this is recorded already. -/
theorem paymentSection_triple {e : OrderCreatedEvent} {s : SagaInstance} :
    (flow R).Triple i (Started R i e s)
      (stepSection s.id "payment_processing" (paymentAction s e)) fun _ _ _ => True := by
  have hany : (flow R).Stable i fun _ _ => True := .const _
  refine .bind _ (sagaFindOne_triple (started_stable e s)) (fun found => ?_) fun _ => .failed
  cases found with
  | none => exact .failed
  | some t =>
    refine Protocol.Triple.pre
      (F := fun w g => Started R i e s w g ∧ Known R e.orderId t w g) (fun w g _ hw => ?_) ?_
    · obtain ⟨⟨x, ht⟩, hq⟩ := hw.2 t rfl
      have hid : s.id = t.id := (SagaWhere.selects_id hq rfl).symm
      obtain rfl : e.orderId = x := ht.order_eq (hid ▸ hw.1.2.sagaOf)
      exact ⟨hw.1, ht⟩
    have hboth := (started_stable (R := R) (i := i) e s).and (known_lasting e.orderId t).stable
    dsimp only
    split
    · exact .ret hboth fun _ _ _ _ => trivial
    · -- both the saga that was started and the row read stay known
      have hknown : (flow R).Lasting fun w g => Known R e.orderId s w g ∧ Known R e.orderId t w g :=
        (known_lasting _ _).and (known_lasting _ _)
      have hsave := (drivingSave_triple (R := R) (i := i) (e := e)
        (y := { t with currentStep := "payment_processing" })).frame hknown
      refine .bind _ (hsave.pre fun w g _ hw => ⟨⟨hw.1.1, hw.2.current _⟩, hw.1.2, hw.2⟩)
        (fun _ => ?_) fun _ => .failed
      have haction := (paymentAction_triple (R := R) (i := i) (e := e) (s := s)).frame
        (known_lasting e.orderId t)
      refine .bind _ (haction.pre fun w g _ hw => ⟨⟨hw.1, hw.2.1⟩, hw.2.2⟩) (fun _ => ?_)
        fun _ => .failed
      refine .bind (fun _ _ _ => True) ((recordSave_triple (R := R) (i := i)
        (y := { t with currentStep := "payment_processing" }) (s := "payment_processing")
        (by simp)).pre
          fun w g _ hw => ⟨hw.1, hw.2.current _⟩) (fun _ => ?_) fun _ => .failed
      exact Protocol.Triple.post (fun _ _ _ _ _ => trivial)
        (handPlain_triple hany fun _ _ _ _ => trivial)

/-- The `catch` block of a step, after its line in the log. -/
theorem failedStep_triple (sagaId stepName : String) (error : Err) :
    (flow R).Triple i (fun _ _ => True) ((sagaRepository.findOne { id := some sagaId }).bind
      fun saga => match saga with
        | some saga => handleSagaFailure saga stepName error.message
        | none => .ret ()) fun _ _ _ => True := by
  have hany : (flow R).Stable i fun _ _ => True := .const _
  refine .seq hany ((sagaFindOne_triple hany).post fun _ _ _ _ _ => trivial) fun found => ?_
  cases found with
  | none => exact .ended
  | some s => exact failure_triple s stepName error.message

theorem stepFailed_triple (sagaId stepName : String) (error : Err) :
    (flow R).Triple i (fun _ _ => True) (stepFailed sagaId stepName error) fun _ _ _ => True :=
  .seq (.const _) ((logger_triple (.const _) _).post fun _ _ _ _ _ => trivial)
    fun _ => failedStep_triple sagaId stepName error

/-- **An order that was created is charged.** -/
theorem handleOrderCreated_triple (e : OrderCreatedEvent) :
    (flow R).Triple i (Driving R i e) (handleOrderCreated e) fun _ _ _ => True := by
  have hany : (flow R).Stable i fun _ _ => True := .const _
  unfold handleOrderCreated
  cases hk : truthy e.correlationId with
  | none => exact .ret (driving_stable e) fun _ _ _ _ => trivial
  | some k =>
    refine .bind _ (startSaga_triple (truthy_eq_some.mp hk).1) (fun s => ?_) fun _ => .failed
    refine Protocol.Triple.pre (F := Started R i e s) (fun w g _ hw => hw s rfl) ?_
    refine .handle (fun _ _ _ => True) ?_ (fun err => stepFailed_triple _ _ _) fun _ => .ended
    exact withLock_triple (started_stable e s) (started_stable e s) (fun _ => hany)
      (fun w g tok c _ hw _ => hw) paymentSection_triple fun _ _ _ _ => trivial

/-! ### A payment went through -/

/-- The saga with the key of a payment's order is the order's. -/
theorem findSaga_triple {F : World → Duties → Prop} {correlationId : Option String}
    (hF : (flow R).Stable i F) :
    (flow R).Triple i (fun w g => F w g ∧ ∃ k, correlationId = some k ∧ w.Keyed x k)
      (findSagaByCorrelationId correlationId (some sagaType)) fun r w g =>
        F w g ∧ ∀ s, r = .ok (some s) → Known R x s w g := by
  have hpre : (flow R).Stable i fun w g => F w g ∧ ∃ k, correlationId = some k ∧ w.Keyed x k :=
    hF.and fun _ _ _ _ hm _ _ ⟨k, hk, hkeyed⟩ => ⟨k, hk, hm.keyed hkeyed⟩
  refine (sagaFindOne_triple hpre).post fun r w g _ hw => ⟨hw.1.1, fun s hs => ?_⟩
  obtain ⟨k, rfl, hkeyed⟩ := hw.1.2
  obtain ⟨⟨x', hk⟩, hq⟩ := hw.2 s hs
  have hco : s.correlationId = k := SagaWhere.selects_correlationId hq rfl
  obtain rfl : x' = x := World.Keyed.order_unique hk.key (hco ▸ hkeyed)
  exact hk

/-- Activity `i` confirms the order `x`, whose payment step is recorded. -/
def Paid (R : Regime) (i : ℕ) (x id : String) (l : List String) (w : World) (g : Duties) : Prop :=
  Confirming R i x id l w g ∧ (R.orderly → "payment_processing" ∈ l)

/-- The order `x` was confirmed: both steps are recorded. -/
def Confirmed (R : Regime) (i : ℕ) (x id : String) (w : World) (g : Duties) : Prop :=
  ∃ l, Paid R i x id l w g ∧ (R.orderly → "order_confirmation" ∈ l)

theorem paid_stable (l : List String) : (flow R).Stable i (Paid R i x id l) :=
  (confirming_stable l).and (.const _)

theorem confirmed_stable : (flow R).Stable i (Confirmed R i x id) :=
  fun _ _ _ _ hm hk hI ⟨l, h, hl⟩ => ⟨l, paid_stable l hm hk hI h, hl⟩

/-- Activity `i` confirms the order of the event, in the name of the saga `s`. -/
def Acting (R : Regime) (i : ℕ) (e : PaymentProcessedEvent) (s : SagaInstance) (l : List String)
    (w : World) (g : Duties) : Prop :=
  Confirming R i e.orderId s.id l w g ∧
    Confirmable R i ⟨e.orderId, some e.paymentId, some s.correlationId⟩ w

theorem acting_stable (e : PaymentProcessedEvent) (s : SagaInstance) (l : List String) :
    (flow R).Stable i (Acting R i e s l) :=
  (confirming_stable l).and (confirmable_lasting _).stable

/-- The order is confirmed, or was decided before. -/
theorem confirmationAction_triple {e : PaymentProcessedEvent} {s : SagaInstance}
    {l : List String} :
    (flow R).Triple i (Acting R i e s l) (confirmationAction s e) fun r w g =>
      Confirming R i e.orderId s.id l w g ∧ (r = .ok () → w.Decided e.orderId) := by
  have hC : (flow R).Stable i (Confirming R i e.orderId s.id l) := confirming_stable l
  refine .bind _ (confirmOrder_triple hC (confirming_aside l) _) (fun _ => ?_) fun err => ?_
  · refine .conseq (fun w g _ hw => ⟨hw.1, hw.2 rfl⟩) (fun (r : Except Err Unit) w g _ hw =>
      ⟨hw.2.1, fun _ => hw.2.2⟩) (logger_triple (hC.and (decided_lasting e.orderId).stable) _)
  · exact .throw (hC.and (.imp fun _ => (decided_lasting _).stable))
      fun w g _ hw => ⟨hw.1, fun h => by simp at h⟩

/-- The confirmation step. -/
theorem confirmationSection_triple {e : PaymentProcessedEvent} {s : SagaInstance}
    {l : List String} (hx : x = e.orderId) :
    (flow R).Triple i (fun w g => Paid R i x s.id l w g ∧
        Confirmable R i ⟨e.orderId, some e.paymentId, some s.correlationId⟩ w)
      (stepSection s.id "order_confirmation" (confirmationAction s e)) fun r w g =>
        w.SagaOf x s.id ∧ (r = .ok () → Confirmed R i x s.id w g) := by
  subst hx
  have hcommand := confirmable_lasting (R := R) (i := i)
    ⟨e.orderId, some e.paymentId, some s.correlationId⟩
  -- an error leaves the saga to whoever handles it
  have hthrow : ∀ err : Err, (flow R).Triple i (Confirming R i e.orderId s.id l)
      (.throw err : Async App Unit) fun r w g =>
        w.SagaOf e.orderId s.id ∧ (r = .ok () → Confirmed R i e.orderId s.id w g) :=
    fun err => .throw (confirming_stable l) fun w g _ hw => ⟨hw.saga, fun h => by simp at h⟩
  have hfind := (confirmingFind_triple (R := R) (i := i) (x := e.orderId) s.id l).frame
    ((Protocol.Lasting.const (R.orderly → "payment_processing" ∈ l)).and hcommand)
  refine .bind _ (hfind.pre fun w g _ hw => ⟨hw.1.1, hw.1.2, hw.2⟩) (fun found => ?_)
    fun err => .pre (fun w g _ hw => hw.1.1) (hthrow err)
  cases found with
  | none => exact .pre (fun w g _ hw => hw.1.1) (hthrow _)
  | some t =>
    refine .assuming (A := t.id = s.id ∧ (R.orderly → t.completedSteps = l ∧
      "payment_processing" ∈ l)) (fun w g _ hw => ?_) fun ⟨hid, hl⟩ => ?_
    · obtain ⟨-, hid, hl⟩ := hw.1.2 t rfl
      exact ⟨hid, fun hR => ⟨hl hR, hw.2.1 hR⟩⟩
    refine Protocol.Triple.pre (F := fun w g => Acting R i e s l w g ∧ Known R e.orderId t w g)
      (fun w g _ hw => ⟨⟨hw.1.1, hw.2.2⟩, (hw.1.2 t rfl).1⟩) ?_
    have hst : (flow R).Stable i fun w g => Acting R i e s l w g ∧ Known R e.orderId t w g :=
      (acting_stable e s l).and (known_lasting e.orderId t).stable
    dsimp only
    split
    · next hmem =>
      refine .ret hst fun w g _ hw => ⟨hw.1.1.saga, fun _ =>
        ⟨l, ⟨hw.1.1, fun hR => (hl hR).2⟩, fun hR => (hl hR).1 ▸ hmem⟩⟩
    · have hsave := (confirmingSave_triple (R := R) (i := i) (x := e.orderId)
        (y := { t with currentStep := "order_confirmation" }) (l := l) l hid
        fun hR => (hl hR).1).frame (hcommand.and (known_lasting e.orderId t))
      refine .bind _ (hsave.pre fun w g _ hw => ⟨⟨hw.1.1, hw.2.current _⟩, hw.1.2, hw.2⟩)
        (fun _ => ?_) fun err => .pre (fun w g _ hw => hw.1.2 err rfl) (hthrow err)
      -- the action is run
      have haction := (confirmationAction_triple (R := R) (i := i) (e := e) (s := s) (l := l)).frame
        (known_lasting e.orderId t)
      refine .bind _ (haction.pre fun w g _ hw => ⟨⟨hw.1.1 rfl, hw.2.1⟩, hw.2.2⟩)
        (fun _ => ?_) fun err => .pre (fun w g _ hw => hw.1.1) (hthrow err)
      -- and the step recorded
      refine .bind _ ((confirmingSave_triple (R := R) (i := i) (x := e.orderId) (l := l)
        (y := { t with
          currentStep := "order_confirmation"
          completedSteps := t.completedSteps ++ ["order_confirmation"] })
        (l ++ ["order_confirmation"]) hid fun hR => by simp [(hl hR).1]).pre
          fun w g _ hw => ⟨hw.1.1, (hw.2.current "order_confirmation").note
            ((flow R).mono_refl w g) (fun hR => (hw.1.1.charged hR).1) fun _ => hw.1.2 rfl⟩)
        (fun _ => ?_) fun err => .pre (fun w g _ hw => hw.2 err rfl) (hthrow err)
      refine Protocol.Triple.conseq (F := Confirmed R i e.orderId s.id) (fun w g _ hw =>
        ⟨_, ⟨hw.1 rfl, fun hR => List.mem_append_left _ (hl hR).2⟩, fun _ => by simp⟩)
        (fun r w g _ hw => ⟨?_, fun _ => hw.2⟩) (handPlain_triple confirmed_stable
          fun _ _ _ _ => trivial)
      obtain ⟨-, l', ⟨hc, -⟩, -⟩ := hw
      exact hc.saga

/-- The confirmation step, with its `catch` block. -/
theorem confirmationStep_triple {e : PaymentProcessedEvent} {s : SagaInstance}
    (hx : x = e.orderId) :
    (flow R).Triple i (fun w g => (Known R x s w g ∧ (R.orderly → g .confirm x = some i)) ∧
        Confirmable R i ⟨e.orderId, some e.paymentId, some s.correlationId⟩ w)
      (executeSagaStep s.id "order_confirmation" (confirmationAction s e)) fun r w g =>
        r = .ok () → Confirmed R i x s.id w g := by
  have hcommand := confirmable_lasting (R := R) (i := i)
    ⟨e.orderId, some e.paymentId, some s.correlationId⟩
  have hF : (flow R).Stable i fun w g => (Known R x s w g ∧ (R.orderly → g .confirm x = some i)) ∧
      Confirmable R i ⟨e.orderId, some e.paymentId, some s.correlationId⟩ w :=
    ((known_lasting x s).stable.and (.imp fun _ => duty_stable _ x)).and hcommand.stable
  have hG : (flow R).Stable i fun w g => ∃ l, Paid R i x s.id l w g ∧
      Confirmable R i ⟨e.orderId, some e.paymentId, some s.correlationId⟩ w :=
    fun _ _ _ _ hm hk hI ⟨l, h, hc⟩ => ⟨l, paid_stable l hm hk hI h, hcommand hm hI hc⟩
  have hQ : ∀ r : Except Err Unit, (flow R).Stable i fun w g =>
      w.SagaOf x s.id ∧ (r = .ok () → Confirmed R i x s.id w g) :=
    fun r => (sagaOf_lasting x s.id).stable.and (.imp fun _ => confirmed_stable)
  refine .handle _ (withLock_triple hF hG hQ (fun w g tok c hI hw hc => ?_)
    (.given fun l => confirmationSection_triple hx) fun err w g hw =>
      ⟨hw.1.1.sagaOf, fun h => by simp at h⟩) (fun err => ?_) fun a => ?_
  · -- the lock is tried for once the payment step is recorded
    obtain ⟨t, ht, hid, hd⟩ := hw.1.1.sagaOf
    refine ⟨t.completedSteps, ⟨⟨hw.1.1.sagaOf, hw.1.2, fun hR =>
      ⟨?_, hw.1.1.sagaOf, t, ht, hid, rfl⟩⟩, fun hR => (hc.1.1 hR).2 _ rfl t ht (by rw [hid])⟩, hw.2⟩
    obtain ⟨x', hk⟩ := hI.sagas t ht
    obtain rfl : x' = x := Option.some.inj (hk.order.symm.trans hd)
    cases hx : g .charge x' with
    | none => rfl
    | some j => exact absurd ((hc.1.1 hR).2 _ rfl t ht (by rw [hid])) (hk.charged hR j hx)
  · -- no confirmation fails where steps come in order
    have hlog : (flow R).Triple i (fun (w : World) _ => w.SagaOf x s.id)
        (logger (.stepFailed "order_confirmation" s.id)) fun _ w _ =>
          ¬R.orderly ∧ w.SagaOf x s.id := by
      refine .perform (sagaOf_lasting x s.id).stable (fun _ => (Protocol.Stable.const _).and
        (sagaOf_lasting x s.id).stable) fun w g hI hw => ?_
      refine quiet_atomic ⟨by simp [Op.writes], rfl⟩ hI fun c w' r ts hc _ _ hm _ => ?_
      exact ⟨fun hR => (hc.1.1 hR).1 _ rfl rfl, hm.sagaOf hw⟩
    refine Protocol.Triple.pre (F := fun (w : World) _ => w.SagaOf x s.id)
      (fun w g _ hw => hw.1) ?_
    refine .bind _ hlog (fun _ => ?_) fun err => ?_
    · refine .assuming (fun w g _ hw => hw.1) fun hR => ?_
      refine (((failedStep_triple s.id "order_confirmation" err).frame
        (sagaOf_lasting x s.id)).pre fun w g _ hw => ⟨trivial, hw.2⟩).post ?_
      exact fun r w g _ hw _ => ⟨[], ⟨⟨hw.2, fun h => absurd h hR, fun h => absurd h hR⟩,
        fun h => absurd h hR⟩, fun h => absurd h hR⟩
    · exact .throw ((Protocol.Stable.const _).and (sagaOf_lasting x s.id).stable)
        fun w g _ _ h => by simp at h
  · exact .ret (hQ _) fun w g _ hw h => hw.2 h

/-- A confirmed order's saga is completed. -/
theorem completeSaga_triple :
    (flow R).Triple i (Confirmed R i x id) (completeSaga id) fun _ _ _ => True := by
  have hany : (flow R).Stable i fun _ _ => True := .const _
  refine .given fun l => ?_
  refine Protocol.Triple.assuming (A := R.orderly → "payment_processing" ∈ l ∧
    "order_confirmation" ∈ l) (fun w g _ hw hR => ⟨hw.1.2 hR, hw.2 hR⟩) fun hl => ?_
  refine Protocol.Triple.pre (fun w g _ hw => hw.1.1) ?_
  refine .bind _ (confirmingFind_triple id l) (fun found => ?_) fun _ => .failed
  cases found with
  | none => exact .failed
  | some t =>
    refine .assuming (A := t.id = id ∧ (R.orderly → t.completedSteps = l)) (fun w g _ hw =>
      (hw.2 t rfl).2) fun ⟨hid, hsteps⟩ => ?_
    refine Protocol.Triple.pre (F := fun w g => Confirming R i x id l w g ∧ Known R x t w g)
      (fun w g _ hw => ⟨hw.1, (hw.2 t rfl).1⟩) ?_
    have hst : (flow R).Stable i fun w g => Confirming R i x id l w g ∧ Known R x t w g :=
      (confirming_stable l).and (known_lasting x t).stable
    dsimp only
    split
    · exact .ret hst fun _ _ _ _ => trivial
    · have hknown : ∀ w g, Known R x t w g →
          Known R x { t with status := .completed, currentStep := "completed" } w g := by
        intro w g h
        refine h.rewrite rfl rfl (fun _ h => by simp at h) fun hR _ => ?_
        rw [hsteps hR]
        exact hl hR
      refine .bind (fun _ _ _ => True) (.conseq (fun w g _ hw => ⟨hw.1, hknown w g hw.2⟩)
        (fun _ _ _ _ _ => trivial) (confirmingSave_triple l hid hsteps)) (fun _ => ?_)
        fun _ => .failed
      refine Protocol.Triple.post (fun _ _ _ _ _ => trivial) (handPlain_triple hany ?_)
      exact fun _ _ _ _ => trivial

/-- **An order whose payment went through is confirmed.** -/
theorem handlePaymentProcessed_triple (e : PaymentProcessedEvent) :
    (flow R).Triple i (fun w g => (Event.paymentProcessed e).Ok R w ∧ g .confirm e.orderId = some i)
      (handlePaymentProcessed e) fun _ _ _ => True := by
  have hpaid := paidBy_lasting (R := R) e.orderId (some e.paymentId)
  have hfind : (flow R).Triple i
      (fun w g => (Event.paymentProcessed e).Ok R w ∧ g .confirm e.orderId = some i)
      (findSagaByCorrelationId e.correlationId (some sagaType)) fun r w (g : Duties) =>
        (g .confirm e.orderId = some i ∧ w.PaidBy e.orderId (some e.paymentId)) ∧
          ∀ s, r = .ok (some s) → Known R e.orderId s w g := by
    refine (findSaga_triple ((duty_stable .confirm e.orderId).and hpaid.stable)).pre ?_
    rintro w g - ⟨hok, hd⟩
    obtain ⟨⟨p, hp, hid, ho, hs⟩, hk⟩ := hok.stored
    exact ⟨⟨hd, p, hp, congrArg some hid.symm, ho, hs⟩, hk⟩
  refine .bind _ hfind (fun found => ?_) fun _ => .failed
  cases found with
  | none => exact .ended
  | some s =>
    refine .bind _ ((confirmationStep_triple rfl).pre fun w g hI hw => ?_) (fun _ => ?_)
      fun _ => .failed
    · have hk := hw.2 s rfl
      exact ⟨⟨hk, fun _ => hw.1.1⟩, fun _ => Or.inl hw.1.2, Or.inl ⟨_, rfl, hI.key_ne hk.key, hk.key⟩⟩
    · exact completeSaga_triple.pre fun w g _ hw => hw rfl

/-! ### A payment has failed -/

/-- The order is cancelled, and only then its saga marked. -/
theorem cancellation_triple {e : PaymentFailedEvent} {s : SagaInstance} :
    (flow R).Triple i (fun w g => w.Outcome e.orderId .failed ∧ Known R e.orderId s w g)
      (executeOrderCancellationStep s e) fun _ _ _ => True := by
  have hF : (flow R).Lasting fun w g => w.Outcome e.orderId .failed ∧ Known R e.orderId s w g :=
    (outcome_lasting (Or.inr rfl)).and (known_lasting _ s)
  refine .handle (fun _ _ _ => True) ?_ (fun err => failure_triple s _ _) fun _ => .ended
  have hcancel := ((cancelOrder_triple (R := R) (i := i) ⟨e.orderId, e.userId,
    some ("Payment failed: " ++ e.failureReason), some s.correlationId⟩).frame hF).pre
      (G := fun (w : World) g => w.Outcome e.orderId .failed ∧ Known R e.orderId s w g)
      fun w g hI hw =>
        ⟨⟨fun _ => Or.inl hw.1, Or.inl ⟨_, rfl, hI.key_ne hw.2.key, hw.2.key⟩⟩, hw⟩
  refine .bind _ hcancel (fun _ => ?_) fun _ => .failed
  refine failedSave_triple.pre fun w g _ hw => ⟨hw.2.1, ?_⟩
  exact hw.2.2.rewrite rfl rfl (fun hR _ => hw.1 hR rfl) fun _ h => by simp at h

/-- **An order whose payment has failed is cancelled.** -/
theorem handlePaymentFailed_triple (e : PaymentFailedEvent) :
    (flow R).Triple i (fun w _ => (Event.paymentFailed e).Ok R w) (handlePaymentFailed e)
      fun _ _ _ => True := by
  have hfind : (flow R).Triple i (fun w _ => (Event.paymentFailed e).Ok R w)
      (findSagaByCorrelationId e.correlationId (some sagaType)) fun r w g =>
        w.Outcome e.orderId .failed ∧ ∀ s, r = .ok (some s) → Known R e.orderId s w g := by
    refine (findSaga_triple (outcome_lasting (Or.inr rfl)).stable).pre ?_
    rintro w g - hw
    obtain ⟨⟨p, hp, -, ho, hs⟩, hk⟩ := hw.stored
    exact ⟨⟨p, hp, ho, hs⟩, hk⟩
  refine .bind _ hfind (fun found => ?_) fun _ => .failed
  cases found with
  | none => exact .ended
  | some s => exact cancellation_triple.pre fun w g _ hw => ⟨hw.1, hw.2 s rfl⟩

/-! ### All activities -/

/-- **Every handler respects what the activities agree on.** -/
theorem delivery_triple (d : Delivery) :
    (flow R).Triple i (fun w g => TaskBorn R i w g (.deliver d)) d.run fun _ _ _ => True := by
  -- the handlers that store the event of an order, or of a payment
  have horder (e : Event) (aggregateType eventType : String) {eventData : EventData}
      (hdata : eventData.orderId = e.orderId) :
      (flow R).Triple i (fun w _ => e.Ok R w)
        (storeAndPublish "order-events" e.orderId aggregateType eventType eventData e)
        fun _ _ _ => True :=
    (storeAndPublish_triple _ _ _ (ok_lasting e).stable (fun _ _ h => h) hdata
      fun _ _ _ => Or.inl rfl).post fun _ _ _ _ _ => trivial
  have hpayment (e : Event) {paymentId : String} (eventType : String) {eventData : EventData}
      (hdata : eventData.orderId = e.orderId) (hstored : ∀ w : World, e.Stored w →
        ∃ p ∈ w.payments, p.id = paymentId ∧ p.orderId = e.orderId) :
      (flow R).Triple i (fun w _ => e.Ok R w)
        (storeAndPublish "payment-events" paymentId "Payment" eventType eventData e)
        fun _ _ _ => True :=
    (storeAndPublish_triple _ _ _ (ok_lasting e).stable (fun _ _ h => h) hdata
      fun w _ h => Or.inr (hstored w h.stored)).post fun _ _ _ _ _ => trivial
  cases d with
  | orderCreatedHandler e =>
    refine .bind (fun _ => Driving R i e) ?_ (fun _ => handleOrderCreated_triple e) fun err =>
      .throw (driving_stable e) fun _ _ _ _ => trivial
    exact storeAndPublish_triple _ _ _ (driving_stable e) (fun _ _ h => h.event) rfl
      fun _ _ _ => Or.inl rfl
  | paymentProcessedSagaHandler e => exact handlePaymentProcessed_triple e
  | paymentFailedSagaHandler e => exact handlePaymentFailed_triple e
  | orderCancelledHandler e => exact horder (.orderCancelled e) _ _ rfl
  | orderConfirmedHandler e => exact horder (.orderConfirmed e) _ _ rfl
  | orderStatusChangedHandler e => exact horder (.orderStatusChanged e) _ _ rfl
  | paymentProcessedHandler e =>
    exact hpayment (.paymentProcessed e) _ rfl fun w ⟨⟨p, hp, hid, ho, _⟩, _⟩ => ⟨p, hp, hid, ho⟩
  | paymentFailedHandler e =>
    exact hpayment (.paymentFailed e) _ rfl fun w ⟨⟨p, hp, hid, ho, _⟩, _⟩ => ⟨p, hp, hid, ho⟩
  | paymentRefundedHandler e => exact hpayment (.paymentRefunded e) _ rfl fun w h => h

/-- **All work that is handed over respects what the activities agree on.** -/
theorem task_triple (t : Task) :
    (flow R).Triple i (fun w g => TaskBorn R i w g t) t.run fun _ _ _ => True := by
  have hany : (flow R).Stable i fun _ _ => True := .const _
  cases t with
  | publishAll events =>
    intro w g hI hw
    rcases hw with ⟨e, rfl, hd⟩ | hplain
    · exact publishCreated_triple w g hI hd
    · have hok : (flow R).Stable i fun w _ => ∀ e ∈ events, e.Plain ∧ e.Ok R w :=
        .all fun e => .imp fun _ => (Protocol.Stable.const _).and (ok_lasting e).stable
      exact Protocol.Triple.post (fun _ _ _ _ _ => trivial) (publishPlain_triple hok
        fun _ _ _ hw e he => ⟨(hw e he).2, Or.inl (hw e he).1⟩) w g hI hplain
  | publishSagaEvent message => exact publish_triple hany _ _
  | externalPayment p correlationId =>
    rintro w g hI ⟨hs, k, rfl, hk⟩
    exact externalPayment_triple p k w g hI ⟨hs, hk⟩
  | deliver d => exact delivery_triple d

end Flow

end CqrsSaga
