import CqrsSaga.Progress.Moves

/-!
# What becomes of every order

If nothing fails, and the result of a payment comes in when the handler that asked for the payment
is through, then in the end every order has one saga and one payment, and the three agree: the
order is paid or cancelled, as the payment went through or not.

## Main results

* `Course.orderCreated_triple`, `Course.paymentProcessed_triple`, `Course.paymentFailed_triple`,
  `Course.externalPayment_triple` — the programs that do something about an order.
* `courses_sound` — **all programs keep to the agreements.**
* `orders_concluded` — **every order is concluded.**
-/

namespace CqrsSaga

open SagaManager RedisLockService KafkaService OrderProcessingSaga

namespace Course

variable [Hashes] {i : ℕ} {x k n : String} {st : Stage} {V : View} {K : List String}
  {F : World → Stages → Prop} {s : SagaInstance} {ord : Order}

/-! ### Steps of a saga -/

/-- What is done under the lock of a step: `F` and `G` tell what the row of the saga is. -/
theorem stepSection_triple {F G : SagaInstance → World → Stages → Prop} {action : Async App Unit}
    (hG : ∀ s, courses.Stable i (G s))
    (hfind : courses.Triple i (F s) (sagaRepository.findOne { id := some s.id })
      (Protocol.Answers fun v w g => (∃ t, v = some { s with updatedAt := t }) ∧ F s w g))
    (hsave : ∀ y, y.core = s.core →
      courses.Triple i (F s) (sagaRepository.save y) (Protocol.Answers fun _ => F y))
    (haction : ∀ t, courses.Triple i (F { s with updatedAt := t, currentStep := n }) action
      (Protocol.Answers fun _ => G { s with updatedAt := t, currentStep := n }))
    (hsave' : ∀ s' y, s'.core = s.core → y.core = s.core →
      courses.Triple i (G s') (sagaRepository.save y) (Protocol.Answers fun _ => G y))
    (hn : n ∉ s.completedSteps) :
    courses.Triple i (F s) (stepSection s.id n action) (Protocol.Answers fun _ w g => ∃ t,
      G { s with updatedAt := t, currentStep := n, completedSteps := s.completedSteps ++ [n] } w g)
        := by
  refine .andThen hfind fun v => .assuming (fun _ _ _ h => h.1) fun hv => ?_
  obtain ⟨t, rfl⟩ := hv
  refine .pre (fun _ _ _ h => h.2) ?_
  dsimp only
  rw [if_neg hn]
  refine .andThen (hsave _ rfl) fun _ => .andThen (haction t) fun _ =>
    .andThen (hsave' _ _ rfl rfl) fun _ => ?_
  exact .answers_mono (fun _ _ _ _ h => ⟨t, h⟩) (minor_triple (hG _) trivial)

/-- A step nobody else tries to run. -/
theorem executeSagaStep_triple {action : Async App Unit} {M Q : World → Stages → Prop}
    (hst : st.course = some i) (hQ : courses.Stable i Q) (hK : runLock s.id n ∉ K)
    (hkey : ∀ s, V.saga = some s → V.order.idempotencyKey = some s.correlationId)
    (hsection : courses.Triple i (At i x st V K) (stepSection s.id n action)
      (Protocol.Answers fun _ => M))
    (hunlock : ∀ tok, courses.Triple i M (redis.unlock (runLock s.id n) tok)
      (Protocol.Answers fun _ => Q)) :
    courses.Triple i (At i x st V (runLock s.id n :: K)) (executeSagaStep s.id n action)
      (Protocol.Answers fun _ => Q) := by
  have hat : ∀ K, courses.Stable i (At i x st V K) := fun _ => at_stable hst
  exact .unthrown (fun _ => hQ) (withLock_answers (hat K) (fun _ => hQ)
    (minor_triple (o := .generateToken) (hat _) trivial)
    (fun tok => setLock_triple hst hK hkey (by simp)) hsection fun tok _ => hunlock tok)

/-! ### An order is charged for -/

theorem startSaga_triple {data : SagaData} (hk : ord.idempotencyKey = some k)
    (hx : data.orderId = some x) :
    courses.Triple i (At i x (.driving i) ⟨ord, none, none⟩ [startLock k])
      (startSaga sagaType k data []) (Protocol.Answers fun s w g =>
        (∃ id t, s = ⟨newSaga sagaType k data [], id, none, t, t⟩) ∧
          At i x (.driving i) ⟨ord, some s, none⟩
            [runLock s.id "payment_processing", runLock s.id "order_confirmation"] w g) := by
  have hat : ∀ V K, courses.Stable i (At i x (.driving i) V K) := fun _ _ => at_stable rfl
  have hpost := fun s : SagaInstance => (Protocol.Stable.const (P := courses) (i := i)
    (∃ id t, s = ⟨newSaga sagaType k data [], id, none, t, t⟩)).and (hat ⟨ord, some s, none⟩
      [runLock s.id "payment_processing", runLock s.id "order_confirmation"])
  refine withLock_answers (hat _ []) hpost (minor_triple (o := .generateToken) (hat _ _) trivial)
    (fun tok => setLock_triple rfl List.not_mem_nil (fun s hs => by cases hs) (by simp)) ?_
    fun tok s => minor_triple (o := .redisUnlock _ tok) (hpost s) trivial
  refine .andThen (findNoSaga_triple rfl rfl hk) fun v => .assuming (fun _ _ _ h => h.1)
    fun hv => ?_
  subst hv
  refine .pre (fun _ _ _ h => h.2) (.andThen (sagaInsert_triple rfl rfl hx hk) fun s => ?_)
  exact .andThen (minor_triple (o := .setImmediate _) (hpost s) trivial)
    fun _ => .answer (hpost s) fun _ _ _ h => h

/-- The payment is asked for. -/
theorem paymentAction_triple {e : OrderCreatedEvent} {saga : SagaInstance} (hx : e.orderId = x)
    (hu : ord.userId = e.userId) (hk : ord.idempotencyKey = some saga.correlationId)
    (hs : s.correlationId = saga.correlationId) :
    courses.Triple i (At i x (.driving i) ⟨ord, some s, none⟩ K) (paymentAction saga e)
      (Protocol.Answers fun _ w g => ∃ m q, m ≠ i ∧
        At i x (.charging i m) ⟨ord, some s, some q⟩ K w g) := by
  have hkey : ∀ s', some s = some s' → ord.idempotencyKey = some s'.correlationId := by
    intro s' hs'
    rw [hk, ← Option.some.inj hs', hs]
  have hpost : courses.Stable i fun w g => ∃ m q, m ≠ i ∧
      At i x (.charging i m) ⟨ord, some s, some q⟩ K w g :=
    .ex fun m => .ex fun q => (Protocol.Stable.const _).and (at_stable rfl)
  have hpay : courses.Triple i (At i x (.driving i) ⟨ord, some s, none⟩ K)
      (ProcessPaymentHandler.execute ⟨e.orderId, e.userId, e.totalAmount, .creditCard,
        some saga.correlationId⟩) (Protocol.Answers fun _ w g => ∃ m q, m ≠ i ∧
          At i x (.charging i m) ⟨ord, some s, some q⟩ K w g) := by
    refine .andThen (paymentInsert_triple rfl rfl rfl hx hkey) fun p => ?_
    refine .assuming (fun _ _ _ h => h.1) fun hp => .pre (fun _ _ _ h => h.2) (.given fun amount =>
      .andThen (charge_triple rfl ?_ rfl rfl ?_ hk hkey) fun _ =>
        .answer (.ex fun m => (Protocol.Stable.const _).and (at_stable rfl)) ?_)
    · rw [hp]
      exact hx
    · rw [hp]
      exact hu
    · intro w g _ h
      obtain ⟨m, hm, hat⟩ := h
      exact ⟨m, _, hm, hat⟩
  exact .andThen hpay fun _ => minor_triple (o := .log _) hpost trivial

theorem executePaymentStep_triple {e : OrderCreatedEvent} {saga : SagaInstance} (hp : ord.Pends)
    (hx : e.orderId = x) (hu : ord.userId = e.userId) (hr : saga.HasRun ord []) :
    courses.Triple i (At i x (.driving i) ⟨ord, some saga, none⟩
        [runLock saga.id "payment_processing", runLock saga.id "order_confirmation"])
      (executePaymentStep saga e) (Protocol.Answers fun _ => Free i) := by
  have hkey : ∀ s', some saga = some s' → ord.idempotencyKey = some s'.correlationId := by
    rintro s' ⟨⟩
    exact hr.key
  have hne : runLock saga.id "payment_processing" ∉ [runLock saga.id "order_confirmation"] := by
    simp [runLock, stepLock]
  -- once the payment is asked for, it is with another activity
  refine executeSagaStep_triple rfl free_stable hne hkey (stepSection_triple
    (F := fun s => At i x (.driving i) ⟨ord, some s, none⟩ [runLock saga.id "order_confirmation"])
    (G := fun s w g => ∃ m q, m ≠ i ∧
      At i x (.charging i m) ⟨ord, some s, some q⟩ [runLock saga.id "order_confirmation"] w g)
    (fun s => .ex fun m => .ex fun q => (Protocol.Stable.const _).and (at_stable rfl))
    (sagaFindOne_triple rfl rfl) (fun y hy => sagaSave_triple rfl rfl hy hr.key)
    (fun t => paymentAction_triple hx hu hr.key rfl) (fun s' y hs' hy => ?_) (by simp [hr.steps]))
    fun tok => ?_
  · have hco := (SagaInstance.core_eq.mp hs').2.2.1
    refine .given fun m => .given fun q => .assuming (fun _ _ _ h => h.1) fun hm =>
      .conseq (fun _ _ _ h => h.2) ?_ (sagaSave_triple rfl rfl (hy.trans hs'.symm)
        (hco.symm ▸ hr.key))
    rintro r w g - ⟨v, rfl, h⟩
    exact ⟨v, rfl, m, q, hm, h⟩
  · refine .given fun t => .given fun m => .given fun q => .assuming (fun _ _ _ h => h.1) fun hm =>
      .pre (fun _ _ _ h => h.2) (leave_triple (s := { saga with
        updatedAt := t
        currentStep := "payment_processing"
        completedSteps := saga.completedSteps ++ ["payment_processing"] }) hm rfl hp ?_)
    exact ⟨hr.type, hr.key, hr.status, by simp [hr.steps], hr.compensation⟩

/-- **Whoever handles the event of the creation of an order** begins its saga, and has it charged. -/
theorem orderCreated_triple {e : OrderCreatedEvent} :
    courses.Triple i (Starts i e (.driving i)) (OrderCreatedHandler.handle e)
      (Protocol.Answers fun _ => Free i) := by
  refine .given fun ord => .given fun k => .assuming (fun _ _ _ h => h.2)
    fun ⟨hp, hu, hk, hek⟩ => .pre (fun _ _ _ h => h.1) ?_
  have hat : ∀ K, courses.Stable i (At i e.orderId (.driving i) ⟨ord, none, none⟩ K) :=
    fun _ => at_stable rfl
  obtain ⟨k', hne, hk'⟩ := hp.key
  obtain rfl := Option.some.inj (hk'.symm.trans hk)
  refine .andThen (.andThen (minor_triple (o := .eventStoreSave _) (hat _) trivial)
    fun _ => minor_triple (o := .kafkaSend _ _ _) (hat _) trivial) fun _ => ?_
  unfold handleOrderCreated
  rw [hek, truthy_some hne]
  refine .andThen (startSaga_triple hk rfl) fun saga => .assuming (fun _ _ _ h => h.1) fun hs =>
    .pre (fun _ _ _ h => h.2) (executePaymentStep_triple hp rfl hu ?_)
  obtain ⟨id, t, rfl⟩ := hs
  exact ⟨rfl, hk, rfl, rfl, rfl⟩

/-! ### An order is confirmed -/

variable {p : Payment}

theorem announce_triple {e e' : String → String → Event} (hF : courses.Stable i F)
    (he : ∀ a b, (e a b).Plain) (he' : ∀ a b, (e' a b).Plain) :
    courses.Triple i F (do
      let a ← uuidv4
      let b ← uuidv4
      setImmediate (.publishAll [e a b, e' a b])) (Protocol.Answers fun _ => F) := by
  refine .andThen (minor_triple (o := .uuidv4) hF trivial) fun a =>
    .andThen (minor_triple (o := .uuidv4) hF trivial) fun b =>
      minor_triple (o := .setImmediate _) hF fun ev hev => ?_
  rcases List.mem_pair.mp hev with rfl | rfl
  · exact he a b
  · exact he' a b

theorem confirmationAction_triple {e : PaymentProcessedEvent} (saga : SagaInstance)
    (hx : e.orderId = x) (hp : ord.Pends) (hk : ord.idempotencyKey = some s.correlationId) :
    courses.Triple i (At i x (.closing i) ⟨ord, some s, some p⟩ K) (confirmationAction saga e)
      (Protocol.Answers fun _ w g => ∃ t, At i x (.closing i) ⟨{ ord with
        updatedAt := t
        status := .paid
        paymentId := some e.paymentId }, some s, some p⟩ K w g) := by
  have hat : ∀ V, courses.Stable i (At i x (.closing i) V K) := fun _ => at_stable rfl
  have hkey : ∀ s', some s = some s' → ord.idempotencyKey = some s'.correlationId := by
    rintro s' ⟨⟩
    exact hk
  refine .andThen (.andThen (orderFindOne_triple rfl (by rw [hx]) fun hid t => ?_) fun v => ?_)
    fun _ => minor_triple (o := .log _) (.ex fun t => hat _) trivial
  · have hid : ord.id = x := hid
    simp [OrderWhere.selects, hid, hx]
  · refine .assuming (fun _ _ _ h => h.1) fun hv => ?_
    obtain ⟨t, rfl⟩ := hv
    refine .pre (fun _ _ _ h => h.2) ?_
    dsimp only
    rw [if_neg (by simp [hp.status])]
    refine .andThen (orderSave_triple rfl rfl hp.amount hkey) fun _ => ?_
    exact .answers_mono (fun _ _ _ _ h => ⟨t, h⟩)
      (announce_triple (hat _) (fun _ _ => trivial) fun _ _ => trivial)

/-- The saga is completed. -/
theorem completeSaga_triple (hs : s.status ≠ .completed)
    (hk : ord.idempotencyKey = some s.correlationId)
    (hc : ord.Concluded { s with status := .completed } p) :
    courses.Triple i (At i x (.closing i) ⟨ord, some s, some p⟩ K) (completeSaga s.id)
      (Protocol.Answers fun _ => Free i) := by
  refine .andThen (sagaFindOne_triple rfl rfl) fun v => .assuming (fun _ _ _ h => h.1) fun hv => ?_
  obtain ⟨t, rfl⟩ := hv
  refine .pre (fun _ _ _ h => h.2) ?_
  dsimp only
  rw [if_neg hs]
  exact .andThen (sagaSave_triple rfl rfl rfl hk) fun _ =>
    closeLater_triple ⟨hc.type, hc.key, hc.outcome⟩

theorem executeOrderConfirmationStep_triple {e : PaymentProcessedEvent} {saga : SagaInstance}
    {t : ℕ} (hsaga : saga = { s with updatedAt := t }) (hx : e.orderId = x) (hp : ord.Pends)
    (hr : s.HasRun ord ["payment_processing"]) (hid : p.id = e.paymentId)
    (hpaid : p.status = .completed) :
    courses.Triple i (At i x (.closing i) ⟨ord, some s, some p⟩
        [runLock s.id "order_confirmation"])
      (executeOrderConfirmationStep saga e) (Protocol.Answers fun _ => Free i) := by
  subst hsaga
  have hat : ∀ V K, courses.Stable i (At i x (.closing i) V K) := fun _ _ => at_stable rfl
  have hkey : ∀ s', some s = some s' → ord.idempotencyKey = some s'.correlationId := by
    rintro s' ⟨⟩
    exact hr.key
  have hstep := stepSection_triple (n := "order_confirmation")
    (F := fun s => At i x (.closing i) ⟨ord, some s, some p⟩ [])
    (G := fun s w g => ∃ t, At i x (.closing i) ⟨{ ord with
        updatedAt := t
        status := .paid
        paymentId := some e.paymentId }, some s, some p⟩ [] w g)
    (fun s => .ex fun t => hat _ _) (sagaFindOne_triple rfl rfl)
    (fun y hy => sagaSave_triple rfl rfl hy hr.key)
    (fun _ => confirmationAction_triple { s with updatedAt := t } hx hp hr.key)
    (fun s' y hs' hy => .given fun t => .answers_mono (fun _ _ _ _ h => ⟨t, h⟩)
      (sagaSave_triple rfl rfl (hy.trans hs'.symm)
        (hr.key.trans (congrArg some (SagaInstance.core_eq.mp hs').2.2.1.symm))))
    (by simp [hr.steps])
  have hstable := fun s : SagaInstance => Protocol.Stable.ex (P := courses) (i := i) fun t' : ℕ =>
    Protocol.Stable.ex fun t : ℕ => hat ⟨{ ord with
        updatedAt := t
        status := .paid
        paymentId := some e.paymentId }, some { s with
        updatedAt := t'
        currentStep := "order_confirmation"
        completedSteps := s.completedSteps ++ ["order_confirmation"] }, some p⟩ []
  refine .andThen (executeSagaStep_triple rfl (hstable s) List.not_mem_nil hkey hstep
    fun tok => minor_triple (o := .redisUnlock _ tok) (hstable s) trivial) fun _ =>
      .given fun t' => .given fun t => completeSaga_triple (by simp [hr.status]) hr.key ?_
  exact ⟨hr.type, hr.key, Or.inl ⟨rfl, by rw [hid], hpaid, rfl, by simp [hr.steps],
    hr.compensation⟩⟩

/-- **Whoever handles the event of a payment that went through** confirms the order. -/
theorem paymentProcessed_triple {e : PaymentProcessedEvent} :
    courses.Triple i (Ends i e.orderId e.userId e.correlationId e.paymentId .completed)
      (PaymentProcessedSagaHandler.handle e) (Protocol.Answers fun _ => Free i) := by
  refine .given fun ord => .given fun s => .given fun p => .assuming (fun _ _ _ h => h.2)
    fun ⟨hp, _, hc, hr, hid, hst⟩ => .pre (fun _ _ _ h => h.1) ?_
  have hfind : courses.Triple i (At i e.orderId (.closing i) ⟨ord, some s, some p⟩
      [runLock s.id "order_confirmation"]) _ _ := findSaga_triple rfl rfl hr.type hr.key
  rw [← hr.key, hc] at hfind
  refine .andThen hfind fun v => .assuming (fun _ _ _ h => h.1) fun hv =>
    .pre (fun _ _ _ h => h.2) ?_
  obtain ⟨t, rfl⟩ := hv
  exact executeOrderConfirmationStep_triple rfl rfl hp hr hid hst

/-! ### An order is cancelled -/

theorem cancelOrder_triple {e : PaymentFailedEvent} {saga : SagaInstance} {t : ℕ}
    (hsaga : saga = { s with updatedAt := t }) (hx : e.orderId = x) (hp : ord.Pends)
    (hu : ord.userId = e.userId) (hr : s.HasRun ord ["payment_processing"])
    (hfailed : p.status = .failed) :
    courses.Triple i (At i x (.closing i) ⟨ord, some s, some p⟩ K) (cancelOrder saga e)
      (Protocol.Answers fun _ => Free i) := by
  subst hsaga
  have hat : ∀ V, courses.Stable i (At i x (.closing i) V K) := fun _ => at_stable rfl
  have hkey : ∀ s', some s = some s' → ord.idempotencyKey = some s'.correlationId := by
    rintro s' ⟨⟩
    exact hr.key
  have hcancel : courses.Triple i (At i x (.closing i) ⟨ord, some s, some p⟩ K)
      (CancelOrderHandler.execute ⟨e.orderId, e.userId,
        some ("Payment failed: " ++ e.failureReason), some s.correlationId⟩)
      (Protocol.Answers fun _ w g => ∃ t, At i x (.closing i) ⟨{ ord with
        updatedAt := t
        status := .cancelled }, some s, some p⟩ K w g) := by
    refine .andThen (orderFindOne_triple rfl (by rw [hx]) fun hid t => ?_) fun v => ?_
    · have hid : ord.id = x := hid
      simp [OrderWhere.selects, hid, hx, hu]
    · refine .assuming (fun _ _ _ h => h.1) fun hv => ?_
      obtain ⟨t, rfl⟩ := hv
      refine .pre (fun _ _ _ h => h.2) ?_
      dsimp only
      rw [if_neg (by simp [hp.status]), if_neg (by simp [hp.status])]
      refine .andThen (orderSave_triple rfl rfl hp.amount hkey) fun _ => ?_
      exact .answers_mono (fun _ _ _ _ h => ⟨t, h⟩)
        (announce_triple (hat _) (fun _ _ => trivial) fun _ _ => trivial)
  refine .andThen hcancel fun _ => .given fun t => closeSave_triple rfl ?_
  exact ⟨hr.type, hr.key, Or.inr ⟨rfl, hfailed, rfl, hr.steps, by simp [hr.compensation]⟩⟩

/-- **Whoever handles the event of a payment that did not go through** cancels the order. -/
theorem paymentFailed_triple {e : PaymentFailedEvent} :
    courses.Triple i (Ends i e.orderId e.userId e.correlationId e.paymentId .failed)
      (PaymentFailedSagaHandler.handle e) (Protocol.Answers fun _ => Free i) := by
  refine .given fun ord => .given fun s => .given fun p => .assuming (fun _ _ _ h => h.2)
    fun ⟨hp, hu, hc, hr, _, hst⟩ => .pre (fun _ _ _ h => h.1) ?_
  have hfind : courses.Triple i (At i e.orderId (.closing i) ⟨ord, some s, some p⟩
      [runLock s.id "order_confirmation"]) _ _ := findSaga_triple rfl rfl hr.type hr.key
  rw [← hr.key, hc] at hfind
  refine .andThen hfind fun v => .assuming (fun _ _ _ h => h.1) fun hv =>
    .pre (fun _ _ _ h => h.2) ?_
  obtain ⟨t, rfl⟩ := hv
  exact .unthrown (fun _ => free_stable) (cancelOrder_triple rfl rfl hp hu hr hst)

/-! ### The payment -/

theorem settleOrFail_triple {q : Payment} {e : Event} {d d' : Delivery} {c : Option String}
    (hid : q.id = p.id) (hx : q.orderId = x) (hu : q.userId = p.userId)
    (hreports : Op.reports? (.publishAll [e]) = some x) (he : e.deliveries = [d, d'])
    (hd : ∀ j w g, Free j w g → TaskBorn j w g (.deliver d))
    (hd' : ∀ amount j w g o s, At j x (.closing j) ⟨o, some s, some { q with amount }⟩
      [runLock s.id "order_confirmation"] w g → o.Pends → o.userId = q.userId →
        o.idempotencyKey = some k → s.HasRun o ["payment_processing"] →
          TaskBorn j w g (.deliver d')) :
    courses.Triple i (Pays i x k p) (ProcessPaymentHandler.settleOrFail q e c)
      (Protocol.Answers fun _ => Free i) :=
  .unthrown (fun _ => free_stable) (.andThen (paymentSave_triple hid hx hu) fun _ =>
    .given fun amount => report_triple hreports he hd (hd' amount))

/-- **The payment system** settles the payment it is given. -/
theorem externalPayment_triple {q : Payment} {c : Option String} :
    courses.Triple i (fun w g => ∃ k p, c = some k ∧ Pays i q.orderId k p w g ∧ p.id = q.id ∧
      p.userId = q.userId) (ProcessPaymentHandler.externalPayment q c)
      (Protocol.Answers fun _ => Free i) := by
  refine .given fun k => .given fun p => .assuming
    (A := c = some k ∧ p.id = q.id ∧ p.userId = q.userId) (fun _ _ _ h => ⟨h.1, h.2.2⟩) ?_
  rintro ⟨rfl, hid, hu⟩
  refine .pre (fun _ _ _ h => h.2.1) ?_
  have hst : courses.Stable i (Pays i q.orderId k p) := pays_stable
  refine .andThen (minor_triple (o := .sleep _) hst trivial) fun _ =>
    .andThen (minor_triple (o := .random) hst trivial) fun b => ?_
  cases b with
  | true =>
    refine .andThen (minor_triple (o := .uuidv4) hst trivial) fun tx => ?_
    exact settleOrFail_triple hid.symm rfl hu.symm rfl rfl (fun _ _ _ h => h)
      fun amount j w g o s hat hp hou hk hr => ⟨o, s, _, hat, hp, hou, hk, hr, rfl, rfl⟩
  | false =>
    exact settleOrFail_triple hid.symm rfl hu.symm rfl rfl (fun _ _ _ h => h)
      fun amount j w g o s hat hp hou hk hr => ⟨o, s, _, hat, hp, hou, hk, hr, rfl, rfl⟩

/-! ### Every activity -/

/-- Whoever serves a request to create an order sees to it that its creation is published. -/
theorem placeOrder_triple (dto : CreateOrderDto) (userId : String) :
    courses.Triple i (Free i) (OrderController.placeOrder dto userId) fun _ => Free i := by
  have hne := OrderController.idempotencyKey_ne dto
  refine .seq free_stable (.rescue free_stable (.bind (fun _ => Free i) ?_ (fun _ => ?_)
    fun _ => .fail free_stable) fun e => minor_keeps free_stable ?_) fun _ => .skip free_stable
  · refine minor_keeps free_stable ?_
    unfold CreateOrderHandler.checkDuplicate
    split
    · exact trivial
    · refine .bind (.perform trivial) fun found => ?_
      cases found <;> exact trivial
  · refine .bind _ (orderInsert_triple (k := OrderController.idempotencyKey dto) rfl hne rfl)
      (fun o => ?_) fun e => .pre (fun _ _ _ h => h.1 e rfl) (.fail free_stable)
    refine .pre (fun _ _ _ h => h.2 o rfl) (.given fun ord => .assuming (fun _ _ _ h => h.2)
      fun ⟨hp, hu, hk⟩ => .pre (fun _ _ _ h => h.1) ?_)
    exact .andThen (handLater_triple rfl rfl hp hu hk rfl) fun _ => .skip free_stable
  · unfold CreateOrderHandler.recover
    split
    · refine .bind (.perform trivial) fun found => ?_
      cases found <;> exact trivial
    · exact trivial

theorem storeAndPublish_minor (topic aggregateId aggregateType eventType : String)
    (eventData : EventData) (event : Event) :
    (storeAndPublish topic aggregateId aggregateType eventType eventData event).Only Op.Minor :=
  .bind (.perform trivial) fun _ => .perform trivial

theorem task_triple (t : Task) :
    courses.Triple i (fun w g => TaskBorn i w g t) t.run fun _ => Free i := by
  have hends : ∀ {F : World → Stages → Prop} {q : Async App Unit},
      courses.Triple i F q (Protocol.Answers fun _ => Free i) →
        courses.Triple i F q fun _ => Free i := fun h => by
    refine h.post ?_
    rintro r w g - ⟨_, -, hfree⟩
    exact hfree
  have hminor : ∀ {q : Async App Unit}, q.Only Op.Minor →
      courses.Triple i (Free i) q fun _ => Free i := fun hq => minor_keeps free_stable hq
  cases t with
  | publishAll events =>
    rintro w g hI (⟨e, rfl, h⟩ | ⟨hplain, h⟩)
    · exact hends publish_triple w g hI h
    · exact hminor (.perform hplain) w g hI h
  | publishSagaEvent m => exact hminor (.perform trivial)
  | externalPayment p c => exact hends externalPayment_triple
  | deliver d =>
    cases d with
    | orderCreatedHandler e => exact hends orderCreated_triple
    | paymentProcessedSagaHandler e => exact hends paymentProcessed_triple
    | paymentFailedSagaHandler e => exact hends paymentFailed_triple
    | _ => exact hminor (storeAndPublish_minor ..)

end Course

/-! ### The runs -/

section Runs

variable [Hashes]

/-- Nothing is asked for but that orders are created. -/
def PlacesOrders (_ : Pool application) : Action application → Prop
  | .start (.request (.createOrder _ _)) => True
  | .start (.request (.createTestOrder _ _)) => True
  | .start _ => False
  | _ => True

/-- The result of a payment is published when the handler of the creation of its order is
through. -/
def Delayed (p : Pool application) : Action application → Prop
  | .run i _ => ∀ o ∈ p.awaits i, ∀ x ∈ o.reports?, ∀ a ∈ p.acts, Course.Drives x a.tag →
    a.prog.awaited? = none
  | _ => True

omit [Hashes] in
theorem Course.inv_blank {w : World} (hw : w.Blank) : Course.Inv w fun _ => .unknown := by
  obtain ⟨⟨horders, hpayments, hsagas, -⟩, hredis⟩ := hw
  have hfree : ∀ key, w.Unlocked key := fun key => by simp [World.Unlocked, hredis]
  have hnoOrder : ∀ o, o ∉ w.orders := fun o ho => by simp [← Table.mem_rows, horders] at ho
  have hnoSaga : ∀ s, s ∉ w.sagas := fun s hs => by simp [← Table.mem_rows, hsagas] at hs
  have hnoPayment : ∀ p, p ∉ w.payments := fun p hp => by
    simp [← Table.mem_rows, hpayments] at hp
  exact {
    rests := fun x => {
      unknown := fun _ => Set.eq_empty_iff_forall_notMem.mpr fun o ho => hnoOrder o ho.1
      known := fun h => absurd rfl h
      keyed := fun s hs => absurd hs.1 (hnoSaga s)
      waiting := fun _ h => by cases h
      closed := fun h => by cases h }
    named := fun s hs => absurd hs (hnoSaga s)
    payments := fun p hp => absurd hp (hnoPayment p)
    starts := fun k _ => hfree _
    steps := fun id _ step _ => hfree _ }

open Course in
/-- **All programs keep to the agreements.** -/
theorem courses_sound : courses.Sound World.Blank fun p a =>
    PlacesOrders p a ∧ Faultless p a ∧ Delayed p a where
  init := by
    intro w hw
    refine ⟨fun _ => .unknown, inv_blank hw, ?_⟩
    constructor <;> intros <;> next h => cases h
  start := by
    intro p t g ha hI hf
    refine ⟨g, hI, courses.mono_refl _ g, fun j _ => courses.keep_refl j _ g,
      Fits.longer hf _, ?_⟩
    have hfree : Free p.acts.length p.world g := Fits.free hf (by simp [Pool.tags])
    cases t with
    | task t => exact ha.1.elim
    | request r =>
      cases r with
      | createOrder dto userId | createTestOrder dto userId => exact hfree
      | _ => exact ha.1.elim
  tick := by
    intro p d g _ hI
    have hrows : World.RowsKept p.world (app.elapse p.world d) := ⟨rfl, rfl, rfl, fun _ h => h⟩
    exact unseen hrows g hI
  canRun := by
    intro p i c t o k g ha hi hH
    refine ⟨ha.2.1.world hi, fun x hx j m hst => ?_⟩
    -- the handler that is said to wait for the payment is through
    obtain ⟨u, hu, hd⟩ := hH.fits.charging x j m hst
    obtain ⟨a, hj, rfl⟩ := Option.map_eq_some_iff.mp (List.getElem?_map .. ▸ hu)
    have hawaits : p.awaits i = some o := Pool.awaits_eq_some.mpr ⟨t, k, hi⟩
    obtain ⟨r, hr⟩ := Async.result?_isSome_of_awaited?
      (ha.2.2 o hawaits x hx a (List.mem_of_getElem? hj) hd)
    exact (hH.post hj hr x).1 (hst ▸ rfl)
  body := by
    intro i t w g hb hI
    cases t with
    | request r =>
      cases r with
      | createOrder dto userId | createTestOrder dto userId =>
        have hrun := placeOrder_triple (i := i) dto userId
        exact Protocol.Triple.seq free_stable hrun (fun _ => .skip free_stable) w g hI hb
      | _ => exact hb.elim
    | task t =>
      have hrun : courses.Triple i (fun w g => TaskBorn i w g t) (Job.task t).run
          fun _ => Free i :=
        .bind (fun _ => Free i) (task_triple t) (fun _ => .skip free_stable)
          fun _ => .fail free_stable
      exact hrun w g hI hb

/-- **Every order is concluded**: it has one saga and one payment, and the three agree. -/
theorem orders_concluded {p : Pool application}
    (hp : Pool.Reachable World.Blank
      (fun p a => PlacesOrders p a ∧ Faultless p a ∧ Delayed p a) p) (hq : p.Quiescent)
    {o : Order} (ho : o ∈ p.world.orders) :
    ∃ s payment, World.sagaRows p.world o.id = {s} ∧
      World.paymentRows p.world o.id = {payment} ∧ o.Concluded s payment := by
  obtain ⟨g, hH⟩ := courses_sound.reachable hp
  have hrow : o ∈ World.orderRows p.world o.id := ⟨ho, rfl⟩
  -- whomever the order is with has ended, and has left it
  have hfree : ∀ j, j < p.acts.length → Course.Free j p.world g := by
    intro j hlt
    have hacts : p.acts[j]? = some p.acts[j] := List.getElem?_eq_getElem hlt
    obtain ⟨r, hr⟩ := Async.result?_isSome_of_awaited? (hq _ (List.mem_of_getElem? hacts))
    exact hH.post hacts hr
  have hcourse : ∀ j, (g o.id).course ≠ some j := fun j hj =>
    (hfree j (by simpa [Pool.tags] using hH.fits.course o.id j hj) o.id).1 hj
  have hpayment : ∀ j, (g o.id).payment ≠ some j := fun j hj =>
    (hfree j (by simpa [Pool.tags] using hH.fits.payment o.id j hj) o.id).2 hj
  cases hst : g o.id with
  | unknown =>
    rw [(hH.inv.rests o.id).unknown hst] at hrow
    exact hrow.elim
  | placing j | driving j | charging j m | closing j => exact absurd (hst ▸ rfl) (hcourse j)
  | waiting m => exact absurd (hst ▸ rfl) (hpayment m)
  | closed =>
    obtain ⟨o', s, payment, ho', hs, hpay, hc⟩ := (hH.inv.rests o.id).closed hst
    rw [ho'] at hrow
    obtain rfl := Set.mem_singleton_iff.mp hrow
    exact ⟨s, payment, hs, hpay, hc⟩

end Runs

/-! ### A run -/

section Paid

open Samples

instance (x : String) : ∀ t, Decidable (Course.Drives x t)
  | .task (.deliver (.orderCreatedHandler e)) => inferInstanceAs (Decidable (e.orderId = x))
  | .task (.deliver (.orderCancelledHandler _)) => isFalse id
  | .task (.deliver (.orderConfirmedHandler _)) => isFalse id
  | .task (.deliver (.orderStatusChangedHandler _)) => isFalse id
  | .task (.deliver (.paymentProcessedHandler _)) => isFalse id
  | .task (.deliver (.paymentProcessedSagaHandler _)) => isFalse id
  | .task (.deliver (.paymentFailedHandler _)) => isFalse id
  | .task (.deliver (.paymentFailedSagaHandler _)) => isFalse id
  | .task (.deliver (.paymentRefundedHandler _)) => isFalse id
  | .task (.publishAll _) => isFalse id
  | .task (.publishSagaEvent _) => isFalse id
  | .task (.externalPayment _ _) => isFalse id
  | .request _ => isFalse id

variable [Hashes]

instance PlacesOrders.decidable (p : Pool application) : ∀ a, Decidable (PlacesOrders p a)
  | .start (.request (.createOrder _ _)) => isTrue trivial
  | .start (.request (.createTestOrder _ _)) => isTrue trivial
  | .start (.request (.cancelOrder _ _ _)) => isFalse id
  | .start (.request (.confirmOrder _ _)) => isFalse id
  | .start (.request .cleanupPendingOrders) => isFalse id
  | .start (.request (.lockTest _)) => isFalse id
  | .start (.task _) => isFalse id
  | .run _ _ => isTrue trivial
  | .tick _ => isTrue trivial

instance Delayed.decidable (p : Pool application) : ∀ a, Decidable (Delayed p a)
  | .start _ => isTrue trivial
  | .run i _ => inferInstanceAs (Decidable (∀ o ∈ p.awaits i, ∀ x ∈ o.reports?, ∀ a ∈ p.acts,
      Course.Drives x a.tag → a.prog.awaited? = none))
  | .tick _ => isTrue trivial

end Paid

namespace Outcomes

open Samples

/-- An order is placed, charged for and confirmed. -/
def concluded : Pool application :=
  (Pool.play (fun p a => PlacesOrders p a ∧ Faultless p a ∧ Delayed p a) ⟨World.empty 0, []⟩
    (placed ++ paid ++ paidRest)).get (by decide +kernel)

theorem orders_concluded_paid : ∃ o ∈ concluded.world.orders, ∃ s payment,
    World.sagaRows concluded.world o.id = {s} ∧
      World.paymentRows concluded.world o.id = {payment} ∧ o.Concluded s payment := by
  have hany : (concluded.world.orders.rows.any fun o => o.id = "order-1") = true := by
    decide +kernel
  obtain ⟨o, ho, -⟩ := List.any_eq_true.mp hany
  exact ⟨o, ho, orders_concluded (Pool.reachable_of_play ⟨World.noOrders_empty 0, rfl⟩ _)
    (by decide +kernel) ho⟩

end Outcomes

end CqrsSaga
