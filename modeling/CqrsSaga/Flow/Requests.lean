import CqrsSaga.App.Vocabulary
import CqrsSaga.Flow.Sagas

/-!
# The requests in the flow of orders

What the command handlers of orders and the controllers come to: whoever stores an order
hands over the duty to have it charged, and an order is cancelled by others than its
saga only where the regime lets them.

## Main results

* `Flow.createOrder_triple`, `Flow.cancelOrder_triple`, `Flow.confirmOrder_triple` — **the
  command handlers.**
* `Flow.request_triple` — **every request respects what the activities agree on.**
-/

namespace CqrsSaga

open RedisLockService KafkaService

namespace Flow

/-! ### Programs nobody minds -/

variable [Hashes] {R : Regime} {i : ℕ} {F : World → Duties → Prop}

theorem publish_triple (hF : (flow R).Stable i F) (topic : String) (m : Message) :
    (flow R).Triple i F (publish topic m) fun _ => F :=
  quiet_triple hF ⟨by simp [Op.writes], rfl⟩

theorem logger_triple (hF : (flow R).Stable i F) (line : LogLine) :
    (flow R).Triple i F (logger line) (Returns (P := flow R) F) :=
  local_triple hF ⟨by simp [Op.writes], rfl⟩ rfl

/-- An identifier is drawn. -/
theorem uuidv4_triple (hF : (flow R).Stable i F) :
    (flow R).Triple i F uuidv4 fun r w g => (∃ a, r = .ok a ∧ (R.traced → R.uuid a)) ∧ F w g := by
  refine .perform hF (fun r => (Protocol.Stable.const _).and hF) fun w g hI hw => ?_
  refine quiet_atomic ⟨by simp [Op.writes], rfl⟩ hI fun c w' r ts hc he hI' hm hk =>
    ⟨⟨c.text, ?_, hc.2.1⟩, hF hm hk hI' hw⟩
  obtain ⟨hp, -⟩ := World.exec_local he rfl
  simp only [World.perform, Option.some.injEq, Prod.mk.injEq] at hp
  exact hp.2.1.symm

/-- After a call that returns. -/
theorem after {α β : Type} {G : World → Duties → Prop} {p : Async App α} {f : α → Async App β}
    {Q : (flow R).Assn β} (hp : (flow R).Triple i F p (Returns (P := flow R) G))
    (hf : ∀ a, (flow R).Triple i G (f a) Q) : (flow R).Triple i F (p.bind f) Q := by
  refine .bind _ hp (fun a => (hf a).pre fun _ _ _ hw => hw.2) fun e => ?_
  exact .assuming (A := False) (fun _ _ _ h => by simpa using h.1) False.elim

/-- After an identifier was drawn. -/
theorem drawn {α : Type} {f : String → Async App α} {Q : (flow R).Assn α}
    (hF : (flow R).Stable i F)
    (hf : ∀ a, (R.traced → R.uuid a) → (flow R).Triple i F (f a) Q) :
    (flow R).Triple i F (uuidv4.bind f) Q := by
  refine .bind _ (uuidv4_triple hF) (fun a => ?_) fun e => ?_
  · refine .assuming (A := R.traced → R.uuid a) (fun w g _ hw => ?_) fun ha =>
      (hf a ha).pre fun _ _ _ hw => hw.2
    obtain ⟨⟨b, hb, hu⟩, -⟩ := hw
    exact Except.ok.inj hb ▸ hu
  · exact .assuming (A := False) (fun _ _ _ h => by simpa using h.1) False.elim

/-! ### Placing an order -/

section Placing

variable {k : String}

theorem refused_lasting {α : Type} (r : Except Err α) :
    (flow R).Lasting fun w _ => Refused k r w :=
  fun _ _ _ _ hm _ h x k' hr => hm.keyed (h x k' hr)

theorem keyed_stable (x : String) : (flow R).Stable i fun w _ => w.Keyed x k :=
  fun _ _ _ _ hm _ _ h => hm.keyed h

/-- An error is passed on. -/
theorem refused_throw {α β : Type} {e : Err} :
    (flow R).Triple i (fun w _ => Refused k (.error e : Except Err α) w) (.throw e : Async App β)
      fun r w _ => Refused k r w :=
  .throw (refused_lasting _).stable fun _ _ _ hw x k' h => hw x k' (Except.error.inj h ▸ rfl)

/-- An order stored under the key is named. -/
theorem duplicate_throw {β : Type} {x k' : String} :
    (flow R).Triple i (fun w _ => w.Keyed x k) (.throw (.duplicateOrder x k') : Async App β)
      fun r w _ => Refused k r w := by
  refine .throw (keyed_stable x) fun w g _ hw y k'' h => ?_
  obtain ⟨rfl, -⟩ := Err.duplicateOrder.inj (Except.error.inj h)
  exact hw

/-- An order is looked for by its key. -/
theorem orderFindKey_triple :
    (flow R).Triple i (fun _ _ => True) (orderRepository.findOne { idempotencyKey := some k })
      fun r w _ => (∀ o, r = .ok (some o) → w.Keyed o.id k) ∧ Refused k r w := by
  refine .perform (.const _) (fun r => (Protocol.Stable.all fun o => .imp fun _ =>
    keyed_stable o.id).and (refused_lasting r).stable) fun w g hI _ => ?_
  refine quiet_atomic ⟨by simp [Op.writes], rfl⟩ hI fun c w' r ts _ he _ _ _ => ?_
  obtain ⟨rfl, -, rfl | ⟨m, rfl⟩⟩ := World.exec_query he rfl rfl
  · refine ⟨fun o ho => ⟨o, Table.mem_of_find? (Except.ok.inj ho), rfl, ?_⟩,
      fun x k' h => by simp at h⟩
    exact OrderWhere.selects_key (Table.find?_some (Except.ok.inj ho)) rfl
  · exact ⟨fun o h => (by cases h), fun x k' h => (by cases h)⟩

theorem checkDuplicate_triple (hne : k ≠ "") :
    (flow R).Triple i (fun _ _ => True) (CreateOrderHandler.checkDuplicate (some k))
      fun r w _ => Refused k r w := by
  unfold CreateOrderHandler.checkDuplicate
  rw [truthy_some hne]
  refine .bind _ orderFindKey_triple (fun found => ?_) fun e =>
    .pre (fun _ _ _ hw => hw.2) refused_throw
  cases found with
  | none => exact .ret ((Protocol.Stable.all fun o => .imp fun _ => keyed_stable o.id).and
      (refused_lasting _).stable) fun _ _ _ _ x k' h => nomatch h
  | some o => exact .pre (fun w g _ hw => hw.1 o rfl) duplicate_throw

theorem recover_triple {command : CreateOrderCommand} {e : Err}
    (hk : command.correlationId = some k) :
    (flow R).Triple i (fun w _ => Refused k (.error e : Except Err Order) w)
      (CreateOrderHandler.recover command e) fun r w _ => Refused k r w := by
  unfold CreateOrderHandler.recover
  split
  · refine .bind (fun r w g => ((∀ o, r = .ok (some o) → w.Keyed o.id k) ∧ Refused k r w) ∧
      Refused k (.error e : Except Err Order) w) (.pre (fun w g _ hw => ⟨trivial, hw⟩)
        (.frame (refused_lasting _) (hk ▸ orderFindKey_triple))) (fun found => ?_) fun e =>
          .pre (fun _ _ _ hw => hw.1.2) refused_throw
    cases found with
    | none => exact .pre (fun _ _ _ hw => hw.2) refused_throw
    | some o =>
      exact .pre (fun w g _ hw => hw.1.1 o rfl) duplicate_throw
  · exact refused_throw

/-- **An order is placed**, and the duty to have it charged goes with its event; or it is
refused, and the order stored under its key is named. -/
theorem createOrder_triple {command : CreateOrderCommand} (hk : command.correlationId = some k)
    (hne : k ≠ "") (hplaced : R.placed k command.items) :
    (flow R).Triple i (fun _ _ => True) (CreateOrderHandler.execute command)
      fun r w _ => Refused k r w := by
  refine .handle (fun r w _ => Refused k r w) ?_ (fun e => recover_triple hk) fun o =>
    .ret (refused_lasting _).stable fun _ _ _ _ x k' h => nomatch h
  refine .bind (fun r w _ => Refused k r w) (hk ▸ checkDuplicate_triple hne) (fun _ => ?_)
    fun e => refused_throw
  refine .bind _ (.pre (fun _ _ _ _ => trivial) (orderInsert_triple
    (n := CreateOrderHandler.newOrder command) hk hne rfl hplaced)) (fun o => ?_) fun e => ?_
  · refine Protocol.Triple.pre (fun w g _ hw => hw.1 o rfl) (after (handDuty_triple
      (driving_stable _) (G := fun _ _ => True) (.const _) .charge o.id (fun w g hw => hw.duty)
      (fun n w g _ hw => ?_) fun _ _ _ _ => trivial) fun _ =>
        .ret (.const _) fun _ _ _ _ x k' h => nomatch h)
    exact Or.inl ⟨_, rfl, hw.event, Duties.pass_self .., hw.unpaid⟩
  · exact .pre (F := fun w _ => Refused k (.error e : Except Err Order) w)
      (fun w g _ hw x k' h => absurd h (hw.2 x k')) refused_throw

/-- The two endpoints that create orders. -/
theorem placeOrder_triple (dto : CreateOrderDto) (userId : String) :
    (flow R).Triple i
      (fun _ _ => R.placed (OrderController.idempotencyKey dto) dto.items)
      (OrderController.placeOrder dto userId)
      fun r w _ => Refused (OrderController.idempotencyKey dto) r w := by
  refine .assuming (fun _ _ _ hw => hw) fun hplaced => ?_
  refine .bind _ (.pre (fun _ _ _ _ => trivial) (createOrder_triple rfl
      (OrderController.idempotencyKey_ne dto)    hplaced)) (fun o => ?_) fun e => refused_throw
  exact .ret (refused_lasting _).stable fun _ _ _ _ x k' h => nomatch h

end Placing

/-! ### Cancelling and confirming an order -/

/-- What a command about the order `x` may carry as its correlation id: the key of the order,
or none, if others than its saga may touch the order. -/
def Commissioned (R : Regime) (x : String) (c : Option String) (w : World) : Prop :=
  (∃ k, c = some k ∧ k ≠ "" ∧ w.Keyed x k) ∨ c = none ∧ ¬R.untouched x

theorem commissioned_lasting (x : String) (c : Option String) :
    (flow R).Lasting fun w _ => Commissioned R x c w :=
  fun _ _ _ _ hm _ h => h.imp_left fun ⟨k, hk, hne, hkeyed⟩ => ⟨k, hk, hne, hm.keyed hkeyed⟩

omit [Hashes] in
/-- The events of a command carry its correlation id, or one that was drawn. -/
theorem Commissioned.attributed {w : World} {x a : String} {c : Option String}
    (h : Commissioned R x c w) (ha : R.uuid a) : Attributed R w x (truthy c <|> some a) := by
  rcases h with ⟨k, rfl, hne, hk⟩ | ⟨rfl, hx⟩
  · exact ⟨k, by rw [truthy_some hne]; rfl, Or.inl hk⟩
  · exact ⟨a, rfl, Or.inr ⟨hx, ha⟩⟩

/-- Events no duty goes with are announced. -/
theorem announce_triple {events : String → String → List Event} (hF : (flow R).Stable i F)
    (he : ∀ a b, (R.traced → R.uuid a) → (R.traced → R.uuid b) → ∀ w g, F w g →
      ∀ e ∈ events a b, e.Plain ∧ e.Ok R w) :
    (flow R).Triple i F (uuidv4.bind fun a => uuidv4.bind fun b =>
      setImmediate (.publishAll (events a b))) (Returns (P := flow R) F) :=
  drawn hF fun a ha => drawn hF fun b hb =>
    handPlain_triple hF fun _ w g hw => Or.inr (he a b ha hb w g hw)

/-- What is known of an order that was read. -/
def Found (R : Regime) (o : Order) (w : World) : Prop :=
  Loaded o w ∧ (o.status ≠ .pending → w.Decided o.id) ∧
    (R.undone → o.status = .cancelled → w.Cancelled o.id)

theorem found_lasting (o : Order) : (flow R).Lasting fun w _ => Found R o w :=
  fun _ _ _ _ hm hI h => ⟨loaded_lasting o hm hI h.1, fun hst => hm.decided _ (h.2.1 hst),
    fun hR hst => hm.cancelled hR _ (h.2.2 hR hst)⟩

/-- An order is read: `V` is what follows from what is known of the read. -/
theorem orderFindOne_triple {q : OrderWhere} {V : Order → World → Prop} (hF : (flow R).Stable i F)
    (hV : ∀ o, (flow R).Lasting fun w _ => V o w)
    (h : ∀ w g o, F w g → R.known i w (.orderFindOne q) → w.orders.find? q.selects = some o →
      V o w) :
    (flow R).Triple i F (orderRepository.findOne q) fun r w g => F w g ∧ ∀ o, r = .ok (some o) →
      Found R o w ∧ q.selects o = true ∧ V o w := by
  refine (read_triple (o := .orderFindOne q) (V := fun v w _ => ∀ o, v = some o →
    Found R o w ∧ q.selects o = true ∧ V o w) (fun w => w.orders.find? q.selects) hF (fun v => ?_)
    ⟨by simp [Op.writes], rfl⟩ rfl (fun _ _ => rfl) fun w g c _ hw hc o ho => ?_).post
    fun r w g _ hw => ⟨hw.1, fun o ho => hw.2 _ ho o rfl⟩
  · exact .all fun o => .imp fun _ => (found_lasting o).stable.and ((Protocol.Stable.const _).and
      (hV o).stable)
  · have hmem := Table.mem_of_find? ho
    exact ⟨⟨⟨o, hmem, rfl⟩, fun hst => ⟨o, hmem, rfl, hst⟩, fun _ hst => ⟨o, hmem, rfl, hst⟩⟩,
      Table.find?_some ho, h w g o hw hc.2.2.2 ho⟩

/-- Whoever cancels the order `x` knows that its payment has failed, or will have if the order is
found to be cancelled. -/
def Cancelling (R : Regime) (i : ℕ) (x : String) (w : World) : Prop :=
  R.spared x → w.Outcome x .failed ∨ ∀ w' o, R.known i w' o → w'.CancelsFailed x o

theorem cancelling_lasting (x : String) : (flow R).Lasting fun w _ => Cancelling R i x w :=
  fun _ _ _ _ hm hI h hs => (h hs).imp_left fun ho => outcome_lasting (Or.inr rfl) hm hI ho

/-- The order was found, and can be cancelled only if its payment has failed. -/
def Doomed (R : Regime) (x : String) (o : Order) (w : World) : Prop :=
  R.spared x → o.status ≠ .cancelled → o.status ≠ .delivered → w.Outcome x .failed

theorem doomed_lasting (x : String) (o : Order) : (flow R).Lasting fun w _ => Doomed R x o w :=
  fun _ _ _ _ hm hI h hs hc hd => outcome_lasting (Or.inr rfl) hm hI (h hs hc hd)

omit [Hashes] in
theorem Cancelling.doomed {w : World} {q : OrderWhere} {x : String} {o : Order}
    (h : Cancelling R i x w) (hq : q.id = some x) (hknown : R.known i w (.orderFindOne q))
    (ho : w.orders.find? q.selects = some o) : Doomed R x o w := by
  intro hs hc hd
  rcases h hs with hfailed | hknows
  · exact hfailed
  · exact hknows w _ hknown q rfl o ho (OrderWhere.selects_id (Table.find?_some ho) hq) hc hd

omit [Hashes] in
/-- The row with which an order is cancelled is due once its payment has failed, if it has to. -/
theorem due_cancelled {o : Order} {w : World} {x : String} (hid : o.id = x)
    (hc : o.status ≠ .cancelled) (hd : o.status ≠ .delivered) (h : Doomed R x o w) :
    Due R { o with status := .cancelled } w :=
  ⟨fun hs _ => hid ▸ h (hid ▸ hs) hc hd, fun _ h => by simp at h⟩

/-- **An order is cancelled.**  Unless the order is spared, anybody may; what is known after
success is that it is. -/
theorem cancelOrder_triple (command : CancelOrderCommand) :
    (flow R).Triple i (fun w _ => Cancelling R i command.orderId w ∧
        Commissioned R command.orderId command.correlationId w)
      (CancelOrderHandler.execute command)
      fun r w _ => R.undone → r = .ok () → w.Cancelled command.orderId := by
  have hF : (flow R).Lasting fun w _ => Cancelling R i command.orderId w ∧
      Commissioned R command.orderId command.correlationId w :=
    (cancelling_lasting _).and (commissioned_lasting _ _)
  have hC : (flow R).Stable i fun w _ => (R.undone → w.Cancelled command.orderId) ∧
      Commissioned R command.orderId command.correlationId w :=
    fun _ _ _ _ hm _ hI h => ⟨fun hR => hm.cancelled hR _ (h.1 hR),
      commissioned_lasting _ _ hm hI h.2⟩
  -- a command that throws promises nothing
  have hthrow : ∀ (e : Err) {G : World → Duties → Prop},
      (flow R).Triple i G (.throw e : Async App Unit) fun r w _ =>
        R.undone → r = .ok () → w.Cancelled command.orderId :=
    fun e G => .pre (F := fun _ _ => True) (fun _ _ _ _ => trivial)
      (.throw (.const _) fun _ _ _ _ _ h => by simp at h)
  refine .bind _ (orderFindOne_triple (V := Doomed R command.orderId) hF.stable
    (doomed_lasting _) fun w g o hw hknown ho => hw.1.doomed rfl hknown ho)
    (fun found => ?_) fun e => ?_
  · cases found with
    | none => exact hthrow _
    | some o =>
      refine .assuming (A := o.id = command.orderId)
        (fun w g _ hw => OrderWhere.selects_id (hw.2 o rfl).2.1 rfl)
        fun hid => ?_
      have hst := ((doomed_lasting (R := R) command.orderId o).and ((commissioned_lasting
        command.orderId command.correlationId).and (found_lasting o))).stable (i := i)
      refine Protocol.Triple.pre (F := fun (w : World) _ => Doomed R command.orderId o w ∧
          Commissioned R command.orderId command.correlationId w ∧ Found R o w)
        (fun w g _ hw => ⟨(hw.2 o rfl).2.2, hw.1.2, (hw.2 o rfl).1⟩) ?_
      dsimp only
      split
      · next h => exact .ret hst fun w g _ hw hR _ => hid ▸ hw.2.2.2.2 hR h
      · next hcancelled =>
        split
        · exact hthrow _
        · next hdelivered =>
          have hsave := (orderSave_triple (R := R) (i := i)
            (F := fun w _ => Commissioned R command.orderId command.correlationId w)
            (y := { o with status := .cancelled }) (Or.inr rfl) (commissioned_lasting _ _).stable
            fun _ _ _ hm hI _ h => commissioned_lasting _ _ hm hI h).pre
            (G := fun (w : World) _ => Doomed R command.orderId o w ∧
              Commissioned R command.orderId command.correlationId w ∧ Found R o w)
            fun w g _ hw => ⟨hw.2.1, hw.2.2.1, due_cancelled hid hcancelled hdelivered hw.1⟩
          refine .bind _ hsave (fun _ => ?_) fun e => hthrow _
          refine .conseq (fun w g _ hw => ⟨fun hR => hid ▸ (hw.2 rfl).2 hR rfl, hw.1⟩)
            (fun (r : Except Err Unit) w g _ hw hR _ => hw.2.1 hR)
            (announce_triple hC fun a b ha hb w g hw e he => ?_)
          simp only [List.mem_cons, List.not_mem_nil, or_false] at he
          rcases he with rfl | rfl
          · exact ⟨trivial, trivial, fun hR => hw.2.attributed (ha hR)⟩
          · exact ⟨trivial, trivial, fun hR => hw.2.attributed (hb hR)⟩
  · exact hthrow _

/-- What a command to confirm an order takes: its payment is a completed one of the order, or will
be if the order is found pending. -/
def Confirmable (R : Regime) (i : ℕ) (command : ConfirmOrderCommand) (w : World) : Prop :=
  (R.vouched command.orderId → w.PaidBy command.orderId command.paymentId ∨
    ∀ w' o, R.known i w' o → w'.ConfirmsPaid command.orderId command.paymentId o) ∧
      Commissioned R command.orderId command.correlationId w

theorem confirmable_lasting (command : ConfirmOrderCommand) :
    (flow R).Lasting fun w _ => Confirmable R i command w :=
  fun _ _ _ _ hm hI h => ⟨fun hv => (h.1 hv).imp_left hm.paidBy,
    commissioned_lasting _ _ hm hI h.2⟩

/-- The order was found, and the payment it can be confirmed under is a completed one. -/
def Payable (R : Regime) (command : ConfirmOrderCommand) (o : Order) (w : World) : Prop :=
  R.vouched command.orderId → o.status = .pending →
    w.PaidBy command.orderId (command.paymentId <|> o.paymentId)

theorem payable_lasting (command : ConfirmOrderCommand) (o : Order) :
    (flow R).Lasting fun w _ => Payable R command o w :=
  fun _ _ _ _ hm _ h hv hst => hm.paidBy (h hv hst)

omit [Hashes] in
theorem Confirmable.payable {command : ConfirmOrderCommand} {w : World} {q : OrderWhere} {o : Order}
    (h : Confirmable R i command w) (hq : q.id = some command.orderId)
    (hknown : R.known i w (.orderFindOne q)) (ho : w.orders.find? q.selects = some o) :
    Payable R command o w := by
  intro hv hst
  rcases h.1 hv with hpaid | hknows
  · obtain ⟨p, hp, hid, hx, hc⟩ := hpaid
    exact ⟨p, hp, by simp [hid], hx, hc⟩
  · exact hknows w _ hknown q rfl o ho (OrderWhere.selects_id (Table.find?_some ho) hq) hst

omit [Hashes] in
/-- The row with which an order is paid is due if the command names its payment. -/
theorem due_paid {command : ConfirmOrderCommand} {o : Order} {w : World}
    (hid : o.id = command.orderId) (hst : o.status = .pending) (h : Payable R command o w) :
    Due R { o with status := .paid, paymentId := command.paymentId <|> o.paymentId } w := by
  refine ⟨fun _ h => by simp at h, fun hv _ => ?_⟩
  obtain ⟨p, hp, hpid, hpo, hps⟩ := h (hid ▸ hv) hst
  exact ⟨p, hp, hpid, hpo.trans hid.symm, hps⟩

/-- **An order is confirmed**, or was decided before. -/
theorem confirmOrder_triple (hF : (flow R).Stable i F) (hside : Aside R F)
    (command : ConfirmOrderCommand) :
    (flow R).Triple i (fun w g => F w g ∧ Confirmable R i command w)
      (ConfirmOrderHandler.execute command) fun r w g =>
        F w g ∧ (r = .ok () → w.Decided command.orderId) := by
  have hC := confirmable_lasting (R := R) (i := i) command
  have hD := commissioned_lasting (R := R) command.orderId command.correlationId
  have hthrow : ∀ e : Err, (flow R).Triple i F (.throw e : Async App Unit) fun r w g =>
      F w g ∧ (r = .ok () → w.Decided command.orderId) :=
    fun e => .throw hF fun w g _ hw => ⟨hw, fun h => by simp at h⟩
  refine .bind _ (orderFindOne_triple (V := Payable R command) (hF.and hC.stable)
    (payable_lasting command) fun w g o hw hknown ho => hw.2.payable rfl hknown ho)
    (fun found => ?_) fun e => .pre (fun _ _ _ hw => hw.1.1) (hthrow e)
  cases found with
  | none => exact .pre (fun _ _ _ hw => hw.1.1) (hthrow _)
  | some o =>
    refine .assuming (A := o.id = command.orderId)
      (fun w g _ hw => OrderWhere.selects_id (hw.2 o rfl).2.1 rfl)
      fun hid => ?_
    refine Protocol.Triple.pre (F := fun w g => F w g ∧ (Payable R command o w ∧
        Commissioned R command.orderId command.correlationId w) ∧ Found R o w)
      (fun w g _ hw => ⟨hw.1.1, ⟨(hw.2 o rfl).2.2, hw.1.2.2⟩, (hw.2 o rfl).1⟩) ?_
    have hst := hF.and (((payable_lasting (R := R) command o).and hD).and (found_lasting o)).stable
    dsimp only
    split
    · -- an order that is not pending is left as it is, with a warning
      next hdecided =>
      exact .ret hst fun w g _ hw => ⟨hw.1, fun _ => hid ▸ hw.2.2.2.1 hdecided⟩
    · next hpending =>
      have hFC : (flow R).Stable i fun w g => F w g ∧
          Commissioned R command.orderId command.correlationId w := hF.and hD.stable
      have hsave := orderSave_triple (i := i)
        (y := { o with status := .paid, paymentId := command.paymentId <|> o.paymentId })
        (Or.inl rfl) hFC fun _ _ _ hm hI hs h => ⟨hside hm hI hs h.1, hD hm hI h.2⟩
      refine .bind _ (hsave.pre fun w g _ hw => ⟨⟨hw.1, hw.2.1.2⟩, hw.2.2.1,
        due_paid hid (not_not.mp hpending) hw.2.1.1⟩)
        (fun _ => ?_) fun e => .pre (fun _ _ _ hw => hw.1.1) (hthrow e)
      refine Protocol.Triple.conseq (fun w g _ hw => ⟨hw.1, hid ▸ (hw.2 rfl).1⟩)
        (fun (r : Except Err Unit) w g _ hw => ⟨hw.2.1.1, fun _ => hw.2.2⟩)
        (announce_triple (hFC.and (decided_lasting command.orderId).stable)
          fun a b ha hb w g hw e he => ?_)
      simp only [List.mem_cons, List.not_mem_nil, or_false] at he
      rcases he with rfl | rfl
      · exact ⟨trivial, trivial, fun hR => hw.1.2.attributed (ha hR)⟩
      · exact ⟨trivial, trivial, fun hR => hw.1.2.attributed (hb hR)⟩

/-! ### Cleaning up -/

/-- What is known of the payment that was looked for. -/
def Judged (x : String) (w : World) (v : Option Payment) : Prop :=
  ∀ p, v = some p → p.status = .failed → w.Outcome x .failed

/-- A payment is looked for. -/
theorem paymentFindOne_triple (x : String) :
    (flow R).Triple i (fun _ _ => True) (paymentRepository.findOne { orderId := some x })
      fun r w _ => ∀ v, r = .ok v → Judged x w v := by
  refine (read_triple (o := .paymentFindOne { orderId := some x })
    (V := fun v w _ => Judged x w v)
    (fun w => w.payments.find? (PaymentWhere.selects { orderId := some x })) (.const _)
    (fun v => ?_) ⟨by simp [Op.writes], rfl⟩ rfl (fun _ _ => rfl) fun w g c _ _ _ => ?_).post
    fun r w g _ hw v hv => hw.2 v hv
  · exact .all fun p => .imp fun _ => .imp fun _ => (outcome_lasting (Or.inr rfl)).stable
  · intro p hp hst
    exact ⟨p, Table.mem_of_find? hp, PaymentWhere.selects_orderId (Table.find?_some hp) rfl, hst⟩

/-- The cleanup does not find the saga of an order: its data hold more than the order's id. -/
theorem cleanupFind_triple (x : String) :
    (flow R).Triple i (fun _ _ => True) (sagaRepository.findOne
      { sagaType := some "OrderProcessingSaga", data := some { orderId := some x } })
      fun r _ _ => ∀ v, r = .ok v → v = none := by
  refine (sagaFindOne_triple (F := fun _ _ => True) (.const _)).post fun r w g _ hw v hv => ?_
  cases v with
  | none => rfl
  | some s =>
    obtain ⟨⟨x', hk⟩, hq⟩ := hw.2 s hv
    simp [SagaWhere.selects] at hq
    exact absurd (congrArg SagaData.userId hq.2).symm hk.user

theorem cleanupOrder_triple {order : Order} (ho : ¬R.untouched order.id)
    (hknows : R.spared order.id → ∀ w o, R.known i w o → w.CancelsFailed order.id o) :
    (flow R).Triple i (fun _ _ => True) (SagaMaintenanceController.cleanupOrder order)
      fun _ _ _ => True := by
  refine .bind _ (paymentFindOne_triple order.id) (fun found => ?_) fun e => ?_
  · cases found with
    | none =>
      refine .bind (fun _ _ _ => True) (.conseq (fun w g _ _ =>
        ⟨fun hs => Or.inr (hknows hs), Or.inr ⟨rfl, ho⟩⟩) (fun _ _ _ _ _ => trivial)
        (cancelOrder_triple _)) (fun _ => .ended) fun _ => .failed
    | some p =>
      dsimp only
      split
      · next hst =>
        refine .pre (F := fun (w : World) _ => w.Outcome order.id .failed)
          (fun w g _ hw => hw _ rfl p rfl hst) ?_
        have hcancel (reason : Option String) :
            (flow R).Triple i (fun w _ => w.Outcome order.id .failed)
              (CancelOrderHandler.execute ⟨order.id, order.userId, reason, none⟩)
              fun _ _ _ => True :=
          (cancelOrder_triple _).conseq (fun w g _ hw => ⟨fun _ => Or.inl hw, Or.inr ⟨rfl, ho⟩⟩)
            fun _ _ _ _ _ => trivial
        refine .bind (fun _ _ _ => True) (hcancel _) (fun _ => ?_) fun _ => .failed
        refine .bind _ (cleanupFind_triple order.id) (fun v => ?_) fun e => ?_
        · refine .assuming (fun w g _ hw => hw v rfl) fun hv => ?_
          subst hv
          exact .ended
        · exact .failed
      · exact .ended
  · exact .failed

theorem cleanupOrders_triple
    (hknows : ∀ x, R.spared x → ∀ w o, R.known i w o → w.CancelsFailed x o) :
    ∀ orders : List Order, (∀ o ∈ orders, ¬R.untouched o.id) → (flow R).Triple i (fun _ _ => True)
      (SagaMaintenanceController.cleanupOrders orders) fun _ _ _ => True := by
  have hany : (flow R).Stable i fun _ _ => True := .const _
  intro orders ho
  induction orders with
  | nil => exact .ended
  | cons order orders ih =>
    refine .seq hany (.rescue hany (cleanupOrder_triple (ho _ List.mem_cons_self)
      (hknows _)) fun _ =>
      .skip hany) fun _ => ?_
    exact .seq hany (ih fun o h => ho o (List.mem_cons_of_mem _ h)) fun _ => .ended

/-- The orders the cleanup lists may be touched. -/
theorem orderFind_triple (q : OrderWhere) :
    (flow R).Triple i (fun _ _ => True) (orderRepository.find q) fun r _ _ =>
      ∀ l, r = .ok l → ∀ o ∈ l, ¬R.untouched o.id := by
  refine (read_triple (o := .orderFind q) (V := fun (l : List Order) _ _ => ∀ o ∈ l, ¬R.untouched o.id)
    (fun w => w.orders.findAll q.selects) (.const _) (fun _ => .const _)
    ⟨by simp [Op.writes], rfl⟩ rfl (fun _ _ => rfl) fun w g c _ _ hc o ho hu => ?_).post
    fun r w g _ hw l hl => hw.2 l hl
  obtain ⟨hmem, hsel⟩ := Table.mem_findAll.mp ho
  have := hc.2.2.1 o hmem hu
  simp [hsel] at this

/-! ### Requests -/

omit [Hashes] in
/-- Nobody minds the tests of the locks. -/
theorem lockTest_quiet (test : LockTest) : test.run.Only Op.Quiet := by
  refine (lockTest_along (fun o ho => ?_) (fun key _ => ⟨fun tok ttl => ?_, fun tok => ?_⟩)
    (fun key _ tok => ?_) fun key => ?_).only
  · obtain ⟨hl, hs⟩ := ho
    refine ⟨?_, hs⟩
    cases o <;> simp_all [Op.isLocal, Op.starts, Op.writes]
  · exact ⟨by simp [Op.writes], rfl⟩
  · exact ⟨by simp [Op.writes], rfl⟩
  · exact ⟨by simp [Op.writes], rfl⟩
  · exact ⟨by simp [Op.writes], rfl⟩

/-- **Every request respects what the activities agree on.** -/
theorem request_triple (r : Request) :
    (flow R).Triple i (fun w g => JobBorn R i w g (.request r)) r.run
      fun v w _ => JobDone v w (.request r) := by
  have hany : (flow R).Stable i fun _ _ => True := .const _
  cases r with
  | createOrder dto userId | createTestOrder dto userId =>
    refine .bind _ (placeOrder_triple dto userId) (fun a => ?_) fun e => refused_throw
    exact .ret (refused_lasting _).stable fun _ _ _ _ x k' h => nomatch h
  | cancelOrder id userId reason =>
    refine .bind (fun _ _ _ => True) (.conseq (fun w g _ hw =>
      ⟨fun hs => Or.inr (hw.1 hs), Or.inr ⟨rfl, hw.2⟩⟩)
      (fun _ _ _ _ _ => trivial) (cancelOrder_triple ⟨id, userId, reason, none⟩))
      (fun _ => .ended) fun _ => .failed
  | confirmOrder id paymentId =>
    refine .bind (fun _ _ _ => True) (.conseq (fun w g _ hw =>
      ⟨trivial, fun hv => Or.inr (hw.1 hv), Or.inr ⟨rfl, hw.2⟩⟩)
      (fun _ _ _ _ _ => trivial) (confirmOrder_triple hany (fun _ _ _ _ _ _ h => h)
        ⟨id, paymentId, none⟩)) (fun _ => .ended) fun _ => .failed
  | cleanupPendingOrders =>
    refine .assuming (fun _ _ _ hw => hw) fun hknows => ?_
    refine .pre (F := fun _ _ => True) (fun _ _ _ _ => trivial) (.seq hany (.bind _
      (orderFind_triple _) (fun orders => ?_) fun _ => ?_) fun _ => .ended)
    · exact .assuming (fun _ _ _ hw => hw orders rfl) fun ho =>
        .pre (fun _ _ _ _ => trivial) (cleanupOrders_triple hknows orders ho)
    · exact .failed
  | lockTest test =>
    exact (quiet_program hany (lockTest_quiet test)).post fun _ _ _ _ _ => trivial

end Flow

end CqrsSaga
