import CqrsSaga.Flow.Requests

/-!
# Events and payments in the flow of orders

An event that is published takes a duty along to one of its handlers, or none.  Whoever
settles a payment publishes the result: with a payment that went through goes the duty
to confirm the order.

## Main results

* `Flow.storeAndPublish_triple` — **events are stored** under what they are about.
* `Flow.publishAll_triple` — **events are published**, and a duty goes with them.
* `Flow.externalPayment_triple` — the payment system respects what the activities agree on.
-/

namespace CqrsSaga

open RedisLockService KafkaService ProcessPaymentHandler

namespace Flow

variable [Hashes] {R : Regime} {i : ℕ} {F G : World → Duties → Prop}

/-! ### Storing events -/

theorem ok_lasting (e : Event) : (flow R).Lasting fun w _ => e.Ok R w :=
  fun _ _ _ _ hm _ h => h.later hm

/-- **An event is stored**, under the order or the payment it is about, and sent. -/
theorem storeAndPublish_triple (topic : String) {aggregateId : String}
    (aggregateType eventType : String)
    {eventData : EventData} {event : Event} (hF : (flow R).Stable i F)
    (hok : ∀ w g, F w g → event.Ok R w) (horder : eventData.orderId = event.orderId)
    (hagg : ∀ w g, F w g → aggregateId = event.orderId ∨
      ∃ p ∈ w.payments, p.id = aggregateId ∧ p.orderId = event.orderId) :
    (flow R).Triple i F (storeAndPublish topic aggregateId aggregateType eventType eventData event)
      fun _ => F := by
  refine .seq hF ?_ fun _ => publish_triple hF _ _
  refine .perform hF (fun _ => hF) fun w g hI hw =>
    ⟨saves_none (by simp [Op.writes]), fun c w' r ts _ he l _ hf => ?_⟩
  have hts := World.exec_tasks he rfl
  have hunseen : (flow R).Unseen w w' := by
    rcases World.exec_cases_of_not_redis he rfl with ⟨-, hp⟩ | ⟨m, -, rfl, -⟩
    · simp only [World.perform, Option.some.injEq, Prod.mk.injEq] at hp
      obtain ⟨rfl, -⟩ := hp
      exact unseen_stored ⟨horder ▸ hagg w g hw, fun hR => horder ▸ (hok w g hw).attributed hR⟩
    · exact .refl w'
  exact Protocol.Settles.unseen (by simp [hts]) hI hunseen hf fun hI' hm hk => hF hm (hk i) hI' hw

/-! ### Publishing -/

/-- **Events are published**, and a duty goes along to one of their handlers, or none: `n` is
the first handler's activity. -/
theorem publishAll_triple {events : List Event} (hF : (flow R).Stable i F)
    (hG : (flow R).Stable i G)
    (h : ∀ w g n, Inv R w g → F w g → (∀ e ∈ events, e.Ok R w) ∧ ∃ g', G w g' ∧
      (g' = g ∨ ∃ d x k, k < (events.flatMap Event.deliveries).length ∧ g d x = some i ∧
        g' = g.pass d x (some (n + k))) ∧
      ∀ k t, (events.flatMap Event.deliveries)[k]? = some t → ∀ w', w'.payments = w.payments →
        Grows R w g' w' g' → TaskBorn R (n + k) w' g' (.deliver t)) :
    (flow R).Triple i F (eventBus.publishAll events) (Returns (P := flow R) G) := by
  refine .perform hF (returns_stable hG) fun w g hI hw =>
    ⟨saves_none (by simp [Op.writes]), fun c w' r ts _ he l hi hf => ?_⟩
  obtain ⟨hp, -⟩ := World.exec_local he rfl
  simp only [World.perform, Option.some.injEq, Prod.mk.injEq] at hp
  obtain ⟨rfl, rfl, rfl⟩ := hp
  obtain ⟨hok, g', hG', hpass, hborn⟩ := h w g l.length hI hw
  have hspawned : ((events.flatMap Event.deliveries).map Task.deliver).filterMap
      application.spawned = (events.flatMap Event.deliveries).map fun t => .task (.deliver t) := by
    rw [List.filterMap_map]
    exact congrFun List.filterMap_eq_map' _
  -- first the duty passes, then the events are published
  have hduty : Inv R w g' ∧ Grows R w g w g' ∧ (∀ j, j < l.length → j ≠ i → Leaves R j w g w g') ∧
      ∀ d x j, g' d x = some j → j < l.length + (events.flatMap Event.deliveries).length := by
    rcases hpass with rfl | ⟨d, x, k, hk, hd, rfl⟩
    · exact ⟨hI, (flow R).mono_refl w g', fun j _ _ => (flow R).keep_refl j w g',
        fun d x j hj => Nat.lt_add_right _ (hf d x j hj)⟩
    · refine ⟨hI.pass hd _, .pass hd _, fun j hj hji => .pass hd hji ?_, fun d' x' j hj => ?_⟩
      · rw [ne_eq, Option.some.injEq]
        omega
      · rcases pass_cases hj with h | h
        · have := Option.some.inj h
          omega
        · exact Nat.lt_add_right _ (hf d' x' j h)
  obtain ⟨hI', hm, hk, hlt⟩ := hduty
  obtain ⟨hI'', hm', hk'⟩ := unseen_published hok g' hI'
  refine ⟨g', hI'', (flow R).mono_trans hm hm', fun j hj hji =>
    (flow R).keep_trans (hk j hj hji) (hk' j), fun d x j hj => ?_, fun k t ht => ?_, ⟨(), rfl⟩,
    hG hm' (hk' i) hI'' hG'⟩
  · rw [hspawned, List.length_append, List.length_map]
    exact hlt d x j hj
  · rw [hspawned, List.getElem?_map, Option.map_eq_some_iff] at ht
    obtain ⟨t', ht', rfl⟩ := ht
    exact hborn k t' ht' _ rfl hm'

omit [Hashes] in
/-- A delivery with which no duty goes. -/
theorem taskBorn_deliver {w : World} {g : Duties} {d : Delivery} (h : d.event.Ok R w)
    (hd : d.event.Plain ∨ ∃ p, d.event = .paymentFailed p) : TaskBorn R i w g (.deliver d) := by
  cases d with
  | orderCreatedHandler e => simp [Delivery.event, Event.Plain] at hd
  | paymentProcessedSagaHandler e => simp [Delivery.event, Event.Plain] at hd
  | _ => exact h

/-- Events no duty goes with. -/
theorem publishPlain_triple {events : List Event} (hF : (flow R).Stable i F)
    (he : ∀ w g, Inv R w g → F w g → ∀ e ∈ events, e.Ok R w ∧
      (e.Plain ∨ ∃ p, e = .paymentFailed p)) :
    (flow R).Triple i F (eventBus.publishAll events) (Returns (P := flow R) F) := by
  refine publishAll_triple hF hF fun w g n hI hw => ⟨fun e h => (he w g hI hw e h).1, g, hw,
    Or.inl rfl, fun k t ht w' hp hm => ?_⟩
  obtain ⟨e, h, hte⟩ := List.mem_flatMap.mp (List.mem_of_getElem? ht)
  obtain ⟨hok, hplain⟩ := he w g hI hw e h
  rw [← Event.event_of_delivery hte] at hok hplain
  exact taskBorn_deliver (hok.later hm) hplain

/-- With the event of an order goes the duty to have it charged. -/
theorem publishCreated_triple {e : OrderCreatedEvent} :
    (flow R).Triple i (Driving R i e) (eventBus.publishAll [.orderCreated e]) fun _ _ _ => True := by
  refine (publishAll_triple (G := fun _ _ => True) (driving_stable e) (.const _) fun w g n _ hw =>
    ⟨fun e' he' => ?_, _, trivial, Or.inr ⟨.charge, e.orderId, 0, ?_, hw.duty, rfl⟩,
      fun k t ht w' hp hm => ?_⟩).post fun _ _ _ _ _ => trivial
  · rw [List.mem_singleton.mp he']
    exact hw.event
  · exact Nat.zero_lt_one
  · cases k with
    | zero =>
      obtain rfl : Delivery.orderCreatedHandler e = t := by simpa [Event.deliveries] using ht
      refine ⟨hw.event.later hm, Duties.pass_self .., ?_⟩
      unfold World.Unpaid
      rw [hp]
      exact hw.unpaid
    | succ k => simp [Event.deliveries] at ht

/-- With the event of a payment that went through goes the duty to confirm its order. -/
theorem publishProcessed_triple {e : PaymentProcessedEvent} :
    (flow R).Triple i (fun w g => (Event.paymentProcessed e).Ok R w ∧ g .confirm e.orderId = some i)
      (eventBus.publishAll [.paymentProcessed e]) (Returns (P := flow R) fun _ _ => True) := by
  have hF : (flow R).Stable i fun w g => (Event.paymentProcessed e).Ok R w ∧
      g .confirm e.orderId = some i :=
    fun _ _ _ _ hm hk _ h => ⟨h.1.later hm, (hk.duties _ _).mp h.2⟩
  refine publishAll_triple hF (.const _) fun w g n _ hw =>
    ⟨fun e' he' => ?_, _, trivial, Or.inr ⟨.confirm, e.orderId, 1, ?_, hw.2, rfl⟩,
      fun k t ht w' hp hm => ?_⟩
  · rw [List.mem_singleton.mp he']
    exact hw.1
  · exact Nat.one_lt_two
  · match k with
    | 0 =>
      obtain rfl : Delivery.paymentProcessedHandler e = t := by simpa [Event.deliveries] using ht
      exact hw.1.later hm
    | 1 =>
      obtain rfl : Delivery.paymentProcessedSagaHandler e = t := by
        simpa [Event.deliveries] using ht
      exact ⟨hw.1.later hm, Duties.pass_self ..⟩
    | k + 2 => simp [Event.deliveries] at ht

/-! ### Settling a payment -/

/-- Activity `i` settles the payment `p` of the order with the key `k`. -/
def SettlingKeyed (i : ℕ) (p : Payment) (k : String) (w : World) (g : Duties) : Prop :=
  Settling i p w g ∧ w.Keyed p.orderId k

theorem keyed_lasting (x k : String) : (flow R).Lasting fun w _ => w.Keyed x k :=
  fun _ _ _ _ hm _ h => hm.keyed h

theorem settlingKeyed_stable (p : Payment) (k : String) :
    (flow R).Stable i (SettlingKeyed i p k) :=
  (settling_stable p).and (keyed_lasting _ _).stable

/-- A payment is stored as it is, and its event published; if the payment cannot be stored, it
still has to be settled. -/
theorem settle_triple {p : Payment} {k : String} {event : Event}
    (h : p.status = .completed ∧ event = .paymentProcessed (processedEvent p (some k)) ∨
      p.status = .failed ∧ event = .paymentFailed (failedEvent p (some k))) :
    (flow R).Triple i (SettlingKeyed i p k) (settle p event) fun r w g =>
      (∃ v, r = .ok v) ∨ SettlingKeyed i p k w g := by
  have hst : p.status = .completed ∨ p.status = .failed := h.imp And.left And.left
  refine .bind _ ((paymentSave_triple hst).frame (keyed_lasting p.orderId k)) (fun _ => ?_)
    fun e => ?_
  · refine Protocol.Triple.pre (F := fun (w : World) g => Settled i p w g ∧ w.Keyed p.orderId k) ?_ ?_
    · rintro w g - ⟨⟨-, hs⟩ | ⟨⟨e, he⟩, -⟩, hk⟩
      · exact ⟨hs, hk⟩
      · simp at he
    · rcases h with ⟨hp, rfl⟩ | ⟨hp, rfl⟩
      · refine Protocol.Triple.conseq ?_ (fun r w g _ hw => Or.inl hw.1) publishProcessed_triple
        rintro w g - ⟨⟨⟨q, hq, hid, ho, hs⟩, hd⟩, hk⟩
        exact ⟨⟨⟨⟨q, hq, hid, ho, hs.trans hp⟩, k, rfl, hk⟩, fun _ => ⟨k, rfl, Or.inl hk⟩⟩, hd hp⟩
      · refine Protocol.Triple.post (fun r w g _ hw => Or.inl hw.1) (publishPlain_triple
          ((settled_stable hst).and (keyed_lasting _ _).stable) ?_)
        rintro w g - ⟨⟨⟨q, hq, hid, ho, hs⟩, -⟩, hk⟩ e he
        rw [List.mem_singleton.mp he]
        exact ⟨⟨⟨⟨q, hq, hid, ho, hs.trans hp⟩, k, rfl, hk⟩, fun _ => ⟨k, rfl, Or.inl hk⟩⟩,
          Or.inr ⟨_, rfl⟩⟩
  · refine Protocol.Triple.pre (F := SettlingKeyed i p k) ?_
      (.throw (settlingKeyed_stable p k) fun _ _ _ hw => Or.inr hw)
    rintro w g - ⟨⟨hr, -⟩ | ⟨-, hs⟩, hk⟩
    · simp at hr
    · exact ⟨hs, hk⟩

/-- The payment is settled, at the second attempt as failed. -/
theorem settleOrFail_triple {p : Payment} {k : String} {event : Event}
    (h : p.status = .completed ∧ event = .paymentProcessed (processedEvent p (some k)) ∨
      p.status = .failed ∧ event = .paymentFailed (failedEvent p (some k))) :
    (flow R).Triple i (SettlingKeyed i p k) (settleOrFail p event (some k)) fun _ _ _ => True := by
  refine .handle _ (settle_triple h) (fun e => ?_) fun a =>
    .pre (F := fun _ _ => True) (fun _ _ _ _ => trivial) (.skip (.const _))
  refine Protocol.Triple.conseq ?_ (fun _ _ _ _ _ => trivial)
    (settle_triple (p := failed p "Payment processing error") (Or.inr ⟨rfl, rfl⟩))
  rintro w g - (⟨v, hv⟩ | ⟨⟨hd, hrow⟩, hk⟩)
  · simp at hv
  · exact ⟨⟨hd, hrow⟩, hk⟩

/-- **The payment system respects what the activities agree on.** -/
theorem externalPayment_triple (p : Payment) (k : String) :
    (flow R).Triple i (SettlingKeyed i p k) (externalPayment p (some k)) fun _ _ _ => True := by
  have hF := settlingKeyed_stable (R := R) (i := i) p k
  refine after (local_triple hF ⟨by simp [Op.writes], rfl⟩ rfl) fun _ => ?_
  refine after (local_triple hF ⟨by simp [Op.writes], rfl⟩ rfl) fun isSuccess => ?_
  cases isSuccess with
  | true =>
    refine drawn hF fun transactionId _ => ?_
    exact (settleOrFail_triple (p := completed p ("ext_tx_" ++ transactionId))
      (Or.inl ⟨rfl, rfl⟩)).pre fun w g _ hw => ⟨⟨hw.1.duty, hw.1.row⟩, hw.2⟩
  | false =>
    exact (settleOrFail_triple (p := failed p "Insufficient funds or card declined")
      (Or.inr ⟨rfl, rfl⟩)).pre fun w g _ hw => ⟨⟨hw.1.duty, hw.1.row⟩, hw.2⟩

end Flow

end CqrsSaga
