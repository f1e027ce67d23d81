import CqrsSaga.Flow.Protocol

/-!
# What the flow of orders makes of each write

One lemma for each kind of change to the world: under which conditions it respects what the
activities agree on.

## Main results

* `Flow.Inv.pass`, `Flow.Grows.pass`, `Flow.Leaves.pass` — a duty passes to somebody else.
* `Flow.unseen_of_same` — changes nobody minds.
* `Flow.respects_insertOrder`, `respects_saveOrder`, `respects_insertPayment`,
  `respects_savePayment`, `respects_insertSaga`, `respects_sagas` — **the writes.**
-/

namespace CqrsSaga

/-- Nothing has changed that the flow of orders depends on. -/
structure World.Same (w w' : World) : Prop where
  orders : w'.orders = w.orders
  payments : w'.payments = w.payments
  sagas : w'.sagas = w.sagas
  eventStore : w'.eventStore = w.eventStore
  transactions : w'.transactions = w.transactions
  published : w'.published = w.published
  runners : w.runners <+: w'.runners

namespace Flow

variable {R : Regime} {w w' : World} {g g' : Duties} {x : String} {d : Duty} {i j : ℕ}

/-! ### What stays true -/

theorem Inv.sagas_later (hI : Inv R w g) (hg : Grows R w g w' g') :
    ∀ s ∈ w.sagas, ∃ x, Known R x s w' g' := by
  intro s hs
  obtain ⟨x, hk⟩ := hI.sagas s hs
  exact ⟨x, hk.later hg⟩

theorem Inv.pending_later (hI : Inv R w g) (hg : Grows R w g w' g') :
    ∀ y, w.Pending y → (∃ x, Known R x y w' g') ∧ w.Steps y.id y.completedSteps := by
  intro y hy
  obtain ⟨⟨x, hk⟩, hsteps⟩ := hI.pending y hy
  exact ⟨⟨x, hk.later hg⟩, hsteps⟩

theorem Inv.events_later (hI : Inv R w g) (hg : Grows R w g w' g') :
    ∀ e ∈ w.published, e.Ok R w' :=
  fun e he => (hI.events e he).later hg

/-- The orders and the event store stay as they are, and no payment is new. -/
theorem Books.later (hb : Books R w) (hg : Grows R w g w' g') (ho : w'.orders = w.orders)
    (hp : ∀ p ∈ w'.payments, ∃ q ∈ w.payments, q.id = p.id)
    (he : w'.eventStore = w.eventStore) : Books R w' where
  columns := ho ▸ hb.columns
  statuses := ho ▸ hb.statuses
  paid := fun o h hv hst => hg.paidBy (hb.paid o (ho ▸ h) hv hst)
  keys := ho ▸ hb.keys
  ids := by
    intro hR o h p hpm
    obtain ⟨q, hq, hid⟩ := hp p hpm
    exact hid ▸ hb.ids hR o (ho ▸ h) q hq
  placed := ho ▸ hb.placed
  stored := fun e h => (hb.stored e (he ▸ h)).later hg

/-! ### A duty passes on -/

/-- Who has a duty got it just now, or had it before. -/
theorem pass_cases {jo : Option ℕ} {d' : Duty} {x' : String} (h : g.pass d x jo d' x' = some j) :
    jo = some j ∨ g d' x' = some j := by
  by_cases hdx : d' = d ∧ x' = x
  · obtain ⟨rfl, rfl⟩ := hdx
    exact Or.inl ((Duties.pass_self ..).symm.trans h)
  · exact Or.inr ((Duties.pass_of_ne jo hdx).symm.trans h)

theorem pass_ne_none {jo : Option ℕ} {d' : Duty} {x' : String} {i' : ℕ} (h : g d x = some i)
    (h' : g.pass d x jo d' x' = some i') : ∃ j', g d' x' = some j' := by
  by_cases hdx : d' = d ∧ x' = x
  · obtain ⟨rfl, rfl⟩ := hdx
    exact ⟨i, h⟩
  · rw [Duties.pass_of_ne jo hdx] at h'
    exact ⟨i', h'⟩

theorem Grows.pass (h : g d x = some i) (jo : Option ℕ) : Grows R w g w (g.pass d x jo) where
  orders := fun o ho => ⟨o, ho, rfl⟩
  cancelled := fun _ _ hx => hx
  decided := fun _ hx => hx
  payments := fun p hp => ⟨p, hp, rfl, fun _ => rfl⟩
  sagas := fun s hs => ⟨s, hs, rfl⟩
  runners := List.prefix_rfl
  charge := fun _ _ _ hi => pass_ne_none h hi

theorem Inv.pass (hI : Inv R w g) (h : g d x = some i) (jo : Option ℕ) :
    Inv R w (g.pass d x jo) where
  tx := hI.tx
  books := hI.books
  spared := hI.spared
  payments := hI.payments
  single := hI.single
  sagas := hI.sagas_later (.pass h jo)
  pending := hI.pending_later (.pass h jo)
  events := hI.events
  charging := by
    intro x' i' hi
    obtain ⟨j', hj⟩ := pass_ne_none h hi
    exact hI.charging x' j' hj
  settling := by
    intro x' i' hi
    obtain ⟨j', hj⟩ := pass_ne_none h hi
    exact hI.settling x' j' hj
  confirming := by
    intro x' i' hi
    obtain ⟨j', hj⟩ := pass_ne_none h hi
    exact hI.confirming x' j' hj

/-- Whoever neither had the duty nor gets it does not mind. -/
theorem Leaves.pass (h : g d x = some i) {jo : Option ℕ} (hi : j ≠ i) (hj : jo ≠ some j) :
    Leaves R j w g w (g.pass d x jo) where
  duties := by
    intro d' x'
    by_cases hdx : d' = d ∧ x' = x
    · obtain ⟨rfl, rfl⟩ := hdx
      rw [h, Duties.pass_self]
      constructor
      · exact fun h' => absurd (Option.some.inj h').symm hi
      · exact fun h' => absurd h' hj
    · rw [Duties.pass_of_ne jo hdx]
  charge := fun _ _ hu => hu
  settle := fun _ _ _ hp _ => hp
  confirm := by
    rintro - x' id l - ⟨hc, hs⟩
    refine ⟨?_, hs⟩
    by_cases hdx : Duty.charge = d ∧ x' = x
    · obtain ⟨rfl, rfl⟩ := hdx
      rw [h] at hc
      simp at hc
    · rw [Duties.pass_of_ne jo hdx, hc]
  tx := .refl j w
  runners := List.prefix_rfl

/-! ### Changes nobody minds -/

theorem grows_of_same (h : w.Same w') : Grows R w g w' g where
  orders := fun o ho => ⟨o, h.orders ▸ ho, rfl⟩
  cancelled := by
    intro _ x hx
    unfold World.Cancelled
    rw [h.orders]
    exact hx
  decided := by
    intro x hx
    unfold World.Decided
    rw [h.orders]
    exact hx
  payments := fun p hp => ⟨p, h.payments ▸ hp, rfl, fun _ => rfl⟩
  sagas := fun s hs => ⟨s, h.sagas ▸ hs, rfl⟩
  runners := h.runners
  charge := fun _ i _ hi => ⟨i, hi⟩

theorem steps_of_same (h : w'.sagas = w.sagas) {id : String} {l : List String} :
    w'.Steps id l ↔ w.Steps id l := by
  unfold World.Steps
  rw [h]

theorem outcome_of_same (h : w'.payments = w.payments) {status : PaymentStatus} :
    w'.Outcome x status ↔ w.Outcome x status := by
  unfold World.Outcome
  rw [h]

theorem unseen_of_same [Hashes] (h : w.Same w') : (flow R).Unseen w w' := by
  intro g hI
  have hg : Grows R w g w' g := grows_of_same h
  -- nothing is written, so each clause is the old one at the same tables
  have htx : ∀ j, World.TxKeep j w w' := by
    intro j r _
    refine ⟨by rw [World.transaction, h.transactions, World.transaction],
      fun id _ y _ => by rw [h.sagas]⟩
  refine ⟨⟨?_, ?_, fun x hx hc => ?_, ?_, ?_, fun s hs => ?_, fun y hy => ?_, fun e he => ?_, ?_,
    fun x i hi => ?_, fun x i hi => ?_⟩, hg, fun j => ⟨fun _ _ => Iff.rfl, fun x _ hu => ?_,
    fun x _ p hp _ => ?_, ?_, htx j, h.runners⟩⟩
  · exact hI.tx.of_subset (fun t ht => h.transactions ▸ ht) fun s hs => ⟨s, h.sagas ▸ hs, rfl⟩
  · exact hI.books.later hg h.orders (fun p hp => ⟨p, h.payments ▸ hp, rfl⟩) h.eventStore
  · rw [outcome_of_same h.payments]
    unfold World.Cancelled at hc
    rw [h.orders] at hc
    exact hI.spared x hx hc
  · rw [h.orders, h.payments]
    exact hI.payments
  · rw [h.payments]
    exact hI.single
  · exact hI.sagas_later hg s (h.sagas ▸ hs)
  · unfold World.Pending at hy
    rw [h.transactions] at hy
    exact (hI.pending_later hg y hy).imp_right (steps_of_same h.sagas).mpr
  · exact hI.events_later hg e (h.published ▸ he)
  · rw [h.orders]
    exact hI.charging
  · rw [outcome_of_same h.payments]
    exact hI.settling x i hi
  · rw [outcome_of_same h.payments]
    exact hI.confirming x i hi
  · unfold World.Unpaid
    rw [h.payments]
    exact hu
  · rw [h.payments]
    exact hp
  · rintro - x id l - ⟨hc, hs, hl⟩
    exact ⟨hc, hg.sagaOf hs, (steps_of_same h.sagas).mpr hl⟩

/-! ### Orders -/

/-- An order is stored, and activity `i` is to have it charged. -/
theorem respects_insertOrder [Hashes] {t : OrderTable} {o : Order} (hI : Inv R w g)
    (hw : w' = { w with orders := t }) (hmem : ∀ y, y ∈ t ↔ y = o ∨ y ∈ w.orders)
    (hfresh : ∀ y ∈ w.orders, y.id ≠ o.id) (hkey : ∃ k, o.idempotencyKey = some k ∧ k ≠ "")
    (hamount : decimal102 o.totalAmount = some o.totalAmount) (hst : o.status = .pending)
    (hids : R.traced → (∀ k ∈ o.idempotencyKey, ¬R.uuid k) ∧ ∀ p ∈ w.payments, p.id ≠ o.id)
    (hplaced : ∀ k ∈ o.idempotencyKey, R.placed k o.items) :
    (flow R).Respects i w g w' (g.pass .charge o.id (some i)) := by
  subst hw
  have hold : ∀ y ∈ w.orders, y ∈ t := fun y hy => (hmem y).mpr (Or.inr hy)
  -- nobody has a duty to an order that is not stored
  have hnone : ∀ j, g .charge o.id ≠ some j := by
    intro j hj
    obtain ⟨y, hy, hid⟩ := hI.charging _ j hj
    exact hfresh y hy hid
  have hg : Grows R w g { w with orders := t } (g.pass .charge o.id (some i)) := by
    refine ⟨fun y hy => ⟨y, hold y hy, rfl⟩, fun _ x ⟨y, hy, hyx⟩ => ⟨y, hold y hy, hyx⟩,
      fun x ⟨y, hy, hyx⟩ => ⟨y, hold y hy, hyx⟩, fun p hp => ⟨p, hp, rfl, fun _ => rfl⟩,
      fun s hs => ⟨s, hs, rfl⟩, List.prefix_rfl, fun x j hx hj => ?_⟩
    · obtain ⟨y, hy, rfl⟩ := hx
      rw [Duties.pass_of_ne _ (by simp [hfresh y hy])] at hj
      exact ⟨j, hj⟩
  have hbooks : Books R { w with orders := t } := by
    -- each row is the new one, or an old one
    have hrows : ∀ {P : Order → Prop}, P o → (∀ y ∈ w.orders, P y) → ∀ y ∈ t, P y := by
      intro P ho hw y hy
      rcases (hmem y).mp hy with rfl | hy
      · exact ho
      · exact hw y hy
    refine ⟨hrows ⟨hkey, hamount⟩ hI.books.columns, hrows (Or.inl hst) hI.books.statuses,
      hrows (fun _ h => ?_) hI.books.paid, fun hR => hrows (hids hR).1 (hI.books.keys hR),
      fun hR => hrows (hids hR).2 (hI.books.ids hR), hrows hplaced hI.books.placed,
      fun e he => (hI.books.stored e he).later hg⟩
    rw [hst] at h
    simp at h
  refine ⟨⟨?_, hbooks, fun x hx hc => ?_, fun p hp => ?_, hI.single, hI.sagas_later hg,
    hI.pending_later hg, hI.events_later hg, fun x j hj => ?_, fun x j hj => ?_,
    fun x j hj => ?_⟩, hg, fun j hj => ⟨fun d x => ?_, fun _ _ hu => hu, fun _ _ _ hp _ => hp, ?_,
    .refl j w, List.prefix_rfl⟩, fun l hi hl d x j hj => ?_⟩
  · exact hI.tx.of_subset (fun _ ht => ht) fun s hs => ⟨s, hs, rfl⟩
  · obtain ⟨y, hy, hyx, hys⟩ := hc
    rcases (hmem y).mp hy with rfl | hy
    · rw [hst] at hys
      simp at hys
    · exact hI.spared x hx ⟨y, hy, hyx, hys⟩
  · obtain ⟨y, hy, hyp⟩ := hI.payments p hp
    exact ⟨y, hold y hy, hyp⟩
  · by_cases hx : x = o.id
    · exact ⟨o, (hmem o).mpr (Or.inl rfl), hx.symm⟩
    · rw [Duties.pass_of_ne _ (by simp [hx])] at hj
      obtain ⟨y, hy, hyx⟩ := hI.charging x j hj
      exact ⟨y, hold y hy, hyx⟩
  · rw [Duties.pass_of_ne _ (by simp)] at hj
    exact hI.settling x j hj
  · rw [Duties.pass_of_ne _ (by simp)] at hj
    exact hI.confirming x j hj
  · by_cases hdx : d = .charge ∧ x = o.id
    · obtain ⟨rfl, rfl⟩ := hdx
      rw [Duties.pass_self]
      constructor
      · exact fun h => absurd h (hnone j)
      · exact fun h => absurd (Option.some.inj h).symm hj
    · rw [Duties.pass_of_ne _ hdx]
  · rintro - x id l - ⟨hc, ⟨s, hs, hid, hd⟩, hl⟩
    refine ⟨?_, ⟨s, hs, hid, hd⟩, hl⟩
    rw [Duties.pass_of_ne _ ?_, hc]
    rintro ⟨-, rfl⟩
    -- the order of a saga is stored
    obtain ⟨x', hk⟩ := hI.sagas s hs
    obtain ⟨y, hy, hyx, -⟩ := hk.key
    have hx : x' = o.id := Option.some.inj (hk.order.symm.trans hd)
    exact hfresh y hy (hyx.trans hx)
  · rcases pass_cases hj with h | h
    · exact Option.some.inj h ▸ hi
    · exact hl d x j h

/-- An order that was read is written back, with its status or payment changed. -/
theorem respects_saveOrder [Hashes] {t : OrderTable} {o y : Order} (hI : Inv R w g)
    (hw : w' = { w with orders := t }) (ho : o ∈ w.orders) (hc : y.core = o.core)
    (hmem : ∀ z, z ∈ t ↔ z = y ∨ z ∈ w.orders ∧ z.id ≠ y.id)
    (hst : y.status = .paid ∨ y.status = .cancelled)
    (hpaid : R.vouched y.id → y.status = .paid → w.PaidBy y.id y.paymentId)
    (hspared : R.spared y.id → y.status = .cancelled → w.Outcome y.id .failed)
    (hundone : R.undone → y.status = .cancelled ∨ ¬w.Cancelled y.id) :
    (flow R).Respects i w g w' g := by
  subst hw
  obtain ⟨hid, -, hamount, hkey, hitems⟩ := Order.core_eq.mp hc
  -- rows stay, with the columns nothing changes
  have hold : ∀ z ∈ w.orders, ∃ z' ∈ t, z'.core = z.core := by
    intro z hz
    by_cases hzy : z.id = y.id
    · obtain rfl := Table.eq_of_pk hz ho (hzy.trans hid)
      exact ⟨y, (hmem y).mpr (Or.inl rfl), hc⟩
    · exact ⟨z, (hmem z).mpr (Or.inr ⟨hz, hzy⟩), rfl⟩
  -- an order that is decided stays so, and one that is cancelled if it has to
  have hg : Grows R w g { w with orders := t } g := by
    refine ⟨hold, fun hR x hx => ?_, fun x hx => ?_, fun p hp => ⟨p, hp, rfl, fun _ => rfl⟩,
      fun s hs => ⟨s, hs, rfl⟩, List.prefix_rfl, fun x j _ hj => ⟨j, hj⟩⟩
    · obtain ⟨z, hz, hzx, hzs⟩ := hx
      by_cases hzy : z.id = y.id
      · refine ⟨y, (hmem y).mpr (Or.inl rfl), hzy.symm.trans hzx, ?_⟩
        rcases hundone hR with h | h
        · exact h
        · exact absurd ⟨z, hz, hzy, hzs⟩ h
      · exact ⟨z, (hmem z).mpr (Or.inr ⟨hz, hzy⟩), hzx, hzs⟩
    · obtain ⟨z, hz, hzx, hzs⟩ := hx
      by_cases hzy : z.id = y.id
      · refine ⟨y, (hmem y).mpr (Or.inl rfl), hzy.symm.trans hzx, ?_⟩
        rcases hst with h | h <;> simp [h]
      · exact ⟨z, (hmem z).mpr (Or.inr ⟨hz, hzy⟩), hzx, hzs⟩
  have hbooks : Books R { w with orders := t } := by
    -- the books say the same of the new row as of the others
    have hrows : ∀ {P : Order → Prop}, P y → (∀ z ∈ w.orders, P z) → ∀ z ∈ t, P z := by
      intro P hy hw z hz
      rcases (hmem z).mp hz with rfl | ⟨hz, -⟩
      · exact hy
      · exact hw z hz
    refine ⟨hrows ?_ hI.books.columns, hrows (Or.inr hst) hI.books.statuses,
      hrows hpaid hI.books.paid, fun hR => hrows ?_ (hI.books.keys hR),
      fun hR => hrows ?_ (hI.books.ids hR), hrows ?_ hI.books.placed,
      fun e he => (hI.books.stored e he).later hg⟩
    · rw [hkey, hamount]
      exact hI.books.columns o ho
    · rw [hkey]
      exact hI.books.keys hR o ho
    · rw [hid]
      exact hI.books.ids hR o ho
    · rw [hkey, hitems]
      exact hI.books.placed o ho
  refine ⟨⟨?_, hbooks, fun x hx hxc => ?_, fun p hp => ?_, hI.single, hI.sagas_later hg,
    hI.pending_later hg, hI.events_later hg, fun x j hj => ?_, hI.settling, hI.confirming⟩, hg,
    fun j hj => ⟨fun _ _ => Iff.rfl, fun _ _ hu => hu, fun _ _ _ hp _ => hp, ?_, .refl j w,
    List.prefix_rfl⟩, fun _ _ hl => hl⟩
  · exact hI.tx.of_subset (fun _ ht => ht) fun s hs => ⟨s, hs, rfl⟩
  · obtain ⟨z, hz, rfl, hzs⟩ := hxc
    rcases (hmem z).mp hz with rfl | ⟨hz, -⟩
    · exact hspared hx hzs
    · exact hI.spared z.id hx ⟨z, hz, rfl, hzs⟩
  · obtain ⟨z, hz, hzid, hzu, hza⟩ := hI.payments p hp
    obtain ⟨z', hz', hzc⟩ := hold z hz
    obtain ⟨hid', hu', ha', -⟩ := Order.core_eq.mp hzc
    exact ⟨z', hz', hid'.trans hzid, hu'.trans hzu, ha'.trans hza⟩
  · obtain ⟨z, hz, rfl⟩ := hI.charging x j hj
    obtain ⟨z', hz', hzc⟩ := hold z hz
    exact ⟨z', hz', (Order.core_eq.mp hzc).1⟩
  · exact fun _ _ _ _ _ h => h

/-! ### Payments -/

/-- Whoever has to have an order charged stores its payment, and is to settle it. -/
theorem respects_insertPayment [Hashes] {t : PaymentTable} {p : Payment} {o : Order}
    (hI : Inv R w g) (hw : w' = { w with payments := t })
    (hmem : ∀ q, q ∈ t ↔ q = p ∨ q ∈ w.payments) (hduty : g .charge p.orderId = some i)
    (hunpaid : w.Unpaid p.orderId) (hst : p.status = .processing) (ho : o ∈ w.orders)
    (hid : o.id = p.orderId) (hu : o.userId = p.userId) (ha : o.totalAmount = p.amount)
    (hids : R.traced → ∀ o ∈ w.orders, o.id ≠ p.id) :
    (flow R).Respects i w g w' (g.pass .settle p.orderId (some i)) := by
  subst hw
  have hold : ∀ q ∈ w.payments, q ∈ t := fun q hq => (hmem q).mpr (Or.inr hq)
  -- there is nothing to settle yet, nor to confirm
  have hnone : ∀ d j, d ≠ .charge → g d p.orderId ≠ some j := by
    rintro d j hd hj
    obtain ⟨q, hq, hqx⟩ : ∃ q ∈ w.payments, q.orderId = p.orderId := by
      cases d with
      | charge => exact absurd rfl hd
      | settle =>
        obtain ⟨q, hq, hqx, -⟩ := hI.settling _ j hj
        exact ⟨q, hq, hqx⟩
      | confirm =>
        obtain ⟨q, hq, hqx, -⟩ := hI.confirming _ j hj
        exact ⟨q, hq, hqx⟩
    exact hunpaid q hq hqx
  have hout : ∀ {x status}, w.Outcome x status → World.Outcome { w with payments := t } x status :=
    fun ⟨q, hq, hqs⟩ => ⟨q, hold q hq, hqs⟩
  have hpass : ∀ {d x j}, d ≠ .settle → g.pass .settle p.orderId (some i) d x = some j →
      g d x = some j := by
    intro d x j hd hj
    rwa [Duties.pass_of_ne _ (by simp [hd])] at hj
  have hg : Grows R w g { w with payments := t } (g.pass .settle p.orderId (some i)) :=
    ⟨fun o ho => ⟨o, ho, rfl⟩, fun _ _ hx => hx, fun _ hx => hx,
      fun q hq => ⟨q, hold q hq, rfl, fun _ => rfl⟩, fun s hs => ⟨s, hs, rfl⟩, List.prefix_rfl,
      fun _ j _ hj => ⟨j, hpass (by simp) hj⟩⟩
  have hbooks : Books R { w with payments := t } := by
    refine ⟨hI.books.columns, hI.books.statuses,
      fun o ho hv hst => hg.paidBy (hI.books.paid o ho hv hst),
      hI.books.keys, fun hR o ho q hq => ?_, hI.books.placed,
      fun e he => (hI.books.stored e he).later hg⟩
    rcases (hmem q).mp hq with rfl | hq
    · exact (hids hR o ho).symm
    · exact hI.books.ids hR o ho q hq
  refine ⟨⟨?_, hbooks, fun x hx hc => hout (hI.spared x hx hc), fun q hq => ?_,
    fun q hq q' hq' hqq => ?_, hI.sagas_later hg, hI.pending_later hg, hI.events_later hg,
    fun x j hj => ?_, fun x j hj => ?_, fun x j hj => ?_⟩, hg,
    fun j hj => ⟨fun d x => ?_, fun x hx hxu q hq => ?_, fun x _ q hq _ => hold q hq, ?_, .refl j w,
    List.prefix_rfl⟩, fun l hi hl d x j hj => ?_⟩
  · exact hI.tx.of_subset (fun _ ht => ht) fun s hs => ⟨s, hs, rfl⟩
  · rcases (hmem q).mp hq with rfl | hq
    · exact ⟨o, ho, hid, hu, ha⟩
    · exact hI.payments q hq
  · rcases (hmem q).mp hq with rfl | hq <;> rcases (hmem q').mp hq' with rfl | hq'
    · rfl
    · exact absurd hqq.symm (hunpaid q' hq')
    · exact absurd hqq (hunpaid q hq)
    · exact hI.single q hq q' hq' hqq
  · exact hI.charging x j (hpass (by simp) hj)
  · by_cases hx : x = p.orderId
    · exact ⟨p, (hmem p).mpr (Or.inl rfl), hx.symm, hst⟩
    · rw [Duties.pass_of_ne _ (by simp [hx])] at hj
      exact hout (hI.settling x j hj)
  · exact hout (hI.confirming x j (hpass (by simp) hj))
  · by_cases hdx : d = .settle ∧ x = p.orderId
    · obtain ⟨rfl, rfl⟩ := hdx
      rw [Duties.pass_self]
      constructor
      · exact fun h => absurd h (hnone _ j (by simp))
      · exact fun h => absurd (Option.some.inj h).symm hj
    · rw [Duties.pass_of_ne _ hdx]
  · rcases (hmem q).mp hq with rfl | hq
    · -- somebody else's order
      rintro rfl
      rw [hduty] at hx
      exact hj (Option.some.inj hx).symm
    · exact hxu q hq
  · rintro - x id l - ⟨hc, hs⟩
    exact ⟨by rw [Duties.pass_of_ne _ (by simp), hc], hs⟩
  · rcases pass_cases hj with h | h
    · exact Option.some.inj h ▸ hi
    · exact hl d x j h

/-- The duties once a payment is settled by activity `i`: a completed one has to be followed
by a confirmation. -/
def settled (g : Duties) (i : ℕ) (p : Payment) : Duties :=
  if p.status = .completed then (g.pass .settle p.orderId none).pass .confirm p.orderId (some i)
  else g.pass .settle p.orderId none

theorem settled_settle (g : Duties) (i : ℕ) (p : Payment) :
    settled g i p .settle p.orderId = none := by
  unfold settled
  split
  · rw [Duties.pass_of_ne _ (by simp), Duties.pass_self]
  · rw [Duties.pass_self]

theorem settled_confirm {p : Payment} (h : g .confirm p.orderId = none) :
    settled g i p .confirm p.orderId = if p.status = .completed then some i else none := by
  unfold settled
  split
  · rw [Duties.pass_self]
  · rw [Duties.pass_of_ne _ (by simp), h]

theorem settled_of_ne {p : Payment} {x : String} (h : d = .charge ∨ x ≠ p.orderId) :
    settled g i p d x = g d x := by
  have hs : ¬(d = .settle ∧ x = p.orderId) := by
    rintro ⟨rfl, rfl⟩
    simp at h
  have hc : ¬(d = .confirm ∧ x = p.orderId) := by
    rintro ⟨rfl, rfl⟩
    simp at h
  unfold settled
  split
  · rw [Duties.pass_of_ne _ hc, Duties.pass_of_ne _ hs]
  · rw [Duties.pass_of_ne _ hs]

/-- Whoever has to settle a payment stores it as completed or failed. -/
theorem respects_savePayment [Hashes] {t : PaymentTable} {q p : Payment} (hI : Inv R w g)
    (hw : w' = { w with payments := t }) (hq : q ∈ w.payments) (hc : p.core = q.core)
    (hmem : ∀ r, r ∈ t ↔ r = p ∨ r ∈ w.payments ∧ r.id ≠ p.id)
    (hduty : g .settle p.orderId = some i) (hst : p.status = .completed ∨ p.status = .failed) :
    (flow R).Respects i w g w' (settled g i p) := by
  subst hw
  obtain ⟨hid, hox, hu, ha⟩ := Payment.core_eq.mp hc
  -- the payment is the one that was not settled
  have hprocessing : q.status = .processing := by
    obtain ⟨r, hr, hrx, hrs⟩ := hI.settling _ i hduty
    rw [← hI.single r hr q hq (hrx.trans hox)]
    exact hrs
  -- no other row has its id
  have hrow : ∀ r ∈ w.payments, r.id = p.id → r = q :=
    fun r hr hrp => Table.eq_of_pk hr hq (hrp.trans hid)
  -- nobody is to confirm the order before the payment is settled
  have hnone : g .confirm p.orderId = none := by
    cases hj : g .confirm p.orderId with
    | none => rfl
    | some j =>
      obtain ⟨r, hr, hrx, hrs⟩ := hI.confirming _ j hj
      rw [hI.single r hr q hq (hrx.trans hox), hprocessing] at hrs
      simp at hrs
  have hold : ∀ r ∈ w.payments, r.orderId ≠ p.orderId → r ∈ t := by
    refine fun r hr hne => (hmem r).mpr (Or.inr ⟨hr, fun hrp => hne ?_⟩)
    rw [hrow r hr hrp, hox]
  -- what was settled before is another payment
  have hpersist : ∀ r ∈ w.payments, ∃ r' ∈ t, r'.core = r.core ∧
      (r.status = .completed ∨ r.status = .failed → r'.status = r.status) := by
    intro r hr
    by_cases hrp : r.id = p.id
    · obtain rfl := hrow r hr hrp
      refine ⟨p, (hmem p).mpr (Or.inl rfl), hc, fun hrs => ?_⟩
      rw [hprocessing] at hrs
      simp at hrs
    · exact ⟨r, (hmem r).mpr (Or.inr ⟨hr, hrp⟩), rfl, fun _ => rfl⟩
  have hg : Grows R w g { w with payments := t } (settled g i p) := by
    refine ⟨fun o ho => ⟨o, ho, rfl⟩, fun _ _ hx => hx, fun _ hx => hx, hpersist,
      fun s hs => ⟨s, hs, rfl⟩, List.prefix_rfl, fun x j _ hj => ⟨j, ?_⟩⟩
    rwa [settled_of_ne (Or.inl rfl)] at hj
  have hbooks : Books R { w with payments := t } := by
    refine hI.books.later hg rfl (fun r hr => ?_) rfl
    rcases (hmem r).mp hr with rfl | ⟨hr, -⟩
    · exact ⟨q, hq, hid.symm⟩
    · exact ⟨r, hr, rfl⟩
  refine ⟨⟨?_, hbooks, fun x hx hxc => ?_, fun r hr => ?_, fun r hr r' hr' hrr => ?_,
    hI.sagas_later hg, hI.pending_later hg, hI.events_later hg, fun x j hj => ?_,
    fun x j hj => ?_, fun x j hj => ?_⟩, hg,
    fun j hj => ⟨fun d x => ?_, fun x _ hxu r hr => ?_, fun x hx r hr hrx => ?_, ?_, .refl j w,
    List.prefix_rfl⟩, fun l hi hl d x j hj => ?_⟩
  · exact hI.tx.of_subset (fun _ ht => ht) fun s hs => ⟨s, hs, rfl⟩
  · exact hg.outcome (Or.inr rfl) (hI.spared x hx hxc)
  · rcases (hmem r).mp hr with rfl | ⟨hr, -⟩
    · rw [hox, hu, ha]
      exact hI.payments q hq
    · exact hI.payments r hr
  · -- an order has one payment, so two rows of one order are one row
    rcases (hmem r).mp hr with rfl | ⟨hr, hne⟩ <;> rcases (hmem r').mp hr' with rfl | ⟨hr', hne'⟩
    · rfl
    · exact absurd (hI.single q hq r' hr' (hox.symm.trans hrr) ▸ hid.symm) hne'
    · exact absurd (hI.single r hr q hq (hrr.trans hox) ▸ hid.symm) hne
    · exact hI.single r hr r' hr' hrr
  · rw [settled_of_ne (Or.inl rfl)] at hj
    exact hI.charging x j hj
  · by_cases hx : x = p.orderId
    · rw [hx, settled_settle] at hj
      simp at hj
    · rw [settled_of_ne (Or.inr hx)] at hj
      obtain ⟨r, hr, rfl, hrs⟩ := hI.settling x j hj
      exact ⟨r, hold r hr hx, rfl, hrs⟩
  · by_cases hx : x = p.orderId
    · subst hx
      rw [settled_confirm hnone] at hj
      split at hj
      · next hcomp => exact ⟨p, (hmem p).mpr (Or.inl rfl), rfl, hcomp⟩
      · simp at hj
    · rw [settled_of_ne (Or.inr hx)] at hj
      exact hg.outcome (Or.inl rfl) (hI.confirming x j hj)
  · -- both duties are the settler's, before and after
    by_cases hx : d = .charge ∨ x ≠ p.orderId
    · rw [settled_of_ne hx]
    · obtain ⟨hd, rfl⟩ := not_or.mp hx |>.imp_right not_not.mp
      cases d with
      | charge => exact absurd rfl hd
      | settle =>
        rw [settled_settle, hduty]
        constructor
        · exact fun h => absurd (Option.some.inj h).symm hj
        · exact fun h => nomatch h
      | confirm =>
        rw [settled_confirm hnone, hnone]
        constructor
        · exact fun h => nomatch h
        · intro h
          split at h
          · exact absurd (Option.some.inj h).symm hj
          · simp at h
  · rcases (hmem r).mp hr with rfl | ⟨hr, -⟩
    · rw [hox]
      exact hxu q hq
    · exact hxu r hr
  · refine hold r hr ?_
    rintro hrp
    rw [← hrx, hrp, hduty] at hx
    exact hj (Option.some.inj hx).symm
  · rintro - x id l - ⟨hc, hs⟩
    exact ⟨by rw [settled_of_ne (Or.inl rfl), hc], hs⟩
  · by_cases hx : d = .charge ∨ x ≠ p.orderId
    · rw [settled_of_ne hx] at hj
      exact hl d x j hj
    · obtain ⟨hd, rfl⟩ := not_or.mp hx |>.imp_right not_not.mp
      cases d with
      | charge => exact absurd rfl hd
      | settle =>
        rw [settled_settle] at hj
        simp at hj
      | confirm =>
        rw [settled_confirm hnone] at hj
        split at hj
        · exact Option.some.inj hj ▸ hi
        · simp at hj

/-! ### Sagas -/

/-- The saga of an order is stored. -/
theorem respects_insertSaga [Hashes] {t : SagaTable} {s : SagaInstance} (hI : Inv R w g)
    (hw : w' = { w with sagas := t }) (htx : World.TxRespects i w w')
    (hmem : ∀ y, y ∈ t ↔ y = s ∨ y ∈ w.sagas) (horder : s.data.orderId = some x)
    (huser : s.data.userId ≠ none) (hkey : w.Keyed x s.correlationId) (hst : s.status = .started)
    (hsteps : s.completedSteps = []) : (flow R).Respects i w g w' g ∧ Known R x s w' g := by
  subst hw
  have hold : ∀ y ∈ w.sagas, y ∈ t := fun y hy => (hmem y).mpr (Or.inr hy)
  have hg : Grows R w g { w with sagas := t } g :=
    ⟨fun o ho => ⟨o, ho, rfl⟩, fun _ _ hx => hx, fun _ hx => hx,
      fun p hp => ⟨p, hp, rfl, fun _ => rfl⟩, fun y hy => ⟨y, hold y hy, rfl⟩, List.prefix_rfl,
      fun _ j _ hj => ⟨j, hj⟩⟩
  have hnew : Known R x s { w with sagas := t } g :=
    ⟨horder, huser, hkey, ⟨s, (hmem s).mpr (Or.inl rfl), rfl⟩, fun _ h => by simp [hst] at h,
      fun _ h => by simp [hst] at h, fun _ _ _ => by simp [hsteps], fun h => by simp [hsteps] at h⟩
  have hstep : ∀ {id l}, w.Steps id l → World.Steps { w with sagas := t } id l :=
    fun ⟨y, hy, hyl⟩ => ⟨y, hold y hy, hyl⟩
  refine ⟨⟨⟨htx.1, hI.books.later hg rfl (fun p hp => ⟨p, hp, rfl⟩) rfl, hI.spared, hI.payments,
    hI.single, fun y hy => ?_, fun y hy => ?_, hI.events_later hg, hI.charging, hI.settling,
    hI.confirming⟩, hg, fun j hj => ⟨fun _ _ => Iff.rfl, fun _ _ hu => hu, fun _ _ _ hp _ => hp, ?_,
    htx.2.2 j hj,
    List.prefix_rfl⟩, fun _ _ hl => hl⟩, hnew⟩
  · rcases (hmem y).mp hy with rfl | hy
    · exact ⟨x, hnew⟩
    · exact hI.sagas_later hg y hy
  · exact (hI.pending_later hg y hy).imp_right hstep
  · exact fun _ x' id l _ ⟨hc, hs, hl⟩ => ⟨hc, hg.sagaOf hs, hstep hl⟩

/-- What becomes of the charge of an order when sagas are written: nothing, or it was activity
`i`'s, and is dropped. -/
def Drops (i : ℕ) (g g' : Duties) : Prop :=
  g' = g ∨ ∃ x, g .charge x = some i ∧ g' = g.pass .charge x none

theorem Drops.grows (h : Drops i g g') : Grows R w g w g' := by
  rcases h with rfl | ⟨x, hx, rfl⟩
  · exact grows_of_same ⟨rfl, rfl, rfl, rfl, rfl, rfl, List.prefix_rfl⟩
  · exact .pass hx none

theorem Drops.inv (h : Drops i g g') (hI : Inv R w g) : Inv R w g' := by
  rcases h with rfl | ⟨x, hx, rfl⟩
  · exact hI
  · exact hI.pass hx none

theorem Drops.leaves (h : Drops i g g') (hj : j ≠ i) : Leaves R j w g w g' := by
  rcases h with rfl | ⟨x, hx, rfl⟩
  · exact ⟨fun _ _ => Iff.rfl, fun _ _ h => h, fun _ _ _ h _ => h, fun _ _ _ _ _ h => h,
      .refl j w, List.prefix_rfl⟩
  · exact .pass hx hj (by simp)

theorem Drops.fits [Hashes] (h : Drops i g g') {l : List Job} (hf : (flow R).Fits g l) :
    (flow R).Fits g' l := by
  rcases h with rfl | ⟨x, hx, rfl⟩
  · exact hf
  · intro d x' j hj
    obtain ⟨j', hj'⟩ := pass_ne_none hx hj
    by_cases hdx : d = .charge ∧ x' = x
    · obtain ⟨rfl, rfl⟩ := hdx
      simp at hj
    · rw [Duties.pass_of_ne none hdx] at hj
      exact hf d x' j hj

/-- **Sagas are written, all of them known.**  Once an order is charged, the steps of its
saga are nobody's to change but the one's who has to confirm it. -/
theorem respects_sagas [Hashes] (ss : List SagaInstance) (hI : Inv R w g) (hd : Drops i g g')
    (htx : World.TxRespects i w w') (ho : w'.orders = w.orders) (hp : w'.payments = w.payments)
    (hes : w'.eventStore = w.eventStore) (hpub : w'.published = w.published)
    (hs : w'.sagas = (ss.foldl World.putSaga w).sagas)
    (hknown : ∀ y ∈ ss, ∃ x, Known R x y w g')
    (hsteps : R.orderly → ∀ y ∈ ss, ∀ x, y.data.orderId = some x → ∀ j, j ≠ i →
      g .confirm x = some j → g .charge x = none → w.Steps y.id y.completedSteps)
    (hpend : ∀ y, w'.Pending y → (∃ x, Known R x y w g') ∧ w'.Steps y.id y.completedSteps) :
    (flow R).Respects i w g w' g' := by
  have hI' := hd.inv hI
  have hghost : ∀ j, j ≠ i → Leaves R j w g w g' := fun j hj => hd.leaves hj
  -- a saga that is written was stored before
  have hcore : ∀ s ∈ w.sagas, ∃ z ∈ w'.sagas, z.core = s.core := by
    rw [hs]
    refine World.saved_sagas_core ss w fun y hy => ?_
    obtain ⟨x, hk⟩ := hknown y hy
    exact hk.row
  have horder : ∀ {P : Order → Prop}, (∃ o ∈ w.orders, P o) → ∃ o ∈ w'.orders, P o := by
    intro P hx
    rw [ho]
    exact hx
  have hg' : Grows R w g' w' g' :=
    ⟨fun o h => horder ⟨o, h, rfl⟩, fun _ _ => horder, fun _ => horder,
      fun p h => ⟨p, hp ▸ h, rfl, fun _ => rfl⟩, hcore, htx.2.1, fun _ j _ hj => ⟨j, hj⟩⟩
  refine ⟨⟨htx.1, hI'.books.later hg' ho (fun p h => ⟨p, hp ▸ h, rfl⟩) hes, fun x hx hc => ?_, ?_,
    ?_, fun z hz => ?_, fun y hy => ?_, fun e he => ?_, ?_, fun x j hj => ?_, fun x j hj => ?_⟩,
    (flow R).mono_trans hd.grows hg',
    fun j hj => ⟨(hghost j hj).duties, fun x _ hu => ?_, fun x _ p h _ => hp ▸ h, ?_, htx.2.2 j hj,
    htx.2.1⟩, fun l _ hl => hd.fits hl⟩
  · rw [outcome_of_same hp]
    unfold World.Cancelled at hc
    rw [ho] at hc
    exact hI.spared x hx hc
  · rw [ho, hp]
    exact hI.payments
  · rw [hp]
    exact hI.single
  · rw [hs] at hz
    rcases World.saved_sagas ss w hz with ⟨y, hy, rfl⟩ | hz
    · obtain ⟨x, hk⟩ := hknown y hy
      have hk' := hk.later hg'
      exact ⟨x, hk'.order, hk'.user, hk'.key, hk'.row, hk'.undone, hk'.done, hk'.charged,
        hk'.confirmed⟩
    · exact hI'.sagas_later hg' z hz
  · obtain ⟨⟨x, hk⟩, hl⟩ := hpend y hy
    exact ⟨⟨x, hk.later hg'⟩, hl⟩
  · exact hI'.events_later hg' e (hpub ▸ he)
  · rw [ho]
    exact hI'.charging
  · rw [outcome_of_same hp]
    exact hI'.settling x j hj
  · rw [outcome_of_same hp]
    exact hI'.confirming x j hj
  · unfold World.Unpaid
    rw [hp]
    exact hu
  · -- the steps stay while somebody else is to confirm the order
    rintro hR x id l hx ⟨hc, hso, hl⟩
    refine ⟨((hghost j hj).confirm hR x id l hx ⟨hc, hso, hl⟩).1, hg'.sagaOf hso, ?_⟩
    rw [steps_of_same hs, ← World.steps_putSagas ss w (fun y hy hyid => ?_)]
    · exact hl
    · -- the saga is the one of the order
      obtain ⟨x', hk⟩ := hknown y hy
      obtain ⟨s, hs, hsc⟩ := hk.row
      obtain ⟨hsid, -, -, hsd⟩ := SagaInstance.core_eq.mp hsc
      obtain ⟨s', hs', hid', hd'⟩ := hso
      obtain rfl := Table.eq_of_pk hs hs' (hsid.trans (hyid.trans hid'.symm))
      rw [← hyid]
      exact hsteps hR y hy x (by rw [← hsd, hd']) j hj hx hc

/-! ### Events -/

/-- Events are published that say what is stored. -/
theorem unseen_published [Hashes] {events : List Event} (he : ∀ e ∈ events, e.Ok R w) :
    (flow R).Unseen w { w with published := w.published ++ events } := by
  intro g hI
  have hg : Grows R w g { w with published := w.published ++ events } g :=
    ⟨fun o ho => ⟨o, ho, rfl⟩, fun _ _ hx => hx, fun _ hx => hx,
      fun p hp => ⟨p, hp, rfl, fun _ => rfl⟩, fun s hs => ⟨s, hs, rfl⟩, List.prefix_rfl,
      fun _ j _ hj => ⟨j, hj⟩⟩
  refine ⟨⟨?_, hI.books.later hg rfl (fun p hp => ⟨p, hp, rfl⟩) rfl, hI.spared, hI.payments,
    hI.single, hI.sagas_later hg, hI.pending_later hg, fun e h => ?_, hI.charging, hI.settling,
    hI.confirming⟩, hg, fun j => ⟨fun _ _ => Iff.rfl, fun _ _ hu => hu, fun _ _ _ hp _ => hp,
    fun _ _ _ _ _ h => h, fun _ _ => ⟨rfl, fun _ _ _ _ => Iff.rfl⟩, List.prefix_rfl⟩⟩
  · exact hI.tx.of_subset (fun _ ht => ht) fun s hs => ⟨s, hs, rfl⟩
  · rcases List.mem_append.mp h with h | h
    · exact hI.events_later hg e h
    · exact (he e h).later hg

/-- An event is stored. -/
theorem unseen_stored [Hashes] {e : EventStore} (he : e.Ok R w) :
    (flow R).Unseen w { w with eventStore := w.eventStore ++ [e] } := by
  intro g hI
  have hg : Grows R w g { w with eventStore := w.eventStore ++ [e] } g :=
    ⟨fun o ho => ⟨o, ho, rfl⟩, fun _ _ hx => hx, fun _ hx => hx,
      fun p hp => ⟨p, hp, rfl, fun _ => rfl⟩, fun s hs => ⟨s, hs, rfl⟩, List.prefix_rfl,
      fun _ j _ hj => ⟨j, hj⟩⟩
  refine ⟨⟨?_, ⟨hI.books.columns, hI.books.statuses, hI.books.paid, hI.books.keys, hI.books.ids,
    hI.books.placed, fun f hf => ?_⟩, hI.spared, hI.payments, hI.single, hI.sagas_later hg,
    hI.pending_later hg,
    hI.events_later hg, hI.charging, hI.settling, hI.confirming⟩, hg,
    fun j => ⟨fun _ _ => Iff.rfl, fun _ _ hu => hu, fun _ _ _ hp _ => hp, fun _ _ _ _ _ h => h,
      fun _ _ => ⟨rfl, fun _ _ _ _ => Iff.rfl⟩, List.prefix_rfl⟩⟩
  · exact hI.tx.of_subset (fun _ ht => ht) fun s hs => ⟨s, hs, rfl⟩
  · rcases List.mem_append.mp hf with hf | hf
    · exact (hI.books.stored f hf).later hg
    · exact List.mem_singleton.mp hf ▸ he.later hg

end Flow

end CqrsSaga
