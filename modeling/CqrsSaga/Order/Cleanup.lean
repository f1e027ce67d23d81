import CqrsSaga.App.Alone
import CqrsSaga.App.Controllers
import CqrsSaga.App.Rows
import CqrsSaga.Store.Rowwise

/-!
# The cleanup of pending orders

The cleanup goes through the pending orders one by one, cancels those whose payment has failed or
that have none, and marks the saga of the former as compensated.  It looks for that saga by
comparing the whole column `data` with the id of the order; the sagas that orders start hold more.

## Main definitions

* `World.Abandoned`, `World.SagaOfFailing` — the orders and the sagas that are to be cleaned up.
* `World.CleanedUp` — those have changed, and nothing else has.
* `World.Bare` — the sagas to be cleaned up hold nothing but the id, and no order has two.
* `World.Cleaning` — how far the cleanup has come.

## Main results

* `cleanupOrder_ends`, `cleanupOrders_ends` — one order, and all of them.
* `cleanup_cancels` — **the orders are cancelled that should be; their sagas are marked exactly if
  they are bare.**
-/

namespace CqrsSaga

open SagaMaintenanceController Table World

/-! ### What is to be cleaned up -/

/-- The row of the order is cancelled. -/
def Order.CancelledAs (o o' : Order) : Prop :=
  ∃ time, o' = { o with status := .cancelled, updatedAt := time }

/-- The row of the saga is marked as compensated by the cleanup. -/
def SagaInstance.CompensatedAs (s s' : SagaInstance) : Prop :=
  ∃ time, s' = { s with
    status := .compensated
    compensationSteps := s.compensationSteps ++ ["order_cancelled_cleanup"]
    updatedAt := time }

theorem SagaInstance.not_compensatedAs (s : SagaInstance) : ¬s.CompensatedAs s := by
  rintro ⟨time, h⟩
  have hsteps := congrArg (fun s : SagaInstance => s.compensationSteps.length) h
  simp at hsteps

namespace World

/-- The order is pending, and its payment has failed. -/
def Failing (w : World) (o : Order) : Prop := o.status = .pending ∧ w.Outcome o.id .failed

/-- The order is pending, and its payment has failed or there is none. -/
def Abandoned (w : World) (o : Order) : Prop :=
  o.status = .pending ∧ (w.Outcome o.id .failed ∨ w.Unpaid o.id)

/-- The saga is one of an order whose payment has failed. -/
def SagaOfFailing (w : World) (s : SagaInstance) : Prop :=
  s.sagaType = "OrderProcessingSaga" ∧
    ∃ o ∈ w.orders, w.Failing o ∧ s.data.orderId = some o.id

/-- **What the cleanup is for**: from `w` to `w'`, what was to be cleaned up has been, and every
other order, payment and saga is as it was. -/
structure CleanedUp (w w' : World) : Prop where
  orders : Changed w.Abandoned Order.CancelledAs w.orders.rows w'.orders.rows
  payments : w'.payments = w.payments
  sagas : Changed w.SagaOfFailing SagaInstance.CompensatedAs w.sagas.rows w'.sagas.rows

/-- A saga of an order whose payment has failed holds nothing but the id of the order, and is the
only one. -/
def Bare (w : World) : Prop :=
  ∀ o ∈ w.orders, w.Failing o → ∀ s ∈ w.sagas, s.sagaType = "OrderProcessingSaga" →
    s.data.orderId = some o.id → s.data = { orderId := some o.id } ∧
      ∀ s' ∈ w.sagas, s'.sagaType = "OrderProcessingSaga" → s'.data.orderId = some o.id → s' = s

/-! ### What is found -/

/-- How the cleanup looks for the saga of an order. -/
def sagaWhere (o : Order) : SagaWhere :=
  { sagaType := some "OrderProcessingSaga", data := some { orderId := some o.id } }

theorem sagaWhere_selects {o : Order} {s : SagaInstance} : (sagaWhere o).selects s = true ↔
    s.sagaType = "OrderProcessingSaga" ∧ s.data = { orderId := some o.id } := by
  simp [sagaWhere, SagaWhere.selects, meets, eq_comm (b := s.sagaType), eq_comm (b := s.data)]

/-- The saga the cleanup marks is that of one of these orders. -/
def FoundFor (w : World) (orders : Order → Prop) (s : SagaInstance) : Prop :=
  ∃ o, orders o ∧ w.Failing o ∧ w.sagas.find? (sagaWhere o).selects = some s

variable {w w' : World}

/-- What is found belongs to an order whose payment has failed. -/
theorem FoundFor.sagaOfFailing {s : SagaInstance} (h : w.FoundFor (fun o => o ∈ w.orders) s) :
    w.SagaOfFailing s := by
  obtain ⟨o, ho, hfailing, hfind⟩ := h
  obtain ⟨htype, hdata⟩ := sagaWhere_selects.mp (find?_some hfind)
  refine ⟨htype, o, ho, hfailing, ?_⟩
  rw [hdata]

/-- **Every saga of such an order is found exactly if the sagas are bare.** -/
theorem bare_iff : w.Bare ↔
    ∀ s ∈ w.sagas.rows, w.FoundFor (fun o => o ∈ w.orders) s ↔ w.SagaOfFailing s := by
  constructor
  · intro hbare s hs
    refine ⟨FoundFor.sagaOfFailing, ?_⟩
    rintro ⟨htype, o, ho, hfailing, hid⟩
    obtain ⟨hdata, honly⟩ := hbare o ho hfailing s hs htype hid
    refine ⟨o, ho, hfailing, find?_eq_some hs (sagaWhere_selects.mpr ⟨htype, hdata⟩) ?_⟩
    intro s' hs' hsel
    obtain ⟨htype', hdata'⟩ := sagaWhere_selects.mp hsel
    exact honly s' hs' htype' (by rw [hdata'])
  · intro hfound o ho hfailing s hs htype hid
    -- whatever has the id of the order is what the query for the order finds
    have hfind : ∀ s ∈ w.sagas, s.sagaType = "OrderProcessingSaga" → s.data.orderId = some o.id →
        w.sagas.find? (sagaWhere o).selects = some s := by
      intro s hs htype hid
      obtain ⟨o', ho', -, hfind⟩ := (hfound s hs).mpr ⟨htype, o, ho, hfailing, hid⟩
      have hdata := (sagaWhere_selects.mp (find?_some hfind)).2
      rw [hdata] at hid
      obtain rfl : o' = o := eq_of_pk ho' ho (Option.some.inj hid)
      exact hfind
    have hs' := hfind s hs htype hid
    refine ⟨(sagaWhere_selects.mp (find?_some hs')).2, fun s'' hs'' htype'' hid'' => ?_⟩
    exact Option.some.inj ((hfind s'' hs'' htype'' hid'').symm.trans hs')

/-! ### How far the cleanup has come -/

/-- So far, the orders in `P` have been cancelled and the sagas in `Q` marked. -/
structure Cleaning (w : World) (P : Order → Prop) (Q : SagaInstance → Prop) (w' : World) :
    Prop where
  orders : Changed P Order.CancelledAs w.orders.rows w'.orders.rows
  payments : w'.payments = w.payments
  sagas : Changed Q SagaInstance.CompensatedAs w.sagas.rows w'.sagas.rows
  transactions : w'.transactions = []

variable {P : Order → Prop} {Q : SagaInstance → Prop} {o : Order} {s : SagaInstance}

theorem Cleaning.congr {P' : Order → Prop} {Q' : SagaInstance → Prop} (h : w.Cleaning P Q w')
    (hP : ∀ o ∈ w.orders, P o ↔ P' o) (hQ : ∀ s ∈ w.sagas, Q s ↔ Q' s) : w.Cleaning P' Q' w' :=
  ⟨h.orders.congr hP, h.payments, h.sagas.congr hQ, h.transactions⟩

/-- Time does not matter. -/
theorem Cleaning.at (h : w.Cleaning P Q w') (clock : ℕ) : w.Cleaning P Q { w' with clock } :=
  ⟨h.orders, h.payments, h.sagas, h.transactions⟩

/-- An order that has not been cancelled is found, as it was. -/
theorem Cleaning.find_order (h : w.Cleaning P Q w') (ho : o ∈ w.orders) (hP : ¬P o) :
    w'.orders.find? (OrderWhere.selects { id := some o.id, userId := some o.userId }) = some o := by
  have hmem : o ∈ w'.orders := h.orders.mem ho hP
  refine find?_eq_some hmem (by simp [OrderWhere.selects, meets]) ?_
  intro y hy hsel
  exact eq_of_pk hy hmem (OrderWhere.selects_id hsel rfl)

/-- An order is cancelled. -/
theorem Cleaning.save_order (h : w.Cleaning P Q w') (ho : o ∈ w.orders) (hP : ¬P o)
    (hamount : decimal102 o.totalAmount = some o.totalAmount) :
    (w'.saveOrder { o with status := .cancelled }).2 = .ok () ∧
      w.Cleaning (fun x => P x ∨ x = o) Q (w'.saveOrder { o with status := .cancelled }).1 := by
  have hmem : o ∈ w'.orders := h.orders.mem ho hP
  obtain ⟨t, ht⟩ : ∃ t,
      w'.orders.save { o with status := .cancelled, updatedAt := w'.clock } = some t :=
    save_isSome_of_uk_eq hmem rfl rfl
  have hsave : w'.saveOrder { o with status := .cancelled } =
      ({ w' with orders := t }, .ok ()) := by
    unfold saveOrder
    rw [hamount]
    dsimp only
    rw [ht]
  rw [hsave]
  refine ⟨rfl, ?_, h.payments, h.sagas, h.transactions⟩
  dsimp only
  rw [save_rows ht]
  refine h.orders.put ?_ w.orders.pk_ne ho hP ⟨_, rfl⟩
  rintro x y ⟨time, rfl⟩
  rfl

/-- The saga of an order is found as it was found at first. -/
theorem Cleaning.find_saga (h : w.Cleaning P Q w')
    (hQ : ∀ s, w.sagas.find? (sagaWhere o).selects = some s → ¬Q s) :
    w'.sagas.find? (sagaWhere o).selects = w.sagas.find? (sagaWhere o).selects := by
  have hsame : ∀ x y, SagaInstance.CompensatedAs x y →
      (sagaWhere o).selects y = (sagaWhere o).selects x := by
    rintro x y ⟨time, rfl⟩
    rfl
  cases hfind : w.sagas.find? (sagaWhere o).selects with
  | none => exact h.sagas.find?_eq_none hsame hfind
  | some s => exact h.sagas.find?_eq_some hsame hfind (hQ s hfind)

/-- A saga is marked. -/
theorem Cleaning.save_saga (h : w.Cleaning P Q w') (hs : s ∈ w.sagas) (hQ : ¬Q s) :
    w'.lockedBy none s.id = false ∧
      w.Cleaning P (fun x => Q x ∨ x = s) (w'.putSaga { s with
        status := .compensated
        compensationSteps := s.compensationSteps ++ ["order_cancelled_cleanup"] }) := by
  refine ⟨by simp [lockedBy, h.transactions], ?_⟩
  obtain ⟨t, ht⟩ : ∃ t, w'.sagas.save { s with
      status := .compensated
      compensationSteps := s.compensationSteps ++ ["order_cancelled_cleanup"]
      updatedAt := w'.clock } = some t :=
    save_isSome_of_uk_none rfl
  unfold putSaga
  rw [ht]
  refine ⟨h.orders, h.payments, ?_, h.transactions⟩
  dsimp only
  rw [save_rows ht]
  refine h.sagas.put ?_ w.sagas.pk_ne hs hQ ⟨_, rfl⟩
  rintro x y ⟨time, rfl⟩
  rfl

/-! ### One order -/

/-- The cleanup is done with these orders. -/
def Upto (w : World) (orders : List Order) : World → Prop :=
  w.Cleaning (fun o => o ∈ orders ∧ w.Abandoned o) (w.FoundFor fun o => o ∈ orders)

variable {orders : List Order}

theorem foundFor_append : w.FoundFor (fun x => x ∈ orders ++ [o]) s ↔
    w.FoundFor (fun x => x ∈ orders) s ∨
      w.Failing o ∧ w.sagas.find? (sagaWhere o).selects = some s := by
  constructor
  · rintro ⟨x, hx, hrest⟩
    rcases List.mem_append.mp hx with hx | hx
    · exact Or.inl ⟨x, hx, hrest⟩
    · obtain rfl := List.mem_singleton.mp hx
      exact Or.inr hrest
  · rintro (⟨x, hx, hrest⟩ | hrest)
    · exact ⟨x, List.mem_append_left _ hx, hrest⟩
    · exact ⟨o, List.mem_append_right _ List.mem_cons_self, hrest⟩

/-- Nothing is to be done about the order. -/
theorem Upto.skip (h : w.Upto orders w') (ho : ¬w.Abandoned o) : w.Upto (orders ++ [o]) w' := by
  refine Cleaning.congr h (fun x _ => ?_) fun s _ => ?_
  · rw [List.mem_append, List.mem_singleton]
    refine and_congr_left fun hx => (or_iff_left ?_).symm
    rintro rfl
    exact ho hx
  · rw [foundFor_append]
    exact (or_iff_left fun hfound => ho ⟨hfound.1.1, Or.inl hfound.1.2⟩).symm

/-- One more order has been cancelled. -/
theorem abandoned_append (ho : w.Abandoned o) (x : Order) :
    (x ∈ orders ∧ w.Abandoned x) ∨ x = o ↔ x ∈ orders ++ [o] ∧ w.Abandoned x := by
  rw [List.mem_append, List.mem_singleton]
  constructor
  · rintro (⟨hx, hab⟩ | rfl)
    · exact ⟨Or.inl hx, hab⟩
    · exact ⟨Or.inr rfl, ho⟩
  · rintro ⟨hx | rfl, hab⟩
    · exact Or.inl ⟨hx, hab⟩
    · exact Or.inr rfl

/-- The order has been cancelled, and no saga is found for it. -/
theorem Upto.cancelled (ho : w.Abandoned o)
    (h : w.Cleaning (fun x => (x ∈ orders ∧ w.Abandoned x) ∨ x = o)
      (w.FoundFor fun x => x ∈ orders) w')
    (hnone : w.Failing o → w.sagas.find? (sagaWhere o).selects = none) :
    w.Upto (orders ++ [o]) w' := by
  refine h.congr (fun x _ => abandoned_append ho x) fun s _ => ?_
  rw [foundFor_append]
  refine (or_iff_left ?_).symm
  rintro ⟨hfailing, hfind⟩
  rw [hnone hfailing] at hfind
  cases hfind

/-- The order has been cancelled, and its saga marked. -/
theorem Upto.marked (ho : w.Failing o) (hs : w.sagas.find? (sagaWhere o).selects = some s)
    (h : w.Cleaning (fun x => (x ∈ orders ∧ w.Abandoned x) ∨ x = o)
      (fun x => w.FoundFor (fun x => x ∈ orders) x ∨ x = s) w') : w.Upto (orders ++ [o]) w' := by
  have hab : w.Abandoned o := ⟨ho.1, Or.inl ho.2⟩
  refine h.congr (fun x _ => abandoned_append hab x) fun x _ => ?_
  rw [foundFor_append]
  refine or_congr_right ⟨?_, ?_⟩
  · rintro rfl
    exact ⟨ho, hs⟩
  · rintro ⟨-, hfind⟩
    exact Option.some.inj (hfind.symm.trans hs)

end World

section Programs

variable {w w' : World} {i : ℕ} {l : List Unit} {P : Order → Prop} {Q : SagaInstance → Prop}
  {o : Order}

/-- An operation that touches no row. -/
theorem unnoticed_ends {op : Op} (h : w.Cleaning P Q w')
    (hop : ∀ clock c, ∃ a ts, World.perform { w' with clock } i c op =
      some ({ w' with clock }, .ok a, ts)) :
    unattended.Ends i (Solo.Ends.Returns fun _ _ v => w.Cleaning P Q v) (call op) l w' := by
  refine Unattended.call_ends (fun clock => ?_) fun clock c v r ts hp => ?_
  · obtain ⟨a, ts, ha⟩ := hop clock {}
    exact ⟨{}, _, rfl, ha⟩
  · obtain ⟨a, ts', ha⟩ := hop clock c
    rw [ha] at hp
    simp only [Option.some.injEq, Prod.mk.injEq] at hp
    obtain ⟨rfl, rfl, -⟩ := hp
    exact ⟨a, rfl, h.at clock⟩

/-- A pending order is cancelled. -/
theorem cancelOrder_ends (h : w.Cleaning P Q w') (ho : o ∈ w.orders) (hP : ¬P o)
    (hpending : o.status = .pending) (hamount : decimal102 o.totalAmount = some o.totalAmount)
    (reason correlationId : Option String) :
    unattended.Ends i (fun _ r v => r = .ok () ∧ w.Cleaning (fun x => P x ∨ x = o) Q v)
      (CancelOrderHandler.execute ⟨o.id, o.userId, reason, correlationId⟩) l w' := by
  refine .next (R := fun _ found v => found = some o ∧ w.Cleaning P Q v) ?_ ?_
  · exact Unattended.certain_ends (fun clock c => rfl) fun clock =>
      ⟨_, rfl, h.find_order ho hP, h.at clock⟩
  · rintro l found v ⟨rfl, hv⟩
    dsimp only
    rw [if_neg (by simp [hpending]), if_neg (by simp [hpending])]
    have hsaved := fun clock => (hv.at clock).save_order ho hP hamount
    refine .next (R := fun _ _ v => w.Cleaning (fun x => P x ∨ x = o) Q v) ?_ ?_
    · exact Unattended.certain_ends (fun clock c => rfl) fun clock =>
        ⟨_, (hsaved clock).1, (hsaved clock).2⟩
    · intro l _ v hv
      -- the ids of the events, and the events themselves
      have hdrawn : ∀ l v, w.Cleaning (fun x => P x ∨ x = o) Q v → unattended.Ends i
          (Solo.Ends.Returns fun _ _ v => w.Cleaning (fun x => P x ∨ x = o) Q v)
          (call .uuidv4) l v := by
        intro l v hv
        exact unnoticed_ends hv fun clock c => ⟨_, _, rfl⟩
      refine .next (hdrawn l v hv) fun l _ v hv => ?_
      refine .next (hdrawn l v hv) fun l _ v hv => ?_
      exact (unnoticed_ends hv fun clock c => ⟨_, _, rfl⟩).mono fun l r v hr => by
        obtain ⟨a, rfl, hv⟩ := hr
        exact ⟨rfl, hv⟩

/-- The states the database can be in: a column of amounts holds amounts, and an order has one
payment at most. -/
structure World.Consistent (w : World) : Prop where
  amounts : ∀ o ∈ w.orders, decimal102 o.totalAmount = some o.totalAmount
  payments : ∀ q ∈ w.payments, ∀ q' ∈ w.payments, q.orderId = q'.orderId → q = q'

variable {orders : List Order}

/-- The payment of an order, and what it says of the order. -/
theorem World.Consistent.payment (hw : w.Consistent) (hpending : o.status = .pending)
    (h : w'.payments = w.payments) :
    (∃ q, w'.payments.find? (PaymentWhere.selects { orderId := some o.id }) = some q ∧
      (q.status = .failed → w.Failing o) ∧ (q.status ≠ .failed → ¬w.Abandoned o)) ∨
    (w'.payments.find? (PaymentWhere.selects { orderId := some o.id }) = none ∧ w.Abandoned o ∧
      ¬w.Failing o) := by
  have hsel : ∀ q : Payment, PaymentWhere.selects { orderId := some o.id } q = true ↔
      q.orderId = o.id := by
    intro q
    simp [PaymentWhere.selects, meets, eq_comm]
  rw [h]
  cases hfind : w.payments.find? (PaymentWhere.selects { orderId := some o.id }) with
  | some q =>
    have hq := mem_of_find? hfind
    have hid := (hsel q).mp (find?_some hfind)
    refine Or.inl ⟨q, rfl, fun hfailed => ⟨hpending, q, hq, hid, hfailed⟩, ?_⟩
    rintro hne ⟨-, ⟨q', hq', hid', hfailed⟩ | hnone⟩
    · obtain rfl := hw.payments q' hq' q hq (hid'.trans hid.symm)
      exact hne hfailed
    · exact hnone q hq hid
  | none =>
    have hunpaid : w.Unpaid o.id := by
      intro q hq hid
      have hnot := find?_eq_none.mp hfind q hq
      rw [(hsel q).mpr hid] at hnot
      cases hnot
    refine Or.inr ⟨rfl, ⟨hpending, Or.inr hunpaid⟩, ?_⟩
    rintro ⟨-, q, hq, hid, -⟩
    exact hunpaid q hq hid

/-- What the cleanup comes to: it does not throw, and is done with these orders. -/
def DoneWith {α : Type} (w : World) (orders : List Order) (_ : List Unit) (r : Except Err α)
    (v : World) : Prop :=
  (∃ a, r = .ok a) ∧ w.Upto orders v

/-- An order whose payment has failed. -/
theorem cancelFailed_ends (hw : w.Consistent) (h : w.Upto orders w') (ho : o ∈ w.orders)
    (hsub : ∀ x ∈ orders, x ∈ w.orders) (hnew : o ∉ orders) (hfailing : w.Failing o) (q : Payment) :
    unattended.Ends i (DoneWith w (orders ++ [o])) (cancelFailed o q) l w' := by
  -- what is found for the order was not found for another
  have hfresh : ∀ s, w.sagas.find? (sagaWhere o).selects = some s →
      ¬w.FoundFor (fun x => x ∈ orders) s := by
    rintro s hs ⟨x, hx, -, hfind⟩
    have hdata := (sagaWhere_selects.mp (find?_some hs)).2
    rw [(sagaWhere_selects.mp (find?_some hfind)).2] at hdata
    have hid := Option.some.inj (congrArg SagaData.orderId hdata)
    exact hnew (eq_of_pk (hsub x hx) ho hid ▸ hx)
  refine .bind _ (cancelOrder_ends h ho (fun hP => hnew hP.1) hfailing.1 (hw.amounts o ho) _ _)
    (fun l _ v hv => ?_) fun l e v hv => ?_
  · refine .next (R := fun _ found v => found = w.sagas.find? (sagaWhere o).selects ∧
      w.Cleaning (fun x => (x ∈ orders ∧ w.Abandoned x) ∨ x = o)
        (w.FoundFor fun x => x ∈ orders) v) ?_ ?_
    · exact Unattended.certain_ends (fun clock c => rfl) fun clock =>
        ⟨_, rfl, hv.2.find_saga hfresh, hv.2.at clock⟩
    · rintro l found v ⟨hfound, hv⟩
      refine .next (R := fun _ _ v => w.Upto (orders ++ [o]) v) ?_ fun l _ v hv => ⟨⟨_, rfl⟩, hv⟩
      cases found with
      | none => exact ⟨_, rfl, .cancelled ⟨hfailing.1, Or.inl hfailing.2⟩ hv fun _ => hfound.symm⟩
      | some s =>
        have hs := hfresh s hfound.symm
        have hsaved := fun clock => (hv.at clock).save_saga (mem_of_find? hfound.symm) hs
        refine Unattended.certain_ends (fun clock c => if_neg ?_) fun clock =>
          ⟨_, rfl, .marked hfailing hfound.symm (hsaved clock).2⟩
        rw [(hsaved clock).1]
        exact Bool.false_ne_true
  · cases hv.1

/-- **One order.** -/
theorem cleanupOrder_ends (hw : w.Consistent) (h : w.Upto orders w') (ho : o ∈ w.orders)
    (hpending : o.status = .pending) (hsub : ∀ x ∈ orders, x ∈ w.orders) (hnew : o ∉ orders) :
    unattended.Ends i (DoneWith w (orders ++ [o])) (cleanupOrder o) l w' := by
  refine .next (R := fun _ found v =>
    found = w'.payments.find? (PaymentWhere.selects { orderId := some o.id }) ∧
      w.Upto orders v) ?_ ?_
  · exact Unattended.certain_ends (fun clock c => rfl) fun clock => ⟨_, rfl, rfl, h.at clock⟩
  · rintro l found v ⟨hfound, hv⟩
    rcases hw.payment hpending h.payments with ⟨q, hq, hfailed, hother⟩ | ⟨hnone, hab, hnot⟩
    · rw [hq] at hfound
      subst hfound
      dsimp only
      split
      · next hstatus => exact cancelFailed_ends hw hv ho hsub hnew (hfailed hstatus) q
      · next hstatus => exact ⟨⟨_, rfl⟩, hv.skip (hother hstatus)⟩
    · rw [hnone] at hfound
      subst hfound
      refine .bind _ (cancelOrder_ends hv ho (fun hP => hnew hP.1) hpending (hw.amounts o ho) _ _)
        (fun l _ v hv => ⟨⟨_, rfl⟩, .cancelled hab hv.2 fun hf => absurd hf hnot⟩)
        fun l e v hv => ?_
      cases hv.1

/-- **All orders**, by induction on those that are left. -/
theorem cleanupOrders_ends (hw : w.Consistent) : ∀ (todo orders : List Order) {l : List Unit}
    {w' : World}, w.Upto orders w' → (∀ o ∈ todo, o ∈ w.orders ∧ o.status = .pending) →
      (∀ o ∈ orders, o ∈ w.orders) → (orders ++ todo).Nodup →
        unattended.Ends i (DoneWith w (orders ++ todo)) (cleanupOrders todo) l w' := by
  intro todo
  induction todo with
  | nil =>
    intro orders l w' h _ _ _
    rw [List.append_nil]
    exact ⟨⟨_, rfl⟩, h⟩
  | cons o todo ih =>
    intro orders l w' h htodo hsub hnodup
    obtain ⟨ho, hpending⟩ := htodo o List.mem_cons_self
    have hnew : o ∉ orders := fun hmem =>
      List.disjoint_of_nodup_append hnodup hmem List.mem_cons_self
    rw [List.append_cons] at hnodup ⊢
    refine .bind (DoneWith w (orders ++ [o])) (.handle (DoneWith w (orders ++ [o]))
      (cleanupOrder_ends hw h ho hpending hsub hnew) ?_ fun l a v hv => hv) ?_ ?_
    · rintro l e v ⟨⟨a, ha⟩, -⟩
      cases ha
    · rintro l r v ⟨-, hv⟩
      have hrest : ∀ x ∈ todo, x ∈ w.orders ∧ x.status = .pending :=
        fun x hx => htodo x (List.mem_cons_of_mem o hx)
      have hdone : ∀ x ∈ orders ++ [o], x ∈ w.orders := by
        intro x hx
        rcases List.mem_append.mp hx with hx | hx
        · exact hsub x hx
        · rw [List.mem_singleton.mp hx]
          exact ho
      refine .bind _ (ih (orders ++ [o]) hv hrest hdone hnodup)
        (fun l a v hv => ⟨⟨_, rfl⟩, hv.2⟩) fun l e v hv => ?_
      obtain ⟨⟨a, ha⟩, -⟩ := hv
      cases ha
    · rintro l e v ⟨⟨a, ha⟩, -⟩
      cases ha

/-! ### The cleanup -/

/-- **What the cleanup does**, with nothing else going on and no operation failing: it cancels the
orders that are to be cancelled, changes no other order and no payment, and all is cleaned up
exactly if the sagas to be marked hold nothing but the id of their order, which has no other. -/
theorem cleanup_cancels (hw : w.Consistent) (hquiet : w.transactions = []) (i : ℕ) :
    unattended.Ends i (fun _ r w' => (∃ results, r = .ok results) ∧
      Changed w.Abandoned Order.CancelledAs w.orders.rows w'.orders.rows ∧
      w'.payments = w.payments ∧ (w.CleanedUp w' ↔ w.Bare)) cleanupPendingOrders [] w := by
  have hmem : ∀ o, o ∈ w.orders.findAll (OrderWhere.selects { status := some .pending }) ↔
      o ∈ w.orders ∧ o.status = .pending := by
    intro o
    rw [mem_findAll]
    simp [OrderWhere.selects, meets, @eq_comm _ OrderStatus.pending]
  have hnone : w.Upto [] w := by
    refine ⟨.of_none ?_, rfl, .of_none ?_, hquiet⟩
    · rintro o - ⟨ho, -⟩
      exact absurd ho List.not_mem_nil
    · rintro s - ⟨o, ho, -⟩
      exact absurd ho List.not_mem_nil
  refine .next (R := fun _ found v =>
    found = w.orders.findAll (OrderWhere.selects { status := some .pending }) ∧ w.Upto [] v) ?_ ?_
  · exact Unattended.certain_ends (fun clock c => rfl) fun clock => ⟨_, rfl, rfl, hnone.at clock⟩
  · rintro l found v ⟨rfl, hv⟩
    refine (cleanupOrders_ends hw _ [] hv (fun o ho => (hmem o).mp ho) (fun o ho => ?_) ?_).mono
      fun l r w' hr => ?_
    · exact absurd ho List.not_mem_nil
    · refine (List.Pairwise.imp ?_ w.orders.pk_ne).filter _
      exact fun hne heq => hne (congrArg Order.id heq)
    · obtain ⟨hreturned, hdone⟩ := hr
      have horders : Changed w.Abandoned Order.CancelledAs w.orders.rows w'.orders.rows :=
        hdone.orders.congr fun o ho => and_iff_right_of_imp fun hab => (hmem o).mpr ⟨ho, hab.1⟩
      have hsagas : Changed (w.FoundFor fun o => o ∈ w.orders) SagaInstance.CompensatedAs
          w.sagas.rows w'.sagas.rows := by
        refine hdone.sagas.congr fun s _ => ⟨?_, ?_⟩
        · rintro ⟨o, ho, hrest⟩
          exact ⟨o, ((hmem o).mp ho).1, hrest⟩
        · rintro ⟨o, ho, hrest⟩
          exact ⟨o, (hmem o).mpr ⟨ho, hrest.1.1⟩, hrest⟩
      refine ⟨hreturned, horders, hdone.payments, ?_⟩
      rw [World.bare_iff, ← hsagas.iff SagaInstance.not_compensatedAs]
      exact ⟨CleanedUp.sagas, fun h => ⟨horders, hdone.payments, h⟩⟩

end Programs

/-! ### A saga that is not found -/

section Unmarked

/-- A pending order whose payment has failed. -/
def failedOrder : Order :=
  ⟨⟨"user-1", 10, [⟨"product-1", "P", 1, 10⟩], "somewhere", .pending, some "key-1"⟩, "order-1", none,
    0, 0⟩

/-- Its payment. -/
def failedPayment : Payment :=
  ⟨⟨"order-1", "user-1", 10, .creditCard, .failed⟩, "payment-1", none, some "declined"⟩

/-- Its saga, with the data it was started with. -/
def failedSaga : SagaInstance :=
  ⟨⟨"OrderProcessingSaga", "key-1", .started,
    OrderProcessingSaga.sagaData
      (CreateOrderHandler.createdEvent failedOrder failedOrder.idempotencyKey), [], [],
    "payment_processing"⟩, "saga-1", none, 0, 0⟩

/-- The three are stored. -/
def failedStored : World :=
  (((World.empty 0).saveOrder failedOrder).1.savePayment failedPayment).1.putSaga failedSaga

theorem failedStored_rows : failedOrder ∈ failedStored.orders.rows ∧
    failedPayment ∈ failedStored.payments.rows ∧ failedSaga ∈ failedStored.sagas.rows := by
  decide +kernel

theorem failedStored_quiet : failedStored.transactions = [] := by
  decide +kernel

theorem failedStored_consistent : failedStored.Consistent := by
  have hrows : (∀ o ∈ failedStored.orders.rows, decimal102 o.totalAmount = some o.totalAmount) ∧
      ∀ q ∈ failedStored.payments.rows, ∀ q' ∈ failedStored.payments.rows,
        q.orderId = q'.orderId → q = q' := by
    decide +kernel
  exact ⟨hrows.1, hrows.2⟩

/-- The cleanup is played. -/
def failedPlayed : Option (List Unit × Except Err (List CleanupResult) × World) :=
  unattended.play 0 cleanupPendingOrders (List.replicate 8 {}) [] failedStored

theorem failedPlayed_ends : failedPlayed.isSome := by
  decide +kernel

theorem failedPlayed_sagas : ∀ out ∈ failedPlayed,
    out.2.2.sagas.rows = failedStored.sagas.rows := by
  decide +kernel

/-- The order is cancelled, and its saga is left as it was. -/
theorem cleanup_unmarked :
    failedStored.Consistent ∧ failedStored.transactions = [] ∧
      ¬unattended.Ends 0 (fun _ _ w' => failedStored.CleanedUp w') cleanupPendingOrders []
        failedStored := by
  refine ⟨failedStored_consistent, failedStored_quiet, fun h => ?_⟩
  obtain ⟨⟨l, r, w'⟩, hplay⟩ := Option.isSome_iff_exists.mp failedPlayed_ends
  have hcleaned := (Solo.Ends.of_play (E := unattended) (fun w => ⟨w.clock, rfl⟩) h hplay).sagas
  rw [failedPlayed_sagas _ hplay] at hcleaned
  have hmarked := ((Changed.of_none (P := fun _ => False) fun _ _ => id).iff
    SagaInstance.not_compensatedAs).mp hcleaned
  obtain ⟨horder, hpayment, hsaga⟩ := failedStored_rows
  exact (hmarked failedSaga hsaga).mpr
    ⟨rfl, failedOrder, horder, ⟨rfl, failedPayment, hpayment, rfl, rfl⟩, rfl⟩

theorem cleanup_cancels_failed :
    unattended.Ends 0 (fun _ r w' => (∃ results, r = .ok results) ∧
      Changed failedStored.Abandoned Order.CancelledAs failedStored.orders.rows w'.orders.rows ∧
      w'.payments = failedStored.payments ∧ (failedStored.CleanedUp w' ↔ failedStored.Bare))
        cleanupPendingOrders [] failedStored :=
  cleanup_cancels failedStored_consistent failedStored_quiet 0

end Unmarked

end CqrsSaga
