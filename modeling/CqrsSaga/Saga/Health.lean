import CqrsSaga.App.Controllers
import CqrsSaga.Store.Cover
import CqrsSaga.Store.Slices

/-!
# The report on orphaned orders

The report compares the number of orders that are pending with the number of sagas that are
started.  Where there are more such orders, one of them has no started saga.  Where there are not,
one may all the same: started sagas of other orders make up for it.

## Main definitions

* `World.orphaned` — the pending orders without a started saga.
* `World.spareSagas` — what the started sagas not needed by a pending order belong to.

## Main results

* `health_reports` — **exactly when the report is right.**
* `health_unreported` — an orphaned order that is not reported.
-/

namespace CqrsSaga

open SagaMaintenanceController

/-- The saga belongs to the order. -/
def SagaInstance.BelongsTo (s : SagaInstance) (o : Order) : Prop := s.data.orderId = some o.id

instance (s : SagaInstance) (o : Order) : Decidable (s.BelongsTo o) :=
  inferInstanceAs (Decidable (_ = _))

namespace World

/-- The orders that are pending. -/
def pendingOrders (w : World) : List Order :=
  w.orders.findAll (OrderWhere.selects { status := some .pending })

/-- The sagas that are started. -/
def startedSagas (w : World) : List SagaInstance :=
  w.sagas.findAll fun saga => decide (saga.status = .started)

/-- The order is pending, and none of its sagas is started. -/
def Orphaned (w : World) (o : Order) : Prop :=
  o ∈ w.orders ∧ o.status = .pending ∧ ∀ s ∈ w.sagas, s.BelongsTo o → s.status ≠ .started

/-- What the pending orders are known to their sagas by. -/
def pendingIds (w : World) : List (Option String) := w.pendingOrders.map fun o => some o.id

/-- What the started sagas belong to. -/
def startedIds (w : World) : List (Option String) := w.startedSagas.map fun s => s.data.orderId

/-- The ids of the pending orders without a started saga. -/
def orphanedIds (w : World) : List (Option String) := Cover.uncovered w.pendingIds w.startedIds

/-- What those started sagas belong to that no pending order needs: of an order that is not
pending all of them, and of a pending one all but the last. -/
def spareIds (w : World) : List (Option String) := Cover.spare w.pendingIds w.startedIds

variable {w : World}

theorem mem_pendingOrders {o : Order} :
    o ∈ w.pendingOrders ↔ o ∈ w.orders ∧ o.status = .pending := by
  unfold pendingOrders
  rw [Table.mem_findAll]
  simp [OrderWhere.selects, @eq_comm _ OrderStatus.pending]

theorem mem_startedSagas {s : SagaInstance} :
    s ∈ w.startedSagas ↔ s ∈ w.sagas ∧ s.status = .started := by
  unfold startedSagas
  rw [Table.mem_findAll, decide_eq_true_eq]

theorem pendingIds_nodup : w.pendingIds.Nodup := by
  unfold pendingIds pendingOrders Table.findAll
  rw [List.nodup_iff_pairwise_ne, List.pairwise_map]
  exact (w.orders.pk_ne.filter _).imp fun h heq => h (Option.some.inj heq)

/-- A pending order is orphaned if nothing that is started belongs to it. -/
theorem orphaned_iff {o : Order} : w.Orphaned o ↔ o ∈ w.pendingOrders ∧ some o.id ∉ w.startedIds := by
  unfold Orphaned startedIds
  rw [← and_assoc, mem_pendingOrders, List.mem_map]
  refine and_congr_right fun _ => ?_
  constructor
  · rintro h ⟨s, hs, hid⟩
    obtain ⟨hs, hstarted⟩ := mem_startedSagas.mp hs
    exact h s hs hid hstarted
  · intro h s hs hid hstarted
    exact h ⟨s, mem_startedSagas.mpr ⟨hs, hstarted⟩, hid⟩

theorem exists_orphaned : (∃ o, w.Orphaned o) ↔ w.orphanedIds ≠ [] := by
  unfold orphanedIds
  rw [Ne, Cover.uncovered_eq_nil, not_forall]
  simp only [orphaned_iff, pendingIds, List.mem_map]
  constructor
  · rintro ⟨o, ho, hid⟩
    exact ⟨some o.id, fun h => hid (h ⟨o, ho, rfl⟩)⟩
  · rintro ⟨id, hid⟩
    rw [Classical.not_imp] at hid
    obtain ⟨⟨o, ho, rfl⟩, hid⟩ := hid
    exact ⟨o, ho, hid⟩

end World

variable {w : World}

/-- **What the report says of orphaned orders**: that there are more of them than started sagas to
spare. -/
theorem getSagaHealth_orphaned : (getSagaHealth w).issues.orphanedPendingOrders = true ↔
    w.spareIds.length < w.orphanedIds.length := by
  rw [World.spareIds, World.orphanedIds, ← Cover.length_lt_iff World.pendingIds_nodup,
    World.pendingIds, World.startedIds, List.length_map, List.length_map]
  exact decide_eq_true_iff

/-- **Exactly when the report is right** about whether there is an orphaned order: if there is none,
or if there are more of them than started sagas to spare. -/
theorem health_reports (w : World) :
    ((getSagaHealth w).issues.orphanedPendingOrders = true ↔ ∃ o, w.Orphaned o) ↔
      (∀ o, ¬w.Orphaned o) ∨ w.spareIds.length < w.orphanedIds.length := by
  rw [getSagaHealth_orphaned, ← not_exists, World.exists_orphaned]
  constructor
  · intro h
    by_cases hnil : w.orphanedIds = []
    · exact Or.inl fun h => h hnil
    · exact Or.inr (h.mpr hnil)
  · rintro (h | h)
    · rw [not_not] at h
      rw [h]
      simp
    · refine iff_of_true h fun hnil => ?_
      rw [hnil] at h
      exact absurd h (Nat.not_lt_zero _)

/-- With one saga an order, the sagas to spare are those of orders that are not pending. -/
theorem spareIds_eq (h : ∀ s ∈ w.startedSagas, ∀ s' ∈ w.startedSagas,
    s.data.orderId = s'.data.orderId → s = s') :
    w.spareIds = w.startedIds.filter fun id => decide (id ∉ w.pendingIds) := by
  have hnodup : w.startedSagas.Nodup := (Table.rows_nodup w.sagas).filter _
  have hids : w.startedIds.Nodup := List.Nodup.map_on h hnodup
  rw [World.spareIds, Cover.spare_eq hids]
  exact List.filter_congr fun id _ => decide_eq_decide.mpr Iff.rfl

/-! ### An order that is paid and one without a saga -/

section Two

/-- An order of the first user. -/
def healthOrder (id : String) (status : OrderStatus) : Order :=
  ⟨⟨"user-1", 10, [], "somewhere", status, none⟩, id, none, 0, 0⟩

/-- The saga of the second order, which has not noticed yet that it is paid. -/
def lateSaga : SagaInstance :=
  ⟨⟨"OrderProcessingSaga", "key-2", .started, { orderId := some "order-2" }, [], [],
    "payment_processing"⟩, "saga-2", none, 0, 0⟩

/-- One order is pending and without a saga; the other one is paid, and its saga is started. -/
def twoOrders : World :=
  (((World.empty 0).saveOrder (healthOrder "order-1" .pending)).1.saveOrder
    (healthOrder "order-2" .paid)).1.putSaga lateSaga

/-- **An orphaned order that is not reported**: the saga of another one makes up for it. -/
theorem health_unreported : ∃ w : World,
    (∀ o ∈ w.orders, ∀ s ∈ w.sagas, ∀ s' ∈ w.sagas, s.sagaType = "OrderProcessingSaga" →
      s'.sagaType = "OrderProcessingSaga" → s.BelongsTo o → s'.BelongsTo o → s = s') ∧
    (∀ s ∈ w.sagas, ∃ o ∈ w.orders, s.BelongsTo o) ∧ (∃ o, w.Orphaned o) ∧
    (getSagaHealth w).issues.orphanedPendingOrders = false := by
  have hsagas : ∀ s ∈ twoOrders.sagas, s = lateSaga := by
    show ∀ s ∈ twoOrders.sagas.rows, s = lateSaga
    decide +kernel
  refine ⟨twoOrders, fun o _ s hs s' hs' _ _ _ _ => ?_, fun s hs => ?_,
    ⟨healthOrder "order-1" .pending, ?_⟩, by decide +kernel⟩
  · rw [hsagas s hs, hsagas s' hs']
  · rw [hsagas s hs]
    exact ⟨healthOrder "order-2" .paid, Table.mem_rows.mp (by decide +kernel), rfl⟩
  · refine ⟨Table.mem_rows.mp (by decide +kernel), rfl, fun s hs hb => ?_⟩
    rw [hsagas s hs] at hb
    exact absurd hb (by decide)

end Two

end CqrsSaga
