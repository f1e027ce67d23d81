import CqrsSaga.Async.Independence
import CqrsSaga.Store.Slices
import CqrsSaga.App.Transactions

/-!
# The cells of the world

The world, cut into pieces small enough for each to belong to one order: the orders under a
key, the payments of an order, the sagas of a correlation id, the transaction of a query
runner, who has locked the row of a saga, the entry under a key of the lock server.  What a
writing operation leaves in a cell depends on that cell alone.

## Main definitions

* `Cell`, `World.look`, `worldCells` — the cells, what they hold, and when two worlds look the same.
* `Op.WritesCell` — an operation writes the part of the world a cell is in.
* `World.Agree` — an operation does the same in two worlds.

## Main results

* `World.confined_of_agree` — an operation is confined if it agrees on all worlds that look the
  same to it.
* `World.look_saveOrder`, `World.look_insertOrder`, … — **what the writing operations leave.**
-/

namespace CqrsSaga

/-- A piece of the world. -/
inductive Cell
  /-- The time. -/
  | clock
  /-- The orders under a key. -/
  | orders (key : Option String)
  /-- Whether an order has this id. -/
  | orderId (id : String)
  /-- The payments of an order. -/
  | payments (orderId : String)
  /-- Whether a payment has this id. -/
  | paymentId (id : String)
  /-- The sagas of a correlation id. -/
  | sagas (correlationId : String)
  /-- Whether a saga has this id. -/
  | sagaId (id : String)
  /-- The transactions of a query runner. -/
  | transaction (runner : ℕ)
  /-- The query runners that have locked the row of a saga. -/
  | rowLock (sagaId : String)
  /-- The query runners there are. -/
  | runners
  /-- The entry under a key of the lock server. -/
  | entry (key : String)

namespace Cell

/-- What a cell holds. -/
def Look : Cell → Type
  | clock => ℕ
  | orders _ => List Order
  | orderId _ => Prop
  | payments _ => List Payment
  | paymentId _ => Prop
  | sagas _ => List SagaInstance
  | sagaId _ => Prop
  | transaction _ => List Transaction
  | rowLock _ => ℕ → Prop
  | runners => List ℕ
  | entry _ => Option (Lease.Entry String)

/-- The part of the world a cell is in. -/
def part? : Cell → Option Part
  | clock => none
  | orders _ => some .orders
  | orderId _ => some .orders
  | payments _ => some .payments
  | paymentId _ => some .payments
  | sagas _ => some .sagas
  | sagaId _ => some .sagas
  | transaction _ => some .transactions
  | rowLock _ => some .transactions
  | runners => some .runners
  | entry _ => some .redis

end Cell

/-- The query runner has locked the row of a saga. -/
def World.LockedOn (w : World) (y : String) (n : ℕ) : Prop :=
  ∃ t ∈ w.transactions, t.runner = n ∧ y ∈ t.locks

/-- The transactions of a query runner. -/
def World.transactionsOn (w : World) (n : ℕ) : List Transaction :=
  w.transactions.filter fun t => decide (t.runner = n)

/-- What a cell holds in a world. -/
def World.look (w : World) : (x : Cell) → x.Look
  | .clock => w.clock
  | .orders key => w.orders.slice (fun o => o.idempotencyKey) key
  | .orderId id => ∃ o ∈ w.orders, o.id = id
  | .payments x => w.payments.slice (fun p => p.orderId) x
  | .paymentId id => ∃ p ∈ w.payments, p.id = id
  | .sagas k => w.sagas.slice (fun s => s.correlationId) k
  | .sagaId id => ∃ s ∈ w.sagas, s.id = id
  | .transaction n => w.transactionsOn n
  | .rowLock y => w.LockedOn y
  | .runners => w.runners
  | .entry key => w.redis.entries.lookup key

/-- The cells of the world. -/
abbrev worldCells : Cells app where
  Cell := Cell
  Same := fun x w w' => w.look x = w'.look x
  refl := fun _ _ => rfl
  symm := Eq.symm
  trans := Eq.trans

/-- The operation writes the part of the world the cell is in. -/
def Op.WritesCell (o : Op) (x : Cell) : Prop := ∃ P ∈ x.part?, P ∈ o.writes

namespace World

variable {w w' : World} {i : ℕ} {o : Op} {c : Choice}

/-- A cell in a part that is not written holds what it did. -/
theorem Frame.look (h : Frame o w w') {x : Cell} (hx : ¬o.WritesCell x) : w.look x = w'.look x := by
  have hP : ∀ P ∈ x.part?, P ∉ o.writes := fun P hP hw => hx ⟨P, hP, hw⟩
  cases x with
  | clock => exact h.clock.symm
  | orders key =>
    exact congrArg (fun t : OrderTable => t.slice (fun o => o.idempotencyKey) key)
      (h.orders (hP _ rfl)).symm
  | orderId id =>
    exact congrArg (fun t : OrderTable => ∃ o ∈ t, o.id = id) (h.orders (hP _ rfl)).symm
  | payments x =>
    exact congrArg (fun t : PaymentTable => t.slice (fun p => p.orderId) x)
      (h.payments (hP _ rfl)).symm
  | paymentId id =>
    exact congrArg (fun t : PaymentTable => ∃ p ∈ t, p.id = id) (h.payments (hP _ rfl)).symm
  | sagas k =>
    exact congrArg (fun t : SagaTable => t.slice (fun s => s.correlationId) k)
      (h.sagas (hP _ rfl)).symm
  | sagaId id => exact congrArg (fun t : SagaTable => ∃ s ∈ t, s.id = id) (h.sagas (hP _ rfl)).symm
  | transaction n =>
    exact congrArg (fun ts : List Transaction => ts.filter fun t => decide (t.runner = n))
      (h.transactions (hP _ rfl)).symm
  | rowLock y =>
    exact congrArg (fun (ts : List Transaction) n => ∃ t ∈ ts, t.runner = n ∧ y ∈ t.locks)
      (h.transactions (hP _ rfl)).symm
  | runners => exact (h.runners (hP _ rfl)).symm
  | entry key =>
    exact congrArg (fun s : Lease.Server String String => s.entries.lookup key)
      (h.redis (hP _ rfl)).symm

/-- The operation cannot be performed in either world, or it answers the same in both, does the same
to the cells of the footprint in the parts it writes, and nothing to the other ones. -/
def Agree (f : Footprint Cell) (i : ℕ) (o : Op) (c : Choice) (w w' : World) : Prop :=
  (w.perform i c o = none ∧ w'.perform i c o = none) ∨
    ∃ w₁ w₁' r ts, w.perform i c o = some (w₁, r, ts) ∧ w'.perform i c o = some (w₁', r, ts) ∧
      ∀ x, o.WritesCell x → (x ∈ f.writes → w₁.look x = w₁'.look x) ∧
        (x ∉ f.writes → w'.look x = w₁'.look x)

/-- The operation writes no cell. -/
theorem Agree.quiet {f : Footprint Cell} {w₁ w₁' : World} {r : Except Err (Op.Val o)}
    {ts : List Task} (h : w.perform i c o = some (w₁, r, ts))
    (h' : w'.perform i c o = some (w₁', r, ts)) (ho : ∀ x, ¬o.WritesCell x) : Agree f i o c w w' :=
  Or.inr ⟨w₁, w₁', r, ts, h, h', fun x hx => absurd hx (ho x)⟩

/-- Nothing happens. -/
theorem Agree.unchanged {f : Footprint Cell} (hs : worldCells.SameOn f.reads w w')
    {r : Except Err (Op.Val o)} {ts : List Task} (h : w.perform i c o = some (w, r, ts))
    (h' : w'.perform i c o = some (w', r, ts)) : Agree f i o c w w' :=
  Or.inr ⟨w, w', r, ts, h, h', fun x _ => ⟨fun hx => hs x (f.sub hx), fun _ => rfl⟩⟩

/-- The operation writes one part of the world. -/
theorem Agree.of_part {f : Footprint Cell} {P : Part} {W : Cell → Prop} (ho : o.writes = [P])
    (hW : ∀ x : Cell, x.part? = some P → (x ∈ f.writes ↔ W x)) {w₁ w₁' : World}
    {r : Except Err (Op.Val o)} {ts : List Task} (h : w.perform i c o = some (w₁, r, ts))
    (h' : w'.perform i c o = some (w₁', r, ts))
    (hx : ∀ x : Cell, x.part? = some P → (W x → w₁.look x = w₁'.look x) ∧
      (¬W x → w'.look x = w₁'.look x)) : Agree f i o c w w' := by
  refine Or.inr ⟨w₁, w₁', r, ts, h, h', ?_⟩
  rintro x ⟨P', hP', hmem⟩
  rw [ho, List.mem_singleton] at hmem
  subst hmem
  exact ⟨fun hw => (hx x hP').1 ((hW x hP').mp hw),
    fun hw => (hx x hP').2 fun hW' => hw ((hW x hP').mpr hW')⟩

/-- **An operation is confined if it agrees on all worlds that look the same to it.** -/
theorem confined_of_agree {f : Footprint Cell}
    (h : ∀ w', worldCells.SameOn f.reads w w' → Agree f i o c w w') :
    worldCells.Confined f w i o c := by
  -- what is not written looks the same as before, in both worlds
  have hperform : ∀ {w'}, worldCells.SameOn f.reads w w' →
      worldCells.Matches f.writes (w.perform i c o) (w'.perform i c o) := by
    intro w' hs
    rcases h w' hs with ⟨h₁, h₂⟩ | ⟨w₁, w₁', r, ts, h₁, h₂, hx⟩
    · rw [h₁, h₂]
      exact trivial
    · rw [h₁, h₂]
      refine ⟨rfl, fun x hw => ?_⟩
      by_cases ho : o.WritesCell x
      · exact (hx x ho).1 hw
      · exact ((perform_frame h₁).look ho).symm.trans
          ((hs x (f.sub hw)).trans ((perform_frame h₂).look ho))
  -- what is outside the footprint is left alone
  have hleaves : ∀ {w' w₁ r ts}, worldCells.SameOn f.reads w w' →
      w'.perform i c o = some (w₁, r, ts) → worldCells.SameOn f.writesᶜ w' w₁ := by
    intro w' w₁ r ts hs he x hw
    rcases h w' hs with ⟨-, h₂⟩ | ⟨w₂, w₂', r', ts', -, h₂, hx⟩
    · rw [h₂] at he
      simp at he
    · obtain ⟨rfl, -⟩ := Prod.mk.inj (Option.some.inj (h₂.symm.trans he))
      by_cases ho : o.WritesCell x
      · exact (hx x ho).2 hw
      · exact (perform_frame h₂).look ho
  constructor
  · intro w' hs
    have hm := hperform hs
    simp only [exec]
    split
    · exact hm
    · split
      · exact trivial
      · exact ⟨rfl, hs.mono f.sub⟩
    · split
      · cases h₁ : w.perform i c o <;> cases h₂ : w'.perform i c o <;> simp only [h₁, h₂] at hm
        · exact trivial
        · exact hm.elim
        · exact hm.elim
        · exact ⟨by simp [hm.1], hm.2⟩
      · exact trivial
  · intro w' w₁ r ts hs he
    rcases exec_cases he with ⟨-, hp⟩ | ⟨m, -, rfl, -⟩ | ⟨m, v, -, -, hp, -⟩
    · exact hleaves hs hp
    · exact Cells.SameOn.refl _ _
    · exact hleaves hs hp

/-! ### Orders -/

/-- A row is saved in two worlds where the orders under its key are the same. -/
theorem look_orders {y : Order} (w₁ w₁' : World)
    (h : Table.SavedAlike Order.id (fun o => o.idempotencyKey) y w'.orders w₁.orders w₁'.orders)
    {x : Cell} (hx : x.part? = some .orders) :
    (x = .orders y.idempotencyKey ∨ x = .orderId y.id → w₁.look x = w₁'.look x) ∧
      (¬(x = .orders y.idempotencyKey ∨ x = .orderId y.id) → w'.look x = w₁'.look x) := by
  cases x with
  | orders key =>
    refine ⟨fun hkey => ?_, fun hkey => h.others key
      fun hk => hkey (Or.inl (congrArg Cell.orders hk))⟩
    rcases hkey with hkey | hkey <;> cases hkey
    exact h.self
  | orderId a =>
    refine ⟨fun hid => ?_, fun hid => h.pk_others a
      fun ha => hid (Or.inr (congrArg Cell.orderId ha))⟩
    rcases hid with hid | hid <;> cases hid
    exact h.pk_self
  | _ => cases hx

/-- An order that is stored is saved. -/
theorem look_saveOrder {y : Order} (hc : w.clock = w'.clock)
    (hs : w.look (.orders y.idempotencyKey) = w'.look (.orders y.idempotencyKey))
    (hf : ∀ x ∈ w.orders, x.id = y.id → x.idempotencyKey = y.idempotencyKey)
    (hf' : ∀ x ∈ w'.orders, x.id = y.id → x.idempotencyKey = y.idempotencyKey)
    (hy : ∃ x ∈ w'.orders, x.id = y.id) :
    (w.saveOrder y).2 = (w'.saveOrder y).2 ∧ ∀ x : Cell, x.part? = some .orders →
      (x = .orders y.idempotencyKey → (w.saveOrder y).1.look x = (w'.saveOrder y).1.look x) ∧
      (x ≠ .orders y.idempotencyKey → w'.look x = (w'.saveOrder y).1.look x) := by
  have hsame : ∀ x : Cell, x = .orders y.idempotencyKey → w.look x = w'.look x := by
    rintro x rfl
    exact hs
  unfold saveOrder
  cases decimal102 y.totalAmount with
  | none => exact ⟨rfl, fun x _ => ⟨hsame x, fun _ => rfl⟩⟩
  | some amount =>
    have hsome : (w.orders.save { y with totalAmount := amount, updatedAt := w.clock }).isSome =
        (w'.orders.save { y with totalAmount := amount, updatedAt := w'.clock }).isSome := by
      rw [← hc]
      exact Table.save_isSome_congr hs
    dsimp only
    cases h : w.orders.save { y with totalAmount := amount, updatedAt := w.clock } <;>
      cases h' : w'.orders.save { y with totalAmount := amount, updatedAt := w'.clock } <;>
      rw [h, h'] at hsome
    · exact ⟨rfl, fun x _ => ⟨hsame x, fun _ => rfl⟩⟩
    · simp at hsome
    · simp at hsome
    · next t t' =>
      rw [← hc] at h'
      refine ⟨rfl, fun x hx => ?_⟩
      have hlook := look_orders { w with orders := t } { w' with orders := t' }
        (Table.save_alike h h' hs hf hf') hx
      refine ⟨fun hkey => hlook.1 (Or.inl hkey), fun hkey => ?_⟩
      by_cases hid : x = .orderId y.id
      · subst hid
        exact propext ⟨fun _ => ⟨_, Table.mem_save_self h', rfl⟩, fun _ => hy⟩
      · exact hlook.2 fun hor => hor.elim hkey hid

/-- An order is inserted under an id that is free in both worlds, or in neither. -/
theorem look_insertOrder {id : String} {n : NewOrder} (hc : w.clock = w'.clock)
    (hs : w.look (.orders n.idempotencyKey) = w'.look (.orders n.idempotencyKey))
    (hid : w.look (.orderId id) = w'.look (.orderId id)) :
    (w.insertOrder id n = none ∧ w'.insertOrder id n = none) ∨
    ∃ w₁ w₁' r, w.insertOrder id n = some (w₁, r) ∧ w'.insertOrder id n = some (w₁', r) ∧
      ∀ x : Cell, x.part? = some .orders →
        (x = .orders n.idempotencyKey ∨ x = .orderId id → w₁.look x = w₁'.look x) ∧
        (¬(x = .orders n.idempotencyKey ∨ x = .orderId id) → w'.look x = w₁'.look x) := by
  have hsame : ∀ x : Cell, x = .orders n.idempotencyKey ∨ x = .orderId id → w.look x = w'.look x := by
    rintro x (rfl | rfl)
    · exact hs
    · exact hid
  have hiff : (∃ o ∈ w.orders, o.id = id) ↔ ∃ o ∈ w'.orders, o.id = id := iff_of_eq hid
  unfold insertOrder
  by_cases hex : ∃ o ∈ w.orders, o.id = id
  · refine Or.inl ⟨if_pos ?_, if_pos ?_⟩
    · exact Table.find?_isSome.mpr (by simpa using hex)
    · exact Table.find?_isSome.mpr (by simpa using hiff.mp hex)
  · have hfree : ∀ x ∈ w.orders, x.id ≠ id := fun x hx h => hex ⟨x, hx, h⟩
    have hfree' : ∀ x ∈ w'.orders, x.id ≠ id := fun x hx h => hex (hiff.mpr ⟨x, hx, h⟩)
    right
    rw [if_neg (by rw [Table.find?_isSome]; simpa using hfree),
      if_neg (by rw [Table.find?_isSome]; simpa using hfree')]
    cases decimal102 n.totalAmount with
    | none => exact ⟨w, w', _, rfl, rfl, fun x _ => ⟨hsame x, fun _ => rfl⟩⟩
    | some amount =>
      -- the index accepts the row in both worlds, or in neither
      have hsome : (w.orders.save (w.newOrderRow id n amount)).isSome =
          (w'.orders.save (w'.newOrderRow id n amount)).isSome := by
        rw [newOrderRow, newOrderRow, ← hc]
        exact Table.save_isSome_congr hs
      have hrow : w'.newOrderRow id n amount = w.newOrderRow id n amount := by
        rw [newOrderRow, newOrderRow, hc]
      dsimp only
      cases h : w.orders.save (w.newOrderRow id n amount) <;>
        cases h' : w'.orders.save (w'.newOrderRow id n amount) <;> rw [h, h'] at hsome
      · rw [newOrderRow] at h h'
        rw [h, h']
        exact ⟨w, w', _, rfl, rfl, fun x _ => ⟨hsame x, fun _ => rfl⟩⟩
      · simp at hsome
      · simp at hsome
      · next t t' =>
        have halike : Table.SavedAlike Order.id (fun o => o.idempotencyKey)
            (w.newOrderRow id n amount) w'.orders t t' :=
          Table.save_alike h (hrow ▸ h') hs (fun y hy hyid => absurd hyid (hfree y hy))
            fun y hy hyid => absurd hyid (hfree' y hy)
        rw [newOrderRow] at h h'
        rw [h, h']
        exact ⟨{ w with orders := t }, { w' with orders := t' }, _, rfl, by rw [hc],
          fun x hx => look_orders (y := w.newOrderRow id n amount) _ _ halike hx⟩

/-! ### Payments -/

/-- A row is saved in two worlds where the payments of its order are the same. -/
theorem look_payments {y : Payment} (w₁ w₁' : World)
    (h : Table.SavedAlike Payment.id (fun p => p.orderId) y w'.payments w₁.payments w₁'.payments)
    {x : Cell} (hx : x.part? = some .payments) :
    (x = .payments y.orderId ∨ x = .paymentId y.id → w₁.look x = w₁'.look x) ∧
      (¬(x = .payments y.orderId ∨ x = .paymentId y.id) → w'.look x = w₁'.look x) := by
  cases x with
  | payments z =>
    refine ⟨fun hz => ?_, fun hz => h.others z fun hk => hz (Or.inl (congrArg Cell.payments hk))⟩
    rcases hz with hz | hz <;> cases hz
    exact h.self
  | paymentId a =>
    refine ⟨fun hid => ?_, fun hid => h.pk_others a
      fun ha => hid (Or.inr (congrArg Cell.paymentId ha))⟩
    rcases hid with hid | hid <;> cases hid
    exact h.pk_self
  | _ => cases hx

/-- A payment that is stored is saved. -/
theorem look_savePayment {y : Payment}
    (hs : w.look (.payments y.orderId) = w'.look (.payments y.orderId))
    (hf : ∀ x ∈ w.payments, x.id = y.id → x.orderId = y.orderId)
    (hf' : ∀ x ∈ w'.payments, x.id = y.id → x.orderId = y.orderId)
    (hy : ∃ x ∈ w'.payments, x.id = y.id) :
    (w.savePayment y).2 = (w'.savePayment y).2 ∧ ∀ x : Cell, x.part? = some .payments →
      (x = .payments y.orderId → (w.savePayment y).1.look x = (w'.savePayment y).1.look x) ∧
      (x ≠ .payments y.orderId → w'.look x = (w'.savePayment y).1.look x) := by
  unfold savePayment
  cases decimal102 y.amount with
  | none => exact ⟨rfl, fun x _ => ⟨by rintro rfl; exact hs, fun _ => rfl⟩⟩
  | some amount =>
    obtain ⟨t, h⟩ := w.payments.save_isSome_of_uk_none (r := { y with amount }) rfl
    obtain ⟨t', h'⟩ := w'.payments.save_isSome_of_uk_none (r := { y with amount }) rfl
    dsimp only
    rw [h, h']
    refine ⟨rfl, fun x hx => ?_⟩
    have hlook := look_payments { w with payments := t } { w' with payments := t' }
      (Table.save_alike h h' hs hf hf') hx
    refine ⟨fun hz => hlook.1 (Or.inl hz), fun hz => ?_⟩
    by_cases hid : x = .paymentId y.id
    · subst hid
      exact propext ⟨fun _ => ⟨_, Table.mem_save_self h', rfl⟩, fun _ => hy⟩
    · exact hlook.2 fun hor => hor.elim hz hid

/-- A payment is inserted under an id that is free in both worlds, or in neither. -/
theorem look_insertPayment {id : String} {n : NewPayment}
    (hs : w.look (.payments n.orderId) = w'.look (.payments n.orderId))
    (hid : w.look (.paymentId id) = w'.look (.paymentId id)) :
    (w.insertPayment id n = none ∧ w'.insertPayment id n = none) ∨
    ∃ w₁ w₁' r, w.insertPayment id n = some (w₁, r) ∧ w'.insertPayment id n = some (w₁', r) ∧
      ∀ x : Cell, x.part? = some .payments →
        (x = .payments n.orderId ∨ x = .paymentId id → w₁.look x = w₁'.look x) ∧
        (¬(x = .payments n.orderId ∨ x = .paymentId id) → w'.look x = w₁'.look x) := by
  have hiff : (∃ p ∈ w.payments, p.id = id) ↔ ∃ p ∈ w'.payments, p.id = id := iff_of_eq hid
  unfold insertPayment
  by_cases hex : ∃ p ∈ w.payments, p.id = id
  · refine Or.inl ⟨if_pos ?_, if_pos ?_⟩
    · exact Table.find?_isSome.mpr (by simpa using hex)
    · exact Table.find?_isSome.mpr (by simpa using hiff.mp hex)
  · have hfree : ∀ x ∈ w.payments, x.id ≠ id := fun x hx h => hex ⟨x, hx, h⟩
    have hfree' : ∀ x ∈ w'.payments, x.id ≠ id := fun x hx h => hex (hiff.mpr ⟨x, hx, h⟩)
    right
    rw [if_neg (by rw [Table.find?_isSome]; simpa using hfree),
      if_neg (by rw [Table.find?_isSome]; simpa using hfree')]
    cases decimal102 n.amount with
    | none =>
      refine ⟨w, w', _, rfl, rfl, fun x _ => ⟨?_, fun _ => rfl⟩⟩
      rintro (rfl | rfl)
      · exact hs
      · exact hid
    | some amount =>
      obtain ⟨t, h⟩ := w.payments.save_isSome_of_uk_none (r := newPaymentRow id n amount) rfl
      obtain ⟨t', h'⟩ := w'.payments.save_isSome_of_uk_none (r := newPaymentRow id n amount) rfl
      have halike : Table.SavedAlike Payment.id (fun p => p.orderId) (newPaymentRow id n amount)
          w'.payments t t' :=
        Table.save_alike h h' hs (fun y hy hyid => absurd hyid (hfree y hy))
          fun y hy hyid => absurd hyid (hfree' y hy)
      rw [newPaymentRow] at h h'
      dsimp only
      rw [h, h']
      exact ⟨{ w with payments := t }, { w' with payments := t' }, _, rfl, rfl,
        fun x hx => look_payments (y := newPaymentRow id n amount) _ _ halike hx⟩

/-! ### Sagas -/

/-- The row of a saga is written in two worlds where the sagas of its correlation id are the
same. -/
theorem look_putSaga {y : SagaInstance} (hc : w.clock = w'.clock)
    (hs : w.look (.sagas y.correlationId) = w'.look (.sagas y.correlationId))
    (hf : ∀ x ∈ w.sagas, x.id = y.id → x.correlationId = y.correlationId)
    (hf' : ∀ x ∈ w'.sagas, x.id = y.id → x.correlationId = y.correlationId)
    {x : Cell} (hx : x.part? = some .sagas) :
    (x = .sagas y.correlationId ∨ x = .sagaId y.id →
      (w.putSaga y).look x = (w'.putSaga y).look x) ∧
    (¬(x = .sagas y.correlationId ∨ x = .sagaId y.id) → w'.look x = (w'.putSaga y).look x) := by
  obtain ⟨t, h⟩ := w.sagas.save_isSome_of_uk_none (r := w.stamped y) rfl
  obtain ⟨t', h'⟩ := w'.sagas.save_isSome_of_uk_none (r := w'.stamped y) rfl
  have hstamp : w'.stamped y = w.stamped y := by rw [stamped, stamped, hc]
  have halike : Table.SavedAlike SagaInstance.id (fun s => s.correlationId) (w.stamped y)
      w'.sagas t t' :=
    Table.save_alike h (hstamp ▸ h') hs hf hf'
  have hput : w.putSaga y = { w with sagas := t } := by
    rw [stamped] at h
    rw [putSaga, h]
  have hput' : w'.putSaga y = { w' with sagas := t' } := by
    rw [stamped] at h'
    rw [putSaga, h']
  rw [hput, hput']
  cases x with
  | sagas k =>
    refine ⟨fun hk => ?_, fun hk => halike.others k fun hy => hk (Or.inl (congrArg Cell.sagas hy))⟩
    rcases hk with hk | hk <;> cases hk
    exact halike.self
  | sagaId a =>
    refine ⟨fun hid => ?_, fun hid => halike.pk_others a
      fun ha => hid (Or.inr (congrArg Cell.sagaId ha))⟩
    rcases hid with hid | hid <;> cases hid
    exact halike.pk_self
  | _ => cases hx

/-- The saga is stored, with this correlation id. -/
def SagaKeyed (w : World) (y k : String) : Prop := ∃ s ∈ w.sagas, s.id = y ∧ s.correlationId = k

/-- A saga has one correlation id. -/
theorem SagaKeyed.unique {y k : String} (h : w.SagaKeyed y k) {s : SagaInstance} (hs : s ∈ w.sagas)
    (hy : s.id = y) : s.correlationId = k := by
  obtain ⟨x, hx, hid, rfl⟩ := h
  rw [Table.eq_of_pk hs hx (hy.trans hid.symm)]

theorem SagaKeyed.key_unique {y k k' : String} (h : w.SagaKeyed y k) (h' : w.SagaKeyed y k') :
    k = k' := by
  obtain ⟨x, hx, hid, rfl⟩ := h
  exact h'.unique hx hid

/-- The rows of a saga that is written keep their correlation ids. -/
theorem SagaKeyed.put {y k : String} (h : w.SagaKeyed y k) {s : SagaInstance}
    (hs : w.SagaKeyed s.id s.correlationId) : (w.putSaga s).SagaKeyed y k := by
  obtain ⟨x, hx, rfl, rfl⟩ := h
  by_cases hid : x.id = s.id
  · exact ⟨_, (mem_putSaga w s).mpr (Or.inl rfl), hid.symm, (hs.unique hx hid).symm⟩
  · exact ⟨x, (mem_putSaga w s).mpr (Or.inr ⟨hx, hid⟩), rfl, rfl⟩

/-- A saga that is stored is saved. -/
theorem look_saveSaga {y : SagaInstance} {k : String} (hk : y.correlationId = k)
    (hc : w.clock = w'.clock) (hs : w.look (.sagas k) = w'.look (.sagas k))
    (hy : w.SagaKeyed y.id k) (hy' : w'.SagaKeyed y.id k) {x : Cell} (hx : x.part? = some .sagas) :
    (x = .sagas k → (w.putSaga y).look x = (w'.putSaga y).look x) ∧
      (x ≠ .sagas k → w'.look x = (w'.putSaga y).look x) := by
  subst hk
  have hlook := look_putSaga hc hs (fun x hx hid => hy.unique hx hid)
    (fun x hx hid => hy'.unique hx hid) hx
  refine ⟨fun hz => hlook.1 (Or.inl hz), fun hz => ?_⟩
  by_cases hid : x = .sagaId y.id
  · subst hid
    obtain ⟨s, hs, hid, -⟩ := hy'
    exact propext ⟨fun _ => ⟨_, (mem_putSaga w' y).mpr (Or.inl rfl), rfl⟩, fun _ => ⟨s, hs, hid⟩⟩
  · exact hlook.2 fun hor => hor.elim hz hid

/-- Stored sagas of one correlation id are saved one after the other. -/
theorem look_saveSagas {k : String} (ss : List SagaInstance) : ∀ {w w' : World},
    w.clock = w'.clock → w.look (.sagas k) = w'.look (.sagas k) →
    (∀ y ∈ ss, y.correlationId = k ∧ w.SagaKeyed y.id k ∧ w'.SagaKeyed y.id k) →
      ∀ {x : Cell}, x.part? = some .sagas →
        (x = .sagas k → (ss.foldl putSaga w).look x = (ss.foldl putSaga w').look x) ∧
        (x ≠ .sagas k → w'.look x = (ss.foldl putSaga w').look x) := by
  induction ss with
  | nil =>
    intro w w' hc hs _ x _
    exact ⟨by rintro rfl; exact hs, fun _ => rfl⟩
  | cons y ss ih =>
    intro w w' hc hs h x hx
    obtain ⟨hk, hy, hy'⟩ := h y List.mem_cons_self
    have hone := fun x hx => look_saveSaga hk hc hs hy hy' (x := x) hx
    have hrest : ∀ z ∈ ss, z.correlationId = k ∧ (w.putSaga y).SagaKeyed z.id k ∧
        (w'.putSaga y).SagaKeyed z.id k := by
      intro z hz
      obtain ⟨hzk, hz, hz'⟩ := h z (List.mem_cons_of_mem _ hz)
      exact ⟨hzk, hz.put (by rw [hk]; exact hy), hz'.put (by rw [hk]; exact hy')⟩
    obtain ⟨hsame, hother⟩ := ih (by simpa using hc) ((hone (.sagas k) rfl).1 rfl) hrest hx
    exact ⟨hsame, fun hne => ((hone x hx).2 hne).trans (hother hne)⟩

/-- A saga is inserted under an id that is free in both worlds, or in neither. -/
theorem look_insertSaga {id : String} {n : NewSaga} (hc : w.clock = w'.clock)
    (hs : w.look (.sagas n.correlationId) = w'.look (.sagas n.correlationId))
    (hid : w.look (.sagaId id) = w'.look (.sagaId id)) :
    (w.insertSaga id n = none ∧ w'.insertSaga id n = none) ∨
    ∃ w₁ w₁' s, w.insertSaga id n = some (w₁, s) ∧ w'.insertSaga id n = some (w₁', s) ∧
      ∀ x : Cell, x.part? = some .sagas →
        (x = .sagas n.correlationId ∨ x = .sagaId id → w₁.look x = w₁'.look x) ∧
        (¬(x = .sagas n.correlationId ∨ x = .sagaId id) → w'.look x = w₁'.look x) := by
  have hiff : (∃ s ∈ w.sagas, s.id = id) ↔ ∃ s ∈ w'.sagas, s.id = id := iff_of_eq hid
  unfold insertSaga
  by_cases hex : ∃ s ∈ w.sagas, s.id = id
  · refine Or.inl ⟨if_pos ?_, if_pos ?_⟩
    · exact Table.find?_isSome.mpr (by simpa using hex)
    · exact Table.find?_isSome.mpr (by simpa using hiff.mp hex)
  · have hfree : ∀ x ∈ w.sagas, x.id ≠ id := fun x hx h => hex ⟨x, hx, h⟩
    have hfree' : ∀ x ∈ w'.sagas, x.id ≠ id := fun x hx h => hex (hiff.mpr ⟨x, hx, h⟩)
    right
    rw [if_neg (by rw [Table.find?_isSome]; simpa using hfree),
      if_neg (by rw [Table.find?_isSome]; simpa using hfree')]
    refine ⟨w.putSaga ⟨n, id, none, w.clock, w.clock⟩, w'.putSaga ⟨n, id, none, w.clock, w.clock⟩,
      ⟨n, id, none, w.clock, w.clock⟩, rfl, by rw [hc], fun x hx => ?_⟩
    exact look_putSaga (y := ⟨n, id, none, w.clock, w.clock⟩) hc hs
      (fun x hx h => absurd h (hfree x hx)) (fun x hx h => absurd h (hfree' x hx)) hx

/-! ### Transactions -/

theorem head?_transactionsOn (w : World) (n : ℕ) : (w.transactionsOn n).head? = w.transaction n :=
  List.head?_filter

theorem transaction_congr {n : ℕ} (h : w.look (.transaction n) = w'.look (.transaction n)) :
    w.transaction n = w'.transaction n := by
  have hsame : w.transactionsOn n = w'.transactionsOn n := h
  rw [← head?_transactionsOn, hsame, head?_transactionsOn]

theorem mem_transactionsOn {t : Transaction} {n : ℕ} :
    t ∈ w.transactionsOn n ↔ t ∈ w.transactions ∧ t.runner = n := by
  simp [transactionsOn]

theorem lockedBy_congr {y : String} (h : w.look (.rowLock y) = w'.look (.rowLock y))
    (runner : Option ℕ) : w.lockedBy runner y = w'.lockedBy runner y := by
  have hiff : ∀ w : World, w.lockedBy runner y = true ↔ ∃ n, some n ≠ runner ∧ w.LockedOn y n := by
    intro w
    simp only [lockedBy, List.any_eq_true, Bool.and_eq_true, decide_eq_true_eq]
    exact ⟨fun ⟨t, ht, hr, hy⟩ => ⟨t.runner, hr, t, ht, rfl, hy⟩,
      fun ⟨n, hn, t, ht, hr, hy⟩ => ⟨t, ht, hr ▸ hn, hy⟩⟩
  have hsame : ∀ n, w.LockedOn y n ↔ w'.LockedOn y n := fun n => iff_of_eq (congrFun h n)
  rw [Bool.eq_iff_iff, hiff, hiff]
  simp only [hsame]

theorem lockedOn_set {t : Transaction} {y : String} {n : ℕ} : (w.setTransaction t).LockedOn y n ↔
    (n = t.runner ∧ y ∈ t.locks) ∨ (n ≠ t.runner ∧ w.LockedOn y n) := by
  constructor
  · rintro ⟨u, hu, rfl, hy⟩
    rcases List.mem_cons.mp hu with rfl | hu
    · exact Or.inl ⟨rfl, hy⟩
    · obtain ⟨hu, hne⟩ := List.mem_filter.mp hu
      exact Or.inr ⟨by simpa using hne, u, hu, rfl, hy⟩
  · rintro (⟨rfl, hy⟩ | ⟨hne, u, hu, rfl, hy⟩)
    · exact ⟨t, List.mem_cons_self, rfl, hy⟩
    · exact ⟨u, List.mem_cons_of_mem _ (List.mem_filter.mpr ⟨hu, by simpa using hne⟩), rfl, hy⟩

theorem lockedOn_end {r : ℕ} {y : String} {n : ℕ} :
    (w.endTransaction r).LockedOn y n ↔ n ≠ r ∧ w.LockedOn y n := by
  constructor
  · rintro ⟨u, hu, rfl, hy⟩
    obtain ⟨hu, hne⟩ := List.mem_filter.mp hu
    exact ⟨by simpa using hne, u, hu, rfl, hy⟩
  · rintro ⟨hne, u, hu, rfl, hy⟩
    exact ⟨u, List.mem_filter.mpr ⟨hu, by simpa using hne⟩, rfl, hy⟩

theorem transactionsOn_set (t : Transaction) : (w.setTransaction t).transactionsOn t.runner = [t] := by
  rw [transactionsOn, setTransaction, List.filter_cons_of_pos (by simp), List.filter_filter]
  simp

theorem transactionsOn_set_of_ne {t : Transaction} {n : ℕ} (hn : n ≠ t.runner) :
    (w.setTransaction t).transactionsOn n = w.transactionsOn n := by
  rw [transactionsOn, setTransaction, List.filter_cons_of_neg (by simpa using Ne.symm hn),
    List.filter_filter]
  refine List.filter_congr fun u _ => ?_
  by_cases hu : u.runner = n
  · simp [hu, hn]
  · simp [hu]

theorem transactionsOn_end (r : ℕ) : (w.endTransaction r).transactionsOn r = [] := by
  rw [transactionsOn, endTransaction, List.filter_filter]
  simp

theorem transactionsOn_end_of_ne {r n : ℕ} (hn : n ≠ r) :
    (w.endTransaction r).transactionsOn n = w.transactionsOn n := by
  rw [transactionsOn, endTransaction, List.filter_filter]
  refine List.filter_congr fun u _ => ?_
  by_cases hu : u.runner = n
  · simp [hu, hn]
  · simp [hu]

/-- Nothing but rows in `K` is locked by the transactions of a query runner. -/
def LocksOnly (w : World) (n : ℕ) (K : String → Prop) : Prop :=
  ∀ u ∈ w.transactions, u.runner = n → ∀ y ∈ u.locks, K y

/-- The transaction of a query runner is replaced by one that locks rows in `K` only, as the one
before did. -/
theorem look_setTransaction {t : Transaction} {K : String → Prop} (ht : ∀ y ∈ t.locks, K y)
    (hold : w'.LocksOnly t.runner K) (hK : ∀ y, K y → w.look (.rowLock y) = w'.look (.rowLock y))
    {x : Cell} (hx : x.part? = some .transactions) :
    ((x = .transaction t.runner ∨ ∃ y, K y ∧ x = .rowLock y) →
      (w.setTransaction t).look x = (w'.setTransaction t).look x) ∧
    (¬(x = .transaction t.runner ∨ ∃ y, K y ∧ x = .rowLock y) →
      w'.look x = (w'.setTransaction t).look x) := by
  cases x with
  | transaction n =>
    refine ⟨fun h => ?_, fun h => ?_⟩
    · rcases h with h | ⟨y, -, h⟩ <;> cases h
      exact (transactionsOn_set t).trans (transactionsOn_set t).symm
    · exact (transactionsOn_set_of_ne fun hn => h (Or.inl (congrArg Cell.transaction hn))).symm
  | rowLock y =>
    refine ⟨fun h => funext fun n => propext ?_, fun h => funext fun n => propext ?_⟩
    · rcases h with h | ⟨y, hy, h⟩ <;> cases h
      have hsame : w.LockedOn y n ↔ w'.LockedOn y n := iff_of_eq (congrFun (hK y hy) n)
      exact lockedOn_set.trans
        ((or_congr_right (and_congr_right fun _ => hsame)).trans lockedOn_set.symm)
    · -- neither transaction locks the row
      have hy : ¬K y := fun hy => h (Or.inr ⟨y, hy, rfl⟩)
      refine Iff.trans ?_ lockedOn_set.symm
      refine ⟨fun hl => Or.inr ⟨?_, hl⟩, fun hl => ?_⟩
      · rintro rfl
        obtain ⟨u, hu, hr, hyu⟩ := hl
        exact hy (hold u hu hr y hyu)
      · rcases hl with ⟨-, hyt⟩ | ⟨-, hl⟩
        · exact absurd (ht y hyt) hy
        · exact hl
  | _ => cases hx

/-- The transaction of a query runner, which locks rows in `K` only, is ended. -/
theorem look_endTransaction {r : ℕ} {K : String → Prop} (hold : w'.LocksOnly r K)
    (hK : ∀ y, K y → w.look (.rowLock y) = w'.look (.rowLock y)) {x : Cell}
    (hx : x.part? = some .transactions) :
    ((x = .transaction r ∨ ∃ y, K y ∧ x = .rowLock y) →
      (w.endTransaction r).look x = (w'.endTransaction r).look x) ∧
    (¬(x = .transaction r ∨ ∃ y, K y ∧ x = .rowLock y) →
      w'.look x = (w'.endTransaction r).look x) := by
  cases x with
  | transaction n =>
    refine ⟨fun h => ?_, fun h => ?_⟩
    · rcases h with h | ⟨y, -, h⟩ <;> cases h
      exact (transactionsOn_end r).trans (transactionsOn_end r).symm
    · exact (transactionsOn_end_of_ne fun hn => h (Or.inl (congrArg Cell.transaction hn))).symm
  | rowLock y =>
    refine ⟨fun h => funext fun n => propext ?_, fun h => funext fun n => propext ?_⟩
    · rcases h with h | ⟨y, hy, h⟩ <;> cases h
      have hsame : w.LockedOn y n ↔ w'.LockedOn y n := iff_of_eq (congrFun (hK y hy) n)
      exact lockedOn_end.trans ((and_congr_right fun _ => hsame).trans lockedOn_end.symm)
    · have hy : ¬K y := fun hy => h (Or.inr ⟨y, hy, rfl⟩)
      refine Iff.trans ⟨fun hl => ⟨?_, hl⟩, And.right⟩ lockedOn_end.symm
      rintro rfl
      obtain ⟨u, hu, hr, hyu⟩ := hl
      exact hy (hold u hu hr y hyu)
  | _ => cases hx

/-! ### The lock server -/

/-- A call of the lock server goes by the entry under its key. -/
theorem look_callRedis {key : String} (hc : w.clock = w'.clock)
    (hs : w.look (.entry key) = w'.look (.entry key)) (token : String) (a : Lease.Call) :
    (w.callRedis key token a).2 = (w'.callRedis key token a).2 ∧
      ∀ x : Cell, x.part? = some .redis →
        (x = .entry key → (w.callRedis key token a).1.look x = (w'.callRedis key token a).1.look x) ∧
        (x ≠ .entry key → w'.look x = (w'.callRedis key token a).1.look x) := by
  obtain ⟨hdone, hentry⟩ := Lease.answer_congr (t := w.redis.entries) hs w'.clock token a
  simp only [callRedis, Lease.Server.serve_done, hc]
  refine ⟨hdone, fun x hx => ?_⟩
  cases x with
  | entry k =>
    refine ⟨fun hk => ?_, fun hk => ?_⟩
    · cases hk
      exact hentry
    · exact (Lease.answer_lookup_of_ne w'.redis.entries (fun h => hk (congrArg Cell.entry h)) w'.clock
        token a).symm
  | _ => cases hx

end World

end CqrsSaga
