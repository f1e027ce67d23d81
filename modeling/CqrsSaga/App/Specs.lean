import CqrsSaga.App.Frame

/-!
# What the writing operations do to the rows

One lemma for each operation that writes a table: either nothing has changed and an
error is thrown, or the rows are those from before with the written one in place.

## Main results

* `World.insertOrder_cases`, `World.saveOrder_cases` — orders.
* `World.insertPayment_cases`, `World.savePayment_cases` — payments.
* `World.mem_putSaga`, `World.insertSaga_cases` — sagas.
* `World.txFindSaga_cases`, `World.txSaveSaga_cases`, `World.commit_cases` — transactions.
-/

namespace CqrsSaga

namespace World

variable {w w' : World}

/-! ### Orders -/

/-- The row an insert adds. -/
def newOrderRow (w : World) (id : String) (n : NewOrder) (amount : ℚ) : Order :=
  ⟨{ n with totalAmount := amount }, id, none, w.clock, w.clock⟩

theorem insertOrder_cases {id : String} {n : NewOrder} {r : Except Err Order}
    (h : w.insertOrder id n = some (w', r)) :
    (w' = w ∧ r = .error .numericOverflow) ∨
    (w' = w ∧ ∃ key, n.idempotencyKey = some key ∧ r = .error (.uniqueViolation key) ∧
      ∃ x ∈ w.orders, x.idempotencyKey = some key) ∨
    ∃ amount, decimal102 n.totalAmount = some amount ∧ r = .ok ⟨n, id, none, w.clock, w.clock⟩ ∧
      (∀ x ∈ w.orders, x.id ≠ id) ∧
      (∀ key, n.idempotencyKey = some key → ∀ x ∈ w.orders, x.idempotencyKey ≠ some key) ∧
      ∀ y, y ∈ w'.orders ↔ y = w.newOrderRow id n amount ∨ y ∈ w.orders := by
  unfold insertOrder at h
  split at h
  · simp at h
  · next hid =>
    have hfresh : ∀ x ∈ w.orders, x.id ≠ id := by
      intro x hx
      simpa using Table.find?_eq_none.mp (Option.not_isSome_iff_eq_none.mp hid) x hx
    cases hd : decimal102 n.totalAmount with
    | none =>
      simp only [hd, Option.some.injEq, Prod.mk.injEq] at h
      exact Or.inl ⟨h.1.symm, h.2.symm⟩
    | some amount =>
      simp only [hd] at h
      split at h
      · next hs =>
        simp only [Option.some.injEq, Prod.mk.injEq] at h
        obtain ⟨x, hx, -, key, hxk, hnk⟩ := Table.save_eq_none.mp hs
        have hkey : n.idempotencyKey = some key := hnk
        refine Or.inr (Or.inl ⟨h.1.symm, key, hkey, ?_, x, hx, hxk⟩)
        rw [← h.2, hkey]
        rfl
      · next t hs =>
        simp only [Option.some.injEq, Prod.mk.injEq] at h
        obtain ⟨rfl, rfl⟩ := h
        refine Or.inr (Or.inr ⟨amount, rfl, rfl, hfresh, fun key hk x hx hxk => ?_, fun y => ?_⟩)
        · have hnone : w.orders.save (w.newOrderRow id n amount) = none :=
            Table.save_eq_none.mpr ⟨x, hx, hfresh x hx, key, hxk, hk⟩
          exact absurd (hnone.symm.trans hs) (by simp)
        · rw [Table.mem_save hs]
          exact or_congr_right ⟨fun hy => hy.1, fun hy => ⟨hy, hfresh y hy⟩⟩

theorem saveOrder_cases (w : World) (o : Order) :
    ((w.saveOrder o).1 = w ∧ ∃ e, (w.saveOrder o).2 = .error e) ∨
    ((w.saveOrder o).2 = .ok () ∧ ∃ amount, decimal102 o.totalAmount = some amount ∧
      ∀ y, y ∈ (w.saveOrder o).1.orders ↔
        y = { o with totalAmount := amount, updatedAt := w.clock } ∨
          y ∈ w.orders ∧ y.id ≠ o.id) := by
  unfold saveOrder
  cases hd : decimal102 o.totalAmount with
  | none => exact Or.inl ⟨rfl, _, rfl⟩
  | some amount =>
    dsimp only
    split
    · exact Or.inl ⟨rfl, _, rfl⟩
    · next t hs => exact Or.inr ⟨rfl, amount, rfl, fun y => Table.mem_save hs⟩

/-- An order that was read is written back without complaint. -/
theorem saveOrder_of_mem {o x : Order} (hx : x ∈ w.orders) (hid : x.id = o.id)
    (hkey : x.idempotencyKey = o.idempotencyKey)
    (hamount : decimal102 o.totalAmount = some o.totalAmount) :
    (w.saveOrder o).2 = .ok () := by
  have hs : ∃ t, w.orders.save { o with updatedAt := w.clock } = some t :=
    Table.save_isSome_of_uk_eq hx hid hkey
  obtain ⟨t, hs⟩ := hs
  unfold saveOrder
  rw [hamount]
  dsimp only
  rw [hs]

/-! ### Payments -/

/-- The row an insert adds. -/
def newPaymentRow (id : String) (n : NewPayment) (amount : ℚ) : Payment :=
  ⟨{ n with amount }, id, none, none⟩

theorem insertPayment_cases {id : String} {n : NewPayment} {r : Except Err Payment}
    (h : w.insertPayment id n = some (w', r)) :
    (w' = w ∧ r = .error .numericOverflow) ∨
    ∃ amount, decimal102 n.amount = some amount ∧ r = .ok ⟨n, id, none, none⟩ ∧
      (∀ x ∈ w.payments, x.id ≠ id) ∧
      ∀ y, y ∈ w'.payments ↔ y = newPaymentRow id n amount ∨ y ∈ w.payments := by
  unfold insertPayment at h
  split at h
  · simp at h
  · next hid =>
    have hfresh : ∀ x ∈ w.payments, x.id ≠ id := by
      intro x hx
      simpa using Table.find?_eq_none.mp (Option.not_isSome_iff_eq_none.mp hid) x hx
    cases hd : decimal102 n.amount with
    | none =>
      simp only [hd, Option.some.injEq, Prod.mk.injEq] at h
      exact Or.inl ⟨h.1.symm, h.2.symm⟩
    | some amount =>
      simp only [hd] at h
      split at h
      · simp at h
      · next t hs =>
        simp only [Option.some.injEq, Prod.mk.injEq] at h
        obtain ⟨rfl, rfl⟩ := h
        refine Or.inr ⟨amount, rfl, rfl, hfresh, fun y => ?_⟩
        rw [Table.mem_save hs]
        exact or_congr_right ⟨fun hy => hy.1, fun hy => ⟨hy, hfresh y hy⟩⟩

theorem savePayment_cases (w : World) (p : Payment) :
    ((w.savePayment p).1 = w ∧ decimal102 p.amount = none ∧
      (w.savePayment p).2 = .error .numericOverflow) ∨
    ((w.savePayment p).2 = .ok () ∧ ∃ amount, decimal102 p.amount = some amount ∧
      ∀ y, y ∈ (w.savePayment p).1.payments ↔ y = { p with amount } ∨
        y ∈ w.payments ∧ y.id ≠ p.id) := by
  unfold savePayment
  cases hd : decimal102 p.amount with
  | none => exact Or.inl ⟨rfl, rfl, rfl⟩
  | some amount =>
    obtain ⟨t, ht⟩ := w.payments.save_isSome_of_uk_none (r := { p with amount }) rfl
    dsimp only
    rw [ht]
    exact Or.inr ⟨rfl, amount, rfl, fun y => Table.mem_save ht⟩

/-! ### Sagas -/

/-- What looking for the saga of a type and a correlation id selects. -/
theorem selects_pair {ty co : String} {s : SagaInstance} :
    SagaWhere.selects { correlationId := some co, sagaType := some ty } s = true ↔ s.Is ty co := by
  simp only [SagaWhere.selects, meets_none, Bool.true_and, Bool.and_true, Bool.and_eq_true,
    meets_some, SagaInstance.Is]
  rw [eq_comm, eq_comm (a := co)]

/-- A saga, written at the time of `w`. -/
def stamped (w : World) (s : SagaInstance) : SagaInstance := { s with updatedAt := w.clock }

theorem mem_putSaga (w : World) (s : SagaInstance) {y : SagaInstance} :
    y ∈ (w.putSaga s).sagas ↔ y = w.stamped s ∨ y ∈ w.sagas ∧ y.id ≠ s.id := by
  obtain ⟨t, ht⟩ := w.sagas.save_isSome_of_uk_none (r := w.stamped s) rfl
  have hput : w.putSaga s = { w with sagas := t } := by
    unfold putSaga
    rw [show w.sagas.save { s with updatedAt := w.clock } = some t from ht]
  rw [hput]
  exact Table.mem_save ht

theorem insertSaga_cases {id : String} {n : NewSaga} {s : SagaInstance}
    (h : w.insertSaga id n = some (w', s)) :
    s = ⟨n, id, none, w.clock, w.clock⟩ ∧ (∀ x ∈ w.sagas, x.id ≠ id) ∧
      ∀ y, y ∈ w'.sagas ↔ y = s ∨ y ∈ w.sagas := by
  unfold insertSaga at h
  split at h
  · simp at h
  · next hid =>
    have hfresh : ∀ x ∈ w.sagas, x.id ≠ id := by
      intro x hx
      simpa using Table.find?_eq_none.mp (Option.not_isSome_iff_eq_none.mp hid) x hx
    simp only [Option.some.injEq, Prod.mk.injEq] at h
    obtain ⟨rfl, rfl⟩ := h
    refine ⟨rfl, hfresh, fun y => ?_⟩
    rw [mem_putSaga]
    exact or_congr_right ⟨fun hy => hy.1, fun hy => ⟨hy, hfresh y hy⟩⟩

/-- What a save of a loaded row does. -/
theorem perform_sagaSave {w w' : World} {i : ℕ} {y : SagaInstance} {c : Choice}
    {v : Except Err Unit} {ts : List Task}
    (h : w.perform i c (.sagaSave y) = some (w', v, ts)) :
    w.lockedBy none y.id = false ∧ w' = w.putSaga y := by
  simp only [perform] at h
  split at h
  · simp at h
  · next hl => exact ⟨by simpa using hl, (congrArg Prod.fst (Option.some.inj h)).symm⟩

@[simp] theorem putSaga_clock (w : World) (s : SagaInstance) : (w.putSaga s).clock = w.clock := by
  obtain ⟨t, ht⟩ := putSaga_only w s
  rw [ht]

/-! ### Transactions -/

theorem txFindSaga_cases {n : ℕ} {y : String} {v : Except Err (Option SagaInstance)}
    (h : w.txFindSaga n y = some (w', v)) :
    (w' = w ∧ ∀ s, v ≠ .ok (some s)) ∨
    ∃ t s, w.transaction n = some t ∧ w.lockedBy (some n) y = false ∧ s ∈ w.sagas ∧ s.id = y ∧
      v = .ok (some s) ∧ w' = w.setTransaction { t with locks := y :: t.locks } := by
  unfold txFindSaga at h
  cases ht : w.transaction n with
  | none =>
    simp only [ht, Option.some.injEq, Prod.mk.injEq] at h
    exact Or.inl ⟨h.1.symm, fun s hs => nomatch h.2.trans hs⟩
  | some t =>
    simp only [ht] at h
    split at h
    · simp at h
    · next hlock =>
      cases hs : w.sagas.find? fun s => decide (s.id = y) with
      | none =>
        simp only [hs, Option.some.injEq, Prod.mk.injEq] at h
        exact Or.inl ⟨h.1.symm, fun s hs => nomatch Except.ok.inj (h.2.trans hs)⟩
      | some s =>
        simp only [hs, Option.some.injEq, Prod.mk.injEq] at h
        exact Or.inr ⟨t, s, rfl, by simpa using hlock, Table.mem_of_find? hs,
          by simpa using Table.find?_some hs, h.2.symm, h.1.symm⟩

theorem txSaveSaga_cases {n : ℕ} {s : SagaInstance} {v : Except Err Unit}
    (h : w.txSaveSaga n s = some (w', v)) :
    (w' = w ∧ w.transaction n = none) ∨
    ∃ t, w.transaction n = some t ∧ w.lockedBy (some n) s.id = false ∧
      w' = w.setTransaction { t with locks := s.id :: t.locks, writes := t.writes ++ [s] } := by
  unfold txSaveSaga at h
  cases ht : w.transaction n with
  | none =>
    simp only [ht, Option.some.injEq, Prod.mk.injEq] at h
    exact Or.inl ⟨h.1.symm, rfl⟩
  | some t =>
    simp only [ht] at h
    split at h
    · simp at h
    · next hlock =>
      simp only [Option.some.injEq, Prod.mk.injEq] at h
      exact Or.inr ⟨t, rfl, by simpa using hlock, h.1.symm⟩

theorem commit_cases (w : World) (n : ℕ) :
    (w.transaction n = none ∧ (w.commit n).1 = w) ∨ ∃ t, w.transaction n = some t ∧
      (w.commit n).1.sagas = (t.writes.foldl putSaga (w.endTransaction n)).sagas ∧
        (w.commit n).1.transactions = (w.endTransaction n).transactions := by
  unfold commit
  cases ht : w.transaction n with
  | none => exact Or.inl ⟨rfl, rfl⟩
  | some t =>
    obtain ⟨u, hu⟩ := putSagas_only (w.endTransaction n) t.writes
    refine Or.inr ⟨t, rfl, rfl, ?_⟩
    dsimp only
    rw [hu]

theorem rollback_cases (w : World) (n : ℕ) :
    (w.rollback n).1 = w ∨ (w.rollback n).1 = w.endTransaction n := by
  unfold rollback
  split
  · exact Or.inl rfl
  · exact Or.inr rfl

end World

end CqrsSaga
