import CqrsSaga.Payment.Refunds

/-!
# How payments are settled

Any number of `ProcessPaymentHandler.execute` runs and of the callbacks they hand over.  A
callback decides, writes the payment and publishes the result; where the write fails it marks the
payment it has in memory as failed and writes once more.  That is right for a payment that was
declined.  One that went through keeps its transaction id, and a second failure leaves
the payment as it was, with nothing published.

## Main definitions

* `charges` — the system of any number of runs.
* `Op.Secure` — the saves that do not fail: all but the first one of a declined payment.
* `World.Settled` — status, transaction id and published results of a payment agree.
* `settlement x` — what the runs agree on about the payment `x`.

## Main results

* `payments_settled` — **once nothing is left to run, every payment is settled.**
* `charged_failed` — a payment that went through is stored as failed.
-/

namespace CqrsSaga

open ProcessPaymentHandler

/-- A run of the handler, or a callback it has handed over. -/
inductive Charge
  | pay (command : ProcessPaymentCommand)
  | external (payment : Payment) (correlationId : Option String)

/-- The program of a run. -/
def Charge.run : Charge → Async App Unit
  | pay command => (fun _ => ()) <$> ProcessPaymentHandler.execute command
  | external payment correlationId => externalPayment payment correlationId

/-- Any number of runs of the handler. -/
abbrev charges : System app where
  Tag := Charge
  Res := Unit
  body := Charge.run
  spawned := fun
    | .externalPayment payment correlationId => some (.external payment correlationId)
    | _ => none

/-- The event tells that the payment `x` was processed. -/
def Event.processes (x : String) : Event → Bool
  | .paymentProcessed e => decide (e.paymentId = x)
  | _ => false

/-- The event tells that the payment `x` has failed. -/
def Event.fails (x : String) : Event → Bool
  | .paymentFailed e => decide (e.paymentId = x)
  | _ => false

/-- Why a payment was declined. -/
def declinedReason : String := "Insufficient funds or card declined"

/-- The save does not fail, unless it is the first one of a declined payment. -/
def Op.Secure (o : Op) (c : Choice) : Prop :=
  c.fault ≠ none → ∀ p ∈ o.savedPayment?, p.failureReason = some declinedReason

instance (o : Op) (c : Choice) : Decidable (o.Secure c) :=
  inferInstanceAs (Decidable (_ → ∀ p ∈ o.savedPayment?, _))

namespace World

/-- How often the payment `x` was announced as processed. -/
def processed (w : World) (x : String) : ℕ := w.published.countP (Event.processes x)

/-- How often the payment `x` was announced as failed. -/
def failed (w : World) (x : String) : ℕ := w.published.countP (Event.fails x)

/-- One result of the payment was published, the one that is stored, and no charge was obtained for
a failed payment. -/
structure Settled (w : World) (p : Payment) : Prop where
  once : w.processed p.id + w.failed p.id = 1
  processed : w.processed p.id = 1 ↔ p.status = .completed
  failed : w.failed p.id = 1 ↔ p.status = .failed
  uncharged : p.status = .failed → p.externalTransactionId = none

end World

namespace Charges

/-- The runs looked at: everything starts with a command. -/
def Commands : Action charges → Prop
  | .start (.external _ _) => False
  | _ => True

/-- No save fails but the first one of a declined payment. -/
def Secure (p : Pool charges) : Action charges → Prop
  | .run i c => ∀ o ∈ p.awaits i, o.Secure c
  | _ => True

/-- No payment is stored, and no result published. -/
def NoPayments (w : World) : Prop := w.payments.rows = [] ∧ w.published = []

/-- The invariant; `g` is who is to settle the payment `x`. -/
structure Inv (x : String) (w : World) (g : Option ℕ) : Prop where
  unstored : (∀ p ∈ w.payments, p.id ≠ x) → g = none ∧ w.processed x = 0 ∧ w.failed x = 0
  owed : g ≠ none → w.processed x = 0 ∧ w.failed x = 0
  settled : g = none → ∀ p ∈ w.payments, p.id = x → w.Settled p

/-- What the runs agree on about the payment `x`. -/
def settlement (x : String) : Protocol charges where
  Ghost := Option ℕ
  Inv := Inv x
  Mono := fun w _ w' _ => (∃ p ∈ w.payments, p.id = x) → ∃ p ∈ w'.payments, p.id = x
  Keep := fun i w g w' g' => (g = some i ↔ g' = some i) ∧
    (g = some i → ∀ p, p.id = x → (p ∈ w.payments ↔ p ∈ w'.payments))
  CanRun := fun _ _ _ o c => o.Secure c
  Assert := fun _ _ _ _ => True
  Fits := fun g l => ∀ a, g = some a → a < l.length
  Born := fun i t w g =>
    match t with
    | .pay _ => g ≠ some i
    | .external p _ => (p.status = .processing ∧ p.externalTransactionId = none ∧
        p.failureReason = none ∧ ∃ amount, decimal102 p.amount = some amount) ∧
        (p.id = x → g = some i ∧ ∃ q ∈ w.payments, q.id = x) ∧ (p.id ≠ x → g ≠ some i)
  Post := fun i _ _ _ g => g ≠ some i
  mono_refl := fun _ _ h => h
  mono_trans := fun h h' hx => h' (h hx)
  keep_refl := fun _ _ _ => ⟨Iff.rfl, fun _ _ _ => Iff.rfl⟩
  keep_trans := fun h h' => ⟨h.1.trans h'.1,
    fun hg p hp => (h.2 hg p hp).trans (h'.2 (h.1.mp hg) p hp)⟩

variable {x : String} {i : ℕ} {w w' : World} {g : Option ℕ}

/-- Activity `i` has nothing to settle. -/
def Idle (i : ℕ) (_ : World) (g : Option ℕ) : Prop := g ≠ some i

/-- Activity `i` is to settle the payment `y`. -/
def Owes (x y : String) (i : ℕ) (w : World) (g : Option ℕ) : Prop :=
  (y = x → g = some i ∧ ∃ q ∈ w.payments, q.id = x) ∧ (y ≠ x → g ≠ some i)

/-- Activity `i` has written the payment `p`, and is to publish the result. -/
def Written (x : String) (p : Payment) (i : ℕ) (w : World) (g : Option ℕ) : Prop :=
  (p.id = x → g = some i ∧ ∃ q ∈ w.payments, q.id = x ∧ q.status = p.status ∧
    q.externalTransactionId = p.externalTransactionId) ∧ (p.id ≠ x → g ≠ some i)

/-- A payment as it was saved first. -/
def Begun (p : Payment) : Prop :=
  p.status = .processing ∧ p.externalTransactionId = none ∧ p.failureReason = none ∧
    ∃ amount, decimal102 p.amount = some amount

theorem idle_stable : (settlement x).Stable i (Idle i) :=
  fun _ _ _ _ _ hk _ h hg => h (hk.1.mpr hg)

theorem owes_stable {y : String} : (settlement x).Stable i (Owes x y i) := by
  intro w g w' g' hm hk _ h
  refine ⟨fun hyx => ?_, fun hyx hg => h.2 hyx (hk.1.mpr hg)⟩
  obtain ⟨hg, hq⟩ := h.1 hyx
  exact ⟨hk.1.mp hg, hm hq⟩

theorem written_stable {p : Payment} : (settlement x).Stable i (Written x p i) := by
  intro w g w' g' hm hk _ h
  refine ⟨fun hpx => ?_, fun hpx hg => h.2 hpx (hk.1.mpr hg)⟩
  obtain ⟨hg, q, hq, hid, hs⟩ := h.1 hpx
  exact ⟨hk.1.mp hg, q, (hk.2 hg q hid).mp hq, hid, hs⟩

theorem results_save (w : World) (p : Payment) : (w.savePayment p).1.processed x = w.processed x ∧
    (w.savePayment p).1.failed x = w.failed x := by
  obtain ⟨t, ht⟩ := World.savePayment_only w p
  rw [ht]
  exact ⟨rfl, rfl⟩

/-- What is written and published concerns other payments. -/
theorem Inv.other (hI : Inv x w g)
    (hresults : w'.processed x = w.processed x ∧ w'.failed x = w.failed x)
    (hrows : ∀ q, q.id = x → (q ∈ w.payments ↔ q ∈ w'.payments)) : Inv x w' g := by
  obtain ⟨hproc, hfail⟩ := hresults
  refine ⟨fun h => ?_, fun h => ?_, fun hg q hq hid => ?_⟩
  · rw [hproc, hfail]
    exact hI.unstored fun q hq hid => h q ((hrows q hid).mp hq) hid
  · rw [hproc, hfail]
    exact hI.owed h
  · have hs := hI.settled hg q ((hrows q hid).mpr hq) hid
    subst hid
    exact ⟨by rw [hproc, hfail]; exact hs.once, by rw [hproc]; exact hs.processed,
      by rw [hfail]; exact hs.failed, hs.uncharged⟩

/-! ### The operations -/

/-- An operation that writes nothing and starts nothing. -/
theorem quiet_triple {F : World → Option ℕ → Prop} (hF : (settlement x).Stable i F) {o : Op}
    (ho : o.isLocal = true) (hw : ∀ (w : World) c, w.perform i c o = none ∨
      ∃ v, w.perform i c o = some (w, .ok v, [])) :
    (settlement x).Triple i F (Async.perform (S := App) o) fun r w g => (∃ v, r = .ok v) ∧ F w g := by
  refine .perform hF (fun r => (Protocol.Stable.const _).and hF) fun w g hI hf => ⟨trivial, ?_⟩
  intro c w' r ts _ he l _ hfits
  obtain ⟨hp, hr⟩ := World.exec_local he ho
  rcases hw w c with hn | ⟨v, hv⟩
  · rw [hn] at hp
    simp at hp
  · rw [hv] at hp
    simp only [Option.some.injEq, Prod.mk.injEq] at hp
    obtain ⟨rfl, -, rfl⟩ := hp
    exact .refl hI hfits ⟨hr, hf⟩

/-- Storing a payment: whoever does is the one to settle it. -/
theorem insert_triple {n : NewPayment} (hn : n.status = .processing) :
    (settlement x).Triple i (Idle i) (paymentRepository.insert n) fun r w g =>
      (∀ p, r = .ok p → Begun p ∧ Owes x p.id i w g) ∧ ((∃ e, r = .error e) → Idle i w g) := by
  have hst : ∀ r : Except Err Payment, (settlement x).Stable i fun w g =>
      (∀ p, r = .ok p → Begun p ∧ Owes x p.id i w g) ∧ ((∃ e, r = .error e) → Idle i w g) :=
    fun r => (Protocol.Stable.all fun p => .imp fun _ => (Protocol.Stable.const _).and owes_stable).and
      (.imp fun _ => idle_stable)
  refine .perform idle_stable hst fun w g hI hw => ⟨trivial, ?_⟩
  intro c w' r ts _ he l hl hf
  obtain rfl := World.exec_tasks he rfl
  rcases World.exec_cases_of_not_redis he rfl with ⟨-, hp⟩ | ⟨m, -, rfl, rfl, -⟩
  · obtain ⟨hins, -⟩ := World.perform_paymentInsert hp
    obtain ⟨t, ht⟩ := World.insertPayment_only hins
    have hresults : w'.processed x = w.processed x ∧ w'.failed x = w.failed x := by
      rw [ht]
      exact ⟨rfl, rfl⟩
    rcases World.insertPayment_cases hins with ⟨rfl, rfl⟩ | ⟨amount, ha, rfl, hfree, hmem⟩
    · exact .refl hI hf ⟨fun p h => (by cases h), fun _ => hw⟩
    have hbegun : Begun ⟨n, c.text, none, none⟩ := ⟨hn, rfl, rfl, amount, ha⟩
    by_cases hx : c.text = x
    · -- activity `i` is the one to settle the new payment
      subst hx
      obtain ⟨rfl, hproc, hfail⟩ := hI.unstored hfree
      have hrow : ∃ q ∈ w'.payments, q.id = c.text := ⟨_, (hmem _).mpr (Or.inl rfl), rfl⟩
      refine .quiet rfl (some i) ⟨fun h => ?_, fun _ => ?_, fun h => by cases h⟩
        (fun _ => hrow) ?_ ?_
        ⟨fun p hp => ?_, fun ⟨e, he⟩ => by cases he⟩
      · obtain ⟨q, hq, hid⟩ := hrow
        exact absurd hid (h q hq)
      · rw [hresults.1, hresults.2]
        exact ⟨hproc, hfail⟩
      · intro j _ hj
        refine ⟨⟨fun h => (by cases h), fun h => absurd (Option.some.inj h).symm hj⟩,
          fun h => by cases h⟩
      · intro a ha
        rw [← Option.some.inj ha]
        exact hl
      · obtain rfl := Except.ok.inj hp
        exact ⟨hbegun, fun _ => ⟨rfl, hrow⟩, fun h => absurd rfl h⟩
    · -- the new payment is another one, and `x` is as it was
      have hother : ∀ p, p.id = x → (p ∈ w.payments ↔ p ∈ w'.payments) := by
        intro p hp
        rw [hmem]
        refine ⟨Or.inr, ?_⟩
        rintro (rfl | h)
        · exact absurd hp hx
        · exact h
      refine .quiet rfl g (hI.other hresults hother) ?_ (fun _ _ _ => ⟨Iff.rfl, fun _ => hother⟩) hf
        ⟨fun p hp => ?_, fun ⟨e, he⟩ => by cases he⟩
      · rintro ⟨q, hq, hid⟩
        exact ⟨q, (hother q hid).mp hq, hid⟩
      · obtain rfl := Except.ok.inj hp
        exact ⟨hbegun, fun h => absurd h hx, fun _ => hw⟩
  · exact .refl hI hf ⟨fun p h => (by cases h), fun _ => hw⟩

/-- The payment is handed over to be settled. -/
theorem setImmediate_triple {p : Payment} {correlationId : Option String} (hp : Begun p) :
    (settlement x).Triple i (Owes x p.id i) (setImmediate (.externalPayment p correlationId))
      fun _ => Idle i := by
  refine .perform owes_stable (fun _ => idle_stable) fun w g hI hw => ⟨trivial, ?_⟩
  intro c w' r ts _ he l hl hf
  obtain ⟨hexec, -⟩ := World.exec_local he rfl
  simp only [World.perform, Option.some.injEq, Prod.mk.injEq] at hexec
  obtain ⟨rfl, -, rfl⟩ := hexec
  have hnew : ∀ m t, ([Task.externalPayment p correlationId].filterMap charges.spawned)[m]? = some t →
      m = 0 ∧ t = .external p correlationId := by
    intro m t ht
    cases m with
    | zero => exact ⟨rfl, (Option.some.inj ht).symm⟩
    | succ m => cases ht
  -- the activity that is started is the one to settle it from then on
  by_cases hpx : p.id = x
  · obtain ⟨rfl, hrow⟩ := hw.1 hpx
    refine ⟨some l.length, ⟨fun h => ?_, fun _ => hI.owed (by simp), fun h => by cases h⟩, fun h => h,
      fun j hj hji => ?_, fun a ha => ?_, fun m t ht => ?_, fun h => ?_⟩
    · obtain ⟨q, hq, hid⟩ := hrow
      exact absurd hid (h q hq)
    · refine ⟨⟨fun h => absurd (Option.some.inj h).symm hji, fun h => ?_⟩,
        fun h => absurd (Option.some.inj h).symm hji⟩
      have := Option.some.inj h
      omega
    · rw [← Option.some.inj ha]
      simp
    · obtain ⟨rfl, rfl⟩ := hnew m t ht
      exact ⟨hp, fun _ => ⟨rfl, hrow⟩, fun h => absurd hpx h⟩
    · have := Option.some.inj h
      omega
  · refine ⟨g, hI, fun h => h, fun _ _ _ => ⟨Iff.rfl, fun _ _ _ => Iff.rfl⟩, fun a ha => ?_,
      fun m t ht => ?_, hw.2 hpx⟩
    · have := hf a ha
      simp only [List.length_append]
      omega
    · obtain ⟨rfl, rfl⟩ := hnew m t ht
      refine ⟨hp, fun h => absurd h hpx, fun _ h => ?_⟩
      exact absurd (hf _ h) (Nat.lt_irrefl _)

/-- Writing a payment that is to be settled. -/
theorem save_triple {p : Payment} {amount : ℚ} (ha : decimal102 p.amount = some amount) :
    (settlement x).Triple i (Owes x p.id i) (paymentRepository.save p) fun r w g =>
      (r = .ok () → Written x p i w g) ∧
        ((∃ e, r = .error e) → Owes x p.id i w g ∧ p.failureReason = some declinedReason) := by
  have hst : ∀ r : Except Err Unit, (settlement x).Stable i fun w g =>
      (r = .ok () → Written x p i w g) ∧
        ((∃ e, r = .error e) → Owes x p.id i w g ∧ p.failureReason = some declinedReason) :=
    fun r => (Protocol.Stable.imp fun _ => written_stable).and
      (.imp fun _ => owes_stable.and (.const _))
  refine .perform owes_stable hst fun w g hI hw => ⟨trivial, ?_⟩
  intro c w' r ts hsecure he l hl hf
  obtain rfl := World.exec_tasks he rfl
  rcases World.exec_cases_of_not_redis he rfl with ⟨-, hp⟩ | ⟨m, hc, rfl, rfl, -⟩
  · simp only [World.perform, Option.some.injEq, Prod.mk.injEq] at hp
    obtain ⟨hok, t, ht, hmem⟩ := World.saved_payment (w := w) ha
    obtain ⟨rfl, rfl, -⟩ := hp
    obtain ⟨hproc, hfail⟩ := results_save (x := x) w p
    have hrows : (w.savePayment p).1.payments = t := by rw [ht]
    rw [← hrows] at hmem
    by_cases hpx : p.id = x
    · -- the row of `x` is written by the one who is to settle it
      obtain ⟨rfl, -⟩ := hw.1 hpx
      have hrow : ∃ q ∈ (w.savePayment p).1.payments, q.id = x ∧ q.status = p.status ∧
          q.externalTransactionId = p.externalTransactionId :=
        ⟨_, (hmem _).mpr (Or.inl rfl), hpx, rfl, rfl⟩
      refine .quiet rfl (some i) ⟨fun h => ?_, fun _ => ?_, fun h => by cases h⟩ (fun _ => ?_) ?_ hf
        ⟨fun _ => ⟨fun _ => ⟨rfl, hrow⟩, fun h => absurd hpx h⟩, fun h => ?_⟩
      · obtain ⟨q, hq, hid, -⟩ := hrow
        exact absurd hid (h q hq)
      · rw [hproc, hfail]
        exact hI.owed (by simp)
      · obtain ⟨q, hq, hid, -⟩ := hrow
        exact ⟨q, hq, hid⟩
      · intro j _ hj
        exact ⟨Iff.rfl, fun h => absurd (Option.some.inj h).symm hj⟩
      · obtain ⟨e, h⟩ := h
        rw [hok] at h
        simp at h
    · -- the row of another payment is written
      have hother : ∀ q, q.id = x → (q ∈ w.payments ↔ q ∈ (w.savePayment p).1.payments) := by
        intro q hq
        rw [hmem]
        refine ⟨fun h => Or.inr ⟨h, fun h => hpx (h.symm.trans hq)⟩, ?_⟩
        rintro (rfl | ⟨h, -⟩)
        · exact absurd hq hpx
        · exact h
      refine .quiet rfl g (hI.other ⟨hproc, hfail⟩ hother) ?_
        (fun _ _ _ => ⟨Iff.rfl, fun _ => hother⟩) hf
        ⟨fun _ => ⟨fun h => absurd h hpx, hw.2⟩, fun h => ?_⟩
      · rintro ⟨q, hq, hid⟩
        exact ⟨q, (hother q hid).mp hq, hid⟩
      · obtain ⟨e, h⟩ := h
        rw [hok] at h
        simp at h
  · exact .refl hI hf ⟨fun h => (by cases h), fun _ => ⟨hw, hsecure (by simp [hc]) p rfl⟩⟩

/-- The event tells how the payment is stored. -/
def Tells (p : Payment) (e : Event) : Prop :=
  (p.status = .completed ∧ ∃ f, e = .paymentProcessed f ∧ f.paymentId = p.id) ∨
    (p.status = .failed ∧ p.externalTransactionId = none ∧
      ∃ f, e = .paymentFailed f ∧ f.paymentId = p.id)

/-- The result is published. -/
theorem publish_triple {p : Payment} {e : Event} (he : Tells p e) :
    (settlement x).Triple i (Written x p i) (eventBus.publish e)
      fun r w g => r = .ok () ∧ Idle i w g := by
  refine .perform written_stable (fun r => (Protocol.Stable.const _).and idle_stable)
    fun w g hI hw => ⟨trivial, ?_⟩
  intro c w' r ts _ hexec l hl hf
  obtain ⟨hp, -⟩ := World.exec_local hexec rfl
  simp only [World.perform, Option.some.injEq, Prod.mk.injEq] at hp
  obtain ⟨rfl, rfl, rfl⟩ := hp
  have hts : (([e].flatMap Event.deliveries).map Task.deliver).filterMap charges.spawned = [] := by
    rw [List.filterMap_map]
    exact List.filterMap_eq_nil_iff.mpr fun _ _ => rfl
  by_cases hpx : p.id = x
  · -- nothing was published of `x` before, and this tells how its row is stored
    obtain ⟨rfl, q, hq, hid, hstatus, hext⟩ := hw.1 hpx
    obtain ⟨hproc, hfail⟩ := hI.owed (by simp)
    refine .quiet hts none ⟨fun h => absurd hid (h q hq), fun h => absurd rfl h,
      fun _ y hy hyx => ?_⟩
      (fun h => h) (fun j _ hj => ⟨⟨fun h => absurd (Option.some.inj h).symm hj, fun h => by cases h⟩,
        fun h => absurd (Option.some.inj h).symm hj⟩) (fun a h => by cases h) ⟨rfl, fun h => by cases h⟩
    obtain rfl := Table.eq_of_pk hy hq (hyx.trans hid.symm)
    have hid' : p.id = y.id := hpx.trans hid.symm
    rw [← hyx] at hproc hfail
    have hproc' : World.processed { w with published := w.published ++ [e] } y.id =
        if Event.processes y.id e then 1 else 0 := by
      simp only [World.processed, List.countP_append, List.countP_singleton] at hproc ⊢
      rw [hproc, Nat.zero_add]
    have hfail' : World.failed { w with published := w.published ++ [e] } y.id =
        if Event.fails y.id e then 1 else 0 := by
      simp only [World.failed, List.countP_append, List.countP_singleton] at hfail ⊢
      rw [hfail, Nat.zero_add]
    rcases he with ⟨hs, f, rfl, hf⟩ | ⟨hs, hnone, f, rfl, hf⟩
    · rw [hid'] at hf
      refine ⟨?_, ?_, ?_, fun h => ?_⟩
      · rw [hproc', hfail']
        simp [Event.processes, Event.fails, hf]
      · rw [hproc', hstatus, hs]
        simp [Event.processes, hf]
      · rw [hfail', hstatus, hs]
        simp [Event.fails]
      · rw [hstatus, hs] at h
        simp at h
    · rw [hid'] at hf
      refine ⟨?_, ?_, ?_, fun _ => hext.trans hnone⟩
      · rw [hproc', hfail']
        simp [Event.processes, Event.fails, hf]
      · rw [hproc', hstatus, hs]
        simp [Event.processes]
      · rw [hfail', hstatus, hs]
        simp [Event.fails, hf]
  · -- the result of another payment
    have hother : Event.processes x e = false ∧ Event.fails x e = false := by
      rcases he with ⟨-, f, rfl, hf⟩ | ⟨-, -, f, rfl, hf⟩
      · simp [Event.processes, Event.fails, hf, hpx]
      · simp [Event.processes, Event.fails, hf, hpx]
    have hproc : World.processed { w with published := w.published ++ [e] } x = w.processed x := by
      simp [World.processed, hother.1]
    have hfail : World.failed { w with published := w.published ++ [e] } x = w.failed x := by
      simp [World.failed, hother.2]
    exact .quiet hts g (hI.other ⟨hproc, hfail⟩ fun _ _ => Iff.rfl) (fun h => h)
      (fun _ _ _ => ⟨Iff.rfl, fun _ _ _ => Iff.rfl⟩) hf ⟨rfl, hw.2 hpx⟩

/-! ### The handler and its callback -/

/-- Storing a payment and publishing its result. -/
theorem settle_triple {p : Payment} {e : Event} {amount : ℚ}
    (ha : decimal102 p.amount = some amount)
    (he : Tells p e) : (settlement x).Triple i (Owes x p.id i) (settle p e) fun r w g =>
      (r = .ok () → Idle i w g) ∧
        ((∃ e, r = .error e) → Owes x p.id i w g ∧ p.failureReason = some declinedReason) := by
  refine .bind _ (save_triple ha) (fun _ => ?_) fun e => .throw ?_ fun w g _ hw => ?_
  · refine (publish_triple he).conseq (fun w g _ hw => hw.1 rfl)
      fun r w g _ hw => ⟨fun _ => hw.2, ?_⟩
    rintro ⟨e, rfl⟩
    exact by cases hw.1
  · exact (Protocol.Stable.imp fun _ => written_stable).and (.imp fun _ => owes_stable.and (.const _))
  · exact ⟨fun h => (by cases h), fun _ => hw.2 ⟨e, rfl⟩⟩

/-- The payment that was declined, or could not be written, is written as failed: that does not
fail, so nothing is left to settle. -/
theorem settleOrFail_triple {p : Payment} {e : Event} {correlationId : Option String} {amount : ℚ}
    (ha : decimal102 p.amount = some amount) (he : Tells p e)
    (hp : p.failureReason = some declinedReason → p.externalTransactionId = none) :
    (settlement x).Triple i (Owes x p.id i) (settleOrFail p e correlationId)
      fun _ => Idle i := by
  have hst : (settlement x).Stable i fun w g => Owes x p.id i w g ∧
      p.failureReason = some declinedReason := owes_stable.and (.const _)
  refine .handle _ (settle_triple ha he) (fun err => ?_) fun _ => ?_
  · refine .pre (fun w g _ hw => hw.2 ⟨err, rfl⟩)
      (.assuming (A := p.externalTransactionId = none) (fun w g _ hw => hp hw.2) fun hnone => ?_)
    have htells : Tells (failed p "Payment processing error")
        (.paymentFailed (failedEvent (failed p "Payment processing error") correlationId)) :=
      Or.inr ⟨rfl, hnone, _, rfl, rfl⟩
    refine (settle_triple (p := failed p "Payment processing error") ha htells).conseq
      (fun w g _ hw => hw.1) fun r w g _ hw => ?_
    cases r with
    | ok u => exact hw.1 rfl
    | error e =>
      have hreason : (failed p "Payment processing error").failureReason = some declinedReason :=
        (hw.2 ⟨e, rfl⟩).2
      simp [failed, declinedReason] at hreason
  · exact .ret ((Protocol.Stable.imp fun _ => idle_stable).and (.imp fun _ => hst))
      fun w g _ hw => hw.1 rfl

theorem externalPayment_triple {p : Payment} {correlationId : Option String} (hp : Begun p) :
    (settlement x).Triple i (Owes x p.id i) (externalPayment p correlationId)
      fun _ => Idle i := by
  obtain ⟨-, hnone, hreason, amount, ha⟩ := hp
  have hthrow : ∀ {α : Type} (e : Err), (settlement x).Triple i
      (fun w g => (∃ v : α, (Except.error e : Except Err α) = .ok v) ∧ Owes x p.id i w g)
      (.throw e : Async App Unit) fun _ => Idle i :=
    fun e => .throw ((Protocol.Stable.const _).and owes_stable) fun _ _ _ h => by simp at h
  refine .bind _ (quiet_triple owes_stable rfl fun _ _ => Or.inr ⟨_, rfl⟩) (fun _ => ?_)
    fun e => hthrow e
  refine .pre (fun _ _ _ h => h.2) (.bind _ (quiet_triple owes_stable rfl
    fun _ _ => Or.inr ⟨_, rfl⟩) (fun isSuccess => ?_) fun e => hthrow e)
  refine .pre (fun _ _ _ h => h.2) ?_
  dsimp only
  split
  · refine .bind _ (quiet_triple owes_stable rfl fun _ _ => Or.inr ⟨_, rfl⟩) (fun v => ?_)
      fun e => hthrow e
    refine .pre (fun _ _ _ h => h.2) (settleOrFail_triple (p := completed p _) ha
      (Or.inl ⟨rfl, _, rfl, rfl⟩) fun h => ?_)
    simp [completed, hreason] at h
  · exact settleOrFail_triple (p := failed p _) ha (Or.inr ⟨rfl, hnone, _, rfl, rfl⟩) fun _ => hnone

theorem execute_triple (command : ProcessPaymentCommand) :
    (settlement x).Triple i (Idle i) (ProcessPaymentHandler.execute command) fun _ => Idle i := by
  refine .bind _ (insert_triple rfl) (fun p => ?_) fun e =>
    .throw ?_ fun w g _ hw => hw.2 ⟨e, rfl⟩
  · refine .assuming (A := Begun p) (fun w g _ hw => (hw.1 p rfl).1) fun hp => ?_
    refine .pre (fun w g _ hw => (hw.1 p rfl).2) (.bind _ (setImmediate_triple hp)
      (fun _ => .skip idle_stable) fun e => .fail idle_stable)
  · exact (Protocol.Stable.all fun p => .imp fun _ => (Protocol.Stable.const _).and owes_stable).and
      (.imp fun _ => idle_stable)

/-! ### Soundness -/

/-- **The runs keep to the protocol.** -/
theorem charges_sound :
    (settlement x).Sound NoPayments fun p a => Commands a ∧ Secure p a where
  init := by
    rintro w ⟨hrows, hpub⟩
    have hnone : ∀ p, p ∉ w.payments := fun p h => by simp [← Table.mem_rows, hrows] at h
    refine ⟨none, ⟨fun _ => ⟨rfl, ?_, ?_⟩, fun h => absurd rfl h,
      fun _ p hp => absurd hp (hnone p)⟩,
      fun a h => by cases h⟩
    · simp [World.processed, hpub]
    · simp [World.failed, hpub]
  start := by
    intro p t g ha hI hf
    have hlen : p.tags.length = p.acts.length := by simp [Pool.tags]
    refine ⟨g, hI, fun h => h, fun _ _ => ⟨Iff.rfl, fun _ _ _ => Iff.rfl⟩, fun a h => ?_, ?_⟩
    · have := hf a h
      simp only [List.length_append]
      omega
    · cases t with
      | pay command =>
        -- the duty to settle names an activity that runs already
        intro h
        have := hf _ h
        omega
      | external p c => exact ha.1.elim
  tick := fun p d g _ hI => ⟨⟨hI.unstored, hI.owed, fun hg q hq hid =>
    ⟨(hI.settled hg q hq hid).once, (hI.settled hg q hq hid).processed,
      (hI.settled hg q hq hid).failed, (hI.settled hg q hq hid).uncharged⟩⟩, fun h => h,
    fun _ => ⟨Iff.rfl, fun _ _ _ => Iff.rfl⟩⟩
  canRun := by
    intro p i c t o k g ha hi _
    exact ha.2 o (by simp [Pool.awaits, hi, Async.awaited?])
  body := by
    intro i t w g hb hI
    cases t with
    | pay command =>
      exact Protocol.Triple.bind _ (execute_triple command) (fun _ => .skip idle_stable)
        (fun _ => .fail idle_stable) w g hI hb
    | external p c => exact externalPayment_triple hb.1 w g hI hb.2

end Charges

open Charges

/-- **Once nothing is left to run, every payment is settled**, in every run in which no save of a
callback fails but the first one of a declined payment. -/
theorem payments_settled {p : Pool charges}
    (hp : Pool.Reachable NoPayments (fun p a => Commands a ∧ Secure p a) p) (hq : p.Quiescent) :
    ∀ payment ∈ p.world.payments, p.world.Settled payment := by
  intro payment hmem
  obtain ⟨g, hH⟩ := (charges_sound (x := payment.id)).reachable hp
  refine hH.inv.settled ?_ payment hmem rfl
  by_contra hne
  obtain ⟨i, rfl⟩ := Option.ne_none_iff_exists'.mp hne
  have hlt : i < p.acts.length := by simpa [Pool.tags] using hH.fits i rfl
  obtain ⟨r, hr⟩ := Async.result?_isSome_of_awaited? (hq p.acts[i] (List.getElem_mem hlt))
  exact hH.post (List.getElem?_eq_getElem hlt) hr rfl

/-! ### A save fails -/

/-- Only saves of the callbacks fail. -/
def Charges.SavesFail (p : Pool charges) : Action charges → Prop
  | .run i c => c.fault ≠ none → ∃ o ∈ p.awaits i, o.savedPayment?.isSome = true
  | _ => True

instance Charges.decidableCommands : ∀ a, Decidable (Commands a)
  | .start (.pay _) => isTrue trivial
  | .start (.external _ _) => isFalse id
  | .run _ _ => isTrue trivial
  | .tick _ => isTrue trivial

instance Charges.decidableSecure (p : Pool charges) : ∀ a, Decidable (Secure p a)
  | .start _ => isTrue trivial
  | .run i c => inferInstanceAs (Decidable (∀ o ∈ p.awaits i, o.Secure c))
  | .tick _ => isTrue trivial

instance Charges.decidableSavesFail (p : Pool charges) : ∀ a, Decidable (SavesFail p a)
  | .start _ => isTrue trivial
  | .run i _ => inferInstanceAs (Decidable (_ → ∃ o ∈ p.awaits i, o.savedPayment?.isSome = true))
  | .tick _ => isTrue trivial

/-- A payment is requested, stored and handed over. -/
def chargeOne : List (Action charges) :=
  [.start (.pay ⟨"order-1", "user-1", 10, .creditCard, some "key-1"⟩), .run 0 { text := "payment-1" },
    .run 0 {}]

/-- The save fails. -/
def saveFails : Choice := { fault := some (.refused "connection lost") }

/-- The payment is declined; it is written at the second attempt. -/
def declinedOne : List (Action charges) :=
  chargeOne ++ [.run 1 {}, .run 1 { coin := false }, .run 1 saveFails, .run 1 {}, .run 1 {}]

/-- What this leads to. -/
def declinedCharge : Pool charges :=
  (Pool.play (fun p a => Commands a ∧ Secure p a) ⟨World.empty 0, []⟩ declinedOne).get
    (by decide +kernel)

theorem payments_settled_declined :
    ∃ payment ∈ declinedCharge.world.payments, World.Settled declinedCharge.world payment := by
  have hany : (declinedCharge.world.payments.rows.any fun payment => payment.status = .failed) =
      true := by decide +kernel
  obtain ⟨payment, hp, -⟩ := List.any_eq_true.mp hany
  exact ⟨payment, hp,
    payments_settled (Pool.reachable_of_play ⟨rfl, rfl⟩ _) (by decide +kernel) payment hp⟩

/-- The payment goes through, and is not written at the first attempt. -/
def acceptedOne : List (Action charges) :=
  chargeOne ++ [.run 1 {}, .run 1 {}, .run 1 { text := "1" }, .run 1 saveFails, .run 1 {}, .run 1 {}]

/-- The charge has gone through, and the payment is marked as failed. -/
def acceptedCharge : Pool charges :=
  (Pool.play (fun p a => Commands a ∧ SavesFail p a) ⟨World.empty 0, []⟩ acceptedOne).get
    (by decide +kernel)

/-- **A payment that went through is stored as failed**, under the id of its charge. -/
theorem charged_failed : ∃ p : Pool charges,
    Pool.Reachable NoPayments (fun p a => Commands a ∧ SavesFail p a) p ∧ p.Quiescent ∧
    ∃ payment ∈ p.world.payments, ¬p.world.Settled payment ∧ payment.status = .failed ∧
      payment.externalTransactionId = some "ext_tx_1" := by
  refine ⟨acceptedCharge, Pool.reachable_of_play ⟨rfl, rfl⟩ _, by decide +kernel, ?_⟩
  have hrow : ∃ payment ∈ acceptedCharge.world.payments.rows, payment.status = .failed ∧
      payment.externalTransactionId = some "ext_tx_1" := by
    decide +kernel
  obtain ⟨payment, hmem, hs, hext⟩ := hrow
  refine ⟨payment, Table.mem_rows.mp hmem, fun h => ?_, hs, hext⟩
  rw [h.uncharged hs] at hext
  simp at hext

end CqrsSaga
