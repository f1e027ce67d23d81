import CqrsSaga.App.Payments
import CqrsSaga.App.Rows
import CqrsSaga.Async.Protocol

/-!
# Overlapping refunds

Any number of `RefundPaymentHandler.execute` runs.  Each reads the payment, throws unless it is
completed, and writes it back as refunded.  The status that was read is not looked at again:
only as long as a run finds the payment still completed when it writes is it the one run that
refunds it.

## Main definitions

* `refunds` — the system of any number of runs.
* `World.Refundable x` — a save of the payment `x` finds it completed.
* `refundProtocol x` — what the runs agree on about the payment `x`.

## Main results

* `refunded_once` — **a payment is refunded by one run at most, and announced as refunded once.**
* `refunded_twice` — two runs that both have read the payment both refund it.
-/

namespace CqrsSaga

/-- Any number of runs of the handler. -/
abbrev refunds : System app where
  Tag := RefundPaymentCommand
  Res := Unit
  body := RefundPaymentHandler.execute
  spawned := fun _ => none

/-- The event tells that the payment `x` was refunded. -/
def Event.refunds (x : String) : Event → Bool
  | .paymentRefunded e => decide (e.paymentId = x)
  | _ => false

/-- The payment an operation writes back. -/
def Op.savedPayment? : Op → Option Payment
  | .paymentSave p => some p
  | _ => none

namespace World

/-- The payment `x` is stored with this status. -/
def HasPaymentStatus (w : World) (x : String) (status : PaymentStatus) : Prop :=
  ∃ p ∈ w.payments, p.id = x ∧ p.status = status

instance (w : World) (x : String) (status : PaymentStatus) :
    Decidable (w.HasPaymentStatus x status) :=
  inferInstanceAs (Decidable (∃ p ∈ w.payments.rows, p.id = x ∧ p.status = status))

/-- How many refunds of the payment `x` were published. -/
def refunds (w : World) (x : String) : ℕ := w.published.countP (Event.refunds x)

/-- A save of the payment `x` that does not fail finds it completed. -/
def Refundable (w : World) (x : String) (o : Op) (c : Choice) : Prop :=
  c.fault = none → ∀ p ∈ o.savedPayment?, p.id = x → w.HasPaymentStatus x .completed

instance (w : World) (x : String) (o : Op) (c : Choice) : Decidable (w.Refundable x o c) :=
  inferInstanceAs (Decidable (_ → ∀ p ∈ o.savedPayment?, _))

/-- The status after a save that was carried out. -/
theorem hasPaymentStatus_save {w : World} {x : String} {s : PaymentStatus} {p : Payment}
    (h : (w.savePayment p).2 = .ok ()) : (w.savePayment p).1.HasPaymentStatus x s ↔
      p.id = x ∧ p.status = s ∨ p.id ≠ x ∧ w.HasPaymentStatus x s := by
  rcases savePayment_cases w p with ⟨-, -, he⟩ | ⟨-, amount, -, hmem⟩
  · rw [he] at h
    simp at h
  constructor
  · rintro ⟨y, hy, rfl, rfl⟩
    rcases (hmem y).mp hy with rfl | ⟨hy, hne⟩
    · exact Or.inl ⟨rfl, rfl⟩
    · exact Or.inr ⟨Ne.symm hne, y, hy, rfl, rfl⟩
  · rintro (⟨rfl, rfl⟩ | ⟨hne, y, hy, rfl, rfl⟩)
    · exact ⟨_, (hmem _).mpr (Or.inl rfl), rfl, rfl⟩
    · exact ⟨y, (hmem y).mpr (Or.inr ⟨hy, Ne.symm hne⟩), rfl, rfl⟩

/-- What a save comes to. -/
theorem exec_paymentSave {w w' : World} {i : ℕ} {p : Payment} {c : Choice} {r : Except Err Unit}
    {ts : List Task} (h : w.exec i (.paymentSave p) c = some (w', r, ts)) : ts = [] ∧
      (w' = w ∧ r ≠ .ok () ∨
        c.fault = none ∧ r = .ok () ∧ (w.savePayment p).2 = .ok () ∧ w' = (w.savePayment p).1) := by
  refine ⟨exec_tasks h rfl, ?_⟩
  rcases exec_cases_of_not_redis h rfl with ⟨hc, hp⟩ | ⟨m, -, rfl, rfl, -⟩
  · simp only [perform, Option.some.injEq, Prod.mk.injEq] at hp
    obtain ⟨rfl, rfl, -⟩ := hp
    rcases savePayment_cases w p with ⟨hw, -, he⟩ | ⟨hok, -⟩
    · exact Or.inl ⟨hw, by simp [he]⟩
    · exact Or.inr ⟨hc, hok, hok, rfl⟩
  · exact Or.inl ⟨rfl, fun h => by cases h⟩

theorem refunds_save (w : World) (p : Payment) (x : String) :
    (w.savePayment p).1.refunds x = w.refunds x := by
  obtain ⟨t, ht⟩ := savePayment_only w p
  rw [ht]
  rfl

end World

namespace Refunds

/-- A save of the payment `x` finds it completed. -/
def Serial (x : String) (p : Pool refunds) : Action refunds → Prop
  | .run i c => ∀ o ∈ p.awaits i, p.world.Refundable x o c
  | _ => True

/-- No refund of the payment `x` was published. -/
def Unannounced (x : String) (w : World) : Prop := w.refunds x = 0

/-- Activity `i` has refunded the payment `x`: it was asked to, and has returned. -/
def Refunded (x : String) (p : Pool refunds) (i : ℕ) : Prop :=
  ∃ a ∈ p.acts[i]?, a.tag.paymentId = x ∧ a.prog.returned = true

instance (x : String) (p : Pool refunds) (i : ℕ) : Decidable (Refunded x p i) :=
  inferInstanceAs (Decidable (∃ a ∈ p.acts[i]?, _))

/-- Who has written the payment as refunded, and whether that was published. -/
structure Mark where
  winner : Option ℕ
  told : Bool

/-- The invariant. -/
structure Inv (x : String) (w : World) (g : Mark) : Prop where
  count : w.refunds x = if g.told then 1 else 0
  told : g.told = true → g.winner ≠ none
  completed : w.HasPaymentStatus x .completed → g.winner = none

/-- What the runs agree on about the payment `x`. -/
def refundProtocol (x : String) : Protocol refunds where
  Ghost := Mark
  Inv := Inv x
  Mono := fun _ g _ g' => ∀ i, g.winner = some i → g'.winner = some i
  Keep := fun i _ g _ g' => (g.winner = some i ↔ g'.winner = some i) ∧
    (g.winner = some i → g'.told = g.told)
  CanRun := fun w _ _ o c => w.Refundable x o c
  Assert := fun _ _ _ _ => True
  Fits := fun g l => ∀ a, g.winner = some a → a < l.length
  Born := fun i _ _ g => g.winner ≠ some i
  Post := fun i t r _ g => r = .ok () → t.paymentId = x → g.winner = some i
  mono_refl := fun _ _ _ h => h
  mono_trans := fun h h' i hi => h' i (h i hi)
  keep_refl := fun _ _ _ => ⟨Iff.rfl, fun _ => rfl⟩
  keep_trans := fun h h' =>
    ⟨h.1.trans h'.1, fun hi => (h'.2 (h.1.mp hi)).trans (h.2 hi)⟩

variable {x y : String} {i : ℕ}

/-- Activity `i` has not refunded anything. -/
def Idle (i : ℕ) (_ : World) (g : Mark) : Prop := g.winner ≠ some i

/-- Activity `i` has written the payment `y` as refunded, and has yet to publish it. -/
def Owes (x y : String) (i : ℕ) (_ : World) (g : Mark) : Prop :=
  (y = x → g.winner = some i ∧ g.told = false) ∧ (y ≠ x → g.winner ≠ some i)

/-- Activity `i` has refunded the payment `y`. -/
def Done (x y : String) (i : ℕ) (_ : World) (g : Mark) : Prop := y = x → g.winner = some i

theorem idle_stable : (refundProtocol x).Stable i (Idle i) :=
  fun _ _ _ _ _ hk _ h hg => h (hk.1.mpr hg)

theorem owes_stable : (refundProtocol x).Stable i (Owes x y i) := by
  intro w g w' g' hm hk _ h
  refine ⟨fun hyx => ?_, fun hyx hg => h.2 hyx (hk.1.mpr hg)⟩
  obtain ⟨hw, ht⟩ := h.1 hyx
  exact ⟨hm i hw, (hk.2 hw).trans ht⟩

theorem done_stable : (refundProtocol x).Stable i (Done x y i) :=
  fun _ _ _ _ hm _ _ h hyx => hm i (h hyx)

/-! ### The operations -/

/-- Reading a payment by its id. -/
theorem findOne_triple : (refundProtocol x).Triple i (Idle i) (paymentRepository.findOne
    { id := some y }) fun r w g => Idle i w g ∧ ∀ p, r = .ok (some p) → p.id = y := by
  refine .perform idle_stable (fun r => idle_stable.and (.const _)) fun w g hI hw => ⟨trivial, ?_⟩
  intro c w' r ts _ he l _ hf
  obtain ⟨rfl, rfl, rfl | ⟨m, rfl⟩⟩ := World.exec_query he rfl rfl
  · refine .refl hI hf ⟨hw, fun p hp => ?_⟩
    exact PaymentWhere.selects_id (Table.find?_some (Except.ok.inj hp)) rfl
  · exact .refl hI hf ⟨hw, fun p hp => by simp at hp⟩

/-- What the save of a refunded payment leads to. -/
def Saved (x y : String) (i : ℕ) (r : Except Err Unit) (w : World) (g : Mark) : Prop :=
  r = .ok () ∧ Owes x y i w g ∨ r ≠ .ok () ∧ Idle i w g

theorem saved_stable (r : Except Err Unit) : (refundProtocol x).Stable i (Saved x y i r) := by
  rintro w g w' g' hm hk hI (⟨hr, h⟩ | ⟨hr, h⟩)
  · exact Or.inl ⟨hr, owes_stable hm hk hI h⟩
  · exact Or.inr ⟨hr, idle_stable hm hk hI h⟩

/-- Writing a payment as refunded: it was completed, so nobody else has. -/
theorem save_triple {p : Payment} (hid : p.id = y) (hs : p.status = .refunded) :
    (refundProtocol x).Triple i (Idle i) (paymentRepository.save p) (Saved x y i) := by
  refine .perform idle_stable saved_stable fun w g hI hw => ⟨trivial, ?_⟩
  intro c w' r ts hserial he l hl hf
  obtain ⟨rfl, ⟨rfl, hr⟩ | ⟨hc, rfl, hok, rfl⟩⟩ := World.exec_paymentSave he
  · exact .refl hI hf (Or.inr ⟨hr, hw⟩)
  have hstatus : ∀ s, (w.savePayment p).1.HasPaymentStatus x s ↔ _ :=
    fun s => World.hasPaymentStatus_save hok
  by_cases hyx : y = x
  · -- activity `i` is the one that refunds the payment
    have hnone := hI.completed (hserial hc p rfl (hid.trans hyx))
    have htold : g.told = false := by
      by_contra h
      exact hI.told (by simpa using h) hnone
    have hkeep : ∀ j, j ≠ i → (g.winner = some j ↔ some i = some j) := by
      intro j hj
      rw [hnone]
      simp [Ne.symm hj]
    refine .quiet rfl ⟨some i, false⟩ ⟨?_, by simp, ?_⟩ ?_ ?_ ?_
      (Or.inl ⟨rfl, fun _ => ⟨rfl, rfl⟩, fun h => absurd hyx h⟩)
    · rw [World.refunds_save, hI.count, htold]
    · rw [hstatus]
      rintro (⟨-, h⟩ | ⟨hne, -⟩)
      · rw [hs] at h
        simp at h
      · exact absurd (hid.trans hyx) hne
    · intro j hj
      rw [hnone] at hj
      simp at hj
    · exact fun j _ hj => ⟨hkeep j hj, fun h => by rw [hnone] at h; simp at h⟩
    · intro a ha
      rw [← Option.some.inj ha]
      exact hl
  · have hne : p.id ≠ x := hid ▸ hyx
    refine .quiet rfl g ⟨?_, hI.told, ?_⟩ (fun _ h => h) (fun _ _ _ => ⟨Iff.rfl, fun _ => rfl⟩) hf
      (Or.inl ⟨rfl, fun h => absurd h hyx, fun _ => hw⟩)
    · rw [World.refunds_save, hI.count]
    · rw [hstatus]
      rintro (⟨h, -⟩ | ⟨-, h⟩)
      · exact absurd h hne
      · exact hI.completed h

/-- The refund is published. -/
theorem publish_triple {e : PaymentRefundedEvent} (he : e.paymentId = y) :
    (refundProtocol x).Triple i (Owes x y i) (eventBus.publish (.paymentRefunded e))
      fun _ => Done x y i := by
  refine .perform owes_stable (fun _ => done_stable) fun w g hI hw => ⟨trivial, ?_⟩
  intro c w' r ts _ hexec l hl hf
  obtain ⟨hp, -⟩ := World.exec_local hexec rfl
  simp only [World.perform, Option.some.injEq, Prod.mk.injEq] at hp
  obtain ⟨rfl, -, rfl⟩ := hp
  have hts : ∀ ts : List Task, ts.filterMap refunds.spawned = [] :=
    fun ts => List.filterMap_eq_nil_iff.mpr fun _ _ => rfl
  have hcount : World.refunds { w with published := w.published ++ [.paymentRefunded e] } x =
      w.refunds x + if y = x then 1 else 0 := by
    simp [World.refunds, List.countP_append, List.countP_cons, Event.refunds, he]
  by_cases hyx : y = x
  · obtain ⟨hwin, htold⟩ := hw.1 hyx
    refine .quiet (hts _) ⟨g.winner, true⟩ ⟨?_, fun _ => by simp [hwin], hI.completed⟩
      (fun _ h => h)
      ?_ hf fun _ => hwin
    · rw [hcount, hI.count, htold, if_pos hyx]
      rfl
    · intro j _ hj
      refine ⟨Iff.rfl, fun h => ?_⟩
      exact absurd (Option.some.inj (h.symm.trans hwin)) hj
  · refine .quiet (hts _) g ⟨?_, hI.told, hI.completed⟩ (fun _ h => h)
      (fun _ _ _ => ⟨Iff.rfl, fun _ => rfl⟩) hf fun h => absurd h hyx
    rw [hcount, hI.count, if_neg hyx, Nat.add_zero]

/-! ### The handler -/

theorem execute_triple (command : RefundPaymentCommand) :
    (refundProtocol x).Triple i (Idle i) (RefundPaymentHandler.execute command)
      fun r w g => r = .ok () → Done x command.paymentId i w g := by
  refine .bind _ findOne_triple (fun v => ?_) fun e =>
    .throw (idle_stable.and (.const _)) fun _ _ _ _ h => nomatch h
  cases v with
  | none => exact .throw (idle_stable.and (.const _)) fun _ _ _ _ h => nomatch h
  | some p =>
    refine .assuming (fun _ _ _ h => h.2 p rfl) fun hid => .pre (F := Idle i)
      (fun _ _ _ h => h.1) ?_
    dsimp only
    split
    · exact .throw idle_stable fun _ _ _ _ h => nomatch h
    · refine .bind _ (save_triple hid rfl) (fun _ => ?_) fun e =>
        .throw (saved_stable _) fun _ _ _ _ h => nomatch h
      refine (publish_triple rfl).conseq ?_ fun _ _ _ _ h _ => h
      rintro w g - (⟨-, h⟩ | ⟨h, -⟩)
      · exact h
      · exact absurd rfl h

/-! ### Soundness -/

/-- **The runs keep to the protocol.** -/
theorem refunds_sound : (refundProtocol x).Sound (Unannounced x) (Serial x) where
  init := fun w hw => ⟨⟨none, false⟩, ⟨hw, fun h => by simp at h, fun _ => rfl⟩,
    fun a ha => by simp at ha⟩
  start := by
    intro p t g _ hI hf
    have hlen : p.tags.length = p.acts.length := by simp [Pool.tags]
    refine ⟨g, hI, fun _ h => h, fun _ _ => ⟨Iff.rfl, fun _ => rfl⟩, fun a h => ?_, fun h => ?_⟩
    · have := hf a h
      simp only [List.length_append]
      omega
    · have := hf _ h
      omega
  tick := fun p d g _ hI =>
    ⟨⟨hI.count, hI.told, hI.completed⟩, fun _ h => h, fun _ => ⟨Iff.rfl, fun _ => rfl⟩⟩
  canRun := by
    intro p i c t o k g ha hi _
    exact ha o (by simp [Pool.awaits, hi, Async.awaited?])
  body := by
    intro i t w g hb hI
    exact ((execute_triple t).post fun r w g _ h hr => h hr) w g hI hb

end Refunds

open Refunds

/-- **A payment is refunded by one run at most, and announced as refunded once**, in every run in
which a save of the payment finds it still completed. -/
theorem refunded_once {x : String} {p : Pool refunds}
    (hp : Pool.Reachable (Unannounced x) (Serial x) p) :
    (∀ i j, Refunded x p i → Refunded x p j → i = j) ∧ p.world.refunds x ≤ 1 := by
  obtain ⟨g, hH⟩ := refunds_sound.reachable hp
  refine ⟨?_, ?_⟩
  · rintro i j ⟨a, hi, ha, hra⟩ ⟨b, hj, hb, hrb⟩
    obtain ⟨u, hu⟩ := Async.result?_of_returned hra
    obtain ⟨v, hv⟩ := Async.result?_of_returned hrb
    have hwi : g.winner = some i := hH.post hi hu rfl ha
    have hwj : g.winner = some j := hH.post hj hv rfl hb
    exact Option.some.inj (hwi.symm.trans hwj)
  · rw [hH.inv.count]
    split <;> omega

/-! ### Two refunds overlap -/

instance Refunds.decidableSerial (x : String) (p : Pool refunds) : ∀ a, Decidable (Serial x p a)
  | .start _ => isTrue trivial
  | .run i c => inferInstanceAs (Decidable (∀ o ∈ p.awaits i, p.world.Refundable x o c))
  | .tick _ => isTrue trivial

/-- One completed payment is stored, and nothing has happened to it. -/
def onePaymentStored : World :=
  (World.savePayment (World.empty 0)
    ⟨⟨"order-1", "user-1", 10, .creditCard, .completed⟩, "payment-1", some "ext_tx_1", none⟩).1

theorem onePaymentStored_unannounced : Unannounced "payment-1" onePaymentStored :=
  World.refunds_save (World.empty 0) _ _

/-- The payment is to be refunded. -/
def refundOne : Action refunds := .start ⟨"payment-1", "broken", none⟩

/-- One refund is asked for after the other. -/
def refundsInTurn : List (Action refunds) :=
  refundOne :: List.replicate 3 (.run 0 {}) ++ [refundOne, .run 1 {}]

theorem refundsInTurn_played :
    (Pool.play (Serial "payment-1") ⟨onePaymentStored, []⟩ refundsInTurn).isSome := by
  decide +kernel

theorem refunded_once_inTurn :
    let p := (Pool.play _ ⟨onePaymentStored, []⟩ refundsInTurn).get refundsInTurn_played
    (∀ i j, Refunded "payment-1" p i → Refunded "payment-1" p j → i = j) ∧
      p.world.refunds "payment-1" ≤ 1 :=
  refunded_once (Pool.reachable_of_play onePaymentStored_unannounced refundsInTurn_played)

/-- Both runs read the payment before either writes it. -/
def refundsMeanwhile : List (Action refunds) :=
  [refundOne, refundOne, .run 0 {}, .run 1 {}, .run 0 {}, .run 1 {}, .run 0 {}, .run 1 {}]

theorem refundsMeanwhile_played :
    (Pool.play (fun _ _ => True) ⟨onePaymentStored, []⟩ refundsMeanwhile).isSome := by
  decide +kernel

/-- **Both runs refund the payment, and announce it.** -/
theorem refunded_twice : ∃ p : Pool refunds,
    Pool.Reachable (Unannounced "payment-1") (fun _ _ => True) p ∧
    Refunded "payment-1" p 0 ∧ Refunded "payment-1" p 1 ∧ p.world.refunds "payment-1" = 2 :=
  ⟨(Pool.play _ ⟨onePaymentStored, []⟩ refundsMeanwhile).get refundsMeanwhile_played,
    Pool.reachable_of_play onePaymentStored_unannounced refundsMeanwhile_played,
    by decide +kernel, by decide +kernel, by decide +kernel⟩

end CqrsSaga
