import CqrsSaga.App.Frame
import CqrsSaga.App.Vocabulary

/-!
# Callbacks return

Nobody awaits a callback of `setImmediate`.  One that is rejected leaves a rejection that nobody
handles, and that ends the process.  There are three kinds: events are published, which cannot fail;
the result of a payment is stored, which fails only where the database does, as the amount fits the
column it was inserted into; and a message is sent that tells of the start of a saga, of a step or
of its completion.  So the process goes on unless one of these sends, or the save of a payment,
fails.

## Main definitions

* `Op.sustains` — the operations that are not to fail.
* `Undisturbed` — the restriction on runs: none of these does.

## Main results

* `callbacks_return` — **then no callback is rejected.**
-/

namespace CqrsSaga

/-- The operation, if it fails, may end the process: a payment is saved, or a message is sent that
callbacks send. -/
def Op.sustains : Op → Bool
  | .paymentSave _ => true
  | .kafkaSend _ _ message => message.isAside
  | _ => false

/-- The amount of the payment fits its column. -/
def Payment.Fitting (p : Payment) : Prop := ∃ amount, decimal102 p.amount = some amount

/-- The callback can return. -/
def Task.Fitting : Task → Prop
  | .externalPayment payment _ => payment.Fitting
  | .publishSagaEvent message => message.isAside = true
  | _ => True

/-- What the operation hands over can return. -/
def Op.Fitting : Op → Prop
  | .setImmediate task => task.Fitting
  | _ => True

/-- What is known of an answer where nothing fails that may end the process. -/
def Op.Heard : (o : Op) → Except Err (Op.Val o) → Prop
  | .paymentInsert _, r => ∀ payment, r = .ok payment → payment.Fitting
  | .paymentSave payment, r => payment.Fitting → ∃ v, r = .ok v
  | .kafkaSend _ _ message, r => message.isAside = true → ∃ v, r = .ok v
  | o, r => o.isLocal = true → ∃ v, r = .ok v

namespace Callbacks

variable {w w' : World} {i : ℕ} {o : Op} {c : Choice} {r : Except Err (Op.Val o)} {ts : List Task}

/-- **One operation is answered so.** -/
theorem heard (he : w.exec i o c = some (w', r, ts)) (hc : o.sustains = true → c.fault = none) :
    o.Heard r := by
  cases o with
  | paymentInsert n =>
    rintro payment rfl
    rcases World.exec_cases_of_not_redis he rfl with ⟨-, hp⟩ | ⟨m, -, -, hr, -⟩
    · obtain ⟨hins, -⟩ := World.perform_paymentInsert hp
      rcases World.insertPayment_cases hins with ⟨-, hv⟩ | ⟨amount, hamount, hv, -⟩
      · cases hv
      · cases hv
        exact ⟨amount, hamount⟩
    · cases hr
  | paymentSave payment =>
    rintro ⟨amount, hamount⟩
    have hp := (World.exec_eq_perform (hc rfl)).symm.trans he
    rcases World.savePayment_cases w payment with ⟨-, hnone, -⟩ | ⟨hok, -⟩
    · rw [hamount] at hnone
      cases hnone
    · exact ⟨(), (congrArg (fun x => x.2.1) (Option.some.inj hp)).symm.trans hok⟩
  | kafkaSend topic key message =>
    intro hm
    have hp := (World.exec_eq_perform (hc (by simp [Op.sustains, hm]))).symm.trans he
    exact ⟨(), (congrArg (fun x => x.2.1) (Option.some.inj hp)).symm⟩
  | _ => exact fun hl => (World.exec_local he hl).2

/-- What it hands over can return. -/
theorem started (he : w.exec i o c = some (w', r, ts)) (ho : o.Fitting) : ∀ t ∈ ts, t.Fitting := by
  refine World.exec_starts he ?_ ?_
  · rintro task rfl
    exact ho
  · rintro events rfl d -
    exact trivial

variable [Hashes]

theorem lenient : Lenient Op.Fitting where
  common o h := by
    cases o with
    | setImmediate task =>
      obtain ⟨message, rfl, hm⟩ := h
      exact hm
    | _ => exact trivial
  orderSave _ := trivial
  paymentSave _ := trivial
  announce events he := by
    obtain ⟨e, f, rfl, -⟩ := he
    exact trivial
  report _ _ _ _ := trivial

/-- The payment that is handed to the payment system has been inserted. -/
theorem paymentAction_along (saga : SagaInstance) (e : OrderCreatedEvent) :
    (OrderProcessingSaga.paymentAction saga e).Along Op.Fitting Op.Heard fun _ => True := by
  refine .seq (.bind (fun r => ∀ payment, r = .ok payment → payment.Fitting)
    (call_told trivial fun _ h => h) (fun payment hp => ?_) fun _ _ => trivial)
    fun _ => call_along trivial
  exact .seq (call_along (hp payment rfl)) fun _ => trivial

theorem handleOrderCreated_along (e : OrderCreatedEvent) :
    (OrderProcessingSaga.handleOrderCreated e).Along Op.Fitting Op.Heard fun _ => True :=
  CqrsSaga.handleOrderCreated_along (.of_common lenient.common)
    (fun _ _ => .of_common lenient.common (fun _ => trivial) fun _ _ => trivial)
    fun saga _ => paymentAction_along saga e

omit [Hashes] in
theorem settleOrFail_along (payment : Payment) (hp : payment.Fitting) (e : Event)
    (c : Option String) : (ProcessPaymentHandler.settleOrFail payment e c).Along Op.Fitting Op.Heard
      fun r => ∃ v, r = .ok v := by
  refine .handle (fun r => ∃ v, r = .ok v) (.returning (call_told trivial fun _ h => h hp)
    fun _ => call_told trivial fun _ h => h rfl) (fun e he => ?_) fun _ h => h
  obtain ⟨v, hv⟩ := he
  cases hv

omit [Hashes] in
/-- **The result of a payment that fits is stored and published.** -/
theorem externalPayment_along {payment : Payment} (hp : payment.Fitting) (c : Option String) :
    (ProcessPaymentHandler.externalPayment payment c).Along Op.Fitting Op.Heard
      fun r => ∃ v, r = .ok v := by
  refine .returning (call_told trivial fun _ h => h rfl) fun _ =>
    .returning (call_told trivial fun _ h => h rfl) fun success => ?_
  cases success with
  | true =>
    exact .returning (call_told trivial fun _ h => h rfl) fun _ =>
      settleOrFail_along (ProcessPaymentHandler.completed payment _) hp _ c
  | false => exact settleOrFail_along (ProcessPaymentHandler.failed payment _) hp _ c

/-- A request, or the delivery of an event, hands over only what can return. -/
theorem attended_along {t : Job} (ht : t.detached = false) :
    t.run.Along Op.Fitting Op.Heard fun _ => True := by
  cases t with
  | request r =>
    cases r with
    | createOrder dto userId | createTestOrder dto userId =>
      exact .seq (placeOrder_along (L := fun _ => True) trivial trivial (fun _ _ => trivial)
        fun _ _ => trivial) fun _ => trivial
    | _ =>
      exact .of_only (lenient.request (fun _ _ hr => by rcases hr with hr | hr <;> cases hr)
        fun _ _ _ _ _ _ => trivial) fun _ => trivial
  | task u =>
    cases u with
    | deliver d =>
      have hstore : ∀ topic aggregateId aggregateType eventType eventData e,
          (storeAndPublish topic aggregateId aggregateType eventType eventData e).Along Op.Fitting
            Op.Heard fun _ => True :=
        fun _ _ _ _ _ _ => .seq (call_along trivial) fun _ => call_along trivial
      refine .seq ?_ fun _ => trivial
      cases d with
      | orderCreatedHandler e => exact .seq (hstore ..) fun _ => handleOrderCreated_along e
      | paymentProcessedSagaHandler e =>
        exact .of_only (lenient.handlePaymentProcessed e) fun _ => trivial
      | paymentFailedSagaHandler e =>
        exact .of_only (lenient.handlePaymentFailed e) fun _ => trivial
      | _ => exact hstore ..
    | _ => cases ht

/-- **A callback that can return does.** -/
theorem detached_along {u : Task} (ht : u.detached = true) (hu : u.Fitting) :
    (Job.task u).run.Along Op.Fitting Op.Heard fun r => ∃ v, r = .ok v := by
  refine .returning ?_ fun _ => ⟨_, rfl⟩
  cases u with
  | publishAll events => exact call_told trivial fun _ h => h rfl
  | publishSagaEvent message => exact call_told trivial fun _ h => h hu
  | externalPayment payment c => exact externalPayment_along hu c
  | deliver d => cases ht

/-- What activities are started as, what they do, and that callbacks return. -/
def returns : Outlook application where
  Before := fun _ _ => True
  Born := fun _ t => ∀ u, t = .task u → u.Fitting
  Does := fun _ _ _ o => o.Fitting
  Told := fun _ _ _ o r => o.Heard r
  Ends := fun _ t r => t.detached = true → ∃ v, r = .ok v
  trans := fun _ _ => trivial
  body := by
    intro W t ht i
    cases hd : t.detached with
    | false => exact (attended_along hd).post fun _ _ h => absurd h (by simp)
    | true =>
      cases t with
      | request r => cases hd
      | task u => exact (detached_along hd (ht u rfl)).post fun _ h _ => h

end Callbacks

/-- No save of a payment fails, and no send of a message that callbacks send. -/
def Undisturbed [Hashes] (p : Pool application) : Action application → Prop
  | .run i c => ∀ o ∈ p.awaits i, o.sustains = true → c.fault = none
  | _ => True

instance Undisturbed.decidable [Hashes] (p : Pool application) : ∀ a, Decidable (Undisturbed p a)
  | .start _ => isTrue trivial
  | .run i c =>
    inferInstanceAs (Decidable (∀ o ∈ p.awaits i, o.sustains = true → c.fault = none))
  | .tick _ => isTrue trivial

open Callbacks in
/-- **No callback is rejected**, unless the save of a payment or the send of a message that callbacks
send fails. -/
theorem callbacks_return [Hashes] {init : World → Prop} {p : Pool application}
    (hp : Pool.Reachable init (fun p a => Served p a ∧ Undisturbed p a) p) :
    ¬Crashed p := by
  have happroves : returns.Approves p.world p := by
    refine returns.reachable (fun _ => trivial) ?_ (fun _ _ => trivial) ?_ hp _ trivial
    · rintro p t ⟨ht, -⟩ - u rfl
      exact ht.elim
    · intro p _ i t o k c w r ts ha hi _ he
      refine ⟨trivial, fun W _ => ⟨heard he (ha.2 o (Pool.awaits_eq_some.mpr ⟨t, k, hi⟩)), ?_⟩⟩
      rintro ho t' ht' u rfl
      obtain ⟨v, hv, hvu⟩ := List.mem_filterMap.mp ht'
      cases hvu
      exact started he ho u hv
  rintro ⟨a, ha, hd, e, he⟩
  obtain ⟨i, hi⟩ := List.mem_iff_getElem?.mp ha
  obtain ⟨v, hv⟩ := (happroves i a hi).2.result he hd
  cases hv

end CqrsSaga
