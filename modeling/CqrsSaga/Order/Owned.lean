import CqrsSaga.App.Queries
import CqrsSaga.App.Specs
import CqrsSaga.App.Vocabulary

/-!
# Whose orders a user moves

The requests of one user to `OrderController`, with everything they set off: deliveries, sagas,
payments.  A cancellation looks the order up under the user's id, and the saga of an order confirms
or cancels the order it was started for.  A confirmation by request looks the order up by its id
alone; so long as what it finds is the user's own, or not pending, no other order is written.

## Main definitions

* `UserRequest`, `endpoints` — the requests of a user, and the system of all they set off.
* `Confirming` — the runs in which a confirmation finds no pending order of another user.
* `ownership` — what the activities do to orders, in the light of a later world.

## Main results

* `others_untouched` — **no order of another user is written.**
* `other_confirmed` — a user confirms the order of another.
-/

namespace CqrsSaga

open SagaManager KafkaService OrderProcessingSaga

/-- A request of a user to `OrderController`. -/
inductive UserRequest
  | createOrder (dto : CreateOrderDto)
  | createTestOrder (dto : CreateOrderDto)
  | getMyOrders (page limit : ℤ) (status : Option OrderStatus)
  | getOrderById (id : String)
  | cancelOrder (id : String) (reason : Option String)
  | confirmOrder (id : String) (paymentId : Option String)

/-- A request of the user is served, or work it has set off is done. -/
inductive UserJob
  | request (r : UserRequest)
  | task (t : Task)

/-- What the user is answered. -/
inductive UserAnswer
  | order (response : OrderResponseDto)
  | orders (response : OrderListDto)
  | done

section Endpoints

variable [Hashes]

/-- The controller method of a request of the user `u`. -/
def UserRequest.run (u : String) : UserRequest → Async App UserAnswer
  | createOrder dto => .order <$> OrderController.createOrder dto u
  | createTestOrder dto => .order <$> OrderController.createTestOrder dto u
  | getMyOrders page limit status => .orders <$> OrderController.getMyOrders u page limit status
  | getOrderById id => .order <$> OrderController.getOrderById id u
  | cancelOrder id reason => (fun _ => .done) <$> OrderController.cancelOrder id u reason
  | confirmOrder id paymentId => (fun _ => .done) <$> OrderController.confirmOrder id paymentId

/-- The program of an activity on behalf of the user `u`. -/
def UserJob.run (u : String) : UserJob → Async App UserAnswer
  | request r => r.run u
  | task t => (fun _ => .done) <$> t.run

/-- The requests of the user `u`, and what they set off. -/
abbrev endpoints (u : String) : System app where
  Tag := UserJob
  Res := UserAnswer
  body := UserJob.run u
  spawned := fun t => some (.task t)

end Endpoints

/-- The activity confirms an order by request. -/
def UserJob.Confirms : UserJob → Prop
  | .request (.confirmOrder _ _) => True
  | _ => False

/-! ### Who owns an order -/

namespace World

/-- The order `x` is stored as the user's. -/
def OwnedBy (w : World) (u x : String) : Prop := ∃ o ∈ w.orders, o.id = x ∧ o.userId = u

/-- Orders stay stored, each under its user. -/
def KeepsOwners (w w' : World) : Prop :=
  ∀ o ∈ w.orders, w'.OwnedBy o.userId o.id

variable {w w' : World} {u u' x : String}

theorem KeepsOwners.refl (w : World) : w.KeepsOwners w := fun o ho => ⟨o, ho, rfl, rfl⟩

theorem KeepsOwners.ownedBy (h : w.KeepsOwners w') (hx : w.OwnedBy u x) : w'.OwnedBy u x := by
  obtain ⟨o, ho, rfl, rfl⟩ := hx
  exact h o ho

theorem KeepsOwners.trans {w'' : World} (h : w.KeepsOwners w') (h' : w'.KeepsOwners w'') :
    w.KeepsOwners w'' :=
  fun o ho => h'.ownedBy (h o ho)

theorem KeepsOwners.of_eq (h : w'.orders = w.orders) : w.KeepsOwners w' :=
  fun o ho => ⟨o, h ▸ ho, rfl, rfl⟩

/-- An order has one owner. -/
theorem OwnedBy.unique (h : w.OwnedBy u x) (h' : w.OwnedBy u' x) : u = u' := by
  obtain ⟨o, ho, rfl, rfl⟩ := h
  obtain ⟨o', ho', hid, rfl⟩ := h'
  rw [Table.eq_of_pk ho ho' hid.symm]

/-- **A save of an order of the user's leaves all others.** -/
theorem saveOrder_others {y : Order} (hy : w.OwnedBy u y.id) {o : Order} (ho : o ∈ w.orders)
    (hne : o.userId ≠ u) : o ∈ (w.saveOrder y).1.orders := by
  rcases saveOrder_cases w y with ⟨hsame, -⟩ | ⟨-, amount, -, hmem⟩
  · rwa [hsame]
  · refine (hmem o).mpr (Or.inr ⟨ho, fun hid => hne ?_⟩)
    exact OwnedBy.unique ⟨o, ho, hid, rfl⟩ hy

theorem saveOrder_keepsOwners {y : Order} (hy : w.OwnedBy y.userId y.id) :
    w.KeepsOwners (w.saveOrder y).1 := by
  intro o ho
  rcases saveOrder_cases w y with ⟨hsame, -⟩ | ⟨-, amount, -, hmem⟩
  · rw [hsame]
    exact ⟨o, ho, rfl, rfl⟩
  · by_cases hid : o.id = y.id
    · refine ⟨_, (hmem _).mpr (Or.inl rfl), hid.symm, ?_⟩
      exact OwnedBy.unique hy ⟨o, ho, hid, rfl⟩
    · exact ⟨o, (hmem o).mpr (Or.inr ⟨ho, hid⟩), rfl, rfl⟩

end World

/-! ### What is done on behalf of a user -/

/-- The event is about an order of the user's, or sets nothing off. -/
def Event.OnBehalf (u : String) (W : World) : Event → Prop
  | .orderCreated e => W.OwnedBy u e.orderId ∧ e.userId = u
  | .paymentProcessed e => W.OwnedBy u e.orderId
  | .paymentFailed e => e.userId = u
  | _ => True

/-- The task was set off by the user. -/
def Task.OnBehalf (u : String) (W : World) : Task → Prop
  | .publishAll events => ∀ e ∈ events, e.OnBehalf u W
  | .publishSagaEvent _ => True
  | .externalPayment payment _ => W.OwnedBy u payment.orderId ∧ payment.userId = u
  | .deliver d => d.event.OnBehalf u W

/-- An order that is written is the user's, and so is what is handed over. -/
def Op.OnBehalf (u : String) (W : World) : Op → Prop
  | .orderInsert n => n.userId = u
  | .orderSave y => y.userId = u ∧ W.OwnedBy u y.id
  | .publishAll events => ∀ e ∈ events, e.OnBehalf u W
  | .setImmediate task => task.OnBehalf u W
  | _ => True

/-- What an activity knows of an answer: an order that was read is stored under its user, and what a
confirmation by request has found is the user's own or not pending. -/
def UserJob.Told (u : String) (W : World) (t : UserJob) : (o : Op) → Except Err (Op.Val o) → Prop
  | .orderFindOne q, .ok (some y) => W.OwnedBy y.userId y.id ∧ q.selects y = true ∧
    (t.Confirms → y.userId = u ∨ y.status ≠ .pending)
  | .orderInsert n, .ok y => W.OwnedBy n.userId y.id ∧ y.userId = n.userId
  | .paymentInsert n, .ok p => p.orderId = n.orderId ∧ p.userId = n.userId
  | _, _ => True

namespace Ownership

variable {u : String} {W W' : World} {t : UserJob}

/-! ### The programs -/

theorem announcement_onBehalf {events : List Event} (h : Announcement events) :
    ∀ e ∈ events, e.OnBehalf u W := by
  obtain ⟨e, f, rfl, ⟨g, rfl⟩ | ⟨g, rfl⟩⟩ := h <;> simp [Event.OnBehalf]

theorem inward_onBehalf {o : Op} (h : o.Inward) : o.OnBehalf u W := by
  obtain ⟨hl, hs⟩ := h
  cases o <;> simp [Op.isLocal] at hl <;> simp [Op.starts] at hs <;> exact trivial

/-- A cancellation under the user's id. -/
theorem cancel_along {command : CancelOrderCommand} (hu : command.userId = u) :
    (CancelOrderHandler.execute command).Along (Op.OnBehalf u W) (t.Told u W) fun _ => True := by
  refine cancelOrder_along (L := fun y => y.userId = u ∧ W.OwnedBy u y.id)
    (fun _ => inward_onBehalf) trivial ?_ (fun y hy => hy) fun _ _ _ h _ => announcement_onBehalf h
  intro y hr
  obtain ⟨hy, hsel, -⟩ := hr
  have huser : y.userId = u := (OrderWhere.selects_userId hsel rfl).trans hu
  exact ⟨huser, huser ▸ hy⟩

/-- A confirmation of an order of the user's, or one that finds no pending order of another's. -/
theorem confirm_along {command : ConfirmOrderCommand}
    (h : t.Confirms ∨ W.OwnedBy u command.orderId) :
    (ConfirmOrderHandler.execute command).Along (Op.OnBehalf u W) (t.Told u W) fun _ => True := by
  refine confirmOrder_along
    (L := fun y => y.userId = u ∧ W.OwnedBy u y.id ∨ y.status ≠ .pending)
    (fun _ => inward_onBehalf) trivial ?_ (fun y hy hp => ?_)
    fun _ _ _ h _ => announcement_onBehalf h
  · intro y hr
    obtain ⟨hy, hsel, hown⟩ := hr
    have hid : command.orderId = y.id := (OrderWhere.selects_id hsel rfl).symm
    rcases h with h | h
    · exact (hown h).imp_left fun hu => ⟨hu, hu ▸ hy⟩
    · have huser : y.userId = u := hy.unique (hid ▸ h)
      exact Or.inl ⟨huser, huser ▸ hy⟩
  · exact hy.resolve_right fun hne => hne hp

/-- The payment system, with a payment for an order of the user's. -/
theorem payment_along {payment : Payment} {c : Option String} (hp : W.OwnedBy u payment.orderId)
    (hu : payment.userId = u) : (ProcessPaymentHandler.externalPayment payment c).Along
      (Op.OnBehalf u W) (t.Told u W) fun _ => True := by
  refine externalPayment_along (fun _ => inward_onBehalf) (fun _ _ => trivial) ?_
  rintro e hof f hf
  obtain rfl := List.mem_singleton.mp hf
  rcases hof with ⟨g, rfl, horder, -⟩ | ⟨g, rfl, -, huser, -⟩
  · exact (horder ▸ hp : W.OwnedBy u g.orderId)
  · exact huser.trans hu

section Programs

variable [Hashes]

theorem common_onBehalf {o : Op} (h : o.Common) : o.OnBehalf u W := by
  cases o with
  | orderInsert n => exact absurd h id
  | orderSave y => exact absurd h id
  | publishAll events => exact absurd h id
  | setImmediate task =>
    obtain ⟨m, rfl, -⟩ := h
    exact trivial
  | _ => exact trivial

/-- A request to create an order. -/
theorem place_along (dto : CreateOrderDto) :
    (OrderController.placeOrder dto u).Along (Op.OnBehalf u W) (t.Told u W) fun _ => True := by
  refine placeOrder_along (L := fun y => W.OwnedBy u y.id ∧ y.userId = u) trivial rfl ?_ ?_
  · intro y hr
    exact hr
  · intro y hy e he
    obtain rfl := List.mem_singleton.mp he
    exact hy

/-- The saga of an order of the user's asks for its payment. -/
theorem created_along {e : OrderCreatedEvent} (he : W.OwnedBy u e.orderId) (hu : e.userId = u) :
    (handleOrderCreated e).Along (Op.OnBehalf u W) (t.Told u W) fun _ => True := by
  refine handleOrderCreated_along (.of_common fun _ => common_onBehalf)
    (fun _ _ => .of_common (fun _ => common_onBehalf) (fun _ => trivial) fun _ _ => trivial)
    fun saga _ => .seq (.bind (fun r => ∀ p : Payment, r = .ok p → W.OwnedBy u p.orderId ∧
      p.userId = u) (call_told trivial ?_) ?_ fun _ _ => trivial) fun _ => call_along trivial
  · rintro r hr p rfl
    obtain ⟨horder, huser⟩ := hr
    exact ⟨horder.symm ▸ he, huser.trans hu⟩
  · exact fun p hp => .seq (call_along (hp p rfl)) fun _ => trivial

/-- What a delivery comes to. -/
theorem delivery_along {d : Delivery} (hd : d.event.OnBehalf u W) :
    d.run.Along (Op.OnBehalf u W) (t.Told u W) fun _ => True := by
  cases d with
  | orderCreatedHandler e =>
    exact .seq (.seq (call_along trivial) fun _ => call_along trivial) fun _ =>
      created_along hd.1 hd.2
  | paymentProcessedSagaHandler e =>
    exact handlePaymentProcessed_along (.of_common fun _ => common_onBehalf) trivial
      (fun _ _ => trivial) fun _ => confirm_along (Or.inr hd)
  | paymentFailedSagaHandler e =>
    exact handlePaymentFailed_along (.of_common fun _ => common_onBehalf) trivial
      (fun _ _ => trivial) fun _ _ => cancel_along hd
  | _ => exact .seq (call_along trivial) fun _ => call_along trivial

/-- **Every activity writes orders of the user only.** -/
theorem job_along (ht : ∀ v, t = .task v → v.OnBehalf u W) :
    (t.run u).Along (Op.OnBehalf u W) (t.Told u W) fun _ => True := by
  cases t with
  | request r =>
    cases r with
    | createOrder dto | createTestOrder dto => exact .seq (place_along dto) fun _ => trivial
    | getMyOrders page limit status =>
      refine .seq (.seq (.seq (call_along trivial) fun orders => ?_) fun _ => trivial)
        fun _ => trivial
      split
      · exact trivial
      · split <;> exact trivial
    | getOrderById id =>
      refine .seq (.seq (.seq (call_along trivial) fun found => ?_) fun _ => trivial)
        fun _ => trivial
      cases found with
      | none => exact trivial
      | some order =>
        dsimp only
        split <;> exact trivial
    | cancelOrder id reason => exact .seq (cancel_along rfl) fun _ => trivial
    | confirmOrder id paymentId => exact .seq (confirm_along (Or.inl trivial)) fun _ => trivial
  | task v =>
    have hv := ht v rfl
    refine .seq ?_ fun _ => trivial
    cases v with
    | publishAll events => exact call_along hv
    | publishSagaEvent m => exact call_along trivial
    | externalPayment p c => exact payment_along hv.1 hv.2
    | deliver d => exact delivery_along hv

end Programs

/-! ### The operations -/

variable {w w' : World} {i : ℕ} {o : Op} {c : Choice} {r : Except Err (Op.Val o)} {ts : List Task}

/-- **An operation on the user's behalf leaves the orders of others**, and all orders their
owners. -/
theorem exec_others (he : w.exec i o c = some (w', r, ts)) (ho : o.OnBehalf u w) :
    w.KeepsOwners w' ∧ ∀ y ∈ w.orders, y.userId ≠ u → y ∈ w'.orders := by
  by_cases hw : .orders ∈ o.writes
  · rcases World.exec_cases he with ⟨-, hp⟩ | ⟨m, -, rfl, -⟩ | ⟨m, v, -, hr, hp, -⟩
    · cases o with
      | orderInsert n =>
        obtain ⟨hins, -⟩ := World.perform_orderInsert hp
        have hkept : ∀ y ∈ w.orders, y ∈ w'.orders := by
          intro y hy
          rcases World.insertOrder_cases hins with ⟨rfl, -⟩ | ⟨rfl, -⟩ | ⟨amount, -, -, -, -, hmem⟩
          · exact hy
          · exact hy
          · exact (hmem y).mpr (Or.inr hy)
        exact ⟨fun y hy => ⟨y, hkept y hy, rfl, rfl⟩, fun y hy _ => hkept y hy⟩
      | orderSave y =>
        simp only [World.perform, Option.some.injEq, Prod.mk.injEq] at hp
        obtain ⟨rfl, -⟩ := hp
        obtain ⟨hu, hown⟩ := ho
        exact ⟨World.saveOrder_keepsOwners (hu.symm ▸ hown), fun x hx hne =>
          World.saveOrder_others hown hx hne⟩
      | _ => simp [Op.writes] at hw
    · exact ⟨.refl _, fun _ hy _ => hy⟩
    · cases o <;> simp [Op.isRedis] at hr <;> simp [Op.writes] at hw
  · have hsame := (World.exec_frame he).orders hw
    refine ⟨.of_eq hsame, fun y hy _ => ?_⟩
    rwa [hsame]

/-- What is set off is on the user's behalf. -/
theorem exec_tasks (he : w.exec i o c = some (w', r, ts)) (ho : o.OnBehalf u W) :
    ∀ v ∈ ts, v.OnBehalf u W := by
  refine World.exec_starts he ?_ ?_
  · rintro task rfl
    exact ho
  · rintro events rfl d hd
    exact ho d.event hd

end Ownership

/-- What a confirmation reads is the user's own, or not pending. -/
def World.Confirmable (w : World) (u : String) : Op → Prop
  | .orderFindOne q => ∀ y ∈ w.orders, q.selects y = true → y.userId = u ∨ y.status ≠ .pending
  | _ => True

namespace Ownership

variable {u : String} {w w' W : World} {t : UserJob} {i : ℕ} {o : Op} {c : Choice}
  {r : Except Err (Op.Val o)} {ts : List Task}

/-- What an answer tells, in the light of any later world. -/
theorem exec_told (he : w.exec i o c = some (w', r, ts)) (hW : w'.KeepsOwners W)
    (hc : t.Confirms → w.Confirmable u o) : t.Told u W o r := by
  rcases World.exec_cases he with ⟨-, hp⟩ | ⟨m, -, -, rfl, -⟩ | ⟨m, v, -, hr, hp, rfl⟩
  · cases o with
    | orderFindOne q =>
      simp only [World.perform, Option.some.injEq, Prod.mk.injEq] at hp
      obtain ⟨rfl, rfl, -⟩ := hp
      cases hfind : w.orders.find? q.selects with
      | none => exact trivial
      | some y =>
        have hmem := Table.mem_of_find? hfind
        have hsel := Table.find?_some hfind
        exact ⟨hW y hmem, hsel, fun ht => hc ht y hmem hsel⟩
    | orderInsert n =>
      obtain ⟨hins, -⟩ := World.perform_orderInsert hp
      rcases World.insertOrder_cases hins with ⟨-, rfl⟩ | ⟨-, key, -, rfl, -⟩ |
        ⟨amount, -, rfl, -, -, hmem⟩
      · exact trivial
      · exact trivial
      · have hrow := hW (w.newOrderRow c.text n amount) ((hmem _).mpr (Or.inl rfl))
        exact ⟨hrow, rfl⟩
    | paymentInsert n =>
      obtain ⟨hins, -⟩ := World.perform_paymentInsert hp
      rcases World.insertPayment_cases hins with ⟨-, rfl⟩ | ⟨amount, -, rfl, -, -⟩
      · exact trivial
      · exact ⟨rfl, rfl⟩
    | _ => exact trivial
  · cases o <;> exact trivial
  · cases o <;> exact trivial

end Ownership

section Runs

variable [Hashes]

/-- What the activities do to orders, in the light of a later world. -/
def ownership (u : String) : Outlook (endpoints u) where
  Before := World.KeepsOwners
  Born := fun W t => ∀ v, t = .task v → v.OnBehalf u W
  Does := fun W _ _ o => o.OnBehalf u W
  Told := fun W _ t o r => t.Told u W o r
  Ends := fun _ _ _ => True
  trans := World.KeepsOwners.trans
  body := fun ht _ => Ownership.job_along ht

/-- Only requests come from outside. -/
def Requested {u : String} (_ : Pool (endpoints u)) : Action (endpoints u) → Prop
  | .start (.task _) => False
  | _ => True

/-- A confirmation by request finds no pending order of another user. -/
def Confirming {u : String} (p : Pool (endpoints u)) : Action (endpoints u) → Prop
  | .run i _ => ∀ a ∈ p.acts[i]?, a.tag.Confirms → ∀ o ∈ a.prog.awaited?, p.world.Confirmable u o
  | _ => True

variable {u : String} {init : World → Prop} {p p' : Pool (endpoints u)}

/-- The activities are as they should be. -/
theorem ownership_approves
    (hp : Pool.Reachable init (fun p a => Requested p a ∧ Confirming p a) p) :
    (ownership u).Approves p.world p := by
  refine (ownership u).reachable World.KeepsOwners.refl ?_ (fun w _ => .of_eq rfl) ?_ hp _
    (World.KeepsOwners.refl _)
  · rintro p t ⟨ht, -⟩ W v rfl
    exact absurd ht id
  · intro p _ i t o k c w r ts hact hi hdoes he
    refine ⟨(Ownership.exec_others he hdoes).1, fun W hW => ⟨?_, fun ho t' ht' => ?_⟩⟩
    · exact Ownership.exec_told he hW fun ht => hact.2 _ hi ht o rfl
    · obtain ⟨v, hv, heq⟩ := List.mem_filterMap.mp ht'
      obtain rfl := Option.some.inj heq
      intro v' hv'
      exact UserJob.task.inj hv' ▸ Ownership.exec_tasks he ho v hv

/-- **No order of another user is written**, in any run of the requests of a user in which a
confirmation finds no pending order of another. -/
theorem others_untouched
    (hp : Pool.Reachable init (fun p a => Requested p a ∧ Confirming p a) p)
    (hr : Pool.Runs (fun p a => Requested p a ∧ Confirming p a) p p') :
    ∀ o ∈ p.world.orders, o.userId ≠ u → o ∈ p'.world.orders := by
  intro o ho hne
  induction hr with
  | refl => exact ho
  | @tail q q' hrun hstep ih =>
    have hq := hp.runs hrun
    obtain ⟨a, -, hn⟩ := hstep
    cases a with
    | start t =>
      obtain rfl := Option.some.inj hn
      exact ih
    | tick d =>
      obtain rfl := Option.some.inj hn
      exact ih
    | run i c =>
      obtain ⟨t, op, k, w, r, ts, hi, he, rfl⟩ := Pool.next_run hn
      have hdoes : op.OnBehalf u q.world := (ownership_approves hq i _ hi).2.1
      exact (Ownership.exec_others he hdoes).2 o ih hne

end Runs

/-! ### Two orders of two users -/

instance : ∀ t : UserJob, Decidable t.Confirms
  | .request (.confirmOrder _ _) => isTrue trivial
  | .request (.createOrder _) => isFalse id
  | .request (.createTestOrder _) => isFalse id
  | .request (.getMyOrders _ _ _) => isFalse id
  | .request (.getOrderById _) => isFalse id
  | .request (.cancelOrder _ _) => isFalse id
  | .task _ => isFalse id

instance World.decidableConfirmable (w : World) (u : String) : ∀ o, Decidable (w.Confirmable u o)
  | .orderFindOne q => inferInstanceAs (Decidable (∀ y ∈ w.orders.rows, q.selects y = true →
      y.userId = u ∨ y.status ≠ .pending))
  | .orderFind _ | .orderInsert _ | .orderSave _ | .paymentFindOne _ | .paymentInsert _
  | .paymentSave _ | .sagaFindOne _ | .sagaInsert _ | .sagaSave _ | .connect | .startTransaction _
  | .txSagaFindOne _ _ | .txSagaSave _ _ | .commitTransaction _ | .rollbackTransaction _ | .release _
  | .eventStoreSave _ | .generateToken | .redisSet _ _ _ | .redisUnlock _ _ | .redisRenew _ _ _
  | .redisExists _ | .kafkaSend _ _ _ | .publishAll _ | .setImmediate _ | .sleep _ | .random | .uuidv4
  | .log _ => isTrue trivial

section Users

open Samples

instance Requested.decidable {u : String} (p : Pool (endpoints u)) : ∀ a, Decidable (Requested p a)
  | .start (.task _) => isFalse id
  | .start (.request _) => isTrue trivial
  | .run _ _ => isTrue trivial
  | .tick _ => isTrue trivial

instance Confirming.decidable {u : String} (p : Pool (endpoints u)) :
    ∀ a, Decidable (Confirming p a)
  | .start _ => isTrue trivial
  | .run i _ => inferInstanceAs (Decidable (∀ a ∈ p.acts[i]?, a.tag.Confirms →
      ∀ o ∈ a.prog.awaited?, p.world.Confirmable u o))
  | .tick _ => isTrue trivial

/-- A user. -/
def alice : String := "3f2b8c1e-5d47-4a9b-9c06-2e8f71d0a4b5"

/-- Another user. -/
def bob : String := "b07e4d92-1c3a-4f58-8e6d-90a1f2c3d4e5"

/-- A pending order of the first user. -/
def alicesOrder : Order :=
  ⟨⟨alice, 10, [⟨"product-1", "P", 1, 10⟩], "somewhere", .pending, some "key-1"⟩,
    "7d4c3f9e-2b1a-4c5d-8e6f-0a1b2c3d4e5f", none, 0, 0⟩

/-- A pending order of the second. -/
def bobsOrder : Order :=
  ⟨⟨bob, 20, [⟨"product-2", "Q", 2, 10⟩], "elsewhere", .pending, some "key-2"⟩,
    "e1f2a3b4-c5d6-4e7f-8a9b-0c1d2e3f4a5b", none, 0, 0⟩

/-- Both are stored. -/
def bothStored : World := ((World.empty 0).saveOrder alicesOrder).1.saveOrder bobsOrder |>.1

/-- The second user confirms their own order. -/
def confirmOwn : List (Action (endpoints bob)) :=
  .start (.request (.confirmOrder bobsOrder.id (some "payment"))) :: List.replicate 5 (.run 0 {})

theorem confirmOwn_played : (Pool.play (fun p a => Requested p a ∧ Confirming p a)
    ⟨bothStored, []⟩ confirmOwn).isSome := by
  decide +kernel

theorem alicesOrder_mem : alicesOrder ∈ bothStored.orders := Table.mem_rows.mp (by decide +kernel)

theorem others_untouched_own : alicesOrder ∈
    ((Pool.play _ ⟨bothStored, []⟩ confirmOwn).get confirmOwn_played).world.orders :=
  others_untouched (p := ⟨bothStored, []⟩) ⟨bothStored, rfl, .refl⟩
    (Pool.runs_of_play _ _ _ (Option.some_get confirmOwn_played).symm) alicesOrder
    alicesOrder_mem (by decide +kernel)

/-- The second user confirms the order of the first. -/
def confirmAnothers : List (Action (endpoints bob)) :=
  .start (.request (.confirmOrder alicesOrder.id (some "payment"))) :: List.replicate 2 (.run 0 {})

theorem confirmAnothers_played : (Pool.play (fun p a => Requested p a)
    ⟨bothStored, []⟩ confirmAnothers).isSome := by
  decide +kernel

/-- **A user makes the order of another paid**, by whatever payment they name. -/
theorem other_confirmed : ∃ p p' : Pool (endpoints bob),
    Pool.Reachable (fun _ => True) (fun p a => Requested p a) p ∧
    Pool.Runs (fun p a => Requested p a) p p' ∧
    ∃ o ∈ p.world.orders, o.userId ≠ bob ∧ ∃ o' ∈ p'.world.orders, o'.id = o.id ∧
      o'.userId = o.userId ∧ o'.status ≠ o.status ∧ o'.paymentId ≠ o.paymentId := by
  have hrow : ∃ o' ∈ ((Pool.play _ ⟨bothStored, []⟩ confirmAnothers).get
      confirmAnothers_played).world.orders.rows, o'.id = alicesOrder.id ∧
        o'.userId = alicesOrder.userId ∧ o'.status ≠ alicesOrder.status ∧
          o'.paymentId ≠ alicesOrder.paymentId := by
    decide +kernel
  obtain ⟨o', ho', hrow⟩ := hrow
  exact ⟨⟨bothStored, []⟩, _, ⟨bothStored, trivial, .refl⟩,
    Pool.runs_of_play _ _ _ (Option.some_get confirmAnothers_played).symm, alicesOrder,
    alicesOrder_mem, by decide +kernel, o', Table.mem_rows.mp ho', hrow⟩

end Users

end CqrsSaga
