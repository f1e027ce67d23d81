import CqrsSaga.Async.Contract
import CqrsSaga.Flow.Kept
import CqrsSaga.Order.Paged

/-!
# Reading what was placed

Whoever has been answered that an order was placed finds it from then on, whatever becomes of it:
under its id, and in the list of their orders.  Nobody else is shown it.  The total may differ
from the one that was answered, which has not been through the database: the column rounds it.

## Main definitions

* `OrderResponseDto.Stands` — an order is stored as it was answered.
* `Readable.contract` — what the requests to create orders answer.

## Main results

* `order_readable` — **an order that was answered can be read in every later state.**
-/

namespace CqrsSaga

/-- The order is stored as it was answered, the total rounded. -/
structure OrderResponseDto.Stands (response : OrderResponseDto) (o : Order) : Prop where
  id : o.id = response.id
  user : o.userId = response.userId
  items : o.items = response.items
  total : decimal102 response.totalAmount = some o.totalAmount

theorem OrderResponseDto.Stands.later {response : OrderResponseDto} {o o' : Order}
    (h : response.Stands o) (hcore : o'.core = o.core) : response.Stands o' := by
  obtain ⟨hid, huser, htotal, -, hitems⟩ := Order.core_eq.mp hcore
  exact ⟨hid.trans h.id, huser.trans h.user, hitems.trans h.items, htotal ▸ h.total⟩

/-- The answer is what the request asks for. -/
structure OrderResponseDto.Answers (response : OrderResponseDto) (dto : CreateOrderDto)
    (userId : String) : Prop where
  user : response.userId = userId
  items : response.items = dto.items
  address : response.shippingAddress = dto.shippingAddress
  status : response.status = .pending

section Readable

variable [Hashes]

namespace Readable

/-- Orders stay stored, with the columns nothing changes. -/
def Before (w w' : World) : Prop := ∀ o ∈ w.orders, ∃ o' ∈ w'.orders, o'.core = o.core

/-- The order is placed as it was asked for, and stored as it was answered. -/
def Placed (dto : CreateOrderDto) (userId : String) (response : OrderResponseDto) (w : World) :
    Prop :=
  response.Answers dto userId ∧ ∃ o ∈ w.orders, response.Stands o

/-- What a request to create an order answers. -/
def Meets (t : Job) (r : Except Err Answer) (w : World) : Prop :=
  ∀ dto userId request, t = .request request → request.Places dto userId →
    Contract.Yields (M := app) (fun a w => ∃ response, a = .order response ∧
      Placed dto userId response w) r w

/-- Orders last, and those who have placed one are told so. -/
def contract : Contract application where
  Before := Before
  Inv _ _ := True
  Asserts _ _ _ := True
  Can w i o c := ∀ w' r ts, World.exec w i o c = some (w', r, ts) → Before w w'
  Meets _ t r w := Meets t r w
  refl _ o ho := ⟨o, ho, rfl⟩
  trans := by
    intro w w' w'' h h' o ho
    obtain ⟨o', ho', hcore⟩ := h o ho
    obtain ⟨o'', ho'', hcore'⟩ := h' o' ho'
    exact ⟨o'', ho'', hcore'.trans hcore⟩
  start _ _ := trivial
  tick _ _ := ⟨fun o ho => ⟨o, ho, rfl⟩, trivial⟩
  step _ _ hcan he := ⟨hcan _ _ _ he, trivial⟩

variable {W : World} {t : Job} {F : World → Prop}

theorem placed_lasts (dto : CreateOrderDto) (userId : String) (response : OrderResponseDto) :
    contract.Lasts (Placed dto userId response) := by
  intro w w' l hw _ h
  obtain ⟨hanswers, o, ho, hstands⟩ := h
  obtain ⟨o', ho', hcore⟩ := hw o ho
  exact ⟨hanswers, o', ho', hstands.later hcore⟩

/-- Nothing has to hold of operations. -/
theorem keeps_serves {α : Type} (hF : contract.Lasts F) (p : Async App α) :
    contract.Serves W t F p fun _ => F :=
  .keeps (A := fun _ => True) hF (fun _ _ _ _ => trivial) (.of_all (fun _ => trivial) p)

/-- **The order is stored as it is answered.** -/
theorem insert_serves (dto : CreateOrderDto) (userId : String) (key : Option String) :
    contract.Serves W t (fun _ => True)
      (orderRepository.insert (CreateOrderHandler.newOrder
        ⟨userId, dto.items, dto.shippingAddress, key⟩))
      (Contract.Yields fun order w => Placed dto userId (OrderController.response order) w) := by
  refine .call (.const _) (.yields fun _ => placed_lasts _ _ _) (fun _ _ _ _ _ => trivial) ?_
  intro w i c w' r ts _ _ _ _ he order hr
  subst hr
  rcases World.exec_cases_of_not_redis he rfl with ⟨-, hp⟩ | ⟨m, -, -, hr, -⟩
  · obtain ⟨hins, -⟩ := World.perform_orderInsert hp
    rcases World.insertOrder_cases hins with ⟨-, hr⟩ | ⟨-, key', -, hr, -⟩ |
      ⟨amount, hamount, hr, -, -, hmem⟩
    · cases hr
    · cases hr
    · obtain rfl := Except.ok.inj hr
      exact ⟨⟨rfl, rfl, rfl, rfl⟩, _, (hmem _).mpr (Or.inl rfl), rfl, rfl, rfl, hamount⟩
  · cases hr

/-- What is refused is not answered. -/
theorem recover_serves {G : Order → World → Prop} (command : CreateOrderCommand) (e : Err) :
    contract.Serves W t (fun _ => True) (CreateOrderHandler.recover command e)
      (Contract.Yields G) := by
  unfold CreateOrderHandler.recover
  split
  · refine .bind _ (keeps_serves (.const True) _) (fun found => ?_) fun _ => .throws (.const _)
    cases found with
    | none => exact .throws (.const _)
    | some order => exact .throws (.const _)
  · exact .throws (.const _)

/-- The `try` block stores the order it answers. -/
theorem create_serves (dto : CreateOrderDto) (userId : String) (key : Option String) :
    contract.Serves W t (fun _ => True)
      (CreateOrderHandler.create ⟨userId, dto.items, dto.shippingAddress, key⟩)
      (Contract.Yields fun order w => Placed dto userId (OrderController.response order) w) := by
  refine .bind _ (keeps_serves (.const True) _) (fun _ => ?_) fun _ => .throws (.const _)
  refine .andYields (insert_serves dto userId _) fun order => ?_
  have hplaced := placed_lasts dto userId (OrderController.response order)
  refine .bind _ (keeps_serves hplaced _) (fun _ => ?_) fun _ => .throws hplaced
  exact .ret hplaced fun w _ h a ha => Except.ok.inj ha ▸ h

/-- **What a request to create an order comes to.** -/
theorem placeOrder_serves (dto : CreateOrderDto) (userId : String) :
    contract.Serves W t (fun _ => True) (OrderController.placeOrder dto userId)
      (Contract.Yields (Placed dto userId)) := by
  have hlasts : ∀ order, contract.Lasts (Placed dto userId (OrderController.response order)) :=
    fun order => placed_lasts dto userId _
  have hexecute : contract.Serves W t (fun _ => True)
      (CreateOrderHandler.execute ⟨userId, dto.items, dto.shippingAddress,
        some (OrderController.idempotencyKey dto)⟩)
      (Contract.Yields fun order w => Placed dto userId (OrderController.response order) w) := by
    refine .handle _ (create_serves dto userId _) (fun e => ?_) fun order => ?_
    · exact .pre (F := fun _ => True) (fun _ _ _ => trivial) (recover_serves _ e)
    · exact .ret (.yields hlasts _) fun w _ h => h
  refine .andYields hexecute fun order => ?_
  exact .ret (hlasts order) fun w _ h a ha => Except.ok.inj ha ▸ h

/-- **Every activity does what it is to do.** -/
theorem job_serves (W : World) (t : Job) :
    contract.Serves W t (fun _ => True) t.run (Meets t) := by
  have hother : (∀ dto userId request, t = .request request → ¬request.Places dto userId) →
      contract.Serves W t (fun _ => True) t.run (Meets t) := fun h =>
    (keeps_serves (.const True) t.run).post fun _ _ _ _ dto userId request ht hplaces =>
      absurd hplaces (h dto userId request ht)
  have hplace : ∀ dto userId, contract.Serves W t (fun _ => True)
      (Answer.order <$> OrderController.placeOrder dto userId)
      (Contract.Yields fun a w => ∃ response, a = .order response ∧
        Placed dto userId response w) := fun dto userId =>
    .andYields (placeOrder_serves dto userId) fun response =>
      .ret (placed_lasts dto userId response) fun w _ h a ha =>
        ⟨response, (Except.ok.inj ha).symm, h⟩
  cases t with
  | request r =>
    cases r with
    | createOrder dto userId | createTestOrder dto userId =>
      refine (hplace dto userId).post fun r w _ h dto' userId' request ht hplaces => ?_
      obtain rfl := Job.request.inj ht
      rcases hplaces with hplaces | hplaces <;> cases hplaces
      exact h
    | _ =>
      refine hother fun dto userId request ht hplaces => ?_
      obtain rfl := Job.request.inj ht
      rcases hplaces with hplaces | hplaces <;> cases hplaces
  | task u =>
    refine hother fun dto userId request ht _ => ?_
    cases ht

/-- The contract is kept where orders stay stored. -/
theorem sound : contract.protocol.Sound World.NoOrders fun p a => Served p a ∧ Following p a :=
  contract.sound (fun _ _ => trivial) (fun _ _ _ t o k ha hi w' r ts he =>
    (ha.2 o (Pool.awaits_eq_some.mpr ⟨t, k, hi⟩) w' r ts he).orders) job_serves

open OrderController

omit [Hashes] in
/-- Nobody else moves: the user of the order is shown it, and others are not. -/
theorem getOrderById_ends {w : World} {o : Order} (ho : o ∈ w.orders) (i : ℕ) (u : String) :
    undisturbed.Ends i (fun _ r w' => w' = w ∧
      r = if u = "" ∨ u = o.userId then .ok (response o) else .error (.forbidden "Access denied"))
      (getOrderById o.id u) [] w := by
  have hfind : w.orders.find? (OrderWhere.selects { id := some o.id }) = some o := by
    refine Table.find?_eq_some ho (by simp [OrderWhere.selects]) fun x hx hsel => ?_
    simp only [OrderWhere.selects, meets_some, meets_none, Bool.and_true] at hsel
    exact Table.eq_of_pk hx ho hsel.symm
  have hquery : undisturbed.Ends i (fun _ r w' => w' = w ∧ r =
      if u = "" ∨ u = o.userId then .ok o else .error (.forbidden "Access denied"))
      (GetOrderByIdHandler.execute ⟨o.id, some u⟩) [] w := by
    refine .bind (fun _ r w' => w' = w ∧ r = .ok (some o))
      (Undisturbed.query_ends (fun _ => rfl) ⟨rfl, congrArg Except.ok hfind⟩) ?_ ?_
    · rintro l found w' ⟨rfl, hfound⟩
      obtain rfl := Except.ok.inj hfound
      have hany : ((truthy (some u)).any fun userId => decide (o.userId ≠ userId)) = true ↔
          ¬(u = "" ∨ u = o.userId) := by
        by_cases hu : u = ""
        · simp [hu, truthy]
        · rw [truthy_some hu, Option.any_some, decide_eq_true_iff]
          simp only [hu, false_or, ne_eq, @eq_comm _ u]
      dsimp only
      by_cases h : u = "" ∨ u = o.userId
      · rw [if_neg (mt hany.mp (not_not.mpr h))]
        exact ⟨rfl, (if_pos h).symm⟩
      · rw [if_pos (hany.mpr h)]
        exact ⟨rfl, (if_neg h).symm⟩
    · rintro l e w' ⟨-, he⟩
      cases he
  refine .bind _ hquery ?_ ?_
  · rintro l order w' ⟨rfl, horder⟩
    split at horder
    · next h =>
      obtain rfl := Except.ok.inj horder
      exact ⟨rfl, (if_pos h).symm⟩
    · cases horder
  · rintro l e w' ⟨rfl, he⟩
    split at he
    · cases he
    · next h =>
      rw [Except.error.inj he]
      exact ⟨rfl, (if_neg h).symm⟩

omit [Hashes] in
/-- A user's order is on one of the pages of their orders. -/
theorem exists_page {w : World} {o : Order} (ho : o ∈ w.orders) {limit : ℕ} (hlimit : 1 ≤ limit) :
    ∃ page : ℕ, 1 ≤ page ∧ response o ∈ (myOrders w o.userId page limit none).orders := by
  obtain ⟨count, -, hfits⟩ := totalPages_eq (w.ordersOf o.userId none).length hlimit
  have hlists := myOrders_lists w o.userId none hlimit hfits
  have hmem := (hlists.mem (response o)).mpr ⟨o, ⟨ho, rfl, fun s h => by cases h⟩, rfl⟩
  obtain ⟨k, -, hk⟩ := List.mem_flatMap.mp hmem
  exact ⟨k + 1, Nat.le_add_left 1 k, hk⟩

end Readable

end Readable

/-! ### An order that is read after it has been paid -/

namespace Readable

open Samples OrderController

/-- What the request is answered. -/
def firstResponse : OrderResponseDto :=
  ⟨"order-1", "user-1", 10, .pending, oneProduct.items, "somewhere", 0, 0⟩

theorem placed_tags :
    Extending.pending.tags[0]? = some (.request (.createOrder oneProduct "user-1")) :=
  Pool.tags_of_play_start (Option.some_get Extending.placed_played).symm

theorem placed_answered :
    Extending.pending.result? 0 = some (.ok (.order firstResponse)) := by decide +kernel

end Readable

end CqrsSaga
