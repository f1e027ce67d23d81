import CqrsSaga.Flow.Runs

/-!
# Requests for the same products

A request without a key of the client's gets one derived from its products: their ids are
sorted, joined and hashed.  Requests for the same products get the same key, so at most one
of them is ever stored.  The converse takes more: the joined ids of different products
may be the same text, and a client may send the very digest of another request.

## Main definitions

* `OrderController.products` — the products of a request.
* `Creates`, `Stores` — the activities that create orders, and the steps that store them.
* `Mistakable` — a request for these products cannot be told from that one by its key.
* `CreateOrderDto.Legible` — the requests whose products can be read off their keys.

## Main results

* `productData_eq` — products without the separator in their names can be read off.
* `products_perm_of_mistakable` — nor are they mistakable for others then.
* `stored_once` — **of requests for the same products at most one is ever stored.**
* `refused_same_products` — **a request is refused for an order of the same products**, where
  products can be read off.
* `refused_other_products` — which it may be.
-/

namespace CqrsSaga

open OrderController CqrsSaga.Flow

/-! ### Products and keys -/

/-- The products of a request: their ids, or their names where the id is empty. -/
def OrderController.products (items : List OrderItem) : List String :=
  items.map fun item => (truthy (some item.productId)).getD item.productName

theorem productData_perm {items items' : List OrderItem}
    (h : (products items).Perm (products items')) : productData items = productData items' :=
  congrArg "|".intercalate (sortStrings_perm h)

/-- **Products without the separator in their names can be read off.** -/
theorem productData_eq {items items' : List OrderItem} (hne : items ≠ []) (hne' : items' ≠ [])
    (h : ∀ s ∈ products items, '|' ∉ s.toList) (h' : ∀ s ∈ products items', '|' ∉ s.toList) :
    productData items = productData items' ↔ (products items).Perm (products items') := by
  refine ⟨fun heq => sortStrings_eq.mp ?_, productData_perm⟩
  have hsplit : ∀ {l : List OrderItem}, l ≠ [] → (∀ s ∈ products l, '|' ∉ s.toList) →
      (productData l).toList.splitOn '|' = (sortStrings (products l)).map String.toList := by
    intro l hl hs
    have hperm : (sortStrings (products l)).Perm (products l) := List.perm_insertionSort _ _
    have hdata : productData l = "|".intercalate (sortStrings (products l)) := rfl
    rw [hdata, String.toList_intercalate]
    refine List.splitOn_intercalate '|' (fun cs hcs => ?_) fun hnil => ?_
    · obtain ⟨s, hs', rfl⟩ := List.mem_map.mp hcs
      exact hs s (hperm.mem_iff.mp hs')
    · rw [List.map_eq_nil_iff] at hnil
      rw [hnil] at hperm
      exact hl (List.map_eq_nil_iff.mp hperm.symm.eq_nil)
  have hmap := hsplit hne h
  rw [heq, hsplit hne' h'] at hmap
  exact List.map_injective_iff.mpr (fun _ _ => String.toList_inj.mp) hmap.symm

section Keys

variable [Hashes] {dto dto' : CreateOrderDto}

theorem idempotencyKey_keyless (h : truthy dto.idempotencyKey = none) :
    idempotencyKey dto = Hashes.sha256hex ("SOLDOUT:" ++ productData dto.items) := by
  simp [idempotencyKey, h]

theorem idempotencyKey_given {k : String} (h : truthy dto.idempotencyKey = some k) :
    idempotencyKey dto = k := by
  simp [idempotencyKey, h]

/-- Requests for the same products have the same key. -/
theorem idempotencyKey_perm (h : truthy dto.idempotencyKey = none)
    (h' : truthy dto'.idempotencyKey = none)
    (hperm : (products dto.items).Perm (products dto'.items)) :
    idempotencyKey dto = idempotencyKey dto' := by
  rw [idempotencyKey_keyless h, idempotencyKey_keyless h', productData_perm hperm]

/-! ### Who stores orders -/

omit [Hashes] in
/-- The request to create an order, at either endpoint, that an activity serves. -/
def Job.creates? : Job → Option CreateOrderDto
  | .request (.createOrder dto _) => some dto
  | .request (.createTestOrder dto _) => some dto
  | _ => none

/-- The activity `i` serves this request to create an order. -/
def Creates (p : Pool application) (i : ℕ) (dto : CreateOrderDto) : Prop :=
  p.tags[i]?.bind Job.creates? = some dto

instance (p : Pool application) (i : ℕ) (dto : CreateOrderDto) : Decidable (Creates p i dto) :=
  inferInstanceAs (Decidable (_ = _))

theorem Creates.tag {p : Pool application} {i : ℕ} {a : Activity application}
    (h : Creates p i dto) (ha : p.acts[i]? = some a) : a.tag.creates? = some dto := by
  unfold Creates Pool.tags at h
  simpa [ha] using h

/-- With this step, the activity `i` stores an order. -/
def Stores (p : Pool application) (i : ℕ) (p' : Pool application) : Prop :=
  (∃ c, p.next (.run i c) = some p') ∧ ∃ o ∈ p'.world.orders, ∀ y ∈ p.world.orders, y.id ≠ o.id

omit [Hashes] in
/-- The operation writes no order, or stores a new one under the key `k`. -/
def Op.StoresUnder (k : String) (o : Op) : Prop :=
  .orders ∈ o.writes → ∃ n : NewOrder, o = .orderInsert n ∧ n.idempotencyKey = some k

omit [Hashes] in
theorem Op.storesUnder_of_not_mem {k : String} {o : Op} (h : .orders ∉ o.writes) :
    o.StoresUnder k :=
  fun h' => absurd h' h

omit [Hashes] in
/-- Only `orderInsert` stores an order, and only if none has its key. -/
theorem Op.StoresUnder.stored {k : String} {o : Op} {w w' : World} {i : ℕ} {c : Choice}
    {r : Except Err (Op.Val o)} {ts : List Task} (ho : o.StoresUnder k)
    (he : w.exec i o c = some (w', r, ts)) {x : Order} (hx : x ∈ w'.orders)
    (hnew : ∀ y ∈ w.orders, y.id ≠ x.id) :
    x.idempotencyKey = some k ∧ ∀ y ∈ w.orders, y.idempotencyKey ≠ some k := by
  by_cases hw : .orders ∈ o.writes
  · obtain ⟨n, rfl, hk⟩ := ho hw
    rcases World.exec_cases_of_not_redis he rfl with ⟨-, hp⟩ | ⟨m, -, rfl, -⟩
    · obtain ⟨hins, -⟩ := World.perform_orderInsert hp
      rcases World.insertOrder_cases hins with ⟨rfl, -⟩ | ⟨rfl, -⟩ |
        ⟨amount, -, -, -, hfree, hmem⟩
      · exact absurd rfl (hnew x hx)
      · exact absurd rfl (hnew x hx)
      · rcases (hmem x).mp hx with rfl | hx
        · exact ⟨hk, hfree k hk⟩
        · exact absurd rfl (hnew x hx)
    · exact absurd rfl (hnew x hx)
  · rw [(World.exec_frame he).orders hw] at hx
    exact absurd rfl (hnew x hx)

/-- A request to create an order stores one under its key, if any. -/
theorem placeOrder_only (dto : CreateOrderDto) (userId : String) :
    (placeOrder dto userId).Only (Op.StoresUnder (idempotencyKey dto)) := by
  have hfind : ∀ q, (orderRepository.findOne q).Only (Op.StoresUnder (idempotencyKey dto)) :=
    fun q => .perform (Op.storesUnder_of_not_mem (by simp [Op.writes]))
  refine .bind (.handle (.bind ?_ fun _ => .bind (.perform fun _ => ⟨_, rfl, rfl⟩) fun o =>
    .bind (.perform (Op.storesUnder_of_not_mem (by simp [Op.writes]))) fun _ => trivial)
      fun e => ?_) fun _ => trivial
  · unfold CreateOrderHandler.checkDuplicate
    split
    · exact trivial
    · refine .bind (hfind _) fun found => ?_
      cases found <;> exact trivial
  · unfold CreateOrderHandler.recover
    split
    · refine .bind (hfind _) fun found => ?_
      cases found <;> exact trivial
    · exact trivial

/-- The operations of a request to create an order. -/
def Job.StoresUnder (t : Job) (o : Op) : Prop :=
  ∀ dto ∈ t.creates?, o.StoresUnder (idempotencyKey dto)

theorem Job.run_only (t : Job) : t.run.Only t.StoresUnder := by
  rcases t with r | t
  · cases r with
    | createOrder dto userId | createTestOrder dto userId =>
      refine .bind (.mono ?_ (placeOrder_only dto userId)) fun _ => trivial
      rintro o ho _ ⟨⟩
      exact ho
    | _ => exact .of_all (fun o _ h => nomatch h) _
  · exact .of_all (fun o _ h => nomatch h) _

variable {p p' : Pool application} {i : ℕ}

/-- **What a request to create an order stores has its key, which no order had.** -/
theorem Stores.fresh {init : World → Prop} {allowed : Pool application → Action application → Prop}
    (hp : Pool.Reachable init allowed p) (hi : Creates p i dto) (h : Stores p i p') :
    (∃ x, p'.world.Keyed x (idempotencyKey dto)) ∧
      ∀ y ∈ p.world.orders, y.idempotencyKey ≠ some (idempotencyKey dto) := by
  obtain ⟨⟨c, hn⟩, x, hx, hnew⟩ := h
  obtain ⟨t, o, k, w, r, ts, hacts, he, rfl⟩ := Pool.next_run hn
  have honly := Pool.Reachable.only (P := Job.StoresUnder) Job.run_only hp _
    (List.mem_of_getElem? hacts)
  have ho : o.StoresUnder (idempotencyKey dto) := honly.1 dto (hi.tag hacts)
  obtain ⟨hkey, hfree⟩ := ho.stored he hx hnew
  exact ⟨⟨x.id, x, hx, rfl, hkey⟩, hfree⟩

/-- **Of requests for the same products at most one is ever stored**, whichever endpoint they
are sent to and whatever else is going on. -/
theorem stored_once {F : CreateOrderDto → Prop}
    (hkeyless : ∀ dto, F dto → truthy dto.idempotencyKey = none)
    (hsame : ∀ dto dto', F dto → F dto' → (products dto.items).Perm (products dto'.items)) :
    (∀ dto dto', F dto → F dto' → idempotencyKey dto = idempotencyKey dto') ∧
      ∀ {p p₁ p₂ p₃ : Pool application} {i j : ℕ} {dto dto' : CreateOrderDto},
        Pool.Reachable World.NoOrders Served p → F dto → Creates p i dto → Stores p i p₁ →
        Pool.Runs Served p₁ p₂ → F dto' → Creates p₂ j dto' → ¬Stores p₂ j p₃ := by
  have hkeys : ∀ dto dto', F dto → F dto' → idempotencyKey dto = idempotencyKey dto' :=
    fun dto dto' hd hd' => idempotencyKey_perm (hkeyless dto hd) (hkeyless dto' hd')
      (hsame dto dto' hd hd')
  refine ⟨hkeys, fun {p p₁ p₂ p₃ i j dto dto'} hp hd hi hs hr hd' hj hs' => ?_⟩
  obtain ⟨⟨c, hn⟩, -⟩ := id hs
  obtain ⟨⟨x, hkeyed⟩, -⟩ := hs.fresh hp hi
  have hp₁ : Pool.Reachable World.NoOrders Served p₁ := hp.step ⟨.run i c, trivial, hn⟩
  -- the order is still there
  obtain ⟨g, hH⟩ := (flow_sound {}).reachable (hp₁.mono fun _ _ => Flow.Allowed.of_served)
  obtain ⟨g', -, hmono⟩ := (flow_sound {}).runs hH (hr.mono fun _ _ => Flow.Allowed.of_served)
  obtain ⟨y, hy, -, hyk⟩ := Grows.keyed hmono hkeyed
  rw [hkeys dto dto' hd hd'] at hyk
  exact (hs'.fresh (hp₁.runs hr) hj).2 y hy hyk

end Keys

/-! ### Two endpoints, the same products -/

open Samples

/-- An order for two products. -/
def twoProducts : CreateOrderDto := ⟨[⟨"a", "A", 1, 10⟩, ⟨"b", "B", 2, 5⟩], "here", none⟩

/-- The same two, in other quantities and at other prices. -/
def sameTwo : CreateOrderDto := ⟨[⟨"b", "B", 3, 1⟩, ⟨"", "a", 1, 7⟩], "there", none⟩

/-- Both requests have looked for the key, in vain. -/
def bothLooked : List (Action application) :=
  [.start (.request (.createOrder twoProducts "user-1")),
    .start (.request (.createTestOrder sameTwo "user-2")), .run 0 {}, .run 1 {}]

/-- The pool in which both have looked. -/
def lookedTwice : Pool application :=
  (Pool.play Served ⟨World.empty 0, []⟩ bothLooked).get (by decide +kernel)

theorem lookedTwice_first : (lookedTwice.next (.run 0 { text := "order-1" })).isSome := by
  decide +kernel

/-- The first order is stored. -/
def storedFirst : Pool application :=
  (lookedTwice.next (.run 0 { text := "order-1" })).get lookedTwice_first

/-- Whatever comes of the second insert, it stores no order. -/
theorem stored_once_race : ¬∃ p, Stores storedFirst 1 p :=
  fun ⟨_, hp⟩ => (stored_once (F := fun dto => dto = twoProducts ∨ dto = sameTwo)
    (by rintro dto (rfl | rfl) <;> rfl)
    (by rintro dto dto' (rfl | rfl) (rfl | rfl) <;> decide +kernel)).2
    (Pool.reachable_of_play (World.noOrders_empty 0) _) (Or.inl rfl)
    (by decide +kernel) ⟨⟨_, (Option.some_get lookedTwice_first).symm⟩, by decide +kernel⟩ .refl
    (Or.inr rfl) (by decide +kernel) hp

/-! ### Who is refused -/

section Refused

variable [Hashes] {dto dto' : CreateOrderDto} {p : Pool application} {i : ℕ}

/-- A request for the products of `dto`, without a key of the client's, cannot be told from `dto'`
by its key: the joined products are the same text, or the client of `dto'` sent its digest. -/
def Mistakable (dto dto' : CreateOrderDto) : Prop :=
  match truthy dto'.idempotencyKey with
  | none => productData dto.items = productData dto'.items
  | some k => k = Hashes.sha256hex ("SOLDOUT:" ++ productData dto.items)

/-- The products of the request can be read off its key: without a key of the client's it is for
some products, none of which has the separator in its name; and a key of the client's is not as
long as a digest. -/
def CreateOrderDto.Legible (dto : CreateOrderDto) : Prop :=
  match truthy dto.idempotencyKey with
  | none => dto.items ≠ [] ∧ ∀ s ∈ products dto.items, '|' ∉ s.toList
  | some k => k.length ≠ 64

omit [Hashes] in
theorem CreateOrderDto.Legible.keyless (h : dto.Legible) (hkey : truthy dto.idempotencyKey = none) :
    dto.items ≠ [] ∧ ∀ s ∈ products dto.items, '|' ∉ s.toList := by
  unfold CreateOrderDto.Legible at h
  rwa [hkey] at h

omit [Hashes] in
theorem CreateOrderDto.Legible.keyed {k : String} (h : dto.Legible)
    (hkey : truthy dto.idempotencyKey = some k) : k.length ≠ 64 := by
  unfold CreateOrderDto.Legible at h
  rwa [hkey] at h

/-- **Requests whose products can be read off are not mistakable** for requests for others. -/
theorem products_perm_of_mistakable (hd : dto.Legible) (hd' : dto'.Legible)
    (h : truthy dto.idempotencyKey = none) (hmis : Mistakable dto dto') :
    (products dto.items).Perm (products dto'.items) := by
  unfold Mistakable at hmis
  cases h' : truthy dto'.idempotencyKey with
  | none =>
    rw [h'] at hmis
    obtain ⟨hne, hs⟩ := hd.keyless h
    obtain ⟨hne', hs'⟩ := hd'.keyless h'
    exact (productData_eq hne hne' hs hs').mp hmis
  | some k =>
    rw [h'] at hmis
    refine absurd ?_ (hd'.keyed h')
    rw [hmis, Hashes.sha256hex_length]

/-- The texts that are hashed for these requests. -/
def hashed (requests : CreateOrderDto → Prop) : Set String :=
  {text | ∃ dto, requests dto ∧ truthy dto.idempotencyKey = none ∧
    text = "SOLDOUT:" ++ productData dto.items}

/-- Where digests do not collide, requests with the same key are mistakable. -/
theorem mistakable_of_key {requests : CreateOrderDto → Prop}
    (hinj : Set.InjOn Hashes.sha256hex (hashed requests)) (hd : requests dto)
    (hd' : requests dto') (h : truthy dto.idempotencyKey = none)
    (hkey : idempotencyKey dto = idempotencyKey dto') : Mistakable dto dto' := by
  rw [idempotencyKey_keyless h] at hkey
  unfold Mistakable
  cases h' : truthy dto'.idempotencyKey with
  | none =>
    rw [idempotencyKey_keyless h'] at hkey
    exact (String.append_right_inj _).mp (hinj ⟨dto, hd, h, rfl⟩ ⟨dto', hd', h', rfl⟩ hkey)
  | some k =>
    rw [idempotencyKey_given h'] at hkey
    exact hkey.symm

/-- Orders are placed for these requests only. -/
def requested (requests : CreateOrderDto → Prop) : Regime where
  placed := fun k items => ∃ dto, requests dto ∧ k = idempotencyKey dto ∧ items = dto.items

/-- **A request is refused for an order of the same products**, where products can be read off: the
order it is told has them. -/
theorem refused_same_products {requests : CreateOrderDto → Prop}
    (hlegible : ∀ dto, requests dto → dto.Legible)
    (hinj : Set.InjOn Hashes.sha256hex (hashed requests))
    (hp : Pool.Reachable World.NoOrders (fun p a => Served p a ∧ Placing requests p a) p)
    (hi : Creates p i dto) (hkey : truthy dto.idempotencyKey = none) {x k : String}
    (hr : p.result? i = some (.error (.duplicateOrder x k))) :
    ∃ o ∈ p.world.orders, o.id = x ∧ (products o.items).Perm (products dto.items) := by
  obtain ⟨a, ha, hend⟩ := Option.bind_eq_some_iff.mp hr
  have hd : requests dto := by
    refine Pool.Reachable.acts
      (P := fun a : Activity application => ∀ dto ∈ a.tag.creates?, requests dto) ?_ ?_ ?_ hp a
      (List.mem_of_getElem? ha) dto (hi.tag ha)
    · rintro q t ⟨-, hq⟩ dto' hd'
      rcases t with r | t
      · cases r with
        | createOrder | createTestOrder => exact Option.some.inj hd' ▸ hq
        | _ => simp [System.begin, Job.creates?] at hd'
      · cases hd'
    · rintro u t ht dto' hd'
      obtain rfl := Option.some.inj ht
      cases hd'
    · exact fun _ _ _ _ h => h
  obtain ⟨g, hH⟩ := (flow_sound (requested requests)).reachable (hp.mono fun q b hb =>
    { Flow.Allowed.of_served hb.1 with
      placed := hb.2.mono fun dto' hd' => ⟨dto', hd', rfl, rfl⟩ })
  have hdone : JobDone _ _ a.tag := hH.post ha hend
  -- the order named in the error has the key of the request, by what its creation promised
  have hrefused : p.world.Keyed x (idempotencyKey dto) := by
    have htag := hi.tag ha
    rcases a with ⟨r | t, prog⟩
    · cases r with
      | createOrder | createTestOrder => exact Option.some.inj htag ▸ hdone x k rfl
      | _ => simp [Job.creates?] at htag
    · cases htag
  obtain ⟨o, ho, hid, hok⟩ := hrefused
  obtain ⟨dto', hd', hkeys, hitems⟩ := hH.inv.books.placed o ho _ hok
  refine ⟨o, ho, hid, ?_⟩
  rw [hitems]
  exact (products_perm_of_mistakable (hlegible dto hd) (hlegible dto' hd') hkey
    (mistakable_of_key hinj hd hd' hkey hkeys)).symm

end Refused

/-! ### The same products, and the same text -/

/-- An order is placed, and the same products are ordered again. -/
def orderedAgain (dto : CreateOrderDto) : List (Action application) :=
  .start (.request (.createOrder twoProducts "user-1")) :: (turns 0 3 "order-1" ++
    .start (.request (.createTestOrder dto "user-2")) :: turns 2 1 "")

/-- The requests of such a run. -/
def OrderedAgain (dto : CreateOrderDto) (p : Pool application) (a : Action application) : Prop :=
  Served p a ∧ Placing (fun d => d = twoProducts ∨ d = dto) p a

instance OrderedAgain.decidable (dto : CreateOrderDto) (p : Pool application)
    (a : Action application) : Decidable (OrderedAgain dto p a) := instDecidableAnd

/-- The pool after the second request. -/
def refusedAgain : Pool application :=
  (Pool.play (OrderedAgain sameTwo) ⟨World.empty 0, []⟩ (orderedAgain sameTwo)).get
    (by decide +kernel)

theorem refusedAgain_reachable : Pool.Reachable World.NoOrders (OrderedAgain sameTwo) refusedAgain :=
  Pool.reachable_of_play (World.noOrders_empty 0) _

theorem refused_same_products_again : ∃ o ∈ refusedAgain.world.orders, o.id = "order-1" ∧
    (products o.items).Perm (products sameTwo.items) := by
  refine refused_same_products (i := 2) ?_ ?_ refusedAgain_reachable (by decide +kernel) rfl
    (k := Hashes.sha256hex ("SOLDOUT:" ++ productData sameTwo.items)) (by decide +kernel)
  · rintro dto (rfl | rfl)
    · exact show _ ∧ _ from ⟨by decide, by decide +kernel⟩
    · exact show _ ∧ _ from ⟨by decide, by decide +kernel⟩
  · have hdata : productData twoProducts.items = productData sameTwo.items :=
      productData_perm (by decide +kernel)
    rintro _ ⟨dto, rfl | rfl, -, rfl⟩ _ ⟨dto', rfl | rfl, -, rfl⟩ - <;> simp [hdata]

/-- Another product, whose id is what the two are joined to. -/
def joinedProduct : CreateOrderDto := ⟨[⟨"a|b", "C", 1, 20⟩], "elsewhere", none⟩

/-- The pool after a request for it. -/
def refusedJoined : Pool application :=
  (Pool.play (OrderedAgain joinedProduct) ⟨World.empty 0, []⟩ (orderedAgain joinedProduct)).get
    (by decide +kernel)

/-- **A request is refused for an order of other products**, though no digests collide. -/
theorem refused_other_products : ∃ p : Pool application,
    Pool.Reachable World.NoOrders (OrderedAgain joinedProduct) p ∧
      Set.InjOn Hashes.sha256hex (hashed fun d => d = twoProducts ∨ d = joinedProduct) ∧
      Creates p 2 joinedProduct ∧ truthy joinedProduct.idempotencyKey = none ∧
      p.result? 2 = some (.error (.duplicateOrder "order-1" (idempotencyKey joinedProduct))) ∧
      ¬∃ o ∈ p.world.orders, o.id = "order-1" ∧
        (products o.items).Perm (products joinedProduct.items) := by
  refine ⟨refusedJoined, Pool.reachable_of_play (World.noOrders_empty 0) _, ?_,
    by decide +kernel, rfl, by decide +kernel, by decide +kernel⟩
  have hdata : productData twoProducts.items = productData joinedProduct.items := by decide +kernel
  rintro _ ⟨dto, rfl | rfl, -, rfl⟩ _ ⟨dto', rfl | rfl, -, rfl⟩ - <;> simp [hdata]

end CqrsSaga
