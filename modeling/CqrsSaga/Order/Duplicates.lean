import CqrsSaga.Async.Protocol
import CqrsSaga.App.Specs
import CqrsSaga.App.Orders

/-!
# Duplicate orders

Any number of `CreateOrderHandler.execute` runs race for one idempotency key.  Whoever
inserts the order is remembered in the ghost state, together with who owes the
`OrderCreatedEvent`: the run itself, then the callback it has handed to
`setImmediate`.  A run that finds the order, or is refused by the unique index and
looks again, finds the order of the one who is remembered.

## Main definitions

* `Creation`, `creations` — the runs, and the system of any number of them.
* `creationProtocol k` — what the runs agree on about the key `k`.

## Main results

* `creations_sound` — the runs keep to the protocol.
* `creation_once` — **one run creates the order, all others report it as a duplicate.**
-/

namespace CqrsSaga

open CreateOrderHandler

/-- A run of the handler, or a callback it has handed over. -/
inductive Creation
  | execute (command : CreateOrderCommand)
  | publish (events : List Event)
  deriving DecidableEq

/-- The program of a run. -/
def Creation.run : Creation → Async App (Option Order)
  | execute command => some <$> CreateOrderHandler.execute command
  | publish events => (fun _ => none) <$> eventBus.publishAll events

/-- Any number of runs of the handler. -/
abbrev creations : System app where
  Tag := Creation
  Res := Option Order
  body := Creation.run
  spawned := fun
    | .publishAll events => some (.publish events)
    | _ => none

/-- The event of an order created under the key `k`. -/
def isCreated (k : String) : Event → Bool
  | .orderCreated e => decide (e.correlationId = some k)
  | _ => false

namespace Creations

/-- The runs looked at: no database operation fails, except by the unique index. -/
def Allowed (p : Pool creations) : Action creations → Prop
  | .start (.execute _) => True
  | .start (.publish _) => False
  | .run i c => p.Unfailing i c
  | .tick _ => True

/-- No order with the key `k` is stored, and none was announced. -/
def Fresh (k : String) (w : World) : Prop :=
  (∀ o ∈ w.orders, o.idempotencyKey ≠ some k) ∧ w.published.filter (isCreated k) = []

/-- What became of a key: by whom its order was created, under which id, and who still
has to announce it. -/
structure KeyState where
  created : Option (ℕ × String)
  announcer : Option ℕ

/-- An order with the key and this id is stored. -/
def Stored (k : String) (w : World) (id : String) : Prop :=
  ∃ o ∈ w.orders, o.id = id ∧ o.idempotencyKey = some k

/-- The order of this id was announced, and nothing else. -/
def Announced (k : String) (w : World) (id : String) : Prop :=
  ∃ e, w.published.filter (isCreated k) = [.orderCreated e] ∧ e.orderId = id

/-- The invariant. -/
def Inv (k : String) (w : World) (g : KeyState) : Prop :=
  match g with
  | ⟨none, none⟩ => Fresh k w
  | ⟨none, some _⟩ => False
  | ⟨some (_, id), some _⟩ => Stored k w id ∧ w.published.filter (isCreated k) = []
  | ⟨some (_, id), none⟩ => Stored k w id ∧ Announced k w id

/-- Activity `i` has not created the order and does not have to announce it. -/
def Idle (i : ℕ) (_ : World) (g : KeyState) : Prop :=
  (∀ id, g.created ≠ some (i, id)) ∧ g.announcer ≠ some i

/-- The order was created by `j`. -/
def CreatedBy (j : ℕ) (id : String) (_ : World) (g : KeyState) : Prop := g.created = some (j, id)

/-- What a run of the handler answers. -/
def Answered (k : String) (i : ℕ) (r : Except Err (Option Order)) (g : KeyState) : Prop :=
  (∃ o, r = .ok (some o) ∧ o.idempotencyKey = some k ∧ g.created = some (i, o.id)) ∨
    ∃ j id, r = .error (.duplicateOrder id k) ∧ g.created = some (j, id) ∧ j ≠ i

/-- What an activity has established when it ends. -/
def Ended (k : String) (i : ℕ) (t : Creation) (r : Except Err (Option Order)) (g : KeyState) :
    Prop :=
  match t with
  | .execute command =>
    (command.correlationId = some k → Answered k i r g) ∧
      (command.correlationId ≠ some k → ∀ id, g.created ≠ some (i, id))
  | .publish _ => ∀ id, g.created ≠ some (i, id)

/-- What the runs agree on about the key `k`. -/
def creationProtocol (k : String) : Protocol creations where
  Ghost := KeyState
  Inv := Inv k
  Mono := fun _ g _ g' => ∀ x, g.created = some x → g'.created = some x
  Keep := fun i _ g _ g' => (g.announcer = some i → g' = g) ∧
    (g.announcer ≠ some i → g'.announcer ≠ some i) ∧
      ∀ id, g.created ≠ some (i, id) → g'.created ≠ some (i, id)
  CanRun := fun w _ i o c => w.Unfailing i o c
  Assert := fun _ _ _ _ => True
  Fits := fun g l => (∀ x, g.created = some x → x.1 < l.length) ∧
    ∀ a, g.announcer = some a → a < l.length
  Born := fun i t _ g => (∀ id, g.created ≠ some (i, id)) ∧
    match t with
    | .execute _ => g.announcer ≠ some i
    | .publish events => events.filter (isCreated k) = [] ∧ g.announcer ≠ some i ∨
      ∃ j e, g = ⟨some (j, e.orderId), some i⟩ ∧ events.filter (isCreated k) = [.orderCreated e]
  Post := fun i t r _ g => g.announcer ≠ some i ∧ Ended k i t r g
  mono_refl := fun _ _ _ h => h
  mono_trans := fun h h' x hx => h' x (h x hx)
  keep_refl := fun _ _ _ => ⟨fun _ => rfl, fun h => h, fun _ h => h⟩
  keep_trans := by
    rintro i w g w' g' w'' g'' ⟨h₁, h₂, h₃⟩ ⟨h₁', h₂', h₃'⟩
    refine ⟨fun ha => ?_, fun ha => h₂' (h₂ ha), fun id hc => h₃' id (h₃ id hc)⟩
    have heq := h₁ ha
    subst heq
    exact h₁' ha

variable {k : String} {i j : ℕ} {w w' : World} {g : KeyState} {id : String}

theorem idle_stable : (creationProtocol k).Stable i (Idle i) :=
  fun _ _ _ _ _ hk _ h => ⟨fun id => hk.2.2 id (h.1 id), hk.2.1 h.2⟩

theorem createdBy_lasting : (creationProtocol k).Lasting (CreatedBy j id) :=
  fun _ _ _ _ hm _ h => hm _ h

/-- A stored order with the key is the one the ghost state remembers. -/
theorem created_of_mem (hI : Inv k w g) {o : Order} (ho : o ∈ w.orders)
    (hk : o.idempotencyKey = some k) : ∃ j, g.created = some (j, o.id) := by
  match g with
  | ⟨none, none⟩ => exact absurd hk (hI.1 o ho)
  | ⟨none, some _⟩ => exact hI.elim
  | ⟨some (j, id), some _⟩ =>
    obtain ⟨x, hx, rfl, hxk⟩ := hI.1
    exact ⟨j, by rw [Table.eq_of_uk hx ho hxk hk]⟩
  | ⟨some (j, id), none⟩ =>
    obtain ⟨x, hx, rfl, hxk⟩ := hI.1
    exact ⟨j, by rw [Table.eq_of_uk hx ho hxk hk]⟩

/-- The order the ghost state remembers is stored. -/
theorem stored_of_created (hI : Inv k w g) {x : ℕ × String} (hg : g.created = some x) :
    Stored k w x.2 := by
  match g, hg with
  | ⟨some _, some _⟩, rfl => exact hI.1
  | ⟨some _, none⟩, rfl => exact hI.1

/-- The invariant speaks of the stored orders with the key and of the events published. -/
theorem inv_of_same (ho : ∀ id, Stored k w' id ↔ Stored k w id)
    (hp : w'.published.filter (isCreated k) = w.published.filter (isCreated k)) (hI : Inv k w g) :
    Inv k w' g := by
  have hfresh : (∀ o ∈ w'.orders, o.idempotencyKey ≠ some k) ↔
      ∀ o ∈ w.orders, o.idempotencyKey ≠ some k := by
    constructor
    · intro h o hmem hk
      obtain ⟨x, hx, -, hxk⟩ := (ho o.id).mpr ⟨o, hmem, rfl, hk⟩
      exact h x hx hxk
    · intro h o hmem hk
      obtain ⟨x, hx, -, hxk⟩ := (ho o.id).mp ⟨o, hmem, rfl, hk⟩
      exact h x hx hxk
  match g with
  | ⟨none, none⟩ => exact ⟨hfresh.mpr hI.1, hp.trans hI.2⟩
  | ⟨none, some _⟩ => exact hI
  | ⟨some _, some _⟩ => exact ⟨(ho _).mpr hI.1, hp.trans hI.2⟩
  | ⟨some _, none⟩ =>
    obtain ⟨hs, e, he, hid⟩ := hI
    exact ⟨(ho _).mpr hs, e, hp.trans he, hid⟩

/-- Nothing about the key has changed. -/
theorem unseen_of_same (ho : ∀ id, Stored k w' id ↔ Stored k w id)
    (hp : w'.published.filter (isCreated k) = w.published.filter (isCreated k)) :
    (creationProtocol k).Unseen w w' :=
  fun _ hI => ⟨inv_of_same ho hp hI, fun _ h => h, fun _ => ⟨fun _ => rfl, fun h => h, fun _ h => h⟩⟩

/-! ### The operations -/

/-- Without failures an operation is performed. -/
theorem atomic_of_perform {o : Op} {Φ : Except Err (Op.Val o) → World → KeyState → Prop}
    (h : ∀ c w' r ts, w.Unfailing i o c → w.exec i o c = some (w', r, ts) →
      w.perform i c o = some (w', r, ts) → ∀ l, i < l.length → (creationProtocol k).Fits g l →
        (creationProtocol k).Settles i l w g w' ts (Φ r)) :
    (creationProtocol k).atomic i o Φ w g :=
  ⟨trivial, fun c w' r ts hc he l hi hf => h c w' r ts hc he (hc.perform he) l hi hf⟩

/-- What a query for the key answers. -/
def Found (i : ℕ) (r : Except Err (Option Order)) (w : World) (g : KeyState) : Prop :=
  Idle i w g ∧ ∃ v, r = .ok v ∧ ∀ o, v = some o → ∃ j, CreatedBy j o.id w g

theorem found_stable (r : Except Err (Option Order)) :
    (creationProtocol k).Stable i (Found i r) := by
  rintro w g w' g' hm hk hI ⟨hi, v, rfl, hv⟩
  refine ⟨idle_stable hm hk hI hi, v, rfl, fun o ho => ?_⟩
  obtain ⟨j, hj⟩ := hv o ho
  exact ⟨j, createdBy_lasting hm hI hj⟩

theorem findOne_triple : (creationProtocol k).Triple i (Idle i)
    (orderRepository.findOne { idempotencyKey := some k }) (Found i) := by
  refine .perform idle_stable found_stable fun w g hI hi => atomic_of_perform ?_
  intro c w' r ts _ _ hp l _ hf
  simp only [World.perform, Option.some.injEq, Prod.mk.injEq] at hp
  obtain ⟨rfl, rfl, rfl⟩ := hp
  refine .refl hI hf ⟨hi, _, rfl, fun o ho => ?_⟩
  exact created_of_mem hI (Table.mem_of_find? ho) (OrderWhere.selects_key (Table.find?_some ho) rfl)

/-- Once the order is there, a query for the key finds it. -/
theorem findOne_created_triple : (creationProtocol k).Triple i
    (fun w g => Idle i w g ∧ CreatedBy j id w g)
    (orderRepository.findOne { idempotencyKey := some k })
    fun r w g => (Idle i w g ∧ CreatedBy j id w g) ∧ ∃ o, r = .ok (some o) ∧ o.id = id := by
  have hst : (creationProtocol k).Stable i fun w g => Idle i w g ∧ CreatedBy j id w g :=
    idle_stable.and createdBy_lasting.stable
  refine .perform hst (fun r => hst.and (.const _)) fun w g hI hi => atomic_of_perform ?_
  intro c w' r ts _ _ hp l _ hf
  simp only [World.perform, Option.some.injEq, Prod.mk.injEq] at hp
  obtain ⟨rfl, rfl, rfl⟩ := hp
  obtain ⟨x, hx, hxid, hxk⟩ := stored_of_created hI hi.2
  refine .refl hI hf ⟨hi, x, ?_, hxid⟩
  -- the index leaves no other row to be found
  have huniq : ∀ y ∈ w.orders, OrderWhere.selects { idempotencyKey := some k } y = true → y = x := by
    intro y hy hsel
    exact Table.eq_of_uk hy hx (OrderWhere.selects_key hsel rfl) hxk
  exact congrArg Except.ok (Table.find?_eq_some hx (by simp [OrderWhere.selects, hxk]) huniq)

/-- What an insert under the key leads to. -/
def Inserted (k : String) (i : ℕ) (r : Except Err Order) (w : World) (g : KeyState) : Prop :=
  (∃ o, r = .ok o ∧ o.idempotencyKey = some k ∧ g = ⟨some (i, o.id), some i⟩) ∨
    ∃ j id, r = .error (.uniqueViolation k) ∧ Idle i w g ∧ CreatedBy j id w g

theorem inserted_stable (r : Except Err Order) : (creationProtocol k).Stable i (Inserted k i r) := by
  rintro w g w' g' hm hk hI (⟨o, rfl, ho, rfl⟩ | ⟨j, id, rfl, hi, hj⟩)
  · exact Or.inl ⟨o, rfl, ho, hk.1 rfl⟩
  · exact Or.inr ⟨j, id, rfl, idle_stable hm hk hI hi, createdBy_lasting hm hI hj⟩

theorem insert_triple {n : NewOrder} (hn : n.idempotencyKey = some k) :
    (creationProtocol k).Triple i (Idle i) (orderRepository.insert n) (Inserted k i) := by
  refine .perform idle_stable inserted_stable fun w g hI hi => atomic_of_perform ?_
  intro c w' r ts hc he hp l hl hf
  have hframe := World.perform_frame hp
  obtain ⟨hins, rfl⟩ := World.perform_orderInsert hp
  rcases World.insertOrder_cases hins with ⟨rfl, rfl⟩ | ⟨rfl, key, hkey, rfl, x, hx, hxk⟩ |
    ⟨amount, -, rfl, -, hfresh, hmem⟩
  · obtain ⟨key, hkey⟩ := hc.error he
    simp at hkey
  · obtain rfl : k = key := Option.some.inj (hn.symm.trans hkey)
    obtain ⟨j, hj⟩ := created_of_mem hI hx hxk
    exact .refl hI hf (Or.inr ⟨j, x.id, rfl, hi, hj⟩)
  · -- the index lets the insert through only where nothing was created
    have hnone : g.created = none := by
      cases hg : g.created with
      | none => rfl
      | some x =>
        obtain ⟨o, ho, -, hok⟩ := stored_of_created hI hg
        exact absurd hok (hfresh k hn o ho)
    obtain ⟨-, hpub⟩ : Fresh k w := by
      obtain ⟨created, _ | _⟩ := g <;> obtain rfl : created = none := hnone
      · exact hI
      · exact hI.elim
    refine .quiet rfl ⟨some (i, c.text), some i⟩ ⟨?_, ?_⟩ ?_ ?_ ?_ ?_
    · exact ⟨_, (hmem _).mpr (Or.inl rfl), rfl, hn⟩
    · rw [hframe.published (by simp [Op.writes])]
      exact hpub
    · intro x hx
      rw [hnone] at hx
      simp at hx
    · intro a _ hai
      refine ⟨fun ha => ?_, fun _ h => hai (Option.some.inj h).symm, fun id _ h => ?_⟩
      · obtain ⟨created, announcing⟩ := g
        obtain rfl : created = none := hnone
        obtain rfl : announcing = some _ := ha
        exact hI.elim
      · exact hai (congrArg Prod.fst (Option.some.inj h)).symm
    · refine ⟨fun x hx => ?_, fun a ha => ?_⟩
      · rw [← Option.some.inj hx]
        exact hl
      · rw [← Option.some.inj ha]
        exact hl
    · exact Or.inl ⟨_, rfl, hn, rfl⟩

/-- What the creator knows once the event is on its way. -/
def Handed (i : ℕ) (id : String) (_ : World) (g : KeyState) : Prop :=
  g.created = some (i, id) ∧ g.announcer ≠ some i

theorem handed_stable : (creationProtocol k).Stable i (Handed i id) :=
  fun _ _ _ _ hm hk _ h => ⟨hm _ h.1, hk.2.1 h.2⟩

theorem setImmediate_triple {o : Order} {e : OrderCreatedEvent} (he : e.orderId = o.id)
    (hk : e.correlationId = some k) :
    (creationProtocol k).Triple i (fun _ g => g = ⟨some (i, o.id), some i⟩)
      (setImmediate (.publishAll [.orderCreated e]))
      fun r w g => (∃ v, r = .ok v) ∧ Handed i o.id w g := by
  have hst : (creationProtocol k).Stable i fun _ g => g = ⟨some (i, o.id), some i⟩ := by
    rintro w g w' g' hm hk hI rfl
    exact hk.1 rfl
  refine .perform hst (fun r => (Protocol.Stable.const _).and handed_stable)
    fun w g hI hg => atomic_of_perform ?_
  -- the id of the new activity is the length of the list, so no other activity has it
  subst hg
  intro c w' r ts _ _ hp l hl hf
  simp only [World.perform, Option.some.injEq, Prod.mk.injEq] at hp
  obtain ⟨rfl, rfl, rfl⟩ := hp
  refine ⟨⟨some (i, o.id), some l.length⟩, hI, fun _ h => h, fun j hj hji => ?_, ?_, ?_, ⟨_, rfl⟩,
    rfl, ?_⟩
  · refine ⟨fun h => absurd (Option.some.inj h).symm hji, fun _ h => ?_, fun _ h => h⟩
    have : l.length = j := Option.some.inj h
    omega
  · refine ⟨fun x hx => ?_, fun a ha => ?_⟩
    · rw [← Option.some.inj hx]
      simp only [List.length_append]
      omega
    · rw [← Option.some.inj ha]
      simp
  · intro m t ht
    cases m with
    | succ m => cases ht
    | zero =>
      have ht' : t = .publish [.orderCreated e] := (Option.some.inj ht).symm
      subst ht'
      refine ⟨fun id h => ?_, Or.inr ⟨i, e, ?_, ?_⟩⟩
      · have : i = l.length := congrArg Prod.fst (Option.some.inj h)
        omega
      · rw [he]
        rfl
      · simp [isCreated, hk]
  · intro h
    have : l.length = i := Option.some.inj h
    omega

/-! ### The handler, under the key -/

section Key

variable {command : CreateOrderCommand} (hne : k ≠ "") (hkey : command.correlationId = some k)

/-- What a run that ends with `r` leaves behind, while it still may be looked at again. -/
def Leaves (k : String) (i : ℕ) (r : Except Err Order) (w : World) (g : KeyState) : Prop :=
  (∃ o, r = .ok o ∧ o.idempotencyKey = some k ∧ Handed i o.id w g) ∨
    ∃ e j id, r = .error e ∧ (e = .duplicateOrder id k ∨ e = .uniqueViolation k) ∧
      Idle i w g ∧ CreatedBy j id w g

theorem leaves_stable (r : Except Err Order) : (creationProtocol k).Stable i (Leaves k i r) := by
  rintro w g w' g' hm hk hI (⟨o, hr, ho, h⟩ | ⟨e, j, id, hr, he, hi, hj⟩)
  · exact Or.inl ⟨o, hr, ho, handed_stable hm hk hI h⟩
  · exact Or.inr ⟨e, j, id, hr, he, idle_stable hm hk hI hi, createdBy_lasting hm hI hj⟩

/-- What the check for a duplicate leaves behind. -/
def Checked (k : String) (i : ℕ) (r : Except Err Unit) (w : World) (g : KeyState) : Prop :=
  Idle i w g ∧ ∀ e, r = .error e → ∃ j id, e = .duplicateOrder id k ∧ CreatedBy j id w g

theorem checked_stable (r : Except Err Unit) : (creationProtocol k).Stable i (Checked k i r) := by
  rintro w g w' g' hm hk hI ⟨hi, he⟩
  refine ⟨idle_stable hm hk hI hi, fun e hr => ?_⟩
  obtain ⟨j, id, rfl, hj⟩ := he e hr
  exact ⟨j, id, rfl, createdBy_lasting hm hI hj⟩

include hne in
theorem checkDuplicate_triple :
    (creationProtocol k).Triple i (Idle i) (checkDuplicate (some k)) (Checked k i) := by
  unfold checkDuplicate
  rw [truthy_some hne]
  refine .bind _ findOne_triple (fun v => ?_) fun e => ?_
  · cases v with
    | none =>
      exact .ret (found_stable _) fun _ _ _ h => ⟨h.1, fun e he => by simp at he⟩
    | some o =>
      refine .throw (found_stable _) fun w g _ h => ⟨h.1, fun e he => ?_⟩
      obtain ⟨-, v, hv, hex⟩ := h
      obtain ⟨j, hj⟩ := hex o (Except.ok.inj hv).symm
      exact ⟨j, o.id, (Except.error.inj he).symm, hj⟩
  · refine .assuming (A := False) (fun w g _ h => ?_) False.elim
    obtain ⟨-, v, hv, -⟩ := h
    simp at hv

include hne hkey in
theorem create_triple : (creationProtocol k).Triple i (Idle i) (create command) (Leaves k i) := by
  unfold create
  rw [hkey]
  refine .bind _ (checkDuplicate_triple hne) (fun _ => ?_) fun e => ?_
  · refine .bind _ ((insert_triple (n := newOrder command) hkey).pre fun _ _ _ h => h.1)
      (fun o => ?_) fun e => ?_
    · -- the order is stored; the event is handed over next
      refine .assuming (A := o.idempotencyKey = some k) ?_ fun ho => ?_
      · rintro w g - (⟨o', ho', hk, -⟩ | ⟨j, id, h, -⟩)
        · rw [Except.ok.inj ho']
          exact hk
        · simp at h
      refine .bind _ ((setImmediate_triple (o := o) (e := createdEvent o (some k)) rfl rfl).pre ?_)
        (fun _ => ?_) fun e => ?_
      · rintro w g - (⟨o', ho', -, hg⟩ | ⟨j, id, h, -⟩)
        · rw [Except.ok.inj ho']
          exact hg
        · simp at h
      · refine .ret ((Protocol.Stable.const _).and handed_stable) fun w g _ h => ?_
        exact Or.inl ⟨o, rfl, ho, h.2⟩
      · exact .assuming (A := False) (fun w g _ h => by obtain ⟨⟨v, hv⟩, -⟩ := h; simp at hv)
          False.elim
    · refine .throw (inserted_stable _) ?_
      rintro w g - (⟨o, ho, -⟩ | ⟨j, id, he, hi, hj⟩)
      · simp at ho
      · exact Or.inr ⟨_, j, id, rfl, Or.inr (Except.error.inj he), hi, hj⟩
  · refine .throw (checked_stable _) fun w g _ h => ?_
    obtain ⟨hi, he⟩ := h
    obtain ⟨j, id, hd, hj⟩ := he e rfl
    exact Or.inr ⟨e, j, id, rfl, Or.inl hd, hi, hj⟩

/-- What a run of the handler has established when it ends. -/
def Settled (k : String) (i : ℕ) (r : Except Err Order) (w : World) (g : KeyState) : Prop :=
  (∃ o, r = .ok o ∧ o.idempotencyKey = some k ∧ Handed i o.id w g) ∨
    ∃ j id, r = .error (.duplicateOrder id k) ∧ Idle i w g ∧ CreatedBy j id w g

theorem settled_stable (r : Except Err Order) : (creationProtocol k).Stable i (Settled k i r) := by
  rintro w g w' g' hm hk hI (⟨o, hr, ho, h⟩ | ⟨j, id, hr, hi, hj⟩)
  · exact Or.inl ⟨o, hr, ho, handed_stable hm hk hI h⟩
  · exact Or.inr ⟨j, id, hr, idle_stable hm hk hI hi, createdBy_lasting hm hI hj⟩

include hkey in
theorem recover_triple (e : Err) : (creationProtocol k).Triple i (Leaves k i (.error e))
    (recover command e) (Settled k i) := by
  -- both errors come with an order that is there already
  have hsplit : ∀ w g, Leaves k i (.error e) w g → ∃ j id,
      (e = .duplicateOrder id k ∨ e = .uniqueViolation k) ∧ Idle i w g ∧ CreatedBy j id w g := by
    rintro w g (⟨o, ho, -⟩ | ⟨e', j, id, he, hor, hi, hj⟩)
    · simp at ho
    · rw [Except.error.inj he]
      exact ⟨j, id, hor, hi, hj⟩
  intro w g hI h
  obtain ⟨j, id, rfl | rfl, hi, hj⟩ := hsplit w g h
  · have hthrow : recover command (.duplicateOrder id k) = .throw (.duplicateOrder id k) := by
      simp [recover, Err.code]
    rw [hthrow]
    exact Protocol.Triple.throw (F := fun w g => Idle i w g ∧ CreatedBy j id w g)
      (idle_stable.and createdBy_lasting.stable)
      (fun w g _ h => Or.inr ⟨j, id, rfl, h.1, h.2⟩) w g hI ⟨hi, hj⟩
  · have hcond : (Err.uniqueViolation k).code = some "23505" ∧
        includes ((Err.uniqueViolation k).detail.getD "") "idempotencyKey" = true :=
      ⟨rfl, includes_append _ _ _⟩
    unfold recover
    rw [if_pos hcond, hkey]
    refine Protocol.Triple.bind (F := fun w g => Idle i w g ∧ CreatedBy j id w g) _
      findOne_created_triple (fun v => ?_) (fun e => ?_) w g hI ⟨hi, hj⟩
    · refine .assuming (A := ∃ o, v = some o ∧ o.id = id) (fun w g _ h => ?_) ?_
      · obtain ⟨-, o, ho, hid⟩ := h
        exact ⟨o, Except.ok.inj ho, hid⟩
      · rintro ⟨o, rfl, rfl⟩
        refine .throw ((idle_stable.and createdBy_lasting.stable).and (.const _)) fun w g _ h => ?_
        exact Or.inr ⟨j, o.id, rfl, h.1.1, h.1.2⟩
    · refine .assuming (A := False) (fun w g _ h => ?_) False.elim
      obtain ⟨-, o, ho, -⟩ := h
      simp at ho

include hne hkey in
/-- **A run under the key creates the order, or reports the order that is there.** -/
theorem execute_triple : (creationProtocol k).Triple i (Idle i) (execute command) (Settled k i) := by
  refine .handle _ (create_triple hne hkey) (fun e => recover_triple hkey e) fun o => ?_
  refine .ret (leaves_stable _) ?_
  rintro w g - (⟨o', ho', hk, h⟩ | ⟨e, j, id, he, -⟩)
  · exact Or.inl ⟨o', ho', hk, h⟩
  · simp at he

end Key

/-! ### Runs for other keys -/

/-- The operations of a run for another key. -/
def Foreign (k : String) : Op → Prop
  | .orderFindOne _ => True
  | .orderInsert n => n.idempotencyKey ≠ some k
  | .setImmediate (.publishAll events) => events.filter (isCreated k) = []
  | _ => False

theorem foreign_only {command : CreateOrderCommand} (hkey : command.correlationId ≠ some k) :
    (execute command).Only (Foreign k) := by
  have hcheck : (checkDuplicate command.correlationId).Only (Foreign k) := by
    unfold checkDuplicate
    cases truthy command.correlationId with
    | none => exact trivial
    | some key =>
      refine .bind (.perform trivial) fun v => ?_
      cases v <;> exact trivial
  refine .handle (.bind hcheck fun _ => .bind (.perform hkey) fun o =>
    .bind (.perform ?_) fun _ => trivial) fun e => ?_
  · simpa [Foreign, isCreated, createdEvent] using hkey
  · unfold recover
    split
    · refine .bind (.perform trivial) fun v => ?_
      cases v <;> exact trivial
    · exact trivial

/-- A run for another key does not concern the key. -/
theorem atomic_foreign {o : Op} (ho : Foreign k o) (hI : Inv k w g) (hi : Idle i w g) :
    (creationProtocol k).atomic i o (fun _ => Idle i) w g := by
  refine atomic_of_perform fun c w' r ts hc he hp l hl hf => ?_
  have hframe := World.perform_frame hp
  cases o with
  | orderFindOne q =>
    simp only [World.perform, Option.some.injEq, Prod.mk.injEq] at hp
    obtain ⟨rfl, -, rfl⟩ := hp
    exact .refl hI hf hi
  | orderInsert n =>
    obtain rfl := World.perform_tasks hp rfl
    obtain ⟨hins, -⟩ := World.perform_orderInsert hp
    have hpub := hframe.published (by simp [Op.writes])
    -- the order has another key, so the orders with this one are the same
    rcases World.insertOrder_cases hins with ⟨rfl, -⟩ | ⟨rfl, -⟩ | ⟨amount, -, -, -, -, hmem⟩
    · exact .refl hI hf hi
    · exact .refl hI hf hi
    · refine .unseen rfl hI (unseen_of_same (fun id => ?_) (by rw [hpub])) hf fun hI' hm hk =>
        idle_stable hm (hk i) hI' hi
      constructor
      · rintro ⟨x, hx, rfl, hxk⟩
        rcases (hmem x).mp hx with rfl | hx
        · exact absurd hxk ho
        · exact ⟨x, hx, rfl, hxk⟩
      · rintro ⟨x, hx, rfl, hxk⟩
        exact ⟨x, (hmem x).mpr (Or.inr hx), rfl, hxk⟩
  | setImmediate task =>
    cases task with
    | publishAll events =>
      simp only [World.perform, Option.some.injEq, Prod.mk.injEq] at hp
      obtain ⟨rfl, -, rfl⟩ := hp
      refine ⟨g, hI, fun _ h => h, fun j _ _ => ⟨fun _ => rfl, fun h => h, fun _ h => h⟩, ?_, ?_, hi⟩
      · refine ⟨fun x hx => ?_, fun a ha => ?_⟩
        · have := hf.1 x hx
          simp only [List.length_append]
          omega
        · have := hf.2 a ha
          simp only [List.length_append]
          omega
      · intro m t ht
        -- the activity handed over is new: nobody has spoken of it yet
        cases m with
        | succ m => cases ht
        | zero =>
          have ht' : t = .publish events := (Option.some.inj ht).symm
          subst ht'
          refine ⟨fun id h => ?_, Or.inl ⟨ho, fun h => ?_⟩⟩
          · exact absurd (hf.1 _ h) (Nat.lt_irrefl _)
          · exact absurd (hf.2 _ h) (Nat.lt_irrefl _)
    | _ => exact ho.elim
  | _ => exact ho.elim

/-! ### Soundness -/

theorem publish_triple (events : List Event) :
    (creationProtocol k).Triple i
      (fun w g => (creationProtocol k).Born i (.publish events) w g) (eventBus.publishAll events)
      fun _ => Idle i := by
  have hst : (creationProtocol k).Stable i
      fun w g => (creationProtocol k).Born i (.publish events) w g := by
    rintro w g w' g' hm hk hI ⟨hc, ⟨hev, ha⟩ | ⟨j, e, rfl, hev⟩⟩
    · exact ⟨fun id => hk.2.2 id (hc id), Or.inl ⟨hev, hk.2.1 ha⟩⟩
    · obtain rfl := hk.1 rfl
      exact ⟨hc, Or.inr ⟨j, e, rfl, hev⟩⟩
  refine .perform hst (fun _ => idle_stable) fun w g hI hb => atomic_of_perform ?_
  intro c w' r ts _ _ hp l hl hf
  simp only [World.perform, Option.some.injEq, Prod.mk.injEq] at hp
  obtain ⟨rfl, -, rfl⟩ := hp
  have hts : ((events.flatMap Event.deliveries).map Task.deliver).filterMap creations.spawned = [] := by
    rw [List.filterMap_map]
    exact List.filterMap_eq_nil_iff.mpr fun _ _ => rfl
  have hfilter : (w.published ++ events).filter (isCreated k) =
      w.published.filter (isCreated k) ++ events.filter (isCreated k) := List.filter_append ..
  obtain ⟨hc, ⟨hev, ha⟩ | ⟨j, e, rfl, hev⟩⟩ := hb
  · refine .unseen hts hI (unseen_of_same (fun _ => Iff.rfl) ?_) hf fun _ _ _ => ⟨hc, ha⟩
    rw [hfilter, hev, List.append_nil]
  · obtain ⟨hs, hpub⟩ := hI
    refine .quiet hts ⟨some (j, e.orderId), none⟩ ⟨hs, e, ?_, rfl⟩ (fun _ h => h) ?_ ?_
      ⟨hc, fun h => by simp at h⟩
    · rw [hfilter, hpub, hev, List.nil_append]
    · intro a _ hai
      exact ⟨fun h => absurd (Option.some.inj h).symm hai, fun _ h => by simp at h, fun _ h => h⟩
    · exact ⟨hf.1, fun a h => by simp at h⟩

theorem body_wp (hne : k ≠ "") {t : Creation} (hb : (creationProtocol k).Born i t w g)
    (hI : Inv k w g) :
    (creationProtocol k).wp i t.run ((creationProtocol k).Post i t) w g := by
  cases t with
  | execute command =>
    have hi : Idle i w g := hb
    refine Protocol.wp_bind ?_
    -- a run with another key is idle throughout
    by_cases hkey : command.correlationId = some k
    · refine Protocol.wp_mono ?_ (execute_triple hne hkey w g hI hi)
      rintro (e | o) w g hI hS
      · refine (settled_stable _).later hS |>.mono ?_
        rintro w g - (⟨o, ho, -⟩ | ⟨j, id, he, hi, hj⟩)
        · simp at ho
        · refine ⟨hi.2, fun _ => Or.inr ⟨j, id, ?_, hj, fun h => hi.1 id (h ▸ hj)⟩,
            fun h => absurd hkey h⟩
          rw [Except.error.inj he]
      · refine (settled_stable _).later hS |>.mono ?_
        rintro w g - (⟨o', ho, hk, hc, ha⟩ | ⟨j, id, he, -⟩)
        · refine ⟨ha, fun _ => Or.inl ⟨o, rfl, ?_, ?_⟩, fun h => absurd hkey h⟩
          · rw [Except.ok.inj ho]
            exact hk
          · rw [Except.ok.inj ho]
            exact hc
        · simp at he
    · refine Protocol.wp_mono ?_
        (Protocol.wp_of_only idle_stable (fun o w g => atomic_foreign) (foreign_only hkey) hi)
      rintro (e | o) w g hI hi
      · exact idle_stable.later hi |>.mono fun w g _ hi =>
          ⟨hi.2, fun h => absurd h hkey, fun _ => hi.1⟩
      · exact idle_stable.later hi |>.mono fun w g _ hi =>
          ⟨hi.2, fun h => absurd h hkey, fun _ => hi.1⟩
  | publish events =>
    refine Protocol.wp_bind (Protocol.wp_mono ?_ (publish_triple events w g hI hb))
    rintro (e | v) w g hI hi
    · exact idle_stable.later hi |>.mono fun w g _ hi => ⟨hi.2, hi.1⟩
    · exact idle_stable.later hi |>.mono fun w g _ hi => ⟨hi.2, hi.1⟩

/-- **The runs keep to the protocol.** -/
theorem creations_sound (hne : k ≠ "") : (creationProtocol k).Sound (Fresh k) Allowed where
  init := fun w hw => ⟨⟨none, none⟩, hw, fun x h => by simp at h, fun a h => by simp at h⟩
  start := by
    intro p t g ha hI hf
    have hlen : p.tags.length = p.acts.length := by simp [Pool.tags]
    refine ⟨g, hI, fun _ h => h, fun _ _ => ⟨fun _ => rfl, fun h => h, fun _ h => h⟩, ?_, ?_⟩
    · refine ⟨fun x hx => ?_, fun a h => ?_⟩
      · have := hf.1 x hx
        simp only [List.length_append]
        omega
      · have := hf.2 a h
        simp only [List.length_append]
        omega
    · have hc : ∀ id, g.created ≠ some (p.acts.length, id) := by
        intro id h
        have := hf.1 _ h
        rw [hlen] at this
        exact absurd this (Nat.lt_irrefl _)
      have han : g.announcer ≠ some p.acts.length := by
        intro h
        have := hf.2 _ h
        rw [hlen] at this
        exact absurd this (Nat.lt_irrefl _)
      cases t with
      | execute command => exact ⟨hc, han⟩
      | publish events => exact ha.elim
  tick := fun p d g _ hI => unseen_of_same (fun _ => Iff.rfl) rfl g hI
  canRun := fun p i c t o k' g ha hi _ => ha.world hi
  body := fun i t w g hb hI => body_wp hne hb hI

end Creations

open Creations

/-- Activity `i` is a run of the handler under the key `k`. -/
def RunsUnder (p : Pool creations) (k : String) (i : ℕ) : Prop :=
  ∃ command, p.tags[i]? = some (.execute command) ∧ command.correlationId = some k

/-- Activity `i` has returned or thrown `r`. -/
def EndedWith (p : Pool creations) (i : ℕ) (r : Except Err (Option Order)) : Prop :=
  ∃ a, p.acts[i]? = some a ∧ a.prog.result? = some r

/-- **One run creates the order, all others report it as a duplicate.**  Of any number of
runs under a non-empty key for which no order was stored, raced by runs for any other
keys, exactly one returns a newly stored order once all have ended; exactly one event was
published for the key, and it is that order's; and every other run has thrown a
`DuplicateOrderException` with the id of that order. -/
theorem creation_once {k : String} (hne : k ≠ "") {p : Pool creations}
    (hp : Pool.Reachable (Fresh k) Allowed p) (hq : p.Quiescent) (hrun : ∃ i, RunsUnder p k i) :
    ∃ i o, RunsUnder p k i ∧ EndedWith p i (.ok (some o)) ∧ Stored k p.world o.id ∧
      Announced k p.world o.id ∧
      ∀ j, RunsUnder p k j → j ≠ i → EndedWith p j (.error (.duplicateOrder o.id k)) := by
  obtain ⟨g, hH⟩ := (creations_sound hne).reachable hp
  have hfits := hH.fits
  have hinv : Inv k p.world g := hH.inv
  have hlen : p.tags.length = p.acts.length := by simp [Pool.tags]
  -- whatever has ended has established its postcondition
  have hpost : ∀ i a, p.acts[i]? = some a →
      ∃ r, a.prog.result? = some r ∧ (creationProtocol k).Post i a.tag r p.world g := by
    intro i a hi
    obtain ⟨r, hr⟩ := Async.result?_isSome_of_awaited? (hq a (List.mem_of_getElem? hi))
    exact ⟨r, hr, hH.post hi hr⟩
  have hanswer : ∀ i, RunsUnder p k i → ∃ r, EndedWith p i r ∧ Answered k i r g := by
    rintro i ⟨command, hi, hk⟩
    rw [Pool.tags, List.getElem?_map] at hi
    obtain ⟨a, hi, ht⟩ := Option.map_eq_some_iff.mp hi
    obtain ⟨r, hr, -, hended⟩ := hpost i a hi
    rw [ht] at hended
    exact ⟨r, ⟨a, hi, hr⟩, hended.1 hk⟩
  -- some run has ended, so the order was created by somebody
  obtain ⟨c, hc⟩ : ∃ c, g.created = some c := by
    obtain ⟨i, hi⟩ := hrun
    obtain ⟨r, -, ⟨o, -, -, hg⟩ | ⟨j, id, -, hg, -⟩⟩ := hanswer i hi
    · exact ⟨_, hg⟩
    · exact ⟨_, hg⟩
  -- nobody owes the event any more
  have hann : g.announcer = none := by
    cases ha : g.announcer with
    | none => rfl
    | some a =>
      have hlt := hfits.2 a ha
      rw [hlen] at hlt
      obtain ⟨r, -, hown, -⟩ := hpost a _ (List.getElem?_eq_getElem hlt)
      exact absurd ha hown
  -- the creator is a run under the key
  have hcreator : RunsUnder p k c.1 := by
    have hlt := hfits.1 c hc
    rw [hlen] at hlt
    obtain ⟨r, -, -, hended⟩ := hpost c.1 _ (List.getElem?_eq_getElem hlt)
    cases ht : p.acts[c.1].tag with
    | execute command =>
      rw [ht] at hended
      by_cases hk : command.correlationId = some k
      · refine ⟨command, ?_, hk⟩
        rw [Pool.tags, List.getElem?_map, List.getElem?_eq_getElem hlt, Option.map_some, ht]
      · exact absurd hc (hended.2 hk c.2)
    | publish events =>
      rw [ht] at hended
      exact absurd hc (hended c.2)
  obtain ⟨r, hr, ⟨o, rfl, -, hg⟩ | ⟨j, id, -, hg, hj⟩⟩ := hanswer c.1 hcreator
  · have hid : c.2 = o.id := congrArg Prod.snd (Option.some.inj (hc.symm.trans hg))
    obtain ⟨hs, hev⟩ : Stored k p.world c.2 ∧ Announced k p.world c.2 := by
      obtain ⟨created, announcing⟩ := g
      obtain rfl : created = some c := hc
      obtain rfl : announcing = none := hann
      exact hinv
    refine ⟨c.1, o, hcreator, hr, hid ▸ hs, hid ▸ hev, fun j hj hji => ?_⟩
    obtain ⟨r', hr', ⟨o', -, -, hg'⟩ | ⟨j', id', rfl, hg', -⟩⟩ := hanswer j hj
    · exact absurd (congrArg Prod.fst (Option.some.inj (hg'.symm.trans hc))) hji
    · have hid' : id' = o.id := congrArg Prod.snd (Option.some.inj (hg'.symm.trans hg))
      rw [← hid']
      exact hr'
  · exact absurd (congrArg Prod.fst (Option.some.inj (hg.symm.trans hc))) hj

/-! ### Two runs race -/

instance Creations.decidableAllowed (p : Pool creations) : ∀ a, Decidable (Allowed p a)
  | .start (.execute _) => isTrue trivial
  | .start (.publish _) => isFalse id
  | .run i c => inferInstanceAs (Decidable (p.Unfailing i c))
  | .tick _ => isTrue trivial

/-- A command to order one thing. -/
def oneThing : CreateOrderCommand := ⟨"u", [⟨"p", "P", 1, 10⟩], "somewhere", some "k"⟩

/-- Both runs find nothing; the insert of the second is refused, and it looks again. -/
def race : List (Action creations) :=
  [.start (.execute oneThing), .start (.execute oneThing), .run 0 {}, .run 1 {},
    .run 0 { text := "o" }, .run 1 { text := "o'" }, .run 1 {}, .run 0 {}, .run 2 {}]

theorem race_played : (Pool.play Allowed ⟨World.empty 0, []⟩ race).isSome := by decide +kernel

/-- The runs after the race. -/
def raced : Pool creations := (Pool.play Allowed ⟨World.empty 0, []⟩ race).get race_played

theorem creation_once_raced : ∃ i o, RunsUnder raced "k" i ∧ EndedWith raced i (.ok (some o)) ∧
    Stored "k" raced.world o.id ∧ Announced "k" raced.world o.id ∧
    ∀ j, RunsUnder raced "k" j → j ≠ i → EndedWith raced j (.error (.duplicateOrder o.id "k")) :=
  creation_once (by decide)
    (Pool.reachable_of_play ⟨fun o h => absurd h (Table.notMem_empty o), rfl⟩ race_played)
    (by decide +kernel) ⟨0, oneThing, by decide +kernel, rfl⟩

end CqrsSaga
