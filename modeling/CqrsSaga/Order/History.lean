import CqrsSaga.App.Orders
import CqrsSaga.App.Rows
import CqrsSaga.Async.Solo

/-!
# The history of an order

Cancellations and confirmations of one order, each run to its end before the next begins; reads and
saves may fail.  What an execution publishes it hands to `setImmediate`, and the callbacks run in
the order they were handed over.  The published changes of status, replayed, then give back
the stored status.

## Main definitions

* `OrderCommand`, `executeInTurn` — the commands, and a sequence of them.
* `inTurn` — the circumstances; what is noted is the events handed over.
* `Batch`, `Replays` — the events of one change of status, and of a history.

## Main results

* `status_history` — **the events replay to the stored status**, and an execution without a change
  publishes nothing.
-/

namespace CqrsSaga

/-- A command that decides about an order. -/
inductive OrderCommand
  | cancel (command : CancelOrderCommand)
  | confirm (command : ConfirmOrderCommand)

namespace OrderCommand

/-- The order a command is about. -/
def orderId : OrderCommand → String
  | cancel command => command.orderId
  | confirm command => command.orderId

/-- The handler of a command. -/
def execute : OrderCommand → Async App Unit
  | cancel command => CancelOrderHandler.execute command
  | confirm command => ConfirmOrderHandler.execute command

end OrderCommand

/-- The commands are executed one after the other, whether or not one of them throws. -/
def executeInTurn : List OrderCommand → Async App Unit
  | [] => return ()
  | command :: commands => do
    command.execute.handle fun _ => return ()
    executeInTurn commands

/-- The events an operation hands over to be published. -/
def Op.handedOver : Op → List (List Event)
  | .setImmediate (.publishAll events) => [events]
  | _ => []

/-- An operation that reads or saves an order. -/
def Op.onOrder : Op → Bool
  | .orderFindOne _ => true
  | .orderSave _ => true
  | _ => false

/-- The circumstances: nobody else touches the row of the order `x`, and reads and saves may
fail. -/
def inTurn (x : String) : Solo app (List Event) where
  Aside := fun w w' => ∀ o, o.id = x → (o ∈ w'.orders ↔ o ∈ w.orders)
  Can := fun _ o c => c.fault ≠ none → o.onOrder = true
  note := fun o _ => o.handedOver

instance (x : String) (w : World) (o : Op) (c : Choice) : Decidable ((inTurn x).Can w o c) :=
  inferInstanceAs (Decidable (c.fault ≠ none → o.onOrder = true))

/-- The events of a change of the order `x` from one status to another. -/
def Batch (x : String) (s t : OrderStatus) (events : List Event) : Prop :=
  ∃ e correlationId, events = [e, .orderStatusChanged ⟨x, s.value, t.value, correlationId⟩] ∧
    (t = .cancelled ∧ (∃ f, e = .orderCancelled f ∧ f.orderId = x) ∨
      t = .paid ∧ ∃ f, e = .orderConfirmed f ∧ f.orderId = x)

/-- The events lead the order `x` from one status to another. -/
def Replays (x : String) : OrderStatus → List (List Event) → OrderStatus → Prop
  | s, [], t => t = s
  | s, events :: rest, t => ∃ s', Batch x s s' events ∧ Replays x s' rest t

theorem Replays.snoc {x : String} {s t u : OrderStatus} {l : List (List Event)} {events : List Event}
    (h : Replays x s l t) (hb : Batch x t u events) : Replays x s (l ++ [events]) u := by
  induction l generalizing s with
  | nil =>
    obtain rfl : t = s := h
    exact ⟨u, hb, rfl⟩
  | cons b l ih =>
    obtain ⟨s', hs', h⟩ := h
    exact ⟨s', hs', ih h⟩

namespace History

open World Solo

variable {x : String} {i : ℕ} {o : Order} {w : World} {l : List (List Event)}

/-- The order `x` is stored as `o`. -/
structure Stored (x : String) (o : Order) (w : World) : Prop where
  row : o ∈ w.orders
  id : o.id = x

theorem Stored.kept {w' : World} (h : Stored x o w)
    (hw : ∀ o, o.id = x → (o ∈ w'.orders ↔ o ∈ w.orders)) : Stored x o w' :=
  ⟨(hw o h.id).mpr h.row, h.id⟩

/-- An operation that does not fail, and leaves the orders alone. -/
theorem quiet_ends {p : Op} (h : Stored x o w) (hp : p.onOrder = false) {ts : List Task}
    (hv : ∀ (w : World) c, ∃ v, w.perform i c p = some (w, .ok v, ts)) :
    (inTurn x).Ends i (Ends.Returns fun l' _ w' => l' = l ++ p.handedOver ∧ Stored x o w')
      (Async.perform (S := App) p) l w := by
  refine .perform fun w' hw => ?_
  have hk := h.kept hw
  obtain ⟨v, he⟩ := hv w' {}
  refine ⟨⟨{}, _, fun h => absurd rfl h, he⟩, fun c w'' r ts' hc hexec => ?_⟩
  have hfault : c.fault = none := by
    by_contra hne
    rw [hc hne] at hp
    simp at hp
  obtain ⟨v, he⟩ := hv w' c
  have hsame := (exec_eq_perform hfault).symm.trans hexec
  rw [he] at hsame
  simp only [Option.some.injEq, Prod.mk.injEq] at hsame
  obtain ⟨rfl, rfl, -⟩ := hsame
  exact ⟨v, rfl, rfl, hk⟩

/-- Reading the order. -/
theorem findOne_ends {q : OrderWhere} (hq : q.id = some x) (h : Stored x o w) :
    (inTurn x).Ends i (fun l' r w' => l' = l ∧ Stored x o w' ∧ ∀ y, r = .ok (some y) → y = o)
      (orderRepository.findOne q) l w := by
  refine .perform fun w' hw => ⟨⟨{}, _, fun h => absurd rfl h, rfl⟩, fun c v r ts hc he => ?_⟩
  have hk := h.kept hw
  refine ⟨List.append_nil l, ?_⟩
  obtain ⟨rfl, -, rfl | ⟨m, rfl⟩⟩ := exec_query he rfl rfl
  · refine ⟨hk, fun y hy => ?_⟩
    have hy := Except.ok.inj hy
    have hid : y.id = x := OrderWhere.selects_id (Table.find?_some hy) hq
    exact Table.eq_of_pk (Table.mem_of_find? hy) hk.row (hid.trans hk.id.symm)
  · exact ⟨hk, fun y hy => nomatch hy⟩

/-- Saving it. -/
theorem save_ends {y : Order} (hy : y.id = x) (h : Stored x o w) : (inTurn x).Ends i
    (fun l' r w' => l' = l ∧ ((∃ e, r = .error e) ∧ Stored x o w' ∨
      r = .ok () ∧ ∃ o', Stored x o' w' ∧ o'.status = y.status)) (orderRepository.save y) l w := by
  refine .perform fun w' hw => ⟨⟨{}, _, fun h => absurd rfl h, rfl⟩, fun c v r ts hc he => ?_⟩
  have hk := h.kept hw
  refine ⟨List.append_nil l, ?_⟩
  rcases exec_cases_of_not_redis he rfl with ⟨-, hp⟩ | ⟨m, -, rfl, rfl, -⟩
  · simp only [World.perform, Option.some.injEq, Prod.mk.injEq] at hp
    obtain ⟨rfl, rfl, -⟩ := hp
    rcases saveOrder_cases w' y with ⟨hsame, e, he⟩ | ⟨hok, amount, -, hmem⟩
    · rw [hsame]
      exact Or.inl ⟨⟨e, he⟩, hk⟩
    · exact Or.inr ⟨hok, _, ⟨(hmem _).mpr (Or.inl rfl), hy⟩, rfl⟩
  · exact Or.inl ⟨⟨_, rfl⟩, hk⟩

/-- What an execution comes to: nothing is published and the row is as it was, or one change of
status is published and stored. -/
def Executed (x : String) (o : Order) (l₀ l : List (List Event)) (r : Except Err Unit) (w : World) :
    Prop :=
  l = l₀ ∧ Stored x o w ∨
    r = .ok () ∧ ∃ o' events, l = l₀ ++ [events] ∧ Batch x o.status o'.status events ∧ Stored x o' w

/-- The events of a change of status are handed over. -/
theorem announce_ends {o' : Order} {events : String → String → List Event}
    (hb : ∀ a b, Batch x o.status o'.status (events a b)) (h : Stored x o' w) :
    (inTurn x).Ends i (Executed x o l) (uuidv4.bind fun a => uuidv4.bind fun b =>
      setImmediate (.publishAll (events a b))) l w := by
  refine .next (quiet_ends h rfl fun _ _ => ⟨_, rfl⟩) ?_
  rintro l' a w ⟨rfl, h⟩
  refine .next (quiet_ends h rfl fun _ _ => ⟨_, rfl⟩) ?_
  rintro l' b w ⟨rfl, h⟩
  refine (quiet_ends h rfl fun _ _ => ⟨_, rfl⟩).mono ?_
  rintro l' r w' ⟨-, rfl, rfl, h⟩
  refine Or.inr ⟨rfl, o', _, ?_, hb a b, h⟩
  simp [Op.handedOver]

theorem cancel_ends {command : CancelOrderCommand} (hx : command.orderId = x) (h : Stored x o w) :
    (inTurn x).Ends i (Executed x o l) (CancelOrderHandler.execute command) l w := by
  subst hx
  refine .bind _ (findOne_ends rfl h) ?_ ?_
  · rintro l v w ⟨rfl, h, hv⟩
    cases v with
    | none => exact Or.inl ⟨rfl, h⟩
    | some y =>
      obtain rfl := hv y rfl
      dsimp only
      split
      · exact Or.inl ⟨rfl, h⟩
      · split
        · exact Or.inl ⟨rfl, h⟩
        · refine .bind _ (save_ends h.id h) ?_ ?_
          · rintro l _ w ⟨rfl, ⟨⟨e, he⟩, -⟩ | ⟨-, o', h, hs⟩⟩
            · exact nomatch he
            · refine announce_ends (fun a b => ?_) h
              rw [hs]
              exact ⟨_, _, rfl, Or.inl ⟨rfl, _, rfl, rfl⟩⟩
          · rintro l e w ⟨rfl, ⟨-, h⟩ | ⟨he, -⟩⟩
            · exact Or.inl ⟨rfl, h⟩
            · exact nomatch he
  · rintro l e w ⟨rfl, h, -⟩
    exact Or.inl ⟨rfl, h⟩

theorem confirm_ends {command : ConfirmOrderCommand} (hx : command.orderId = x) (h : Stored x o w) :
    (inTurn x).Ends i (Executed x o l) (ConfirmOrderHandler.execute command) l w := by
  subst hx
  refine .bind _ (findOne_ends rfl h) ?_ ?_
  · rintro l v w ⟨rfl, h, hv⟩
    cases v with
    | none => exact Or.inl ⟨rfl, h⟩
    | some y =>
      obtain rfl := hv y rfl
      dsimp only
      split
      · exact Or.inl ⟨rfl, h⟩
      · refine .bind _ (save_ends h.id h) ?_ ?_
        · rintro l _ w ⟨rfl, ⟨⟨e, he⟩, -⟩ | ⟨-, o', h, hs⟩⟩
          · exact nomatch he
          · refine announce_ends (fun a b => ?_) h
            rw [hs]
            exact ⟨_, _, rfl, Or.inr ⟨rfl, _, rfl, rfl⟩⟩
        · rintro l e w ⟨rfl, ⟨-, h⟩ | ⟨he, -⟩⟩
          · exact Or.inl ⟨rfl, h⟩
          · exact nomatch he
  · rintro l e w ⟨rfl, h, -⟩
    exact Or.inl ⟨rfl, h⟩

theorem execute_ends {command : OrderCommand} (hx : command.orderId = x) (h : Stored x o w) :
    (inTurn x).Ends i (Executed x o l) command.execute l w := by
  cases command with
  | cancel command => exact cancel_ends hx h
  | confirm command => exact confirm_ends hx h

/-- The sequence goes on from whatever status it has come to. -/
theorem executeInTurn_ends {s : OrderStatus} : ∀ (commands : List OrderCommand) (o : Order)
    (l : List (List Event)) (w : World), (∀ command ∈ commands, command.orderId = x) →
      Replays x s l o.status → Stored x o w → (inTurn x).Ends i (fun l' _ w' =>
        ∃ o', Stored x o' w' ∧ Replays x s l' o'.status) (executeInTurn commands) l w := by
  intro commands
  induction commands with
  | nil => exact fun o l w _ hl h => ⟨o, h, hl⟩
  | cons command commands ih =>
    intro o l w hx hl h
    have hrest : ∀ command ∈ commands, command.orderId = x :=
      fun c hc => hx c (List.mem_cons_of_mem _ hc)
    have hnext : ∀ (l' : List (List Event)) (r : Except Err Unit) (w' : World),
      Executed x o l l' r w' →
        ∃ o', Stored x o' w' ∧ Replays x s l' o'.status := by
      rintro l' r w' (⟨rfl, h⟩ | ⟨-, o', events, rfl, hb, h⟩)
      · exact ⟨o, h, hl⟩
      · exact ⟨o', h, hl.snoc hb⟩
    refine .bind (fun l' _ w' => ∃ o', Stored x o' w' ∧ Replays x s l' o'.status) ?_ ?_ ?_
    · refine .handle _ (execute_ends (hx command List.mem_cons_self) h) ?_ ?_
      · exact fun l' e w' h => hnext l' _ w' h
      · exact fun l' a w' h => hnext l' _ w' h
    · rintro l' a w' ⟨o', h, hl⟩
      exact ih o' l' w' hrest hl h
    · exact fun l' e w' h => h

end History

/-- **The published changes of status replay to the stored status**, whatever commands are executed
on an order and whichever of their reads and saves fail; an execution that publishes no change
leaves the row as it was. -/
theorem status_history {x : String} {o : Order} {w : World} (ho : o ∈ w.orders) (hid : o.id = x)
    (i : ℕ) :
    (∀ commands : List OrderCommand, (∀ command ∈ commands, command.orderId = x) →
      (inTurn x).Ends i (fun l _ w' => ∃ o' ∈ w'.orders, o'.id = x ∧ Replays x o.status l o'.status)
        (executeInTurn commands) [] w) ∧
    ∀ command : OrderCommand, command.orderId = x → (inTurn x).Ends i (fun l r w' =>
      l = [] ∧ o ∈ w'.orders ∨ r = .ok () ∧ ∃ events, l = [events] ∧
        ∃ o' ∈ w'.orders, o'.id = x ∧ Batch x o.status o'.status events) command.execute [] w := by
  refine ⟨fun commands hx => ?_, fun command hx => ?_⟩
  · refine (History.executeInTurn_ends commands o [] w hx rfl ⟨ho, hid⟩).mono ?_
    rintro l r w' ⟨o', h, hl⟩
    exact ⟨o', h.row, h.id, hl⟩
  · refine (History.execute_ends hx ⟨ho, hid⟩).mono ?_
    rintro l r w' (⟨rfl, h⟩ | ⟨rfl, o', events, rfl, hb, h⟩)
    · exact Or.inl ⟨rfl, h.row⟩
    · exact Or.inr ⟨rfl, events, rfl, o', h.row, h.id, hb⟩

/-! ### An order that is confirmed, and cancelled afterwards -/

/-- A pending order. -/
def pendingOrder : Order :=
  ⟨⟨"user-1", 10, [⟨"product-1", "P", 1, 10⟩], "somewhere", .pending, some "key-1"⟩, "order-1", none,
    0, 0⟩

/-- It is the only one stored. -/
def pendingStored : World := (World.saveOrder (World.empty 0) pendingOrder).1

theorem pendingOrder_mem : pendingOrder ∈ pendingStored.orders :=
  Table.mem_rows.mp (by decide +kernel)

/-- Its payment comes through, and its user cancels it. -/
def confirmThenCancel : List OrderCommand :=
  [.confirm ⟨"order-1", some "payment-1", some "key-1"⟩, .cancel ⟨"order-1", "user-1", none, none⟩]

theorem status_history_one :
    (inTurn "order-1").Ends 0 (fun l _ w' =>
      ∃ o' ∈ w'.orders, o'.id = "order-1" ∧ Replays "order-1" .pending l o'.status)
      (executeInTurn confirmThenCancel) [] pendingStored ∧
    ∀ command : OrderCommand, command.orderId = "order-1" → (inTurn "order-1").Ends 0 (fun l r w' =>
      l = [] ∧ pendingOrder ∈ w'.orders ∨ r = .ok () ∧ ∃ events, l = [events] ∧
        ∃ o' ∈ w'.orders, o'.id = "order-1" ∧ Batch "order-1" .pending o'.status events)
      command.execute [] pendingStored := by
  obtain ⟨hall, hone⟩ := status_history pendingOrder_mem (show pendingOrder.id = "order-1" from rfl) 0
  exact ⟨hall confirmThenCancel (by simp [confirmThenCancel, OrderCommand.orderId]), hone⟩

example : ((inTurn "order-1").play 0 (executeInTurn confirmThenCancel) (List.replicate 10 {}) []
    pendingStored).map (fun out => out.1.length) = some 2 := by
  decide +kernel

end CqrsSaga
