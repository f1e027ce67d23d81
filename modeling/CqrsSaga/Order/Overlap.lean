import CqrsSaga.App.Orders
import CqrsSaga.App.Rows
import CqrsSaga.Lock.Service

/-!
# Overlapping cancellations and confirmations

Any number of `CancelOrderHandler.execute` and `ConfirmOrderHandler.execute` runs.  Each
reads the order, decides by the status it has read, and writes the whole row back, whatever
has become of the row in between.  As long as a confirmation finds the row still pending
when it writes, nothing is lost: whoever writes `PAID` is the one who announces it.

## Main definitions

* `Decision`, `decisions` — the runs, and the system of any number of them.
* `World.Serial x` — a save that makes the order `x` paid finds it pending.
* `decisionProtocol x` — what the runs agree on about the order `x`.

## Main results

* `cancelled_stays` — **a cancelled order stays cancelled, and an order is announced as
  confirmed at most once.**
* `cancelled_lost` — a cancellation between the two halves of a confirmation is lost.
-/

namespace CqrsSaga

/-- A run of one of the handlers, or a callback it has handed over. -/
inductive Decision
  | cancel (command : CancelOrderCommand)
  | confirm (command : ConfirmOrderCommand)
  | publish (events : List Event)

/-- The program of a run. -/
def Decision.run : Decision → Async App Unit
  | cancel command => CancelOrderHandler.execute command
  | confirm command => ConfirmOrderHandler.execute command
  | publish events => eventBus.publishAll events

/-- Any number of runs of the handlers. -/
abbrev decisions : System app where
  Tag := Decision
  Res := Unit
  body := Decision.run
  spawned := fun
    | .publishAll events => some (.publish events)
    | _ => none

/-- The event tells that the order `x` was confirmed. -/
def Event.confirms (x : String) : Event → Bool
  | .orderConfirmed e => decide (e.orderId = x)
  | _ => false

namespace World

/-- The order `x` is stored with this status. -/
def HasStatus (w : World) (x : String) (status : OrderStatus) : Prop :=
  ∃ o ∈ w.orders, o.id = x ∧ o.status = status

instance (w : World) (x : String) (status : OrderStatus) : Decidable (w.HasStatus x status) :=
  inferInstanceAs (Decidable (∃ o ∈ w.orders.rows, o.id = x ∧ o.status = status))

/-- How many confirmations of the order `x` were published. -/
def confirmations (w : World) (x : String) : ℕ := w.published.countP (Event.confirms x)

/-- A save that makes the order `x` paid finds it pending. -/
def Serial (w : World) (x : String) (o : Op) : Prop :=
  ∀ y ∈ o.savedOrder?, y.id = x → y.status = .paid → w.HasStatus x .pending

instance (w : World) (x : String) (o : Op) : Decidable (w.Serial x o) :=
  inferInstanceAs (Decidable (∀ y ∈ o.savedOrder?, _))

variable {w : World} {x : String} {s s' : OrderStatus}

/-- An order has one status. -/
theorem HasStatus.unique (h : w.HasStatus x s) (h' : w.HasStatus x s') : s = s' := by
  obtain ⟨o, ho, hid, rfl⟩ := h
  obtain ⟨o', ho', hid', rfl⟩ := h'
  rw [Table.eq_of_pk ho ho' (hid.trans hid'.symm)]

/-- The status after a save that was carried out. -/
theorem hasStatus_save {o : Order} (h : (w.saveOrder o).2 = .ok ()) :
    (w.saveOrder o).1.HasStatus x s ↔ o.id = x ∧ o.status = s ∨ o.id ≠ x ∧ w.HasStatus x s := by
  rcases saveOrder_cases w o with ⟨-, e, he⟩ | ⟨-, amount, -, hmem⟩
  · rw [he] at h
    simp at h
  constructor
  · rintro ⟨y, hy, rfl, rfl⟩
    rcases (hmem y).mp hy with rfl | ⟨hy, hne⟩
    · exact Or.inl ⟨rfl, rfl⟩
    · exact Or.inr ⟨Ne.symm hne, y, hy, rfl, rfl⟩
  · rintro (⟨rfl, rfl⟩ | ⟨hne, y, hy, rfl, rfl⟩)
    · exact ⟨_, (hmem _).mpr (Or.inl rfl), rfl, rfl⟩
    · exact ⟨y, (hmem y).mpr (Or.inr ⟨hy, Ne.symm hne⟩), rfl, rfl⟩

end World

namespace Decisions

open RedisLockService

/-- The runs looked at: everything starts with a command. -/
def Commands : Action decisions → Prop
  | .start (.publish _) => False
  | _ => True

/-- Nobody has read the order `x` before another one wrote it, and makes it paid after. -/
def Serial (x : String) (p : Pool decisions) : Action decisions → Prop
  | .run i _ => ∀ o ∈ p.awaits i, p.world.Serial x o
  | _ => True

/-- No confirmation of the order `x` was published. -/
def Unannounced (x : String) (w : World) : Prop := w.confirmations x = 0

/-- The invariant; `g` is who is about to announce that the order was confirmed. -/
structure Inv (x : String) (w : World) (g : Option ℕ) : Prop where
  once : w.confirmations x ≤ 1
  owed : g ≠ none → w.confirmations x = 0
  pending : w.HasStatus x .pending → g = none ∧ w.confirmations x = 0

/-- The events confirm the order `x` if that is what activity `i` owes. -/
def Brings (x : String) (i : ℕ) (events : List Event) (_ : World) (g : Option ℕ) : Prop :=
  g = some i ∧ events.countP (Event.confirms x) = 1 ∨
    g ≠ some i ∧ events.countP (Event.confirms x) = 0

/-- What the runs agree on about the order `x`. -/
def decisionProtocol (x : String) : Protocol decisions where
  Ghost := Option ℕ
  Inv := Inv x
  Mono := fun w _ w' _ => w.HasStatus x .cancelled → w'.HasStatus x .cancelled
  Keep := fun i _ g _ g' => g = some i ↔ g' = some i
  CanRun := fun w _ _ o _ => w.Serial x o
  Assert := fun _ _ _ _ => True
  Fits := fun g l => ∀ a, g = some a → a < l.length
  Born := fun i t w g =>
    match t with
    | .publish events => Brings x i events w g
    | _ => g ≠ some i
  Post := fun _ _ _ _ _ => True
  mono_refl := fun _ _ h => h
  mono_trans := fun h h' hc => h' (h hc)
  keep_refl := fun _ _ _ => Iff.rfl
  keep_trans := fun h h' => h.trans h'

variable {x y : String} {i : ℕ} {w w' : World} {g : Option ℕ}

/-- Activity `i` has nothing to announce. -/
def Idle (i : ℕ) (_ : World) (g : Option ℕ) : Prop := g ≠ some i

/-- Activity `i` is to announce that the order `y` was confirmed. -/
def Owes (x y : String) (i : ℕ) (_ : World) (g : Option ℕ) : Prop := g = some i ↔ y = x

theorem idle_stable : (decisionProtocol x).Stable i (Idle i) :=
  fun _ _ _ _ _ hk _ h hg => h (hk.mpr hg)

theorem owes_stable : (decisionProtocol x).Stable i (Owes x y i) :=
  fun _ _ _ _ _ hk _ h => hk.symm.trans h

theorem brings_stable {events : List Event} :
    (decisionProtocol x).Stable i (Brings x i events) := by
  rintro w g w' g' - hk - (⟨hg, hc⟩ | ⟨hg, hc⟩)
  · exact Or.inl ⟨hk.mp hg, hc⟩
  · exact Or.inr ⟨fun h => hg (hk.mpr h), hc⟩

/-! ### The operations -/

/-- Reading an order by its id. -/
theorem findOne_triple {q : OrderWhere} (hq : q.id = some y) :
    (decisionProtocol x).Triple i (Idle i) (orderRepository.findOne q) fun r w g =>
      Idle i w g ∧ ∀ o, r = .ok (some o) → o.id = y := by
  refine .perform idle_stable (fun r => idle_stable.and (.const _)) fun w g hI hw => ⟨trivial, ?_⟩
  intro c w' r ts _ he l _ hf
  obtain ⟨rfl, rfl, rfl | ⟨m, rfl⟩⟩ := World.exec_query he rfl rfl
  · refine .refl hI hf ⟨hw, fun o ho => ?_⟩
    exact OrderWhere.selects_id (Table.find?_some (Except.ok.inj ho)) hq
  · exact .refl hI hf ⟨hw, fun o ho => by simp at ho⟩

/-- Drawing an identifier. -/
theorem uuidv4_triple {F : World → Option ℕ → Prop} (hF : (decisionProtocol x).Stable i F) :
    (decisionProtocol x).Triple i F uuidv4 (Returns F) := by
  refine .perform hF (returns_stable hF) fun w g hI hw => ⟨trivial, ?_⟩
  intro c w' r ts _ he l _ hf
  obtain ⟨hp, hr⟩ := World.exec_local he rfl
  simp only [World.perform, Option.some.injEq, Prod.mk.injEq] at hp
  obtain ⟨rfl, -, rfl⟩ := hp
  exact .refl hI hf ⟨hr, hw⟩

/-- What a save comes to. -/
theorem exec_orderSave {o : Order} {c : Choice} {r : Except Err Unit} {ts : List Task}
    (h : World.exec w i (.orderSave o) c = some (w', r, ts)) : ts = [] ∧
      (w' = w ∧ r ≠ .ok () ∨ r = .ok () ∧ (w.saveOrder o).2 = .ok () ∧ w' = (w.saveOrder o).1) := by
  refine ⟨World.exec_tasks h rfl, ?_⟩
  rcases World.exec_cases_of_not_redis h rfl with ⟨-, hp⟩ | ⟨m, -, rfl, rfl, -⟩
  · simp only [World.perform, Option.some.injEq, Prod.mk.injEq] at hp
    obtain ⟨rfl, rfl, -⟩ := hp
    rcases World.saveOrder_cases w o with ⟨hw, e, he⟩ | ⟨hok, -⟩
    · exact Or.inl ⟨hw, by simp [he]⟩
    · exact Or.inr ⟨hok, hok, rfl⟩
  · exact Or.inl ⟨rfl, fun h => by cases h⟩

theorem confirmations_save (w : World) (o : Order) :
    (w.saveOrder o).1.confirmations x = w.confirmations x := by
  obtain ⟨t, ht⟩ := World.saveOrder_only w o
  rw [ht]
  rfl

/-- Writing an order as cancelled. -/
theorem saveCancelled_triple {o : Order} (ho : o.status = .cancelled) :
    (decisionProtocol x).Triple i (Idle i) (orderRepository.save o) fun _ => Idle i := by
  refine .perform idle_stable (fun _ => idle_stable) fun w g hI hw => ⟨trivial, ?_⟩
  intro c w' r ts _ he l _ hf
  obtain ⟨rfl, ⟨rfl, -⟩ | ⟨rfl, hok, rfl⟩⟩ := exec_orderSave he
  · exact .refl hI hf hw
  have hstatus : ∀ s, (w.saveOrder o).1.HasStatus x s ↔ _ := fun s => World.hasStatus_save hok
  refine .quiet rfl g ⟨?_, ?_, ?_⟩ ?_ (fun _ _ _ => Iff.rfl) hf hw
  · rw [confirmations_save]
    exact hI.once
  · rw [confirmations_save]
    exact hI.owed
  · rw [confirmations_save, hstatus]
    rintro (⟨-, hs⟩ | ⟨-, hs⟩)
    · rw [ho] at hs
      simp at hs
    · exact hI.pending hs
  · intro hc
    rw [hstatus]
    by_cases hid : o.id = x
    · exact Or.inl ⟨hid, ho⟩
    · exact Or.inr ⟨hid, hc⟩

/-- What a save that makes the order `y` paid leads to. -/
def Saved (x y : String) (i : ℕ) (r : Except Err Unit) (w : World) (g : Option ℕ) : Prop :=
  r = .ok () ∧ Owes x y i w g ∨ r ≠ .ok () ∧ Idle i w g

theorem saved_stable (r : Except Err Unit) : (decisionProtocol x).Stable i (Saved x y i r) := by
  rintro w g w' g' hm hk hI (⟨hr, h⟩ | ⟨hr, h⟩)
  · exact Or.inl ⟨hr, owes_stable hm hk hI h⟩
  · exact Or.inr ⟨hr, idle_stable hm hk hI h⟩

/-- Writing an order as paid: it was pending, so nobody has announced it or is about to. -/
theorem savePaid_triple {o : Order} (ho : o.status = .paid) (hid : o.id = y) :
    (decisionProtocol x).Triple i (Idle i) (orderRepository.save o) (Saved x y i) := by
  refine .perform idle_stable saved_stable fun w g hI hw => ⟨trivial, ?_⟩
  intro c w' r ts hserial he l hl hf
  obtain ⟨rfl, ⟨rfl, hr⟩ | ⟨rfl, hok, rfl⟩⟩ := exec_orderSave he
  · exact .refl hI hf (Or.inr ⟨hr, hw⟩)
  have hstatus : ∀ s, (w.saveOrder o).1.HasStatus x s ↔ _ := fun s => World.hasStatus_save hok
  by_cases hyx : y = x
  · -- activity `i` is the one to announce it
    obtain rfl := hid.trans hyx
    have hpend := hserial o rfl rfl ho
    obtain ⟨rfl, hnone⟩ := hI.pending hpend
    refine .quiet rfl (some i) ⟨?_, fun _ => ?_, ?_⟩ ?_ ?_ ?_ (Or.inl ⟨rfl, fun _ => hyx, fun _ => rfl⟩)
    · rw [confirmations_save, hnone]
      exact Nat.zero_le 1
    · rw [confirmations_save, hnone]
    · rw [hstatus]
      rintro (⟨-, hs⟩ | ⟨hne, -⟩)
      · rw [ho] at hs
        simp at hs
      · exact absurd rfl hne
    · intro hc
      exact absurd (hpend.unique hc) (by simp)
    · intro j _ hj
      constructor
      · exact fun h => absurd h (by simp)
      · exact fun h => absurd (Option.some.inj h).symm hj
    · intro a ha
      rw [← Option.some.inj ha]
      exact hl
  · -- another order is written
    have hne : o.id ≠ x := hid ▸ hyx
    have hsame : ∀ s, (w.saveOrder o).1.HasStatus x s ↔ w.HasStatus x s := by
      intro s
      rw [hstatus]
      exact ⟨fun h => h.elim (fun h => absurd h.1 hne) fun h => h.2, fun h => Or.inr ⟨hne, h⟩⟩
    refine .quiet rfl g ⟨?_, ?_, ?_⟩ (hsame _).mpr (fun _ _ _ => Iff.rfl) hf
      (Or.inl ⟨rfl, fun h => absurd h hw, fun h => absurd h hyx⟩)
    · rw [confirmations_save]
      exact hI.once
    · rw [confirmations_save]
      exact hI.owed
    · rw [confirmations_save, hsame]
      exact hI.pending

/-- What is owed is handed over with the events. -/
theorem setImmediate_triple {events : List Event} :
    (decisionProtocol x).Triple i (Brings x i events) (setImmediate (.publishAll events))
      fun _ => Idle i := by
  refine .perform brings_stable (fun _ => idle_stable) fun w g hI hb => ⟨trivial, ?_⟩
  intro c w' r ts _ he l hl hf
  obtain ⟨hp, -⟩ := World.exec_local he rfl
  simp only [World.perform, Option.some.injEq, Prod.mk.injEq] at hp
  obtain ⟨rfl, -, rfl⟩ := hp
  have hnew : ∀ m t, ([Task.publishAll events].filterMap decisions.spawned)[m]? = some t →
      m = 0 ∧ t = .publish events := by
    intro m t ht
    cases m with
    | zero => exact ⟨rfl, (Option.some.inj ht).symm⟩
    | succ m => cases ht
  rcases hb with ⟨rfl, hc⟩ | ⟨hg, hc⟩
  · -- the activity that is started is the one to announce it from then on
    refine ⟨some l.length, ⟨hI.once, fun _ => hI.owed (by simp), fun h => ?_⟩, fun h => h, ?_, ?_, ?_,
      fun h => ?_⟩
    · exact absurd (hI.pending h).1 (by simp)
    · intro j hj hji
      constructor
      · exact fun h => absurd (Option.some.inj h).symm hji
      · intro h
        have := Option.some.inj h
        omega
    · intro a ha
      rw [← Option.some.inj ha]
      simp
    · intro m t ht
      obtain ⟨rfl, rfl⟩ := hnew m t ht
      exact Or.inl ⟨rfl, hc⟩
    · have := Option.some.inj h
      omega
  · refine ⟨g, hI, fun h => h, fun _ _ _ => Iff.rfl, fun a ha => ?_, fun m t ht => ?_, hg⟩
    · have := hf a ha
      simp only [List.length_append]
      omega
    · obtain ⟨rfl, rfl⟩ := hnew m t ht
      refine Or.inr ⟨fun h => ?_, hc⟩
      exact absurd (hf _ h) (Nat.lt_irrefl _)

/-- Publishing what was handed over. -/
theorem publishAll_triple {events : List Event} :
    (decisionProtocol x).Triple i (Brings x i events) (eventBus.publishAll events)
      fun _ => Idle i := by
  refine .perform brings_stable (fun _ => idle_stable) fun w g hI hb => ⟨trivial, ?_⟩
  intro c w' r ts _ he l hl hf
  obtain ⟨hp, -⟩ := World.exec_local he rfl
  simp only [World.perform, Option.some.injEq, Prod.mk.injEq] at hp
  obtain ⟨rfl, -, rfl⟩ := hp
  have hts : ((events.flatMap Event.deliveries).map Task.deliver).filterMap decisions.spawned = [] := by
    rw [List.filterMap_map]
    exact List.filterMap_eq_nil_iff.mpr fun _ _ => rfl
  have hcount : World.confirmations { w with published := w.published ++ events } x =
      w.confirmations x + events.countP (Event.confirms x) := List.countP_append
  rcases hb with ⟨rfl, hc⟩ | ⟨hg, hc⟩
  · have hzero := hI.owed (by simp)
    refine .quiet hts none ⟨?_, fun h => absurd rfl h, fun h => ?_⟩ (fun h => h)
      ?_ ?_ (by simp [Idle])
    · rw [hcount, hzero, hc]
    · exact absurd (hI.pending h).1 (by simp)
    · intro j _ hj
      constructor
      · exact fun h => absurd (Option.some.inj h).symm hj
      · exact fun h => absurd h (by simp)
    · exact fun a ha => absurd ha (by simp)
  · refine .quiet hts g ⟨?_, ?_, ?_⟩ (fun h => h) (fun _ _ _ => Iff.rfl) hf hg
    · rw [hcount, hc]
      exact hI.once
    · rw [hcount, hc]
      exact hI.owed
    · rw [hcount, hc]
      exact hI.pending

/-! ### The handlers -/

/-- What activity `i` owes is settled with the events it hands over. -/
theorem announce_triple {F : World → Option ℕ → Prop} {events : String → String → List Event}
    (hF : (decisionProtocol x).Stable i F)
    (hb : ∀ a b w g, F w g → Brings x i (events a b) w g) :
    (decisionProtocol x).Triple i F (uuidv4.bind fun a => uuidv4.bind fun b =>
      setImmediate (.publishAll (events a b))) fun _ _ _ => True := by
  have hthrow : ∀ e, (decisionProtocol x).Triple i
      (Returns (P := decisionProtocol x) F (.error e : Except Err String))
      (.throw e : Async App Unit) fun _ _ _ => True :=
    fun e => .throw (returns_stable hF _) fun _ _ _ _ => trivial
  refine .bind _ (uuidv4_triple hF) (fun a => ?_) hthrow
  refine .bind _ ((uuidv4_triple hF).pre fun _ _ _ h => h.2) (fun b => ?_) hthrow
  exact setImmediate_triple.conseq (fun w g _ h => hb a b w g h.2) fun _ _ _ _ _ => trivial

theorem cancel_triple (command : CancelOrderCommand) :
    (decisionProtocol x).Triple i (Idle i) (CancelOrderHandler.execute command)
      fun _ _ _ => True := by
  refine .bind _ (findOne_triple rfl) (fun v => ?_) fun e =>
    .throw (idle_stable.and (.const _)) fun _ _ _ _ => trivial
  refine .pre (F := Idle i) (fun _ _ _ h => h.1) ?_
  cases v with
  | none => exact .throw idle_stable fun _ _ _ _ => trivial
  | some o =>
    dsimp only
    split
    · exact .ret idle_stable fun _ _ _ _ => trivial
    · split
      · exact .throw idle_stable fun _ _ _ _ => trivial
      · refine .bind _ (saveCancelled_triple rfl) (fun _ => ?_) fun e =>
          .throw idle_stable fun _ _ _ _ => trivial
        exact announce_triple idle_stable fun a b w g h => Or.inr ⟨h, by simp [Event.confirms]⟩

theorem confirm_triple (command : ConfirmOrderCommand) :
    (decisionProtocol x).Triple i (Idle i) (ConfirmOrderHandler.execute command)
      fun _ _ _ => True := by
  refine .bind _ (findOne_triple rfl) (fun v => ?_) fun e =>
    .throw (idle_stable.and (.const _)) fun _ _ _ _ => trivial
  cases v with
  | none => exact .throw (idle_stable.and (.const _)) fun _ _ _ _ => trivial
  | some o =>
    refine .assuming (fun _ _ _ h => h.2 o rfl) fun hid => .pre (F := Idle i)
      (fun _ _ _ h => h.1) ?_
    dsimp only
    split
    · exact .ret idle_stable fun _ _ _ _ => trivial
    · refine .bind _ (savePaid_triple rfl hid) (fun _ => ?_) fun e =>
        .throw (saved_stable _) fun _ _ _ _ => trivial
      refine .pre (F := Owes x command.orderId i) ?_ (announce_triple owes_stable ?_)
      · rintro w g - (⟨-, h⟩ | ⟨h, -⟩)
        · exact h
        · exact absurd rfl h
      · intro a b w g h
        by_cases hx : command.orderId = x
        · exact Or.inl ⟨h.mpr hx, by simp [Event.confirms, hx]⟩
        · exact Or.inr ⟨fun hg => hx (h.mp hg), by simp [Event.confirms, hx]⟩

/-! ### Soundness -/

/-- **The runs keep to the protocol.** -/
theorem decisions_sound : (decisionProtocol x).Sound (Unannounced x)
    fun p a => Commands a ∧ Serial x p a where
  init := by
    intro w hw
    have hw : w.confirmations x = 0 := hw
    exact ⟨none, ⟨by rw [hw]; exact Nat.zero_le 1, fun h => absurd rfl h, fun _ => ⟨rfl, hw⟩⟩,
      fun a ha => by simp at ha⟩
  start := by
    intro p t g ha hI hf
    have hlen : p.tags.length = p.acts.length := by simp [Pool.tags]
    -- the one who owes an announcement runs already
    have hidle : g ≠ some p.acts.length := by
      intro h
      have := hf _ h
      omega
    refine ⟨g, hI, fun h => h, fun _ _ => Iff.rfl, fun a h => ?_, ?_⟩
    · have := hf a h
      simp only [List.length_append]
      omega
    · cases t with
      | cancel command => exact hidle
      | confirm command => exact hidle
      | publish events => exact ha.1.elim
  tick := fun p d g _ hI => ⟨⟨hI.once, hI.owed, hI.pending⟩, fun h => h, fun _ => Iff.rfl⟩
  canRun := by
    intro p i c t o k g ha hi _
    exact ha.2 o (by simp [Pool.awaits, hi, Async.awaited?])
  body := by
    intro i t w g hb hI
    cases t with
    | cancel command => exact cancel_triple command w g hI hb
    | confirm command => exact confirm_triple command w g hI hb
    | publish events =>
      exact (publishAll_triple.post fun _ _ _ _ _ => trivial) w g hI hb

end Decisions

open Decisions

/-- **A cancelled order stays cancelled, and an order is announced as confirmed at most once**,
in every run in which a confirmation that writes the order finds it still pending. -/
theorem cancelled_stays {x : String} {p : Pool decisions}
    (hp : Pool.Reachable (Unannounced x) (fun p a => Commands a ∧ Serial x p a) p) :
    p.world.confirmations x ≤ 1 ∧
      (p.world.Cancelled x → ∀ p', Pool.Runs (fun p a => Commands a ∧ Serial x p a) p p' →
        p'.world.Cancelled x) := by
  obtain ⟨g, hH⟩ := decisions_sound.reachable hp
  refine ⟨hH.inv.once, fun hc p' hr => ?_⟩
  obtain ⟨g', -, hm⟩ := decisions_sound.runs hH hr
  exact hm hc

/-! ### A cancellation overlaps with two confirmations -/

instance Decisions.decidableCommands : ∀ a, Decidable (Commands a)
  | .start (.cancel _) => isTrue trivial
  | .start (.confirm _) => isTrue trivial
  | .start (.publish _) => isFalse id
  | .run _ _ => isTrue trivial
  | .tick _ => isTrue trivial

instance Decisions.decidableSerial (x : String) (p : Pool decisions) : ∀ a, Decidable (Serial x p a)
  | .start _ => isTrue trivial
  | .run i _ => inferInstanceAs (Decidable (∀ o ∈ p.awaits i, p.world.Serial x o))
  | .tick _ => isTrue trivial

instance Decisions.decidableSerially (x : String) (p : Pool decisions) (a : Action decisions) :
    Decidable (Commands a ∧ Serial x p a) := instDecidableAnd

/-- One order is stored, and nothing has happened to it. -/
def oneOrderStored : World :=
  (World.saveOrder (World.empty 0)
    ⟨⟨"user-1", 10, [⟨"product-1", "P", 1, 10⟩], "somewhere", .pending, some "key-1"⟩,
      "order-1", none, 0, 0⟩).1

theorem oneOrderStored_unannounced : Unannounced "order-1" oneOrderStored :=
  confirmations_save (World.empty 0) _

/-- Its payment has come through. -/
def confirmOne : Action decisions := .start (.confirm ⟨"order-1", some "payment-1", some "key-1"⟩)

/-- Its user cancels it. -/
def cancelOne : Action decisions := .start (.cancel ⟨"order-1", "user-1", none, none⟩)

/-- The order is confirmed, and cancelled afterwards. -/
def oneByOne : List (Action decisions) :=
  confirmOne :: List.replicate 5 (.run 0 {}) ++ .run 1 {} :: cancelOne :: List.replicate 2 (.run 2 {})

theorem oneByOne_played : (Pool.play (fun p a => Commands a ∧ Serial "order-1" p a)
    ⟨oneOrderStored, []⟩ oneByOne).isSome := by
  decide +kernel

theorem cancelled_stays_oneByOne :
    let p := (Pool.play _ ⟨oneOrderStored, []⟩ oneByOne).get oneByOne_played
    p.world.confirmations "order-1" ≤ 1 ∧
      ∀ p', Pool.Runs (fun p a => Commands a ∧ Serial "order-1" p a) p p' →
        p'.world.Cancelled "order-1" := by
  obtain ⟨honce, hstays⟩ :=
    cancelled_stays (Pool.reachable_of_play oneOrderStored_unannounced oneByOne_played)
  exact ⟨honce, hstays (by decide +kernel)⟩

/-- All have read the order, and the cancellation is the first to write. -/
def cancelMeanwhile : List (Action decisions) :=
  [confirmOne, confirmOne, cancelOne, .run 0 {}, .run 1 {}, .run 2 {}, .run 2 {}]

/-- The confirmations go on. -/
def confirmAfter : List (Action decisions) :=
  List.replicate 4 (.run 0 {}) ++ List.replicate 4 (.run 1 {}) ++ [.run 3 {}, .run 4 {}]

theorem cancelMeanwhile_played :
    (Pool.play (fun _ a => Commands a) ⟨oneOrderStored, []⟩ cancelMeanwhile).isSome := by
  decide +kernel

/-- The order is cancelled. -/
def cancelledMeanwhile : Pool decisions :=
  (Pool.play _ ⟨oneOrderStored, []⟩ cancelMeanwhile).get cancelMeanwhile_played

theorem confirmAfter_played :
    (Pool.play (fun _ a => Commands a) cancelledMeanwhile confirmAfter).isSome := by
  decide +kernel

/-- **The cancellation is lost, and the order announced as confirmed twice.** -/
theorem cancelled_lost : ∃ p p' : Pool decisions,
    Pool.Reachable (Unannounced "order-1") (fun _ a => Commands a) p ∧
    p.world.Cancelled "order-1" ∧ Pool.Runs (fun _ a => Commands a) p p' ∧
    ¬p'.world.Cancelled "order-1" ∧ p'.world.confirmations "order-1" = 2 :=
  ⟨cancelledMeanwhile, (Pool.play _ cancelledMeanwhile confirmAfter).get confirmAfter_played,
    Pool.reachable_of_play oneOrderStored_unannounced cancelMeanwhile_played, by decide +kernel,
    Pool.runs_of_play _ _ _ (Option.some_get confirmAfter_played).symm, by decide +kernel,
    by decide +kernel⟩

end CqrsSaga
