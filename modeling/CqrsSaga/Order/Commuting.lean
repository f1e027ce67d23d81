import CqrsSaga.Order.Attached

/-!
# Flows of different orders

Steps of two activities that belong to the flows of orders under different keys may be taken in
either order: the orders, payments, sagas and locks are the same afterwards, and so is what is left
to do.  Nor does either enable or disable the other.  What is drawn — the id of a new row, the
number of a query runner — is the step's own.

## Main definitions

* `Op.Draws` — what an operation draws that nobody else may draw.
* `World.Alike` — the same orders, payments, sagas and locks.

## Main results

* `transactions_owned` — what a transaction has locked and written is about one order.
* `flows_commute` — **steps of different flows commute.**
-/

namespace CqrsSaga

open SagaManager

/-! ### Transactions of a flow -/

section Transactions

variable [Hashes]

/-- The transaction was begun by an activity, and is about the order of that activity's flow. -/
def Pool.OwnTransaction (p : Pool application) (u : Transaction) : Prop :=
  ∃ (i : ℕ) (t : Job), p.tags[i]? = some t ∧ World.Owner p.world i u.runner ∧
    ∀ W : World, World.Before p.world W → ∀ k, t.Flow W k → (∀ y ∈ u.locks, W.SagaKeyed y k) ∧
      ∀ s ∈ u.writes, s.correlationId = k ∧ W.SagaKeyed s.id k

/-- A transaction stays its activity's. -/
theorem Pool.OwnTransaction.later {p p' : Pool application} {u : Transaction}
    (h : p.OwnTransaction u) (hb : World.Before p.world p'.world) (ht : p.tags <+: p'.tags) :
    p'.OwnTransaction u := by
  obtain ⟨i, t, hi, ho, hk⟩ := h
  obtain ⟨ts, hts⟩ := ht
  refine ⟨i, t, ?_, hb.owner ho, fun W hW => hk W (hb.trans hW)⟩
  have hlt := (List.getElem?_eq_some_iff.mp hi).1
  rw [← hts, List.getElem?_append_left hlt]
  exact hi

/-- **What a transaction has locked and written is about one order.** -/
theorem transactions_owned {p : Pool application} (hp : Pool.Reachable World.NoOrders Served p) :
    ∀ u ∈ p.world.transactions, p.OwnTransaction u := by
  refine Pool.Reachable.induct
    (P := fun p : Pool application => ∀ u ∈ World.transactions p.world, p.OwnTransaction u) ?_ ?_ hp
  · intro w hw u hu
    obtain ⟨-, -, -, htx, -⟩ := hw
    dsimp only at hu
    rw [htx] at hu
    exact absurd hu List.not_mem_nil
  · intro p p' hp ih hstep u hu
    obtain ⟨act, -, hn⟩ := hstep
    have hpre := Pool.tags_next hn
    cases act with
    | start t =>
      obtain rfl := Option.some.inj hn
      exact (ih u hu).later (.refl _) hpre
    | tick d =>
      obtain rfl := Option.some.inj hn
      refine (ih u hu).later ?_ hpre
      exact ⟨fun o ho => ⟨o, ho, rfl⟩, fun x hx => ⟨x, hx, rfl⟩, fun s hs => ⟨s, hs, rfl⟩,
        List.prefix_rfl⟩
    | run j c =>
      obtain ⟨t, o, k, w, r, ts, hj, he, rfl⟩ := Pool.next_run hn
      have hb : p.world.Before w := (before_of_exec hp (Pool.awaits_eq_some.mpr ⟨t, k, hj⟩) he).1
      have htag : p.tags[j]? = some t := by
        rw [Pool.tags, List.getElem?_map, hj]
        rfl
      have hfits : ∀ W : World, p.world.Before W → W.Fits j (fun k => t.Flow W k) o :=
        fun W hW => (attachment_approves hp hW j _ hj).2.1
      have hmine : ∀ {n : ℕ}, o.runner? = some n → p.world.Owner j n :=
        fun hr => (hfits _ (.refl _)).runner _ hr
      -- what the activity that moves does to transactions, it does to one of its own
      rcases World.exec_transactions he u hu with hu | ⟨n, rfl, rfl⟩ | ⟨v, hv, id, rfl, rfl⟩ |
        ⟨v, hv, s, rfl, rfl⟩
      · exact (ih u hu).later hb hpre
      · refine Pool.OwnTransaction.later (p := p) ⟨j, t, htag, hmine rfl, ?_⟩ hb hpre
        exact fun W _ k _ => ⟨fun _ hy => absurd hy List.not_mem_nil,
          fun _ hs => absurd hs List.not_mem_nil⟩
      · -- another row is locked: the activity is the one that has begun the transaction
        obtain ⟨i, t', hi, ho, hk⟩ := ih v hv
        obtain rfl : i = j := ho.unique (hmine rfl)
        obtain rfl : t' = t := Option.some.inj (hi.symm.trans htag)
        refine Pool.OwnTransaction.later (p := p) ⟨i, t', hi, ho, fun W hW k ht => ?_⟩ hb hpre
        obtain ⟨hlocks, hwrites⟩ := hk W hW k ht
        have habout : W.About i k (.txSagaFindOne v.runner id) := (hfits W hW).about k ht
        refine ⟨fun y hy => ?_, hwrites⟩
        rcases List.mem_cons.mp hy with rfl | hy
        · exact habout.2
        · exact hlocks y hy
      · -- another row is written
        obtain ⟨i, t', hi, ho, hk⟩ := ih v hv
        obtain rfl : i = j := ho.unique (hmine rfl)
        obtain rfl : t' = t := Option.some.inj (hi.symm.trans htag)
        refine Pool.OwnTransaction.later (p := p) ⟨i, t', hi, ho, fun W hW k ht => ?_⟩ hb hpre
        obtain ⟨hlocks, hwrites⟩ := hk W hW k ht
        have habout : W.About i k (.txSagaSave v.runner s) := (hfits W hW).about k ht
        refine ⟨fun y hy => ?_, fun x hx => ?_⟩
        · rcases List.mem_cons.mp hy with rfl | hy
          · exact habout.2.2
          · exact hlocks y hy
        · rcases List.mem_append.mp hx with hx | hx
          · exact hwrites x hx
          · obtain rfl := List.mem_singleton.mp hx
            exact habout.2

/-- The open transactions of an activity are about the order of its flow. -/
theorem txOf_flow {p : Pool application} (hp : Pool.Reachable World.NoOrders Served p)
    {i : ℕ} {t : Job}
    (hi : p.tags[i]? = some t) {k : String} (hk : t.Flow p.world k) : p.world.TxOf i k := by
  intro u hu ho
  obtain ⟨j, t', hj, hj', h⟩ := transactions_owned hp u hu
  obtain rfl : j = i := hj'.unique ho
  obtain rfl : t' = t := Option.some.inj (hj.symm.trans hi)
  exact h p.world (.refl _) k hk

end Transactions

/-! ### What is drawn -/

/-- What the operation draws that nobody else may draw: the id of a row, or the number of a query
runner. -/
def Op.Draws (c : Choice) (o : Op) (x : Cell) : Prop :=
  match o with
  | .orderInsert _ => x = .orderId c.text
  | .paymentInsert _ => x = .paymentId c.text
  | .sagaInsert _ => x = .sagaId c.text
  | .connect => x = .runners
  | _ => False

/-- What an operation uses of its own it has drawn, or is its query runner. -/
theorem Op.Uses.cases {c : Choice} {o : Op} {x : Cell} (h : o.Uses c x) :
    o.Draws c x ∨ ∃ n ∈ o.runner?, x = .transaction n := by
  cases o with
  | orderInsert n | paymentInsert n | sagaInsert n | connect => exact Or.inl h
  | _ => exact Or.inr h

theorem Op.Draws.not_transaction {c : Choice} {o : Op} {n : ℕ} (h : o.Draws c (.transaction n)) :
    False := by
  cases o <;> simp [Op.Draws] at h

/-- Activities work on query runners of their own. -/
theorem World.uses_apart {w : World} {i j : ℕ} {o o' : Op} {c c' : Choice} (hij : i ≠ j)
    (ho : ∀ n ∈ o.runner?, w.Owner i n) (ho' : ∀ n ∈ o'.runner?, w.Owner j n)
    (hd : ∀ x, o.Draws c x → ¬o'.Draws c' x) : ∀ x, o.Uses c x → ¬o'.Uses c' x := by
  intro x hx hx'
  rcases hx.cases with hx | ⟨n, hn, rfl⟩
  · rcases hx'.cases with hx' | ⟨n, -, rfl⟩
    · exact hd x hx hx'
    · exact hx.not_transaction
  · rcases hx'.cases with hx' | ⟨m, hm, hnm⟩
    · exact hx'.not_transaction
    · obtain rfl := Cell.transaction.inj hnm
      exact hij ((ho n hn).unique (ho' n hm))

/-! ### Different flows -/

/-- The same orders, payments, sagas and locks; the rows of a table come in no particular order. -/
structure World.Alike (w w' : World) : Prop where
  orders : w.orders.rows.Perm w'.orders.rows
  payments : w.payments.rows.Perm w'.payments.rows
  sagas : w.sagas.rows.Perm w'.sagas.rows
  transactions : ∀ n, w.transactionsOn n = w'.transactionsOn n
  locks : ∀ key, w.redis.entries.lookup key = w'.redis.entries.lookup key

/-- Worlds that look the same are alike. -/
theorem World.Alike.of_look {w w' : World} (h : ∀ x, w.look x = w'.look x) : w.Alike w' where
  orders := Table.perm_of_slices fun key => h (.orders key)
  payments := Table.perm_of_slices fun x => h (.payments x)
  sagas := Table.perm_of_slices fun k => h (.sagas k)
  transactions := fun n => h (.transaction n)
  locks := fun key => h (.entry key)

section Flows

variable [Hashes]

/-- **Steps of different flows commute**: taken in either order they lead to the same orders,
payments, sagas and locks, and the same is left to do; and a step of one flow neither enables nor
disables one of another, nor starts anything that belongs to another. -/
theorem flows_commute {p : Pool application} (hp : Pool.Reachable World.NoOrders Served p) {i j : ℕ}
    {t t' : Job} {o o' : Op} {q : Except Err (Op.Val o) → Async App Answer}
    {q' : Except Err (Op.Val o') → Async App Answer} {c c' : Choice}
    (hi : p.acts[i]? = some ⟨t, .await o q⟩) (hj : p.acts[j]? = some ⟨t', .await o' q'⟩)
    {k k' : String} (ht : t.Flow p.world k) (ht' : t'.Flow p.world k') (hk : k ≠ k')
    (hd : ∀ x, o.Draws c x → ¬o'.Draws c' x) :
    (∀ p₁ p₂, p.next (.run i c) = some p₁ → p.next (.run j c') = some p₂ →
      ∃ p₁₂ p₂₁, p₁.next (.run j c') = some p₁₂ ∧ p₂.next (.run i c) = some p₂₁ ∧
        p₁₂.world.Alike p₂₁.world ∧ Pool.SameWork p.acts.length p₁₂ p₂₁) ∧
    ∀ p₂, p.next (.run j c') = some p₂ →
      ((p₂.next (.run i c)).isSome ↔ (p.next (.run i c)).isSome) ∧ p₂.acts[i]? = p.acts[i]? ∧
        ∀ a ∈ p₂.acts.drop p.acts.length, a.tag.Flow p₂.world k' := by
  have hij : i ≠ j := by
    intro hij
    subst hij
    obtain rfl : t = t' := congrArg Activity.tag (Option.some.inj (hi.symm.trans hj))
    exact hk (ht.key_unique ht')
  have htag : p.tags[i]? = some t := by
    rw [Pool.tags, List.getElem?_map, hi]
    rfl
  have htag' : p.tags[j]? = some t' := by
    rw [Pool.tags, List.getElem?_map, hj]
    rfl
  -- each of the two operations stays with what belongs to its order
  have hfits := (attachment_approves hp (.refl _) i _ hi).2.1
  have hfits' := (attachment_approves hp (.refl _) j _ hj).2.1
  have hconf : worldCells.Confined (p.world.footprint k o c) p.world i o c :=
    World.confined_of_about (hfits.about k ht) (txOf_flow hp htag ht)
  have hconf' : worldCells.Confined (p.world.footprint k' o' c') p.world j o' c' :=
    World.confined_of_about (hfits'.about k' ht') (txOf_flow hp htag' ht')
  have hapart : (p.world.footprint k o c).Apart (p.world.footprint k' o' c') :=
    World.footprints_apart hk (World.uses_apart hij hfits.runner hfits'.runner hd)
  refine ⟨fun p₁ p₂ hn hn' => ?_, fun p₂ hn' => ⟨?_, ?_, ?_⟩⟩
  · obtain ⟨p₁₂, p₂₁, h₁₂, h₂₁, hlook, hwork⟩ :=
      Pool.next_commute hi hj hij hconf hconf' hapart hn hn'
    exact ⟨p₁₂, p₂₁, h₁₂, h₂₁, .of_look hlook, hwork⟩
  · exact Pool.next_enabled hi hj hij hconf hconf' hapart hn'
  · rw [Pool.next_run_other hi hij hn', hi]
  · obtain ⟨r, ts, he, -⟩ := Pool.next_run_at hj hn'
    have hb := (before_of_exec hp (Pool.awaits_eq_some.mpr ⟨t', q', hj⟩) he).1
    exact started_flow hp htag' (ht'.later hb) hn'

end Flows

/-! ### Two requests -/

section Requests

open Samples

/-- An order for the same thing, under another key. -/
def oneProductAgain : CreateOrderDto := { oneProduct with idempotencyKey := some "key-2" }

/-- What either asks for. -/
def firstOrder (userId key : String) : NewOrder :=
  ⟨userId, 10, oneProduct.items, "somewhere", .pending, some key⟩

/-- Two requests have found no order under their keys. -/
def bothRequested : List (Action application) :=
  [.start (.request (.createOrder oneProduct "user-1")),
    .start (.request (.createOrder oneProductAgain "user-2"))] ++ turns 0 1 "" ++ turns 1 1 ""

theorem bothRequested_played : (Pool.play Served ⟨World.empty 0, []⟩ bothRequested).isSome := by
  decide +kernel

/-- The pool then; the first of them has stored its order, or the second. -/
def bothAwait : Pool application :=
  (Pool.play Served ⟨World.empty 0, []⟩ bothRequested).get bothRequested_played

theorem bothAwait_stored : (bothAwait.next (.run 0 { text := "order-1" })).isSome ∧
    (bothAwait.next (.run 1 { text := "order-2" })).isSome := by
  decide +kernel

/-- What an activity that is at work was started as. -/
theorem flow_of_tags {p : Pool application} {i : ℕ} {t : Job} {q : Async App Answer}
    (hi : p.acts[i]? = some ⟨t, q⟩) {k : String} (h : ∀ u ∈ p.tags[i]?, u.Flow p.world k) :
    t.Flow p.world k := by
  apply h
  rw [Pool.tags, List.getElem?_map, hi]
  rfl

/-- The two orders may be stored in either order. -/
theorem flows_commute_requested : ∃ p₁₂ p₂₁ : Pool application,
    (bothAwait.next (.run 0 { text := "order-1" })).bind (·.next (.run 1 { text := "order-2" })) =
      some p₁₂ ∧
    (bothAwait.next (.run 1 { text := "order-2" })).bind (·.next (.run 0 { text := "order-1" })) =
      some p₂₁ ∧
    p₁₂.world.Alike p₂₁.world := by
  obtain ⟨p₁, h₁⟩ := Option.isSome_iff_exists.mp bothAwait_stored.1
  obtain ⟨p₂, h₂⟩ := Option.isSome_iff_exists.mp bothAwait_stored.2
  have ho : bothAwait.awaits 0 = some (.orderInsert (firstOrder "user-1" "key-1")) := by
    decide +kernel
  have ho' : bothAwait.awaits 1 = some (.orderInsert (firstOrder "user-2" "key-2")) := by
    decide +kernel
  obtain ⟨t, q, hi⟩ := Pool.awaits_eq_some.mp ho
  obtain ⟨t', q', hj⟩ := Pool.awaits_eq_some.mp ho'
  obtain ⟨p₁₂, p₂₁, h₁₂, h₂₁, halike, -⟩ := (flows_commute
    (Pool.reachable_of_play (World.noOrders_empty 0) bothRequested_played) hi hj
    (flow_of_tags hi (k := "key-1") (by decide +kernel))
    (flow_of_tags hj (k := "key-2") (by decide +kernel)) (by decide)
    (fun x hx hx' => absurd (Cell.orderId.inj (hx.symm.trans hx')) (by decide))).1 p₁ p₂ h₁ h₂
  exact ⟨p₁₂, p₂₁, by rw [h₁]; exact h₁₂, by rw [h₂]; exact h₂₁, halike⟩

end Requests

end CqrsSaga
