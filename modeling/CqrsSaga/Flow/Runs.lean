import CqrsSaga.Flow.Handlers

/-!
# The runs of the application

Requests come from outside, whenever they like; all other work is handed over by the
activities themselves.  Any operation may fail at any time.  What the activities agree on
then holds in every reachable state, for the regime the run meets.

## Main definitions

* `World.NoOrders` — the worlds runs start from.
* `Performing`, `PerformingAs`, `DrawsFresh`, `Untouching`, `Placing` — restrictions on runs.
* `Job.CancelsFailed`, `Job.ConfirmsPaid` — conditions on the requests to cancel and to confirm.
* `Flow.Allowed` — the runs of a regime.

## Main results

* `flow_sound` — **every activity respects what the activities agree on.**
* `flow_reachable` — so it holds in every reachable state.
* `flow_follows` — what an operation leaves of the rows.
-/

namespace CqrsSaga

open CqrsSaga.Flow

/-- Nothing is stored that concerns orders. -/
def World.NoOrders (w : World) : Prop :=
  w.orders.rows = [] ∧ w.payments.rows = [] ∧ w.sagas.rows = [] ∧ w.transactions = [] ∧
    w.published = [] ∧ w.eventStore = []

theorem World.noOrders_empty (clock : ℕ) : (World.empty clock).NoOrders :=
  ⟨rfl, rfl, rfl, rfl, rfl, rfl⟩

/-! ### Restrictions on runs -/

section Restrictions

variable [Hashes]

/-- Every operation that is performed meets the condition. -/
def Performing (P : World → Op → Prop) (p : Pool application) : Action application → Prop
  | .run i _ => ∀ o ∈ p.awaits i, P p.world o
  | _ => True

/-- Every operation that is performed meets the condition that goes with its activity. -/
def PerformingAs (K : Job → World → Op → Prop) (p : Pool application) : Action application → Prop
  | .run i _ => ∀ a ∈ p.acts[i]?, ∀ o ∈ a.prog.awaited?, K a.tag p.world o
  | _ => True

/-- A request to cancel orders, or the cleanup, that finds the order `x` neither cancelled nor
delivered does so when the payment of the order has failed. -/
def Job.CancelsFailed (x : String) : Job → World → Op → Prop
  | .request (.cancelOrder _ _ _), w, o => w.CancelsFailed x o
  | .request .cleanupPendingOrders, w, o => w.CancelsFailed x o
  | _, _, _ => True

/-- A request to confirm an order that finds the order `x` pending confirms it under a completed
payment of the order. -/
def Job.ConfirmsPaid (x : String) : Job → World → Op → Prop
  | .request (.confirmOrder _ paymentId), w, o => w.ConfirmsPaid x paymentId o
  | _, _, _ => True

/-- No request cancels or confirms one of these orders, and no cleanup lists it. -/
def Untouching (xs : String → Prop) (p : Pool application) : Action application → Prop
  | .start (.request (.cancelOrder id _ _)) => ¬xs id
  | .start (.request (.confirmOrder id _)) => ¬xs id
  | .run i _ => ∀ o ∈ p.awaits i, p.world.Overlooks xs o
  | _ => True

/-- Every request to create an order meets the condition. -/
def Placing (P : CreateOrderDto → Prop) (_ : Pool application) : Action application → Prop
  | .start (.request (.createOrder dto _)) => P dto
  | .start (.request (.createTestOrder dto _)) => P dto
  | _ => True

/-- What is drawn is fresh, the correlation ids drawn being these. -/
def DrawsFresh (uuid : String → Prop) (p : Pool application) : Action application → Prop
  | .run i c => ∀ o ∈ p.awaits i, p.world.Fresh uuid o c
  | _ => True

/-- No operation fails, except that the unique index may refuse an insert. -/
def Faultless (p : Pool application) : Action application → Prop
  | .run i c => p.Unfailing i c
  | _ => True

/-- What is known of the operations of the requests is what the regime asks of them. -/
def Flow.Knowing (R : Regime) (p : Pool application) : Action application → Prop
  | .start (.request (.cancelOrder id _ _)) =>
    R.spared id → ∀ w o, R.known p.acts.length w o → w.CancelsFailed id o
  | .start (.request (.confirmOrder id paymentId)) =>
    R.vouched id → ∀ w o, R.known p.acts.length w o → w.ConfirmsPaid id paymentId o
  | .start (.request .cleanupPendingOrders) =>
    ∀ x, R.spared x → ∀ w o, R.known p.acts.length w o → w.CancelsFailed x o
  | .run i _ => ∀ o ∈ p.awaits i, R.known i p.world o
  | _ => True

/-- The runs of a regime. -/
structure Flow.Allowed (R : Regime) (p : Pool application) (a : Action application) : Prop where
  served : Served p a
  knowing : Flow.Knowing R p a
  performing : Performing (fun w o => (R.orderly → w.Orderly o) ∧ (R.undone → w.Undone o)) p a
  fresh : R.traced → DrawsFresh R.uuid p a
  untouched : Untouching R.untouched p a
  placed : Placing (fun dto => R.placed (OrderController.idempotencyKey dto) dto.items) p a

theorem Performing.mono {P Q : World → Op → Prop} (h : ∀ w o, P w o → Q w o)
    {p : Pool application} {a : Action application} (ha : Performing P p a) : Performing Q p a := by
  cases a with
  | run i c => exact fun o ho => h _ o (ha o ho)
  | _ => exact trivial

theorem Flow.Knowing.of_none {R : Regime} (hs : ∀ x, ¬R.spared x) (hv : ∀ x, ¬R.vouched x)
    (hk : ∀ i w o, R.known i w o) (p : Pool application) (a : Action application) :
    Flow.Knowing R p a := by
  rcases a with t | ⟨i, c⟩ | d
  · rcases t with r | t
    · cases r with
      | cancelOrder id userId reason => exact fun h => absurd h (hs id)
      | confirmOrder id paymentId => exact fun h => absurd h (hv id)
      | cleanupPendingOrders => exact fun x h => absurd h (hs x)
      | _ => exact trivial
    · exact trivial
  · exact fun o _ => hk i _ o
  · exact trivial

theorem Untouching.of_none {xs : String → Prop} (h : ∀ x, ¬xs x) (p : Pool application)
    (a : Action application) : Untouching xs p a := by
  rcases a with t | ⟨i, c⟩ | d
  · rcases t with r | t
    · cases r <;> first | exact trivial | exact h _
    · exact trivial
  · rintro o -
    cases o with
    | orderFind q => exact fun y _ hy => absurd hy (h _)
    | _ => exact trivial
  · exact trivial

theorem Placing.mono {P Q : CreateOrderDto → Prop} (h : ∀ dto, P dto → Q dto)
    {p : Pool application} {a : Action application} (ha : Placing P p a) : Placing Q p a := by
  rcases a with t | ⟨i, c⟩ | d
  · rcases t with r | t
    · cases r <;> first | exact trivial | exact h _ ha
    · exact trivial
  · exact trivial
  · exact trivial

theorem Placing.of_all {P : CreateOrderDto → Prop} (h : ∀ dto, P dto) (p : Pool application)
    (a : Action application) : Placing P p a := by
  rcases a with t | ⟨i, c⟩ | d
  · rcases t with r | t
    · cases r <;> first | exact trivial | exact h _
    · exact trivial
  · exact trivial
  · exact trivial

/-- Runs without any restriction but that requests are what comes from outside. -/
theorem Flow.Allowed.of_served {p : Pool application} {a : Action application}
    (h : Served p a) : Flow.Allowed {} p a where
  served := h
  knowing := .of_none (fun _ h => h) (fun _ h => h) (fun _ _ _ => trivial) p a
  performing := by
    cases a with
    | run i c => exact fun o _ => ⟨False.elim, False.elim⟩
    | _ => exact trivial
  fresh := False.elim
  untouched := .of_none (fun _ h => h) p a
  placed := .of_all (fun _ => trivial) p a

end Restrictions

/-! ### Soundness -/

/-- The invariant holds where nothing is stored and nobody has a duty. -/
theorem Flow.Inv.start {R : Regime} {w : World} (h : w.NoOrders) : Inv R w fun _ _ => none := by
  obtain ⟨ho, hp, hs, ht, hpub, hes⟩ := h
  have horders : ∀ o, o ∉ w.orders := fun o h => by simp [← Table.mem_rows, ho] at h
  have hpayments : ∀ p, p ∉ w.payments := fun p h => by simp [← Table.mem_rows, hp] at h
  have hsagas : ∀ s, s ∉ w.sagas := fun s h => by simp [← Table.mem_rows, hs] at h
  constructor
  · exact .of_nil ht
  · refine ⟨fun o h => absurd h (horders o), fun o h => absurd h (horders o),
      fun o h => absurd h (horders o), fun _ o h => absurd h (horders o),
      fun _ o h => absurd h (horders o), fun o h => absurd h (horders o), ?_⟩
    simp [hes]
  · rintro x - ⟨o, h, -⟩
    exact absurd h (horders o)
  · exact fun p h => absurd h (hpayments p)
  · exact fun p h => absurd h (hpayments p)
  · exact fun s h => absurd h (hsagas s)
  · rintro y ⟨u, h, -⟩
    simp [ht] at h
  · simp [hpub]
  · exact fun _ _ h => nomatch h
  · exact fun _ _ h => nomatch h
  · exact fun _ _ h => nomatch h

/-- **Every activity respects what the activities agree on.** -/
theorem flow_sound [Hashes] (R : Regime) : (flow R).Sound World.NoOrders (Flow.Allowed R) where
  init := fun w hw => ⟨fun _ _ => none, .start hw, fun _ _ _ h => nomatch h⟩
  start := by
    intro p t g ha hI hf
    refine ⟨g, hI, (flow R).mono_refl _ g, fun j _ => (flow R).keep_refl j _ g,
      fun d x j hj => ?_, ?_⟩
    · rw [List.length_append]
      exact Nat.lt_add_right _ (hf d x j hj)
    · cases t with
      | request r =>
        cases r with
        | createOrder dto userId | createTestOrder dto userId => exact ha.placed
        | cancelOrder id userId reason => exact ⟨ha.knowing, ha.untouched⟩
        | confirmOrder id paymentId => exact ⟨ha.knowing, ha.untouched⟩
        | cleanupPendingOrders => exact ha.knowing
        | _ => exact trivial
      | task t => exact ha.served.elim
  tick := by
    intro p d g _ hI
    have hsame : p.world.Same { p.world with clock := p.world.clock + d } :=
      ⟨rfl, rfl, rfl, rfl, rfl, rfl, List.prefix_rfl⟩
    exact unseen_of_same hsame g hI
  canRun := by
    rintro p i c t o k g ha hi -
    have ho : o ∈ p.awaits i := by simp [Pool.awaits, hi, Async.awaited?]
    exact ⟨ha.performing o ho, fun hR => ha.fresh hR o ho, ha.untouched o ho, ha.knowing o ho⟩
  body := by
    intro i t w g hb hI
    cases t with
    | request r => exact request_triple r w g hI hb
    | task t =>
      exact Protocol.Triple.bind (fun _ _ _ => True) (task_triple t) (fun _ => .ended)
        (fun _ => .failed) w g hI hb

/-- What the activities agree on holds in every reachable state. -/
theorem flow_reachable [Hashes] {R : Regime} {p : Pool application}
    (hp : Pool.Reachable World.NoOrders (Flow.Allowed R) p) : ∃ g, Inv R p.world g := by
  obtain ⟨g, hH⟩ := (flow_sound R).reachable hp
  exact ⟨g, hH.inv⟩

/-- A regime that knows what the operations of these activities meet. -/
def Regime.knowing (R : Regime) (K : Job → World → Op → Prop) (l : List Job) : Regime :=
  { R with known := fun i w o => ∀ t ∈ l[i]?, K t w o }

theorem Flow.Knowing.of_performingAs [Hashes] {R : Regime} {K : Job → World → Op → Prop}
    {l : List Job} {p p' : Pool application} {a : Action application}
    (hs : ∀ id userId reason w o, R.spared id → K (.request (.cancelOrder id userId reason)) w o →
      w.CancelsFailed id o)
    (hc : ∀ x w o, R.spared x → K (.request .cleanupPendingOrders) w o → w.CancelsFailed x o)
    (hv : ∀ id paymentId w o, R.vouched id → K (.request (.confirmOrder id paymentId)) w o →
      w.ConfirmsPaid id paymentId o)
    (ha : PerformingAs K p a) (hn : p.next a = some p') (hl : p'.tags <+: l) :
    Flow.Knowing (R.knowing K l) p a := by
  obtain ⟨new, rfl⟩ := (Pool.tags_next hn).trans hl
  cases a with
  | start t =>
    -- the activity that is started keeps its tag
    have htag : (p.tags ++ new)[p.acts.length]? = some t := by
      obtain rfl := Option.some.inj hn
      obtain ⟨ts, hts⟩ := hl
      rw [← hts]
      simp [Pool.tags, System.begin]
    cases t with
    | request r =>
      cases r with
      | cancelOrder id userId reason =>
        exact fun hx w o hk => hs id userId reason w o hx (hk _ htag)
      | confirmOrder id paymentId => exact fun hx w o hk => hv id paymentId w o hx (hk _ htag)
      | cleanupPendingOrders => exact fun x hx w o hk => hc x w o hx (hk _ htag)
      | _ => exact trivial
    | task t => exact trivial
  | run i c =>
    intro o ho t ht
    obtain ⟨a, hacts, hawaited⟩ := Option.bind_eq_some_iff.mp ho
    have htag : (p.tags ++ new)[i]? = some a.tag := by
      rw [List.getElem?_append_left (by
        simpa [Pool.tags] using (List.getElem?_eq_some_iff.mp hacts).1), Pool.tags,
        List.getElem?_map, hacts]
      rfl
    obtain rfl := Option.some.inj (htag.symm.trans ht)
    exact ha a hacts o hawaited
  | tick d => exact trivial

/-- What an operation leaves of the rows: they stay, with the columns nothing changes, and only
an insert adds an order. -/
structure World.Follows (w : World) (o : Op) (w' : World) : Prop where
  orders : ∀ x ∈ w.orders, ∃ x' ∈ w'.orders, x'.core = x.core
  sagas : ∀ s ∈ w.sagas, ∃ s' ∈ w'.sagas, s'.core = s.core
  source : (∃ n : NewOrder, o = .orderInsert n) ∨ ∀ x' ∈ w'.orders, ∃ x ∈ w.orders, x.core = x'.core

/-- What every operation respects that is performed in a run. -/
theorem flow_grows [Hashes] {p : Pool application} (hp : Pool.Reachable World.NoOrders Served p)
    {i : ℕ} {o : Op} (ho : p.awaits i = some o) {c : Choice} {w' : World}
    {r : Except Err (Op.Val o)} {ts : List Task} (he : p.world.exec i o c = some (w', r, ts)) :
    ∃ g g', (flow {}).Holds p g ∧ Grows {} p.world g w' g' := by
  obtain ⟨g, hH⟩ := (flow_sound {}).reachable (hp.mono fun _ _ => Flow.Allowed.of_served)
  obtain ⟨t, k, hi⟩ := Pool.awaits_eq_some.mp ho
  have hn : p.next (.run i c) = some ⟨w', p.acts.set i ⟨t, k r⟩ ++
      (ts.filterMap application.spawned).map application.begin⟩ := by
    simp only [Pool.next, hi, he]
  obtain ⟨g', -, hm, -⟩ := (flow_sound {}).run hH (.of_served trivial) hn
  exact ⟨g, g', hH, hm⟩

/-- **Every operation leaves the rows so.** -/
theorem flow_follows [Hashes] {p : Pool application} (hp : Pool.Reachable World.NoOrders Served p)
    {i : ℕ} {o : Op} (ho : p.awaits i = some o) {c : Choice} {w' : World}
    {r : Except Err (Op.Val o)} {ts : List Task} (he : p.world.exec i o c = some (w', r, ts)) :
    p.world.Follows o w' := by
  obtain ⟨g, g', hH, hm⟩ := flow_grows hp ho he
  obtain ⟨t, k, hi⟩ := Pool.awaits_eq_some.mp ho
  refine ⟨hm.orders, hm.sagas, ?_⟩
  have hframe := World.exec_frame he
  cases o with
  | orderInsert n => exact Or.inl ⟨n, rfl⟩
  | orderSave y =>
    refine Or.inr fun x' hx' => ?_
    have hloaded : ∀ y' ∈ (Op.orderSave y).savedOrder?, Loaded y' p.world := hH.assert hi
    obtain ⟨x, hx, hc⟩ := hloaded y rfl
    rcases World.exec_cases_of_not_redis he rfl with ⟨-, hp⟩ | ⟨m, -, rfl, -⟩
    · simp only [World.perform, Option.some.injEq, Prod.mk.injEq] at hp
      obtain ⟨-, t', ht, hmem⟩ := World.saved_order hx hc (hH.inv.books.columns x hx).2
      rw [← hp.1, ht] at hx'
      rcases (hmem x').mp hx' with rfl | ⟨hx', -⟩
      · exact ⟨x, hx, hc⟩
      · exact ⟨x', hx', rfl⟩
    · exact ⟨x', hx', rfl⟩
  | _ => exact Or.inr fun x' hx' => ⟨x', hframe.orders (by simp [Op.writes]) ▸ hx', rfl⟩

/-- Every operation that is performed leaves the rows so. -/
def Following [Hashes] (p : Pool application) : Action application → Prop
  | .run i c => ∀ o ∈ p.awaits i, ∀ w' r ts, p.world.exec i o c = some (w', r, ts) →
      p.world.Follows o w'
  | _ => True

theorem following_of_reachable [Hashes] {p : Pool application}
    (hp : Pool.Reachable World.NoOrders Served p) (a : Action application) : Following p a := by
  cases a with
  | run i c => exact fun o ho w' r ts he => flow_follows hp ho he
  | _ => exact trivial

/-! ### Playing runs -/

section Play

variable [Hashes]

instance Faultless.decidable (p : Pool application) : ∀ a, Decidable (Faultless p a)
  | .start _ => isTrue trivial
  | .run i c => inferInstanceAs (Decidable (p.Unfailing i c))
  | .tick _ => isTrue trivial

instance Job.CancelsFailed.decidable (x : String) : ∀ t w o, Decidable (Job.CancelsFailed x t w o)
  | .request (.cancelOrder _ _ _), w, o => inferInstanceAs (Decidable (w.CancelsFailed x o))
  | .request .cleanupPendingOrders, w, o => inferInstanceAs (Decidable (w.CancelsFailed x o))
  | .request (.createOrder _ _), _, _ => isTrue trivial
  | .request (.createTestOrder _ _), _, _ => isTrue trivial
  | .request (.confirmOrder _ _), _, _ => isTrue trivial
  | .request (.lockTest _), _, _ => isTrue trivial
  | .task _, _, _ => isTrue trivial

instance Job.ConfirmsPaid.decidable (x : String) : ∀ t w o, Decidable (Job.ConfirmsPaid x t w o)
  | .request (.confirmOrder _ paymentId), w, o =>
    inferInstanceAs (Decidable (w.ConfirmsPaid x paymentId o))
  | .request (.createOrder _ _), _, _ => isTrue trivial
  | .request (.createTestOrder _ _), _, _ => isTrue trivial
  | .request (.cancelOrder _ _ _), _, _ => isTrue trivial
  | .request .cleanupPendingOrders, _, _ => isTrue trivial
  | .request (.lockTest _), _, _ => isTrue trivial
  | .task _, _, _ => isTrue trivial

instance PerformingAs.decidable {K : Job → World → Op → Prop} [∀ t w o, Decidable (K t w o)]
    (p : Pool application) : ∀ a, Decidable (PerformingAs K p a)
  | .start _ => isTrue trivial
  | .run i _ => inferInstanceAs (Decidable (∀ a ∈ p.acts[i]?, ∀ o ∈ a.prog.awaited?,
      K a.tag p.world o))
  | .tick _ => isTrue trivial

instance World.Overlooks.decidable {xs : String → Prop} [∀ x, Decidable (xs x)] (w : World) :
    ∀ o, Decidable (w.Overlooks xs o) := by
  intro o
  cases o with
  | orderFind q =>
    exact inferInstanceAs (Decidable (∀ y ∈ w.orders.rows, xs y.id → q.selects y = false))
  | _ => exact isTrue trivial

instance World.Fresh.decidable {uuid : String → Prop} [∀ x, Decidable (uuid x)] (w : World) :
    ∀ o c, Decidable (w.Fresh uuid o c) := by
  intro o c
  cases o with
  | uuidv4 => exact inferInstanceAs (Decidable (uuid c.text))
  | orderInsert n =>
    exact inferInstanceAs (Decidable ((∀ k ∈ n.idempotencyKey, ¬uuid k) ∧
      ∀ p ∈ w.payments.rows, p.id ≠ c.text))
  | paymentInsert n => exact inferInstanceAs (Decidable (∀ o ∈ w.orders.rows, o.id ≠ c.text))
  | _ => exact isTrue trivial

instance Untouching.decidable {xs : String → Prop} [∀ x, Decidable (xs x)]
    (p : Pool application) : ∀ a, Decidable (Untouching xs p a)
  | .start (.request (.cancelOrder id _ _)) => inferInstanceAs (Decidable (¬xs id))
  | .start (.request (.confirmOrder id _)) => inferInstanceAs (Decidable (¬xs id))
  | .start (.request (.createOrder _ _)) => isTrue trivial
  | .start (.request (.createTestOrder _ _)) => isTrue trivial
  | .start (.request .cleanupPendingOrders) => isTrue trivial
  | .start (.request (.lockTest _)) => isTrue trivial
  | .start (.task _) => isTrue trivial
  | .run i _ => inferInstanceAs (Decidable (∀ o ∈ p.awaits i, p.world.Overlooks xs o))
  | .tick _ => isTrue trivial

instance Placing.decidable {P : CreateOrderDto → Prop} [∀ dto, Decidable (P dto)]
    (p : Pool application) : ∀ a, Decidable (Placing P p a)
  | .start (.request (.createOrder dto _)) => inferInstanceAs (Decidable (P dto))
  | .start (.request (.createTestOrder dto _)) => inferInstanceAs (Decidable (P dto))
  | .start (.request (.cancelOrder _ _ _)) => isTrue trivial
  | .start (.request (.confirmOrder _ _)) => isTrue trivial
  | .start (.request .cleanupPendingOrders) => isTrue trivial
  | .start (.request (.lockTest _)) => isTrue trivial
  | .start (.task _) => isTrue trivial
  | .run _ _ => isTrue trivial
  | .tick _ => isTrue trivial

instance DrawsFresh.decidable {uuid : String → Prop} [∀ x, Decidable (uuid x)]
    (p : Pool application) : ∀ a, Decidable (DrawsFresh uuid p a)
  | .start _ => isTrue trivial
  | .run i c => inferInstanceAs (Decidable (∀ o ∈ p.awaits i, p.world.Fresh uuid o c))
  | .tick _ => isTrue trivial

instance Performing.decidable {P : World → Op → Prop} [∀ w o, Decidable (P w o)]
    (p : Pool application) : ∀ a, Decidable (Performing P p a)
  | .start _ => isTrue trivial
  | .run i _ => inferInstanceAs (Decidable (∀ o ∈ p.awaits i, P p.world o))
  | .tick _ => isTrue trivial

/-- Activity `i` takes `n` steps in a row, drawing `text` whenever it draws an identifier. -/
def turns (i n : ℕ) (text : String) : List (Action application) :=
  List.replicate n (.run i { text })

/-- An order for one thing, under a key of the client's. -/
def oneProduct : CreateOrderDto := ⟨[⟨"product-1", "P", 1, 10⟩], "somewhere", some "key-1"⟩

/-- The order is placed, and its payment requested. -/
def placed : List (Action application) :=
  .start (.request (.createOrder oneProduct "user-1")) ::
    (turns 0 3 "order-1" ++ turns 1 1 "" ++ turns 2 18 "saga-1")

/-- What is left to do once an order is paid. -/
def paidRest : List (Action application) :=
  turns 3 1 "" ++ turns 5 1 "" ++ turns 6 2 "" ++ turns 8 1 "" ++ turns 9 1 "" ++ turns 10 1 "" ++
    turns 11 2 "" ++ turns 12 2 ""

/-- The payment is declined. -/
def declined : List (Action application) :=
  [.run 4 {}, .run 4 { coin := false }, .run 4 {}, .run 4 {}]

/-- The payment goes through, and the order is confirmed. -/
def paid : List (Action application) := turns 4 5 "payment" ++ turns 7 17 "confirm"

end Play

end CqrsSaga
