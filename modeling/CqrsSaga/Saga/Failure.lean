import CqrsSaga.Async.Protocol
import CqrsSaga.App.SagaManager
import CqrsSaga.App.Transactions

/-!
# What follows a failed step

`handleSagaFailure` rewrites the row of a saga in transactions of its own: it reads the
row for update and writes it back with another status, step and error message.  All the
rest of the row is as it was, and stays so because nobody else can write the row in
between.  Whoever puts up with such rewritings puts up with the whole of it.

## Main definitions

* `Undoes` — a row rewritten by the compensation.
* `Compensating` — what a protocol has to provide.

## Main results

* `Compensating.handleSagaFailure_triple` — **an assertion such rewritings keep is kept.**
-/

namespace CqrsSaga

open SagaManager KafkaService

/-- `s` is what the handling of a failure makes of the row `x`. -/
def Undoes (x s : SagaInstance) : Prop :=
  ∃ status currentStep errorMessage,
    (status = .compensating ∨ status = .compensated ∨ status = .failed) ∧
      s = { x with status, currentStep, errorMessage }

variable {sys : System app}

/-- The handling of a failure of the saga `id` by activity `i` keeps the assertion `F`; what
it knows of a row it has read for update is `Seen`. -/
structure Compensating [Hashes] (P : Protocol sys) (i : ℕ) (id : String)
    (F : World → P.Ghost → Prop) (Seen : ℕ → SagaInstance → World → P.Ghost → Prop) : Prop where
  stable : P.Stable i F
  owner : ∀ n, P.Lasting fun w _ => w.Owner i n
  seen : ∀ n x, P.Stable i (Seen n x)
  connect : P.Triple i F queryRunner.connect fun r w g => F w g ∧ ∀ n, r = .ok n → w.Owner i n
  /-- Beginning and ending a transaction, and giving the query runner back. -/
  control : ∀ n, ∀ o ∈ Op.controls n,
    P.Triple i (fun w g => F w g ∧ w.Owner i n) (Async.perform (S := App) o) fun _ => F
  find : ∀ n, P.Triple i (fun w g => F w g ∧ w.Owner i n) (queryRunner.findOne n id)
    fun r w g => F w g ∧ ∀ x, r = .ok (some x) → Seen n x w g
  save : ∀ n x s, Undoes x s →
    P.Triple i (fun w g => (F w g ∧ w.Owner i n) ∧ Seen n x w g) (queryRunner.save n s) fun _ => F
  send : ∀ m, P.Triple i F (publish "saga-events" m) fun _ => F

namespace Compensating

variable [Hashes] {P : Protocol sys} {i n : ℕ} {id : String} {F : World → P.Ghost → Prop}
  {Seen : ℕ → SagaInstance → World → P.Ghost → Prop}

/-- The assertion, and that the query runner is the activity's own. -/
def On (F : World → P.Ghost → Prop) (i n : ℕ) (w : World) (g : P.Ghost) : Prop :=
  F w g ∧ w.Owner i n

section Keep

variable (h : Compensating P i id F Seen)
include h

theorem on_stable (n : ℕ) : P.Stable i (On F i n) := h.stable.and (h.owner n).stable

theorem on_of {α : Type} {p : Async App α} (hp : P.Triple i F p fun _ => F) :
    P.Triple i (On F i n) p fun _ => On F i n :=
  hp.frame (h.owner n)

theorem on_control {o : Op} (ho : o ∈ Op.controls n) :
    P.Triple i (On F i n) (Async.perform (S := App) o) fun _ => On F i n :=
  ((h.control n o ho).frame (h.owner n)).pre fun _ _ _ hw => ⟨hw, hw.2⟩

/-- Rewrite the row that was read, if there is one. -/
theorem rewrite_triple {β : Type} {f : Option SagaInstance → Async App β}
    (hnone : P.Triple i (On F i n) (f none) fun _ => On F i n)
    (hsome : ∀ x, P.Triple i (fun w g => On F i n w g ∧ Seen n x w g) (f (some x))
      fun _ => On F i n) :
    P.Triple i (On F i n) ((queryRunner.findOne n id).bind f) fun _ => On F i n := by
  have hfind : P.Triple i (On F i n) (queryRunner.findOne n id) fun r w g =>
      On F i n w g ∧ ∀ x, r = .ok (some x) → Seen n x w g := by
    refine (((h.find n).frame (h.owner n)).pre fun _ _ _ hw => ⟨hw, hw.2⟩).post ?_
    exact fun r w g _ hw => ⟨⟨hw.1.1, hw.2⟩, hw.1.2⟩
  refine .bind _ hfind (fun found => ?_) fun e => .throw ?_ fun _ _ _ hw => hw.1
  · cases found with
    | none => exact hnone.pre fun _ _ _ hw => hw.1
    | some x => exact (hsome x).pre fun _ _ _ hw => ⟨hw.1, hw.2 x rfl⟩
  · exact (h.on_stable n).and (.all fun x => .imp fun _ => h.seen n x)

theorem save_triple {x s : SagaInstance} (hs : Undoes x s) :
    P.Triple i (fun w g => On F i n w g ∧ Seen n x w g) (queryRunner.save n s)
      fun _ => On F i n :=
  ((h.save n x s hs).frame (h.owner n)).pre fun _ _ _ hw => ⟨hw, hw.1.2⟩

theorem inTransaction_triple {block : Async App Unit} {recover : Err → Async App Unit}
    (hb : P.Triple i (On F i n) block fun _ => On F i n)
    (hr : ∀ e, P.Triple i F (recover e) fun _ => F) :
    P.Triple i (On F i n) (inTransaction n block recover) fun _ => On F i n := by
  have hst := h.on_stable n
  refine .ensure (G := On F i n) hst (.rescue hst hb fun e => ?_)
    (h.on_control (by simp [Op.controls]))
  exact .seq hst (h.on_control (by simp [Op.controls])) fun _ => h.on_of (hr e)

/-- Open a query runner, begin a transaction and go on. -/
theorem connected_triple {p : ℕ → Async App Unit}
    (hp : ∀ n, P.Triple i (On F i n) (p n) fun _ => On F i n) :
    P.Triple i F (queryRunner.connect.bind fun n => (queryRunner.startTransaction n).bind
      fun _ => p n) fun _ => F := by
  refine .bind _ h.connect (fun n => ?_) fun e => .throw ?_ fun _ _ _ hw => hw.1
  · refine Protocol.Triple.conseq (fun w g _ hw => ⟨hw.1, hw.2 n rfl⟩) (fun _ _ _ _ hw => hw.1)
      (.seq (h.on_stable n) (h.on_control (by simp [Op.controls])) fun _ => hp n)
  · exact h.stable.and (.all fun n => .imp fun _ => (h.owner n).stable)

variable {saga : SagaInstance}

theorem recordFinalFailure_triple (hid : saga.id = id) (errorMessage : String) :
    P.Triple i (On F i n) (recordFinalFailure n saga errorMessage) fun _ => On F i n := by
  subst hid
  have hst := h.on_stable n
  refine h.rewrite_triple ?_ fun x => ?_
  · exact .seq hst (h.on_control (by simp [Op.controls])) fun _ => h.on_of (h.send _)
  · refine .bind _ (h.save_triple ⟨_, _, _, Or.inr (Or.inr rfl), rfl⟩) (fun _ => ?_)
      fun _ => .fail hst
    exact .seq hst (h.on_control (by simp [Op.controls])) fun _ => h.on_of (h.send _)

theorem markSagaAsFinalFailure_triple (hid : saga.id = id) (errorMessage : String) :
    P.Triple i F (markSagaAsFinalFailure saga errorMessage) fun _ => F :=
  h.connected_triple fun _ => h.inTransaction_triple (h.recordFinalFailure_triple hid _)
    fun _ => .skip h.stable

/-- Compensating steps only sends messages, and notes them in the saga in memory. -/
theorem compensateSteps_triple : ∀ (steps : List String) (saga : SagaInstance),
    P.Triple i F (compensateSteps steps saga) fun r w g =>
      F w g ∧ ∀ s, r = .ok s → s.id = saga.id := by
  have hst : ∀ (saga : SagaInstance) (r : Except Err SagaInstance),
      P.Stable i fun w g => F w g ∧ ∀ s, r = .ok s → s.id = saga.id :=
    fun saga r => h.stable.and (.const _)
  intro steps
  induction steps with
  | nil =>
    refine fun saga => .ret h.stable fun w g _ hw => ⟨hw, fun s hs => ?_⟩
    rw [← Except.ok.inj hs]
  | cons step steps ih =>
    intro saga
    refine .bind (fun r w g => F w g ∧ ∀ s, r = .ok s → s.id = saga.id) ?_ (fun s => ?_)
      fun e => .throw (hst saga _) fun w g _ hw => ⟨hw.1, fun s hs => by simp at hs⟩
    · refine .bind _ (h.send _) (fun _ => .ret h.stable fun w g _ hw => ⟨hw, fun s hs => ?_⟩)
        fun e => .throw h.stable fun w g _ hw => ⟨hw, fun s hs => by simp at hs⟩
      rw [← Except.ok.inj hs]
    · refine .assuming (A := s.id = saga.id) (fun w g _ hw => hw.2 s rfl) fun hid => ?_
      refine (ih s).conseq (fun w g _ hw => hw.1) fun r w g _ hw => ⟨hw.1, fun s' hs' => ?_⟩
      rw [hw.2 s' hs', hid]

theorem compensate_triple (hid : saga.id = id) :
    P.Triple i (On F i n) (compensate n saga) fun _ => On F i n := by
  have hst := h.on_stable n
  refine .bind _ ((h.compensateSteps_triple _ saga).frame (h.owner n)) (fun s => ?_)
    fun e => .throw ?_ fun _ _ _ hw => ⟨hw.1.1, hw.2⟩
  · refine .assuming (A := s.id = id) (fun w g _ hw => (hw.1.2 s rfl).trans hid) fun hs => ?_
    subst hs
    refine .pre (fun _ _ _ hw => ⟨hw.1.1, hw.2⟩) (h.rewrite_triple (n := n) ?_ fun x => ?_)
    · exact .seq hst (.skip hst) fun _ => .seq hst (h.on_control (by simp [Op.controls])) fun _ =>
        h.on_of (h.send _)
    · refine .bind _ (h.save_triple ⟨_, x.currentStep, x.errorMessage, Or.inr (Or.inl rfl), rfl⟩)
        (fun _ => ?_) fun _ => .fail hst
      exact .seq hst (h.on_control (by simp [Op.controls])) fun _ => h.on_of (h.send _)
  · exact (h.stable.and (.const _)).and (h.owner n).stable

theorem startCompensation_triple (hid : saga.id = id) :
    P.Triple i F (startCompensation saga) fun _ => F :=
  h.connected_triple fun _ => h.inTransaction_triple (h.compensate_triple hid)
    fun _ => h.markSagaAsFinalFailure_triple hid _

theorem beginCompensation_triple (hid : saga.id = id) (failedStep errorMessage : String)
    (hseen : ∀ n x w g, Seen n x w g → x.id = id) :
    P.Triple i (On F i n) (beginCompensation n saga failedStep errorMessage)
      fun _ => On F i n := by
  subst hid
  have hst := h.on_stable n
  refine h.rewrite_triple (.fail hst) fun x => ?_
  refine .assuming (A := x.id = saga.id) (fun w g _ hw => hseen n x w g hw.2) fun hx => ?_
  refine .bind _ (h.save_triple ⟨_, _, _, Or.inl rfl, rfl⟩) (fun _ => ?_) fun _ => .fail hst
  refine .seq hst (h.on_control (by simp [Op.controls])) fun _ => .seq hst (h.on_of (h.send _))
    fun _ => ?_
  exact h.on_of (h.startCompensation_triple hx)

/-- **The handling of a failure keeps the assertion.** -/
theorem handleSagaFailure_triple (hid : saga.id = id) (failedStep errorMessage : String)
    (hseen : ∀ n x w g, Seen n x w g → x.id = id) :
    P.Triple i F (handleSagaFailure saga failedStep errorMessage) fun _ => F :=
  h.connected_triple fun _ => h.inTransaction_triple
    (h.beginCompensation_triple hid failedStep errorMessage hseen) fun _ => .fail h.stable

end Keep

end Compensating

end CqrsSaga
