import CqrsSaga.Saga.Failure
import CqrsSaga.Saga.Steps

/-!
# The calls of `executeSagaStep` keep to their protocol

One triple for every operation a call performs, one for what it does under its lock, and
one for its `catch` block.

## Main results

* `StepCalls.stepSection_triple` — what a call does under its lock.
* `StepCalls.compensating` — handling a failure leaves the recorded steps alone.
* `StepCalls.call_triple` — every call keeps to the protocol.
-/

namespace CqrsSaga

open SagaManager RedisLockService KafkaService

namespace StepCalls

variable [Hashes] {sagaId : String} {only : Option String} {i : ℕ} {w w' : World} {g : Sections}

/-! ### Assertions -/

/-- Call `i` has recorded whatever it has run. -/
def Idle (i : ℕ) (_ : World) (g : Sections) : Prop := g.ran ≠ some i

/-- Call `i` holds the lock of the step `s`. -/
def Holding (sagaId s : String) (i : ℕ) (tok : String) (_ : World) (g : Sections) : Prop :=
  g.holders (lockKey sagaId s) = some (i, tok)

/-- Call `i` is in its section, and these are the stored steps. -/
def Working (sagaId s : String) (i : ℕ) (tok : String) (l : List String) (w : World)
    (g : Sections) : Prop :=
  Holding sagaId s i tok w g ∧ w.Steps sagaId l

variable {s tok : String} {l : List String}

theorem idle_stable : (stepProtocol sagaId only).Stable i (Idle i) :=
  fun _ _ _ _ _ hk _ h h' => h (hk.2.1.mpr h')

theorem ran_stable : (stepProtocol sagaId only).Stable i fun _ g => g.ran = some i :=
  fun _ _ _ _ _ hk _ h => hk.2.1.mp h

theorem holding_stable : (stepProtocol sagaId only).Stable i (Holding sagaId s i tok) :=
  fun _ _ _ _ _ hk _ h => hk.1 _ _ h

theorem working_stable : (stepProtocol sagaId only).Stable i (Working sagaId s i tok l) :=
  fun _ _ _ _ _ hk _ h => ⟨hk.1 _ _ h.1, (hk.2.2.1 ⟨s, tok, h.1⟩ l).mp h.2⟩

theorem recorded_lasting (s : String) :
    (stepProtocol sagaId only).Lasting fun w _ => w.Recorded sagaId s :=
  fun _ _ _ _ hm _ h => hm.1 s h

/-! ### Operations -/

/-- Where no operation fails, it is performed and returns. -/
theorem atomic_of_ok {o : Op} {Φ : Except Err (Op.Val o) → World → Sections → Prop}
    (h : ∀ c w' v ts, (stepProtocol sagaId only).CanRun w g i o c →
      w.exec i o c = some (w', .ok v, ts) → w.perform i c o = some (w', .ok v, ts) →
        ∃ g', (stepProtocol sagaId only).Respects i w g w' g' ∧ Φ (.ok v) w' g') :
    (stepProtocol sagaId only).atomic i o Φ w g := by
  refine ⟨trivial, fun c w' r ts hc he l hl hf => ?_⟩
  obtain ⟨hp, v, rfl⟩ := World.exec_of_failure he hc.1
  obtain ⟨g', hr, hΦ⟩ := h c w' v ts hc he hp
  exact hr.settles (by simp) hl hf hΦ

/-- An operation that leaves sagas, locks and the log alone. -/
theorem atomic_foreign {o : Op} {F : World → Sections → Prop} (ho : o.leavesSagas)
    (hI : Inv sagaId only w g) (hF : ∀ w', w'.sagas = w.sagas → F w' g) :
    (stepProtocol sagaId only).atomic i o (Returns (P := stepProtocol sagaId only) F) w g := by
  refine atomic_of_ok fun c w' v ts _ he _ => ⟨g, ?_, ⟨v, rfl⟩, ?_⟩
  · have hframe := World.exec_frame he
    have hown : w.Owns i o := by
      constructor
      · intro r hr
        cases o <;> simp [Op.runner?] at hr <;> simp [Op.leavesSagas, Op.writes] at ho
      · rintro r x rfl
        simp [Op.leavesSagas, Op.writes] at ho
    refine respects_of_same hI (hI.backs.of_same (hframe.redis ho.2.2.1) hframe.clock)
      (hframe.transactions ho.2.1) (hframe.sagas ho.1) (World.exec_tx hI.tx hown he).2.1 fun s => ?_
    unfold World.executions
    rw [hframe.log ho.2.2.2]
  · exact hF w' ((World.exec_frame he).sagas ho.1)

/-- The row is read in the section. -/
def Read (sagaId : String) (only : Option String) (s : String) (i : ℕ) (tok : String)
    (r : Except Err (Option SagaInstance)) (w : World) (g : Sections) : Prop :=
  (Idle i w g ∧ Holding sagaId s i tok w g) ∧ ∃ v, r = .ok v ∧ (v = none → only = none) ∧
    ∀ x, v = some x → x.id = sagaId ∧ w.Steps sagaId x.completedSteps ∧
      (only ≠ none → x.status.Unharmed)

theorem read_stable (r : Except Err (Option SagaInstance)) :
    (stepProtocol sagaId only).Stable i (Read sagaId only s i tok r) := by
  rintro w g w' g' hm hk hI ⟨⟨hi, hh⟩, v, hr, hn, hx⟩
  refine ⟨⟨idle_stable hm hk hI hi, holding_stable hm hk hI hh⟩, v, hr, hn, fun x hv => ?_⟩
  obtain ⟨hid, hsteps, hu⟩ := hx x hv
  exact ⟨hid, (working_stable hm hk hI ⟨hh, hsteps⟩).2, hu⟩

theorem findOne_triple :
    (stepProtocol sagaId only).Triple i
      (fun w g => Idle i w g ∧ Holding sagaId s i tok w g)
      (sagaRepository.findOne { id := some sagaId }) (Read sagaId only s i tok) := by
  refine .perform (idle_stable.and holding_stable) read_stable fun w g hI hw => ?_
  refine atomic_of_ok fun c w' v ts _ _ hp => ?_
  simp only [World.perform, Option.some.injEq, Prod.mk.injEq] at hp
  obtain ⟨rfl, hv, -⟩ := hp
  obtain rfl := Except.ok.inj hv
  refine ⟨g, .refl hI, hw, _, rfl, fun hn => ?_, fun x hx => ?_⟩
  · -- where there is only one step, the saga is stored
    by_contra ho
    obtain ⟨s₀, hs₀⟩ := Option.ne_none_iff_exists'.mp ho
    obtain ⟨⟨x, hx, hxid⟩, -⟩ := (hI.single s₀ hs₀).2
    have hsel := Table.find?_eq_none.mp hn x hx
    simp [SagaWhere.selects, meets, hxid] at hsel
  · have hmem := Table.mem_of_find? hx
    have hid : x.id = sagaId := SagaWhere.selects_id (Table.find?_some hx) rfl
    refine ⟨hid, ⟨x, hmem, hid, rfl⟩, fun ho => ?_⟩
    obtain ⟨s₀, hs₀⟩ := Option.ne_none_iff_exists'.mp ho
    exact (hI.single s₀ hs₀).2.2 x hmem hid

/-- A save that keeps the steps. -/
theorem save_triple {y : SagaInstance} (hid : y.id = sagaId) (hl : y.completedSteps = l)
    (hu : only ≠ none → y.status.Unharmed) :
    (stepProtocol sagaId only).Triple i
      (fun w g => Idle i w g ∧ Working sagaId s i tok l w g) (sagaRepository.save y)
      (Returns (P := stepProtocol sagaId only)
        fun w g => Idle i w g ∧ Working sagaId s i tok l w g) := by
  have hst : (stepProtocol sagaId only).Stable i
      fun w g => Idle i w g ∧ Working sagaId s i tok l w g := idle_stable.and working_stable
  refine .perform hst (returns_stable hst) fun w g hI hw => atomic_of_ok fun c w' v ts _ _ hp => ?_
  obtain ⟨hlock, rfl⟩ := World.perform_sagaSave hp
  obtain ⟨u, hput⟩ := World.putSaga_only w y
  have hsteps : ∀ l', w.Steps sagaId l' ↔ (w.putSaga y).Steps sagaId l' := by
    intro l'
    rw [World.steps_putSaga hid, hl]
    constructor
    · exact fun h => hw.2.2.unique h
    · rintro rfl
      exact hw.2.2
  refine ⟨g, respects_of_steps hI (hI.backs.of_same (by rw [hput]) (World.putSaga_clock w y))
    (World.sagaSave_respects hI.tx hlock) (fun x hx => ?_) hsteps (fun s' => ?_) (fun ho => ?_),
    ⟨v, rfl⟩, hw.1, hw.2.1, (hsteps l).mp hw.2.2⟩
  · rw [hput] at hx
    exact hI.pending x hx
  · unfold World.executions
    rw [hput]
  · obtain ⟨s₀, hs₀⟩ := Option.ne_none_iff_exists'.mp ho
    refine ⟨⟨_, (World.mem_putSaga w y).mpr (Or.inl rfl), hid⟩, fun z hz hzid => ?_⟩
    rcases (World.mem_putSaga w y).mp hz with rfl | ⟨hz, -⟩
    · exact hu ho
    · exact (hI.single s₀ hs₀).2.2 z hz hzid

/-- The save that records the step. -/
theorem recordSave_triple {y : SagaInstance} (hid : y.id = sagaId)
    (hy : y.completedSteps = l ++ [s]) (hu : only ≠ none → y.status.Unharmed) :
    (stepProtocol sagaId only).Triple i
      (fun w g => g.ran = some i ∧ Working sagaId s i tok l w g) (sagaRepository.save y)
      (Returns (P := stepProtocol sagaId only) fun w g =>
        (Idle i w g ∧ Holding sagaId s i tok w g) ∧ w.Recorded sagaId s) := by
  refine .perform (ran_stable.and working_stable)
    (returns_stable ((idle_stable.and holding_stable).and (recorded_lasting s).stable))
    fun w g hI hw => atomic_of_ok fun c w' v ts _ _ hp => ?_
  obtain ⟨hlock, rfl⟩ := World.perform_sagaSave hp
  refine ⟨_, respects_recorded hI hw.2.1 hw.1 hw.2.2 hlock hid hy hu, ⟨v, rfl⟩,
    ⟨fun h => by simp at h, hw.2.1⟩, ?_⟩
  exact World.recorded_iff.mpr ⟨_, (World.steps_putSaga hid _).mpr hy, by simp⟩

/-- The action has run to completion, and says so. -/
theorem executed_triple (hs : s ∉ l) :
    (stepProtocol sagaId only).Triple i
      (fun w g => Idle i w g ∧ Working sagaId s i tok l w g)
      (logger (.commandExecuted s sagaId))
      (Returns (P := stepProtocol sagaId only)
        fun w g => g.ran = some i ∧ Working sagaId s i tok l w g) := by
  refine .perform (idle_stable.and working_stable)
    (returns_stable (ran_stable.and working_stable)) fun w g hI hw => ⟨trivial, ?_⟩
  intro c w' r ts _ he l' hl' hf
  obtain ⟨hp, hr⟩ := World.exec_local he rfl
  simp only [World.perform, Option.some.injEq, Prod.mk.injEq] at hp
  obtain ⟨rfl, -, rfl⟩ := hp
  have hrec : ¬w.Recorded sagaId s := by
    intro h
    obtain ⟨l₁, hl₁, hs₁⟩ := World.recorded_iff.mp h
    rw [hl₁.unique hw.2.2] at hs₁
    exact hs hs₁
  obtain ⟨hI', hm, hk⟩ := respects_ran hI hw.2.1 hw.1 hrec
  refine .quiet rfl { g with ran := some i } hI' hm (fun j _ => hk j) (fun j hj => ?_)
    ⟨hr, rfl, hw.2⟩
  rw [← Option.some.inj hj]
  exact hl'

/-- Handing the message over changes nothing. -/
theorem setImmediate_triple {F : World → Sections → Prop}
    (hF : (stepProtocol sagaId only).Stable i F) (task : Task) :
    (stepProtocol sagaId only).Triple i F (setImmediate task)
      (Returns (P := stepProtocol sagaId only) F) := by
  refine .perform hF (returns_stable hF) fun w g hI hw => atomic_of_ok fun c w' v ts _ _ hp => ?_
  simp only [World.perform, Option.some.injEq, Prod.mk.injEq] at hp
  obtain ⟨rfl, -, -⟩ := hp
  exact ⟨g, .refl hI, ⟨v, rfl⟩, hw⟩

/-! ### The section -/

/-- What is known of a call when its section ends. -/
def Done (sagaId : String) (only : Option String) (i : ℕ) (r : Except Err Unit) (w : World)
    (g : Sections) : Prop :=
  Idle i w g ∧ ∀ s, only = some s → (∃ v, r = .ok v) ∧ w.Recorded sagaId s

theorem done_stable (r : Except Err Unit) :
    (stepProtocol sagaId only).Stable i (Done sagaId only i r) :=
  idle_stable.and (.all fun s => .imp fun _ => (Protocol.Stable.const _).and
    (recorded_lasting s).stable)

/-- An error ends the section where there are other steps. -/
theorem throw_triple {F : World → Sections → Prop} (hF : (stepProtocol sagaId only).Stable i F)
    (hD : ∀ w g, F w g → (Idle i w g ∧ Holding sagaId s i tok w g) ∧ only = none) (e : Err) :
    (stepProtocol sagaId only).Triple i F (.throw e : Async App Unit)
      fun r w g => Done sagaId only i r w g ∧ Holding sagaId s i tok w g := by
  refine .throw hF fun w g _ hw => ?_
  obtain ⟨⟨hi, hh⟩, ho⟩ := hD w g hw
  exact ⟨⟨hi, fun s hs => by simp [ho] at hs⟩, hh⟩

variable {action : Async App Unit}

/-- The action of the step: it returns, unless there are other steps. -/
theorem action_triple (ha : action.Only fun o : Op => o.leavesSagas)
    (ht : only ≠ none → action.NoThrow) :
    (stepProtocol sagaId only).Triple i
      (fun w g => Idle i w g ∧ Working sagaId s i tok l w g) action fun r w g =>
        (Idle i w g ∧ Working sagaId s i tok l w g) ∧ (only ≠ none → ∃ v, r = .ok v) := by
  have hst : (stepProtocol sagaId only).Stable i
      fun w g => Idle i w g ∧ Working sagaId s i tok l w g := idle_stable.and working_stable
  have hatomic : ∀ (o : Op) (w : World) (g : Sections), o.leavesSagas → Inv sagaId only w g →
      Idle i w g ∧ Working sagaId s i tok l w g →
        (stepProtocol sagaId only).atomic i o (Returns (P := stepProtocol sagaId only)
          fun w g => Idle i w g ∧ Working sagaId s i tok l w g) w g := by
    refine fun o w g ho hI hw => atomic_foreign ho hI fun w' hs => ⟨hw.1, hw.2.1, ?_⟩
    unfold World.Steps
    rw [hs]
    exact hw.2.2
  intro w g hI hw
  by_cases ho : only = none
  · refine Protocol.wp_mono (fun r w g _ h => ⟨h, fun hne => absurd ho hne⟩)
      (Protocol.wp_of_only hst (fun o w g h hI hw => ?_) ha hw)
    exact Protocol.atomic_mono (fun r w g _ h => h.2) (hatomic o w g h hI hw)
  · exact Protocol.wp_mono (fun r w g _ h => ⟨h.2, fun _ => h.1⟩)
      (Protocol.wp_of_only_noThrow hst hatomic ha (ht ho) hw)

/-- What running the action and saying so leads to. -/
def Executed (sagaId : String) (only : Option String) (s : String) (i : ℕ) (tok : String)
    (l : List String) (r : Except Err Unit) (w : World) (g : Sections) : Prop :=
  Working sagaId s i tok l w g ∧
    ((∃ v, r = .ok v) ∧ g.ran = some i ∨ (∃ e, r = .error e) ∧ only = none ∧ Idle i w g)

theorem executed_stable (r : Except Err Unit) :
    (stepProtocol sagaId only).Stable i (Executed sagaId only s i tok l r) := by
  rintro w g w' g' hm hk hI ⟨hw, ⟨hr, hran⟩ | ⟨hr, ho, hi⟩⟩
  · exact ⟨working_stable hm hk hI hw, Or.inl ⟨hr, ran_stable hm hk hI hran⟩⟩
  · exact ⟨working_stable hm hk hI hw, Or.inr ⟨hr, ho, idle_stable hm hk hI hi⟩⟩

theorem execute_triple (ha : action.Only fun o : Op => o.leavesSagas)
    (ht : only ≠ none → action.NoThrow) (hs : s ∉ l) :
    (stepProtocol sagaId only).Triple i
      (fun w g => Idle i w g ∧ Working sagaId s i tok l w g)
      (action.bind fun _ => logger (.commandExecuted s sagaId))
      (Executed sagaId only s i tok l) := by
  refine .bind _ (action_triple ha ht) (fun _ => ?_) fun e => ?_
  · refine (executed_triple hs).conseq (fun w g _ hw => hw.1) ?_
    exact fun r w g _ hw => ⟨hw.2.2, Or.inl ⟨hw.1, hw.2.1⟩⟩
  · refine .throw ((idle_stable.and working_stable).and (.const _)) fun w g _ hw => ?_
    refine ⟨hw.1.2, Or.inr ⟨⟨e, rfl⟩, ?_, hw.1.1⟩⟩
    by_contra ho
    obtain ⟨v, hv⟩ := hw.2 ho
    simp at hv

/-- Recording the step, once its action has run. -/
theorem record_triple {y : SagaInstance} (hs : ∀ s', only = some s' → s = s')
    (hid : y.id = sagaId) (hy : y.completedSteps = l ++ [s])
    (hu : only ≠ none → y.status.Unharmed) (task : Task) :
    (stepProtocol sagaId only).Triple i
      (fun w g => g.ran = some i ∧ Working sagaId s i tok l w g)
      ((sagaRepository.save y).bind fun _ => setImmediate task)
      fun r w g => Done sagaId only i r w g ∧ Holding sagaId s i tok w g := by
  refine .bind _ (recordSave_triple hid hy hu) (fun _ => ?_) fun e => ?_
  · refine (setImmediate_triple ((idle_stable.and holding_stable).and
      (recorded_lasting s).stable) task).conseq (fun w g _ hw => hw.2) ?_
    rintro r w g - ⟨hr, ⟨hi, hh⟩, hrec⟩
    exact ⟨⟨hi, fun s' hs' => ⟨hr, hs s' hs' ▸ hrec⟩⟩, hh⟩
  · exact .assuming (A := False) (fun w g _ hw => by simpa using hw.1) False.elim

/-- **What a call does under its lock.** -/
theorem stepSection_triple (hs : ∀ s', only = some s' → s = s')
    (ha : action.Only fun o : Op => o.leavesSagas) (ht : only ≠ none → action.NoThrow) :
    (stepProtocol sagaId only).Triple i
      (fun w g => Idle i w g ∧ Holding sagaId s i tok w g)
      (stepSection sagaId s (action.bind fun _ => logger (.commandExecuted s sagaId)))
      fun r w g => Done sagaId only i r w g ∧ Holding sagaId s i tok w g := by
  refine .bind _ findOne_triple (fun found => ?_) fun e => ?_
  · cases found with
    | none =>
      refine throw_triple (read_stable _) (fun w g hw => ?_) _
      obtain ⟨hih, v, hv, hn, -⟩ := hw
      exact ⟨hih, hn (Except.ok.inj hv).symm⟩
    | some x =>
      refine .assuming (A := x.id = sagaId ∧ (only ≠ none → x.status.Unharmed)) ?_ ?_
      · rintro w g - ⟨-, v, hv, -, hx⟩
        obtain ⟨hid, -, hu⟩ := hx x (Except.ok.inj hv).symm
        exact ⟨hid, hu⟩
      rintro ⟨hid, hu⟩
      have hpre : ∀ w g, Read sagaId only s i tok (.ok (some x)) w g →
          Idle i w g ∧ Working sagaId s i tok x.completedSteps w g := by
        rintro w g ⟨⟨hi, hh⟩, v, hv, -, hx⟩
        exact ⟨hi, hh, (hx x (Except.ok.inj hv).symm).2.1⟩
      by_cases hmem : s ∈ x.completedSteps
      · -- the step was completed before
        simp only [if_pos hmem]
        refine .ret (read_stable _) fun w g _ hw => ?_
        obtain ⟨hi, hh, hsteps⟩ := hpre w g hw
        refine ⟨⟨hi, fun s' hs' => ⟨⟨(), rfl⟩, ?_⟩⟩, hh⟩
        rw [← hs s' hs']
        exact World.recorded_iff.mpr ⟨_, hsteps, hmem⟩
      · simp only [if_neg hmem]
        refine .bind _ ((save_triple (y := { x with currentStep := s }) hid rfl hu).pre
          fun w g _ hw => hpre w g hw) (fun _ => ?_) fun e => ?_
        · refine .bind _ ((execute_triple ha ht hmem).pre fun w g _ hw => hw.2) (fun _ => ?_)
            fun e => throw_triple (executed_stable _) (fun w g hw => ?_) e
          · refine (record_triple (y := { x with currentStep := s, completedSteps := _ }) hs hid rfl hu
              _).pre ?_
            rintro w g - ⟨hw, ⟨-, hran⟩ | ⟨⟨e, he⟩, -⟩⟩
            · exact ⟨hran, hw⟩
            · simp at he
          · obtain ⟨hw, ⟨⟨v, hv⟩, -⟩ | ⟨-, ho, hi⟩⟩ := hw
            · simp at hv
            · exact ⟨⟨hi, hw.1⟩, ho⟩
        · exact .assuming (A := False) (fun w g _ hw => by simpa using hw.1) False.elim
  · exact .assuming (A := False) (fun w g _ hw => by
      obtain ⟨-, v, hv, -⟩ := hw
      cases hv) False.elim

/-! ### After a failure

Only where there are other steps does a call ever come here. -/

/-- What a call knows of the row it has read for update. -/
def Seen (sagaId : String) (i n : ℕ) (x : SagaInstance) (w : World) (_ : Sections) : Prop :=
  (w.Owner i n ∧ w.Locks n x.id) ∧ x ∈ w.sagas ∧ x.id = sagaId

theorem seen_stable (n : ℕ) (x : SagaInstance) :
    (stepProtocol sagaId only).Stable i (Seen sagaId i n x) := by
  rintro w g w' g' - ⟨-, -, -, hk, hp⟩ - ⟨⟨ho, hl⟩, hx, hid⟩
  exact ⟨⟨ho.later hp, hk.locks ho hl⟩, ((hk n ho).2 _ hl x rfl).mpr hx, hid⟩

theorem owner_lasting (n : ℕ) : (stepProtocol sagaId only).Lasting fun w _ => w.Owner i n :=
  fun _ _ _ _ hm _ h => h.later hm.2

/-- An operation within a transaction of the call's own. -/
theorem atomic_tx {o : Op} {Φ : Except Err (Op.Val o) → World → Sections → Prop}
    (hI : Inv sagaId none w g) (ho : w.Owns i o) (hr : .redis ∉ o.writes) (hl : .log ∉ o.writes)
    (hp : ∀ c w' v ts, w.perform i c o = some (w', .ok v, ts) →
      (∀ x, w'.Pending x → x.id = sagaId → w.Steps sagaId x.completedSteps) ∧
        (∀ l, w.Steps sagaId l ↔ w'.Steps sagaId l) ∧ Φ (.ok v) w' g) :
    (stepProtocol sagaId none).atomic i o Φ w g := by
  refine atomic_of_ok fun c w' v ts _ he hperf => ?_
  obtain ⟨hpend, hsteps, hΦ⟩ := hp c w' v ts hperf
  have hframe := World.exec_frame he
  refine ⟨g, respects_of_steps hI (hI.backs.of_same (hframe.redis hr) hframe.clock)
    (World.exec_tx hI.tx ho he) hpend hsteps (fun s => ?_) (fun h => absurd rfl h), hΦ⟩
  unfold World.executions
  rw [hframe.log hl]

theorem control_triple (n : ℕ) : ∀ o ∈ Op.controls n,
    (stepProtocol sagaId none).Triple i (fun w g => Idle i w g ∧ w.Owner i n)
      (Async.perform (S := App) o) fun _ => Idle i := by
  intro o ho
  have hparts : .redis ∉ o.writes ∧ .log ∉ o.writes ∧ ∀ r s, o ≠ .txSagaSave r s := by
    simp only [Op.controls, List.mem_cons, List.not_mem_nil, or_false] at ho
    rcases ho with rfl | rfl | rfl | rfl <;> simp [Op.writes]
  refine .perform (idle_stable.and (owner_lasting n).stable) (fun _ => idle_stable)
    fun w g hI hw => atomic_tx hI (.of_owner hw.2 (fun r => Op.runner?_control ho) hparts.2.2)
      hparts.1 hparts.2.1 fun c w' v ts hp => ?_
  obtain ⟨hpend, ss, hss, hsagas⟩ := World.perform_control ho hp
  refine ⟨fun x hx => hI.pending x (hpend x hx), fun l => ?_, hw.1⟩
  rw [World.steps_putSagas ss w (fun x hx => hI.pending x (hss x hx)) l]
  unfold World.Steps
  rw [hsagas]

theorem connect_triple : (stepProtocol sagaId none).Triple i (Idle i) queryRunner.connect
    fun r w g => Idle i w g ∧ ∀ n, r = .ok n → w.Owner i n := by
  refine .perform idle_stable (fun r => idle_stable.and (.all fun n => .imp fun _ =>
    (owner_lasting n).stable)) fun w g hI hw => ?_
  have hown : w.Owns i .connect := ⟨fun _ h => (nomatch h), fun _ _ h => (nomatch h)⟩
  refine atomic_tx hI hown (by simp [Op.writes]) (by simp [Op.writes]) fun c w' v ts hp => ?_
  simp only [World.perform, Option.some.injEq, Prod.mk.injEq] at hp
  obtain ⟨rfl, hv, -⟩ := hp
  refine ⟨hI.pending, fun _ => Iff.rfl, hw, fun n hn => ?_⟩
  rw [← Except.ok.inj hn, ← Except.ok.inj hv]
  exact List.getElem?_concat_length

theorem txFind_triple (n : ℕ) :
    (stepProtocol sagaId none).Triple i (fun w g => Idle i w g ∧ w.Owner i n)
      (queryRunner.findOne n sagaId)
      fun r w g => Idle i w g ∧ ∀ x, r = .ok (some x) → Seen sagaId i n x w g := by
  refine .perform (idle_stable.and (owner_lasting n).stable) (fun r => idle_stable.and
    (.all fun x => .imp fun _ => seen_stable n x)) fun w g hI hw => atomic_tx hI
      (.of_owner hw.2 (fun r hr => (Option.some.inj hr).symm) fun r s h => nomatch h)
        (by simp [Op.writes]) (by simp [Op.writes]) fun c w' v ts hp => ?_
  obtain ⟨hpend, hsagas, hseen⟩ := World.perform_txFind hp
  have hframe := World.perform_frame hp
  refine ⟨fun x hx => hI.pending x (hpend x hx), fun l => ?_, hw.1, fun x hx => ?_⟩
  · unfold World.Steps
    rw [hsagas]
  · obtain ⟨hl, hmem, hid⟩ := hseen x hx
    refine ⟨⟨?_, hid ▸ hl⟩, hsagas ▸ hmem, hid⟩
    unfold World.Owner
    rw [hframe.runners (by simp [Op.writes])]
    exact hw.2

theorem txSave_triple (n : ℕ) (x y : SagaInstance) (hxy : Undoes x y) :
    (stepProtocol sagaId none).Triple i
      (fun w g => (Idle i w g ∧ w.Owner i n) ∧ Seen sagaId i n x w g) (queryRunner.save n y)
      fun _ => Idle i := by
  obtain ⟨status, currentStep, errorMessage, -, rfl⟩ := hxy
  refine .perform ((idle_stable.and (owner_lasting n).stable).and (seen_stable n x))
    (fun _ => idle_stable) fun w g hI hw => ?_
  obtain ⟨⟨hi, ho⟩, ⟨-, hl⟩, hx, hid⟩ := hw
  have hown : w.Owns i (.txSagaSave n { x with status, currentStep, errorMessage }) := by
    refine ⟨fun r hr => Option.some.inj hr ▸ ho, fun r s hs => ?_⟩
    obtain ⟨rfl, rfl⟩ := Op.txSagaSave.inj hs
    exact hl
  refine atomic_tx hI hown (by simp [Op.writes]) (by simp [Op.writes]) fun c w' v ts hp => ?_
  obtain ⟨hpend, hsagas⟩ := World.perform_txSave hp
  refine ⟨fun z hz hzid => ?_, fun l => ?_, hi⟩
  · rcases hpend z hz with rfl | hz
    · exact ⟨x, hx, hid, rfl⟩
    · exact hI.pending z hz hzid
  · unfold World.Steps
    rw [hsagas]

/-- The handling of a failure leaves the recorded steps alone. -/
theorem compensating :
    Compensating (stepProtocol sagaId none) i sagaId (Idle i) (Seen sagaId i) where
  stable := idle_stable
  owner := owner_lasting
  seen := seen_stable
  connect := connect_triple
  control := control_triple
  find := txFind_triple
  save := txSave_triple
  send := by
    intro m
    refine .perform idle_stable (fun _ => idle_stable) fun w g hI hw => ?_
    refine Protocol.atomic_mono (fun r w g _ h => h.2) (atomic_foreign ?_ hI fun _ _ => hw)
    simp [Op.leavesSagas, Op.writes]

/-- The `catch` block of a call. -/
theorem stepFailed_triple (s : String) (e : Err) :
    (stepProtocol sagaId none).Triple i (Idle i) (stepFailed sagaId s e) fun _ => Idle i := by
  refine .seq idle_stable ?_ fun _ => ?_
  · refine .perform idle_stable (fun _ => idle_stable) fun w g hI hw => ?_
    refine atomic_of_ok fun c w' v ts _ _ hp => ⟨g, ?_, ?_⟩
    · simp only [World.perform, Option.some.injEq, Prod.mk.injEq] at hp
      obtain ⟨rfl, -, -⟩ := hp
      refine respects_of_same hI (hI.backs.of_same rfl rfl) rfl rfl List.prefix_rfl fun s' => ?_
      simp [World.executions]
    · exact hw
  · refine .bind (fun r w g => Idle i w g ∧ ∀ x, r = .ok (some x) → x.id = sagaId) ?_
      (fun found => ?_) fun _ => .throw (idle_stable.and (.const _)) fun _ _ _ hw => hw.1
    · refine .perform idle_stable (fun _ => idle_stable.and (.const _)) fun w g hI hw =>
        atomic_of_ok fun c w' v ts _ _ hp => ⟨g, ?_⟩
      simp only [World.perform, Option.some.injEq, Prod.mk.injEq] at hp
      obtain ⟨rfl, hv, -⟩ := hp
      refine ⟨.refl hI, hw, fun x hx => ?_⟩
      exact SagaWhere.selects_id (Table.find?_some ((Except.ok.inj hv).trans (Except.ok.inj hx))) rfl
    · cases found with
      | none => exact .ret (idle_stable.and (.const _)) fun _ _ _ hw => hw.1
      | some x =>
        refine .assuming (A := x.id = sagaId) (fun _ _ _ hw => hw.2 x rfl) fun hid => ?_
        exact (compensating.handleSagaFailure_triple hid s e.message fun _ _ _ _ h => h.2.2).pre
          fun _ _ _ hw => hw.1

/-! ### Soundness -/

/-- **Every call keeps to the protocol.** -/
theorem call_triple {t : StepCall} (hs : ∀ s', only = some s' → t.stepName = s')
    (ha : t.action.Only fun o : Op => o.leavesSagas) (ht : only ≠ none → t.action.NoThrow) :
    (stepProtocol sagaId only).Triple i (Idle i) (t.run sagaId)
      fun _ w _ => ∀ s, only = some s → w.Recorded sagaId s := by
  have hblind : ∀ r, (locking i hs).Blind (Done sagaId only i r) := fun r =>
    ⟨done_stable r, fun _ _ _ h => h, fun _ _ _ h => h, fun _ _ _ h => h, fun _ _ _ h => h⟩
  have hidle : Locking.Blind (P := stepProtocol sagaId only) (locking i hs) (Idle i) :=
    ⟨idle_stable, fun _ _ _ h => h, fun _ _ _ h => h, fun _ _ _ h => h, fun _ _ _ h => h⟩
  refine .handle _ (Locking.withLock_triple hidle hblind (fun r w g _ h => h.1)
    (fun tok => stepSection_triple hs ha ht) fun e w g c _ hi hc => ?_) (fun e => ?_) fun a => ?_
  · -- the lock was not acquired
    refine ⟨hi, fun s' hs' => ?_⟩
    have := hc.2.2 _ rfl
    simp [hs'] at this
  · -- an error can only have come up where there are other steps
    by_cases ho : only = none
    · subst ho
      exact (stepFailed_triple _ e).conseq (fun _ _ _ h => h.1) fun _ _ _ _ _ s hs => by simp at hs
    · obtain ⟨s, hs⟩ := Option.ne_none_iff_exists'.mp ho
      refine .assuming (A := False) (fun w g _ hw => ?_) False.elim
      obtain ⟨v, hv⟩ := (hw.2 s hs).1
      simp at hv
  · exact .ret (done_stable _) fun w g _ hw s hs => (hw.2 s hs).2

/-! ### Runs -/

/-- Initially no transaction is open, and no action has been run. -/
def Fresh (sagaId : String) (w : World) : Prop :=
  w.transactions = [] ∧ ∀ s, w.executions sagaId s = 0

/-- The calls keep to the protocol, whatever restriction on the runs provides for it. -/
theorem sound {init : World → Prop}
    {allowed : Pool (stepCalls sagaId) → Action (stepCalls sagaId) → Prop}
    (hinit : ∀ w, init w → Fresh sagaId w ∧ (only ≠ none → w.Unharmed sagaId))
    (hallowed : ∀ p a, allowed p a → Allowed sagaId p a)
    (hstart : ∀ p t s, allowed p (.start t) → only = some s → t.stepName = s ∧ t.action.NoThrow)
    (hset : ∀ p i c k tok ttl, allowed p (.run i c) → p.awaits i = some (.redisSet k tok ttl) →
      only = none → NoOther sagaId p.world k)
    (hlog : ∀ p i c k, allowed p (.run i c) → p.awaits i = some (.log (.lockNotAcquired k)) →
      only = none) :
    (stepProtocol sagaId only).Sound init allowed where
  init := by
    intro w hw
    obtain ⟨⟨htx, hexec⟩, hu⟩ := hinit w hw
    refine ⟨⟨fun _ => none, none⟩, ⟨fun _ _ _ h => (nomatch h), ?_, ?_, ?_, fun s => ?_,
      fun s h => ?_, fun _ h => (nomatch h), fun s hs => ⟨fun _ _ h => (nomatch h), ?_⟩⟩,
      fun _ h => (nomatch h)⟩
    · exact .of_nil htx
    · simp [World.Pending, htx]
    · exact fun _ _ _ _ h => (nomatch h)
    · rw [hexec]
      omega
    · rw [hexec] at h
      omega
    · exact hu (by simp [hs])
  start := by
    intro p t g ha hI hf
    refine ⟨g, hI, (stepProtocol sagaId only).mono_refl _ _,
      fun j _ => (stepProtocol sagaId only).keep_refl _ _ _, fun j hj => ?_, fun hran => ?_,
      hallowed p _ ha, fun s hs => hstart p t s ha hs⟩
    · have := hf j hj
      rw [List.length_append]
      omega
    · have := hf _ hran
      simp [Pool.tags] at this
  tick := by
    intro p d g ha hI
    refine ⟨⟨hI.backs.later (hallowed p _ ha), ?_, hI.pending, hI.alone, hI.once, hI.accounted,
      hI.running, hI.single⟩, (stepProtocol sagaId only).mono_refl p.world g,
      fun j => (stepProtocol sagaId only).keep_refl j p.world g⟩
    exact hI.tx.of_subset (fun _ h => h) fun x hx => ⟨x, hx, rfl⟩
  canRun := by
    intro p i c t o k g ha hi _
    have hawaits : p.awaits i = some o := by
      rw [Pool.awaits, hi]
      rfl
    refine ⟨?_, fun key tok ttl ho hn => ?_, fun key ho => ?_⟩
    · -- no operation fails in the runs looked at
      have hfail : p.failure i c = none := hallowed p _ ha
      rw [Pool.failure, hi] at hfail
      exact hfail
    · exact hset p i c key tok ttl ha (ho ▸ hawaits) hn
    · exact hlog p i c key ha (ho ▸ hawaits)
  body := by
    intro i t w g hb hI
    exact call_triple (fun s hs => (hb.2.2 s hs).1) hb.2.1 (fun hne => by
      obtain ⟨s, hs⟩ := Option.ne_none_iff_exists'.mp hne
      exact (hb.2.2 s hs).2) w g hI hb.1

/-- Allowed runs whose actions have nothing to do. -/
def Bare (sagaId : String) (p : Pool (stepCalls sagaId)) : Action (stepCalls sagaId) → Prop
  | .start t => (t.action.result?.any Except.isOk) = true
  | .run i c => p.failure i c = none
  | .tick d => p.world.Outlasts d

instance decidableBare (p : Pool (stepCalls sagaId)) : ∀ a, Decidable (Bare sagaId p a)
  | .start t => inferInstanceAs (Decidable ((t.action.result?.any Except.isOk) = true))
  | .run i c => inferInstanceAs (Decidable (p.failure i c = none))
  | .tick d => inferInstanceAs (Decidable (p.world.Outlasts d))

theorem allowed_of_bare {p : Pool (stepCalls sagaId)} {a : Action (stepCalls sagaId)}
    (h : Bare sagaId p a) : Allowed sagaId p a := by
  cases a with
  | start t =>
    obtain ⟨s, action⟩ := t
    cases action with
    | ret _ => exact trivial
    | throw _ => exact trivial
    | await _ _ => simp [Bare] at h
  | run i c => exact h
  | tick d => exact h

end StepCalls

end CqrsSaga
