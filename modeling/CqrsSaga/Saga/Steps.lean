import CqrsSaga.App.SagaManager
import CqrsSaga.App.Rows
import CqrsSaga.Lock.Discipline

/-!
# The steps of one saga

Any number of `executeSagaStep` calls on one saga.  The lock of a call is the one of its
step, but the row it reads, changes and writes back is the one of the saga: two calls for
different steps may lose each other's work.  The protocol here is about the runs in which
they do not get the chance, in two variants: either the sections of different steps never
overlap, or there is only one step, and nobody gives up waiting for its lock.

## Main definitions

* `StepCall`, `stepCalls` — the calls, and the system of any number of them.
* `World.Recorded`, `World.executions` — what is stored of a step, and how often its action
  has run to completion.
* `stepProtocol` — what the calls agree on.
-/

namespace CqrsSaga

open SagaManager RedisLockService KafkaService

/-- The operations of actions: they leave sagas, their locks and the log alone. -/
def Op.leavesSagas (o : Op) : Prop :=
  .sagas ∉ o.writes ∧ .transactions ∉ o.writes ∧ .redis ∉ o.writes ∧ .log ∉ o.writes

namespace World

/-- How often the action of a step has run to completion. -/
def executions (w : World) (sagaId stepName : String) : ℕ :=
  w.log.count (.commandExecuted stepName sagaId)

end World

/-- The status is none of those that follow a failure. -/
def SagaStatus.Unharmed (s : SagaStatus) : Prop :=
  s ≠ .compensating ∧ s ≠ .compensated ∧ s ≠ .failed

/-- The saga is stored, and nothing has gone wrong with it. -/
def World.Unharmed (w : World) (sagaId : String) : Prop :=
  (∃ x ∈ w.sagas, x.id = sagaId) ∧ ∀ x ∈ w.sagas, x.id = sagaId → x.status.Unharmed

namespace StepCalls

/-- The key of the lock of a step. -/
def lockKey (sagaId stepName : String) : String := "lock:" ++ stepLock sagaId stepName

theorem lockKey_inj {sagaId s s' : String} (h : lockKey sagaId s = lockKey sagaId s') : s = s' := by
  unfold lockKey stepLock at h
  have h' := congrArg String.toList h
  simp only [String.toList_append, List.append_assoc] at h'
  simpa [String.ext_iff] using h'

/-- No lock of a step of the saga is held, other than the one on this key. -/
def NoOther (sagaId : String) (w : World) (k : String) : Prop :=
  ∀ e ∈ w.redis.entries.entries, (lockKey sagaId "").toList <+: e.1.toList → e.1 ≠ k →
    e.2.deadline < w.clock

instance (sagaId : String) (w : World) (k : String) : Decidable (NoOther sagaId w k) :=
  inferInstanceAs (Decidable (∀ e ∈ w.redis.entries.entries, _))

theorem lockKey_begins (sagaId s : String) :
    (lockKey sagaId "").toList <+: (lockKey sagaId s).toList := by
  simp [lockKey, stepLock]

/-- Who holds which lock, and who has run the action of a step without having recorded it. -/
structure Sections where
  holders : Holders
  ran : Option ℕ

variable {sagaId : String} {only : Option String}

/-- The invariant.  `only` is the one step there is, where there is only one. -/
structure Inv (sagaId : String) (only : Option String) (w : World) (g : Sections) : Prop where
  backs : w.Backs g.holders
  tx : w.TxOk
  /-- What transactions are going to write records the same steps. -/
  pending : ∀ x, w.Pending x → x.id = sagaId → w.Steps sagaId x.completedSteps
  /-- One step at a time. -/
  alone : ∀ s x s' x', g.holders (lockKey sagaId s) = some x →
    g.holders (lockKey sagaId s') = some x' → s = s'
  once : ∀ s, w.executions sagaId s ≤ 1
  /-- What was run is recorded, or about to be. -/
  accounted : ∀ s, 0 < w.executions sagaId s → w.Recorded sagaId s ∨
    ∃ i tok, g.ran = some i ∧ g.holders (lockKey sagaId s) = some (i, tok)
  /-- Whoever has run an action has the lock of its step. -/
  running : ∀ i, g.ran = some i → ∃ s tok, g.holders (lockKey sagaId s) = some (i, tok)
  single : ∀ s, only = some s →
    (∀ s' x, g.holders (lockKey sagaId s') = some x → s' = s) ∧ w.Unharmed sagaId

/-- Call `i` holds the lock of some step. -/
def HoldsStep (sagaId : String) (i : ℕ) (g : Sections) : Prop :=
  ∃ s tok, g.holders (lockKey sagaId s) = some (i, tok)

end StepCalls

variable [Hashes]

/-- A call of `executeSagaStep`. -/
structure StepCall where
  stepName : String
  action : Async App Unit

/-- The program of a call: the action ends by saying so. -/
def StepCall.run (sagaId : String) (t : StepCall) : Async App Unit :=
  executeSagaStep sagaId t.stepName
    (t.action.bind fun _ => logger (.commandExecuted t.stepName sagaId))

/-- Any number of calls on one saga.  The message a call hands to `setImmediate` is not
followed. -/
abbrev stepCalls (sagaId : String) : System app where
  Tag := StepCall
  Res := Unit
  body := StepCall.run sagaId
  spawned := fun _ => none

namespace StepCalls

variable {sagaId : String} {only : Option String}

/-- The runs looked at: no operation fails, no lock runs out, and actions
mind their own business. -/
def Allowed (sagaId : String) (p : Pool (stepCalls sagaId)) : Action (stepCalls sagaId) → Prop
  | .start t => t.action.Only fun o : Op => o.leavesSagas
  | .run i c => p.failure i c = none
  | .tick d => p.world.Outlasts d

/-- What the calls agree on. -/
def stepProtocol (sagaId : String) (only : Option String) : Protocol (stepCalls sagaId) where
  Ghost := Sections
  Inv := Inv sagaId only
  Mono := fun w _ w' _ => (∀ s, w.Recorded sagaId s → w'.Recorded sagaId s) ∧
    w.runners <+: w'.runners
  Keep := fun i w g w' g' =>
    (∀ k tok, g.holders k = some (i, tok) → g'.holders k = some (i, tok)) ∧
      (g.ran = some i ↔ g'.ran = some i) ∧
        (HoldsStep sagaId i g → ∀ l, w.Steps sagaId l ↔ w'.Steps sagaId l) ∧
          (w.TxKeep i w' ∧ w.runners <+: w'.runners)
  CanRun := fun w _ i o c => w.failure i o c = none ∧
    (∀ k tok ttl, o = .redisSet k tok ttl → only = none → NoOther sagaId w k) ∧
      ∀ k, o = .log (.lockNotAcquired k) → only = none
  Assert := fun _ _ _ _ => True
  Fits := fun g l => ∀ i, g.ran = some i → i < l.length
  Born := fun i t _ g => g.ran ≠ some i ∧ (t.action.Only fun o : Op => o.leavesSagas) ∧
    ∀ s, only = some s → t.stepName = s ∧ t.action.NoThrow
  Post := fun _ _ _ w _ => ∀ s, only = some s → w.Recorded sagaId s
  mono_refl := fun _ _ => ⟨fun _ h => h, List.prefix_rfl⟩
  mono_trans := fun h h' => ⟨fun s hs => h'.1 s (h.1 s hs), h.2.trans h'.2⟩
  keep_refl := fun i w _ => ⟨fun _ _ h => h, Iff.rfl, fun _ _ => Iff.rfl, .refl i w, List.prefix_rfl⟩
  keep_trans := by
    rintro i w g w' g' w'' g'' ⟨h₁, h₂, h₃, h₄, h₅⟩ ⟨h₁', h₂', h₃', h₄', h₅'⟩
    refine ⟨fun k tok h => h₁' k tok (h₁ k tok h), h₂.trans h₂', fun hh l => ?_,
      h₄.trans h₅ h₄', h₅.trans h₅'⟩
    obtain ⟨s, tok, hs⟩ := hh
    exact (h₃ ⟨s, tok, hs⟩ l).trans (h₃' ⟨s, tok, h₁ _ _ hs⟩ l)

variable {i : ℕ} {w w' : World} {g : Sections}

/-! ### What the calls mind -/

/-- Nothing has happened that anybody minds. -/
theorem respects_of_steps (hI : Inv sagaId only w g) (hb : w'.Backs g.holders)
    (ht : World.TxRespects i w w')
    (hp : ∀ x, w'.Pending x → x.id = sagaId → w.Steps sagaId x.completedSteps)
    (hs : ∀ l, w.Steps sagaId l ↔ w'.Steps sagaId l)
    (he : ∀ s, w'.executions sagaId s = w.executions sagaId s)
    (hu : only ≠ none → w'.Unharmed sagaId) :
    (stepProtocol sagaId only).Respects i w g w' g := by
  have hrec : ∀ s, w.Recorded sagaId s ↔ w'.Recorded sagaId s := by
    intro s
    rw [World.recorded_iff, World.recorded_iff]
    exact exists_congr fun l => and_congr_left' (hs l)
  refine ⟨⟨hb, ht.1, fun x hx hid => (hs _).mp (hp x hx hid), hI.alone, fun s => ?_,
    fun s h => ?_, hI.running, fun s h => ?_⟩, ⟨fun s => (hrec s).mp, ht.2.1⟩, fun j hj => ?_,
    fun _ _ h => h⟩
  · rw [he]
    exact hI.once s
  · rw [he] at h
    rw [← hrec]
    exact hI.accounted s h
  · exact ⟨(hI.single s h).1, hu (by simp [h])⟩
  · exact ⟨fun _ _ h => h, Iff.rfl, fun _ => hs, ht.2.2 j hj, ht.2.1⟩

/-- Sagas, transactions and the entries of locks are as they were. -/
theorem respects_of_same (hI : Inv sagaId only w g) (hb : w'.Backs g.holders)
    (ht : w'.transactions = w.transactions) (hs : w'.sagas = w.sagas)
    (hr : w.runners <+: w'.runners)
    (he : ∀ s, w'.executions sagaId s = w.executions sagaId s) :
    (stepProtocol sagaId only).Respects i w g w' g := by
  refine respects_of_steps hI hb (.of_same hI.tx ht hs hr) (fun x hx => ?_) (fun l => ?_) he
    fun h => ?_
  · unfold World.Pending at hx
    rw [ht] at hx
    exact hI.pending x hx
  · unfold World.Steps
    rw [hs]
  · obtain ⟨s, hs'⟩ := Option.ne_none_iff_exists'.mp h
    unfold World.Unharmed
    rw [hs]
    exact (hI.single s hs').2

/-- Locks change hands, and nothing else happens. -/
theorem respects_of_holders {h : Holders} (hI : Inv sagaId only w g) (hb : w'.Backs h)
    (ht : w'.transactions = w.transactions) (hs : w'.sagas = w.sagas)
    (hr : w'.runners = w.runners) (hl : w'.log = w.log)
    (halone : ∀ s x s' x', h (lockKey sagaId s) = some x → h (lockKey sagaId s') = some x' → s = s')
    (hkeep : ∀ k j tok, j ≠ i → g.holders k = some (j, tok) → h k = some (j, tok))
    (hran : ∀ s j tok, g.ran = some j → g.holders (lockKey sagaId s) = some (j, tok) →
      h (lockKey sagaId s) = some (j, tok))
    (hsingle : ∀ s s' x, only = some s → h (lockKey sagaId s') = some x → s' = s) :
    (stepProtocol sagaId only).Respects i w g w' { g with holders := h } := by
  -- neither the rows nor the log change
  have hsteps : ∀ l, w.Steps sagaId l ↔ w'.Steps sagaId l := by
    intro l
    unfold World.Steps
    rw [hs]
  have htx : World.TxRespects i w w' := .of_same hI.tx ht hs (hr ▸ List.prefix_rfl)
  have hrec : ∀ s, w.Recorded sagaId s → w'.Recorded sagaId s := by
    intro s
    unfold World.Recorded
    rw [hs]
    exact id
  have hexec : ∀ s, w'.executions sagaId s = w.executions sagaId s := by
    intro s
    unfold World.executions
    rw [hl]
  refine ⟨⟨hb, htx.1, fun x hx hid => ?_, halone, fun s => ?_, fun s h => ?_, fun j hj => ?_,
    fun s h => ⟨fun s' x => hsingle s s' x h, ?_⟩⟩, ⟨hrec, htx.2.1⟩, fun j hj => ?_, fun _ _ h => h⟩
  · unfold World.Pending at hx
    rw [ht] at hx
    exact (hsteps _).mp (hI.pending x hx hid)
  · rw [hexec]
    exact hI.once s
  · rw [hexec] at h
    rcases hI.accounted s h with hr | ⟨j, tok, hj, hh⟩
    · exact Or.inl (hrec s hr)
    · exact Or.inr ⟨j, tok, hj, hran s j tok hj hh⟩
  · obtain ⟨s, tok, hh⟩ := hI.running j hj
    exact ⟨s, tok, hran s j tok hj hh⟩
  · unfold World.Unharmed
    rw [hs]
    exact (hI.single s h).2
  · exact ⟨fun k tok => hkeep k j tok hj, Iff.rfl, fun _ => hsteps, htx.2.2 j hj, htx.2.1⟩

/-- The lock of a step, as far as call `i` is concerned. -/
def locking (i : ℕ) {s : String} (hs : ∀ s', only = some s' → s = s') :
    Locking (stepProtocol sagaId only) i (lockKey sagaId s) fun _ g => g.ran ≠ some i where
  holders := Sections.holders
  pass := fun g x => { g with holders := Function.update g.holders (lockKey sagaId s) x }
  holders_pass := fun _ _ => rfl
  backs := fun _ _ hI => hI.backs
  kept := fun tok _ _ _ _ _ hk _ => hk.1 _ tok
  asserts := fun _ _ _ _ => trivial
  take := by
    intro w g tok ttl c hI hc hset hfree
    -- nobody holds the lock of any step
    have hnone : ∀ s' x, g.holders (lockKey sagaId s') ≠ some x := by
      intro s' x hx
      have hne : lockKey sagaId s' ≠ lockKey sagaId s := by
        intro heq
        rw [heq, hfree] at hx
        simp at hx
      cases ho : only with
      | none =>
        obtain ⟨d, hd⟩ := hI.backs _ x.1 x.2 hx
        obtain ⟨hl, hle⟩ := Lease.Server.live_eq_some.mp hd
        have hlt := hc.2.1 _ _ _ rfl ho ⟨_, ⟨x.2, d⟩⟩ (AList.mem_lookup_iff.mp hl)
          (lockKey_begins sagaId s') hne
        dsimp only at hlt hle
        omega
      | some s₀ =>
        have h1 := (hI.single s₀ ho).1 s' x hx
        have h2 := hs s₀ ho
        exact hne (by rw [h1, h2])
    have hupd : ∀ s' x, Function.update g.holders (lockKey sagaId s) (some (i, tok))
        (lockKey sagaId s') = some x → s' = s := by
      intro s' x hx
      by_contra hne
      rw [Function.update_of_ne fun heq => hne (lockKey_inj heq)] at hx
      exact hnone s' x hx
    refine respects_of_holders hI (hI.backs.set hset) rfl rfl rfl rfl ?_ ?_ ?_ ?_
    · intro s₁ x s₂ x' h₁ h₂
      rw [hupd s₁ x h₁, hupd s₂ x' h₂]
    · intro k j tok' _ hk
      have hne : k ≠ lockKey sagaId s := by
        rintro rfl
        rw [hfree] at hk
        simp at hk
      rw [Function.update_of_ne hne]
      exact hk
    · exact fun s' j tok' _ hk => absurd hk (hnone s' _)
    · intro s' s'' x ho hx
      rw [hupd s'' x hx]
      exact hs s' ho
  drop := by
    intro w g tok redis hI hh hD hb
    have hother : ∀ k j tok', j ≠ i → g.holders k = some (j, tok') →
        Function.update g.holders (lockKey sagaId s) none k = some (j, tok') := by
      intro k j tok' hj hk
      have hne : k ≠ lockKey sagaId s := by
        rintro rfl
        rw [hh, Option.some.injEq, Prod.mk.injEq] at hk
        exact hj hk.1.symm
      rw [Function.update_of_ne hne]
      exact hk
    have hupd : ∀ s' x, Function.update g.holders (lockKey sagaId s) none (lockKey sagaId s') =
        some x → g.holders (lockKey sagaId s') = some x := by
      intro s' x hx
      by_cases heq : lockKey sagaId s' = lockKey sagaId s
      · rw [heq, Function.update_self] at hx
        simp at hx
      · rwa [Function.update_of_ne heq] at hx
    refine respects_of_holders hI hb rfl rfl rfl rfl ?_ hother ?_ ?_
    · exact fun s₁ x s₂ x' h₁ h₂ => hI.alone s₁ x s₂ x' (hupd _ _ h₁) (hupd _ _ h₂)
    · intro s' j tok' hj hk
      refine hother _ j tok' ?_ hk
      rintro rfl
      exact hD hj
    · exact fun s₁ s' x ho hx => (hI.single s₁ ho).1 s' x (hupd _ _ hx)
  idle := fun w g redis hI hb =>
    respects_of_same hI hb rfl rfl List.prefix_rfl fun _ => rfl
  token := fun w g t hI =>
    respects_of_same hI (hI.backs.of_same rfl rfl) rfl rfl List.prefix_rfl fun _ => rfl
  log := by
    intro w g hI
    refine respects_of_same hI (hI.backs.of_same rfl rfl) rfl rfl List.prefix_rfl fun s' => ?_
    simp [World.executions]

/-- The action of a step has run to completion. -/
theorem respects_ran {s tok : String} (hI : Inv sagaId only w g)
    (hh : g.holders (lockKey sagaId s) = some (i, tok)) (hran : g.ran ≠ some i)
    (hrec : ¬w.Recorded sagaId s) :
    let w' := { w with log := w.log ++ [.commandExecuted s sagaId] }
    let g' := { g with ran := some i }
    Inv sagaId only w' g' ∧ (stepProtocol sagaId only).Mono w g w' g' ∧
      ∀ j, j ≠ i → (stepProtocol sagaId only).Keep j w g w' g' := by
  -- nobody else is between running an action and recording it
  have hnone : ∀ j, g.ran ≠ some j := by
    intro j hj
    obtain ⟨s', tok', hs'⟩ := hI.running j hj
    have heq := hI.alone s' _ s _ hs' hh
    subst heq
    rw [hs', Option.some.injEq, Prod.mk.injEq] at hh
    exact hran (hh.1 ▸ hj)
  -- so the step has not run before
  have hzero : w.executions sagaId s = 0 := by
    by_contra hne
    rcases hI.accounted s (Nat.pos_of_ne_zero hne) with hr | ⟨j, _, hj, -⟩
    · exact hrec hr
    · exact hnone j hj
  have hexec : ∀ s', World.executions { w with log := w.log ++ [.commandExecuted s sagaId] }
      sagaId s' = w.executions sagaId s' + if s = s' then 1 else 0 := by
    intro s'
    by_cases hss : s = s'
    · simp [World.executions, hss]
    · simp [World.executions, hss]
  refine ⟨⟨hI.backs.of_same rfl rfl, hI.tx.of_subset (fun _ h => h) fun x hx => ⟨x, hx, rfl⟩,
    hI.pending, hI.alone, fun s' => ?_, fun s' h => ?_, fun j hj => ?_, hI.single⟩,
    ⟨fun _ h => h, List.prefix_rfl⟩, fun j hj => ⟨fun _ _ h => h, ?_, fun _ _ => Iff.rfl,
      fun _ _ => ⟨rfl, fun _ _ _ _ => Iff.rfl⟩, List.prefix_rfl⟩⟩
  · rw [hexec]
    by_cases hss : s = s'
    · subst hss
      simp [hzero]
    · simpa [hss] using hI.once s'
  · rw [hexec] at h
    by_cases hss : s = s'
    · subst hss
      exact Or.inr ⟨i, tok, rfl, hh⟩
    · rw [if_neg hss] at h
      rcases hI.accounted s' h with hr | ⟨j, _, hj, -⟩
      · exact Or.inl hr
      · exact absurd hj (hnone j)
  · obtain rfl := Option.some.inj hj
    exact ⟨s, tok, hh⟩
  · constructor
    · exact fun h => absurd h (hnone j)
    · exact fun h => absurd (Option.some.inj h).symm hj

/-- The row of the saga is written by somebody who holds the lock of a step. -/
theorem respects_recorded {s tok : String} {l : List String} {y : SagaInstance}
    (hI : Inv sagaId only w g) (hh : g.holders (lockKey sagaId s) = some (i, tok))
    (hran : g.ran = some i) (hl : w.Steps sagaId l) (hlock : w.lockedBy none y.id = false)
    (hid : y.id = sagaId) (hy : y.completedSteps = l ++ [s])
    (hu : only ≠ none → y.status.Unharmed) :
    (stepProtocol sagaId only).Respects i w g (w.putSaga y) { g with ran := none } := by
  have htx : World.TxRespects i w (w.putSaga y) := World.sagaSave_respects hI.tx hlock
  obtain ⟨u, hput⟩ := World.putSaga_only w y
  have hlog : (w.putSaga y).log = w.log := by rw [hput]
  have hnew : (w.putSaga y).Steps sagaId (l ++ [s]) := (World.steps_putSaga hid _).mpr hy
  -- the steps that were recorded still are
  have hrec : ∀ s', w.Recorded sagaId s' → (w.putSaga y).Recorded sagaId s' := by
    intro s' h
    obtain ⟨l', hl', hs'⟩ := World.recorded_iff.mp h
    refine World.recorded_iff.mpr ⟨_, hnew, List.mem_append_left _ ?_⟩
    rw [hl.unique hl']
    exact hs'
  refine ⟨⟨?_, htx.1, fun x hx hxid => ?_, hI.alone, fun s' => ?_, fun s' h => Or.inl ?_,
    fun j h => by simp at h, fun s₀ h => ⟨(hI.single s₀ h).1, ?_⟩⟩, ⟨hrec, htx.2.1⟩,
    fun j hj => ⟨fun _ _ h => h, ?_, fun hhold => ?_, htx.2.2 j hj, htx.2.1⟩,
    fun _ _ _ j h => nomatch h⟩
  · exact hI.backs.of_same (by rw [hput]) (World.putSaga_clock w y)
  · -- no transaction has locked the row
    rw [hput] at hx
    obtain ⟨t, ht, hx⟩ := hx
    have hlocked := hI.tx.writes t ht x hx
    rw [hxid, ← hid] at hlocked
    exact absurd hlocked (World.not_locked hlock ht (by simp))
  · unfold World.executions
    rw [hlog]
    exact hI.once s'
  · have h' : 0 < w.executions sagaId s' := by
      unfold World.executions at h ⊢
      rwa [hlog] at h
    rcases hI.accounted s' h' with hr | ⟨j, tok', -, hj'⟩
    · exact hrec s' hr
    · rw [hI.alone s' _ s _ hj' hh]
      exact World.recorded_iff.mpr ⟨_, hnew, by simp⟩
  · obtain ⟨⟨x, hx, hxid⟩, hall⟩ := (hI.single s₀ h).2
    refine ⟨⟨_, (World.mem_putSaga w y).mpr (Or.inl rfl), hid⟩, fun z hz hzid => ?_⟩
    rcases (World.mem_putSaga w y).mp hz with rfl | ⟨hz, -⟩
    · exact hu (by simp [h])
    · exact hall z hz hzid
  · rw [hran]
    constructor
    · exact fun h => absurd (Option.some.inj h).symm hj
    · exact fun h => nomatch h
  · obtain ⟨s', tok', hs'⟩ := hhold
    have heq := hI.alone s' _ s _ hs' hh
    rw [heq, hh, Option.some.injEq, Prod.mk.injEq] at hs'
    exact absurd hs'.1.symm hj

end StepCalls

end CqrsSaga
