import CqrsSaga.App.SagaManager
import CqrsSaga.App.Specs
import CqrsSaga.Lock.Discipline

/-!
# Starting sagas

Any number of `startSaga` calls, for any types and correlation ids.  There is no unique
index on sagas: that there is one for each pair rests on the lock under which a call
looks for the saga and inserts it.  While it has the lock, nobody else touches the rows
of the pairs the lock stands for.

Any operation may fail, and replies of Redis may be lost; only the locks must not run
out while they are held.

## Main definitions

* `StartCall`, `startCalls` — the calls, and the system of any number of them.
* `startProtocol` — what the calls agree on.

## Main results

* `startCalls_sound` — the calls keep to the protocol.
* `saga_started_once` — **there is one saga for each pair, and every call returns it.**
-/

namespace CqrsSaga

open SagaManager RedisLockService

/-- A call of `startSaga`. -/
structure StartCall where
  sagaType : String
  correlationId : String
  data : SagaData
  steps : List String

/-- Any number of calls.  The message a call hands to `setImmediate` is not followed. -/
abbrev startCalls : System app where
  Tag := StartCall
  Res := SagaInstance
  body := fun t => startSaga t.sagaType t.correlationId t.data t.steps
  spawned := fun _ => none

/-- There is at most one saga for each type and correlation id. -/
def World.OneSaga (w : World) : Prop :=
  ∀ ty co, ∀ x ∈ w.sagas, x.Is ty co → ∀ y ∈ w.sagas, y.Is ty co → x = y

namespace StartCalls

/-- The runs looked at: no lock runs out. -/
def Allowed (p : Pool startCalls) : Action startCalls → Prop
  | .start _ => True
  | .run _ _ => True
  | .tick d => p.world.Outlasts d

/-- The key of the lock on a pair. -/
def lockKey (sagaType correlationId : String) : String :=
  "lock:" ++ creationLock sagaType correlationId

/-- Who holds which lock, and which call has inserted which saga. -/
structure Ledger where
  holders : Holders
  inserter : String → Option ℕ

/-- Call `i` has inserted no saga. -/
def Idle (i : ℕ) (_ : World) (g : Ledger) : Prop := ∀ id, g.inserter id ≠ some i

/-- The saga is stored under its pair. -/
def Stored (t : StartCall) (s : SagaInstance) (w : World) (_ : Ledger) : Prop :=
  s ∈ w.sagas ∧ s.Is t.sagaType t.correlationId

/-- What a call has established when it ends. -/
def Ended (i : ℕ) (t : StartCall) (r : Except Err SagaInstance) (w : World) (g : Ledger) : Prop :=
  match r with
  | .ok s => Stored t s w g
  | .error _ => Idle i w g

/-- What the calls agree on. -/
def startProtocol : Protocol startCalls where
  Ghost := Ledger
  Inv := fun w g => w.Backs g.holders ∧ w.OneSaga ∧
    ∀ id j, g.inserter id = some j → ∃ x ∈ w.sagas, x.id = id
  Mono := fun w g w' g' => (∀ x ∈ w.sagas, x ∈ w'.sagas) ∧
    (∀ id j, g.inserter id = some j → g'.inserter id = some j) ∧
      ∀ x ∈ w'.sagas, x ∉ w.sagas → ∃ j, g'.inserter x.id = some j
  Keep := fun i w g w' g' =>
    (∀ k tok, g.holders k = some (i, tok) → g'.holders k = some (i, tok)) ∧
      (∀ ty co tok, g.holders (lockKey ty co) = some (i, tok) →
        ∀ x ∈ w'.sagas, x.Is ty co → x ∈ w.sagas) ∧
        ∀ id, g'.inserter id = some i → g.inserter id = some i
  CanRun := fun _ _ _ _ _ => True
  Assert := fun _ _ _ _ => True
  Fits := fun g l => ∀ id j, g.inserter id = some j → j < l.length
  Born := fun i _ w g => Idle i w g
  Post := Ended
  mono_refl := fun _ _ => ⟨fun _ h => h, fun _ _ h => h, fun _ h hn => absurd h hn⟩
  mono_trans := by
    rintro w g w' g' w'' g'' ⟨h₁, h₂, h₃⟩ ⟨h₁', h₂', h₃'⟩
    refine ⟨fun x hx => h₁' x (h₁ x hx), fun id j h => h₂' id j (h₂ id j h), fun x hx hn => ?_⟩
    by_cases hx' : x ∈ w'.sagas
    · obtain ⟨j, hj⟩ := h₃ x hx' hn
      exact ⟨j, h₂' _ j hj⟩
    · exact h₃' x hx hx'
  keep_refl := fun _ _ _ => ⟨fun _ _ h => h, fun _ _ _ _ _ h _ => h, fun _ h => h⟩
  keep_trans := by
    rintro i w g w' g' w'' g'' ⟨h₁, h₂, h₃⟩ ⟨h₁', h₂', h₃'⟩
    refine ⟨fun k tok h => h₁' k tok (h₁ k tok h), fun ty co tok h x hx hxi => ?_,
      fun id h => h₃ id (h₃' id h)⟩
    exact h₂ ty co tok h x (h₂' ty co tok (h₁ _ tok h) x hx hxi) hxi

variable {i : ℕ} {w w' : World} {g : Ledger} {t : StartCall}

theorem idle_stable : startProtocol.Stable i (Idle i) :=
  fun _ _ _ _ _ hk _ h id hid => h id (hk.2.2 id hid)

theorem stored_lasting (s : SagaInstance) : startProtocol.Lasting (Stored t s) :=
  fun _ _ _ _ hm _ h => ⟨hm.1 s h.1, h.2⟩

theorem ended_stable (r : Except Err SagaInstance) : startProtocol.Stable i (Ended i t r) := by
  cases r with
  | ok s => exact (stored_lasting s).stable
  | error e => exact idle_stable

/-- Nothing has happened to the sagas. -/
theorem respects_of_sagas {h : Holders} (hI : startProtocol.Inv w g) (hs : w'.sagas = w.sagas)
    (hb : w'.Backs h) (hh : ∀ k j tok, j ≠ i → g.holders k = some (j, tok) → h k = some (j, tok)) :
    startProtocol.Respects i w g w' { g with holders := h } where
  inv := by
    refine ⟨hb, ?_⟩
    unfold World.OneSaga
    rw [hs]
    exact hI.2
  mono := by
    refine ⟨fun x hx => hs ▸ hx, fun _ _ h => h, fun x hx hn => ?_⟩
    exact absurd (hs ▸ hx) hn
  keep := fun j hj => ⟨fun k tok => hh k j tok hj, fun _ _ _ _ x hx _ => hs ▸ hx, fun _ h => h⟩
  fits := fun _ _ h => h

/-- The lock `k`, as far as call `i` is concerned. -/
def locking (i : ℕ) (k : String) : Locking startProtocol i k fun _ _ => True where
  holders := Ledger.holders
  pass := fun g x => { g with holders := Function.update g.holders k x }
  holders_pass := fun _ _ => rfl
  backs := fun _ _ hI => hI.1
  kept := fun tok _ _ _ _ _ hk _ => hk.1 k tok
  asserts := fun _ _ _ _ => trivial
  take := by
    intro w g tok ttl c hI _ hs hfree
    refine respects_of_sagas hI rfl (hI.1.set hs) fun k' j tok' _ hk => ?_
    have hne : k' ≠ k := by
      rintro rfl
      rw [hfree] at hk
      simp at hk
    rw [Function.update_of_ne hne]
    exact hk
  drop := by
    intro w g tok redis hI hh _ hb
    refine respects_of_sagas hI rfl hb fun k' j tok' hj hk => ?_
    have hne : k' ≠ k := by
      rintro rfl
      rw [hh, Option.some.injEq, Prod.mk.injEq] at hk
      exact hj hk.1.symm
    rw [Function.update_of_ne hne]
    exact hk
  idle := fun w g redis hI hb => respects_of_sagas hI rfl hb fun _ _ _ _ h => h
  token := fun w g t hI =>
    respects_of_sagas hI rfl (hI.1.of_same rfl rfl) fun _ _ _ _ h => h
  log := fun w g hI =>
    respects_of_sagas hI rfl (hI.1.of_same rfl rfl) fun _ _ _ _ h => h

theorem idle_blind (k : String) : (locking i k).Blind (Idle i) :=
  ⟨idle_stable, fun _ _ _ h => h, fun _ _ _ h => h, fun _ _ _ h => h, fun _ _ _ h => h⟩

theorem ended_blind (k : String) (r : Except Err SagaInstance) :
    (locking i k).Blind (Ended i t r) := by
  refine ⟨ended_stable r, fun w g l h => ?_, fun w g l h => ?_, fun w g l h => ?_,
    fun w g x h => ?_⟩
  all_goals
    cases r with
    | ok s => exact h
    | error e => exact h

/-! ### The section -/

/-- Call `i` has the lock on its pair. -/
def Holding (i : ℕ) (t : StartCall) (tok : String) : World → Ledger → Prop :=
  (locking i (lockKey t.sagaType t.correlationId)).Held tok

theorem holding_stable (tok : String) : startProtocol.Stable i (Holding i t tok) :=
  Locking.held_stable tok

/-- No saga is stored for the pair. -/
def Absent (t : StartCall) (w : World) (_ : Ledger) : Prop :=
  ∀ x ∈ w.sagas, ¬x.Is t.sagaType t.correlationId

/-- Nobody else inserts a saga for a pair whose lock `i` has. -/
theorem absent_stable (tok : String) :
    startProtocol.Stable i fun w g => Holding i t tok w g ∧ Absent t w g := by
  rintro w g w' g' hm hk hI ⟨hh, ha⟩
  refine ⟨holding_stable tok hm hk hI hh, fun x hx hxi => ?_⟩
  exact ha x (hk.2.1 _ _ tok hh x hx hxi) hxi

/-- What looking for the saga leads to. -/
def Looked (i : ℕ) (t : StartCall) (tok : String) (r : Except Err (Option SagaInstance)) (w : World)
    (g : Ledger) : Prop :=
  (Idle i w g ∧ Holding i t tok w g) ∧
    ((∀ s, r = .ok (some s) → Stored t s w g) ∧ (r = .ok none → Absent t w g))

theorem looked_stable (tok : String) (r : Except Err (Option SagaInstance)) :
    startProtocol.Stable i (Looked i t tok r) := by
  rintro w g w' g' hm hk hI ⟨⟨hi, hh⟩, hs, ha⟩
  refine ⟨⟨idle_stable hm hk hI hi, holding_stable tok hm hk hI hh⟩, fun s hr => ?_, fun hr => ?_⟩
  · exact stored_lasting s hm hI (hs s hr)
  · exact (absent_stable tok hm hk hI ⟨hh, ha hr⟩).2

theorem findOne_triple (tok : String) :
    startProtocol.Triple i (fun w g => Idle i w g ∧ Holding i t tok w g)
      (sagaRepository.findOne
        { correlationId := some t.correlationId, sagaType := some t.sagaType })
      (Looked i t tok) := by
  refine .perform (idle_stable.and (holding_stable tok)) (looked_stable tok) fun w g hI hw =>
    ⟨trivial, fun c w' r ts _ he l hl hf => ?_⟩
  obtain ⟨rfl, rfl, rfl | ⟨m, rfl⟩⟩ := World.exec_query he rfl rfl
  · refine .refl hI hf ⟨hw, fun s hs => ?_, fun hn x hx hxi => ?_⟩
    · have hfound := Except.ok.inj hs
      exact ⟨Table.mem_of_find? hfound, World.selects_pair.mp (Table.find?_some hfound)⟩
    · have hnone := Table.find?_eq_none.mp (Except.ok.inj hn) x hx
      rw [World.selects_pair.mpr hxi] at hnone
      simp at hnone
  · refine .refl hI hf ⟨hw, ?_, ?_⟩
    · rintro s ⟨⟩
    · rintro ⟨⟩

/-- The ledger after call `i` has inserted the saga `id`. -/
def Ledger.insert (g : Ledger) (id : String) (i : ℕ) : Ledger :=
  { g with inserter := Function.update g.inserter id (some i) }

@[simp] theorem Ledger.insert_self (g : Ledger) (id : String) (i : ℕ) :
    (g.insert id i).inserter id = some i := Function.update_self ..

theorem Ledger.insert_of_ne (g : Ledger) {id id' : String} (h : id' ≠ id) (i : ℕ) :
    (g.insert id i).inserter id' = g.inserter id' := Function.update_of_ne h ..

/-- What an insert for an absent pair does. -/
theorem respects_insert {tok : String} {s : SagaInstance} (hI : startProtocol.Inv w g)
    (hheld : Holding i t tok w g) (habs : Absent t w g) (hs : s.Is t.sagaType t.correlationId)
    (hfresh : ∀ x ∈ w.sagas, x.id ≠ s.id) (hmem : ∀ y, y ∈ w'.sagas ↔ y = s ∨ y ∈ w.sagas)
    (hr : w'.redis = w.redis) (hc : w'.clock = w.clock) :
    startProtocol.Inv w' (g.insert s.id i) ∧ startProtocol.Mono w g w' (g.insert s.id i) ∧
      ∀ j, j ≠ i → startProtocol.Keep j w g w' (g.insert s.id i) := by
  have hnone : g.inserter s.id = none := by
    cases hg : g.inserter s.id with
    | none => rfl
    | some j =>
      obtain ⟨x, hx, hid⟩ := hI.2.2 _ j hg
      exact absurd hid (hfresh x hx)
  have hold : ∀ id j, g.inserter id = some j → (g.insert s.id i).inserter id = some j := by
    intro id j hj
    have hne : id ≠ s.id := by
      rintro rfl
      rw [hnone] at hj
      simp at hj
    rw [g.insert_of_ne hne]
    exact hj
  have hnew : ∀ id j, (g.insert s.id i).inserter id = some j →
      id = s.id ∧ j = i ∨ g.inserter id = some j := by
    intro id j hj
    by_cases hid : id = s.id
    · subst hid
      rw [Ledger.insert_self, Option.some.injEq] at hj
      exact Or.inl ⟨rfl, hj.symm⟩
    · rw [g.insert_of_ne hid] at hj
      exact Or.inr hj
  -- no other row has the pair of the new one
  have hother : ∀ ty co y, s.Is ty co → y ∈ w.sagas → ¬y.Is ty co := by
    rintro ty co y ⟨rfl, rfl⟩ hy hyi
    exact habs y hy (hs.1 ▸ hs.2 ▸ hyi)
  refine ⟨⟨hI.1.of_same hr hc, ?_, ?_⟩, ⟨?_, hold, ?_⟩, fun j hj => ⟨fun _ _ h => h, ?_, ?_⟩⟩
  · intro ty co x hx hxi y hy hyi
    rcases (hmem x).mp hx with rfl | hx
    · rcases (hmem y).mp hy with rfl | hy
      · rfl
      · exact absurd hyi (hother ty co y hxi hy)
    · rcases (hmem y).mp hy with rfl | hy
      · exact absurd hxi (hother ty co x hyi hx)
      · exact hI.2.1 ty co x hx hxi y hy hyi
  · intro id j hj
    rcases hnew id j hj with ⟨rfl, -⟩ | hj
    · exact ⟨s, (hmem s).mpr (Or.inl rfl), rfl⟩
    · obtain ⟨x, hx, hid⟩ := hI.2.2 id j hj
      exact ⟨x, (hmem x).mpr (Or.inr hx), hid⟩
  · exact fun x hx => (hmem x).mpr (Or.inr hx)
  · intro x hx hn
    rcases (hmem x).mp hx with rfl | hx
    · exact ⟨i, g.insert_self _ i⟩
    · exact absurd hx hn
  · intro ty co tok' hk x hx hxi
    rcases (hmem x).mp hx with rfl | hx
    · -- the lock on the pair is held by `i`
      obtain ⟨rfl, rfl⟩ := hxi
      rw [hs.1, hs.2] at hk
      have heq := hk.symm.trans hheld
      exact absurd (congrArg Prod.fst (Option.some.inj heq)) hj
    · exact hx
  · intro id hid
    rcases hnew id j hid with ⟨-, rfl⟩ | hid
    · exact absurd rfl hj
    · exact hid

/-- An insert under the lock, where no saga was found. -/
theorem insert_triple (tok : String) (n : NewSaga) (hty : n.sagaType = t.sagaType)
    (hco : n.correlationId = t.correlationId) :
    startProtocol.Triple i
      (fun w g => Idle i w g ∧ Holding i t tok w g ∧ Absent t w g) (sagaRepository.insert n)
      fun r w g => Ended i t r w g ∧ Holding i t tok w g := by
  refine .perform (idle_stable.and (absent_stable tok))
    (fun r => (ended_stable r).and (holding_stable tok)) fun w g hI hw => ⟨trivial, ?_⟩
  obtain ⟨hidle, hheld, habs⟩ := hw
  intro c w' r ts _ he l hl hf
  rcases World.exec_cases_of_not_redis he rfl with ⟨-, hp⟩ | ⟨m, -, rfl, rfl, rfl, -⟩
  · have hframe := World.perform_frame hp
    obtain ⟨s, rfl, hins, rfl⟩ := World.perform_sagaInsert hp
    obtain ⟨hs, hfresh, hmem⟩ := World.insertSaga_cases hins
    have hid : s.id = c.text := by rw [hs]
    have hpair : s.Is t.sagaType t.correlationId := by
      rw [hs]
      exact ⟨hty, hco⟩
    obtain ⟨hI', hm, hk⟩ := respects_insert hI hheld habs hpair (hid ▸ hfresh) hmem
      (hframe.redis (by simp [Op.writes])) hframe.clock
    refine .quiet rfl (g.insert s.id i) hI' hm (fun j _ => hk j) ?_ ⟨⟨?_, hpair⟩, hheld⟩
    · intro id j hj
      by_cases hid' : id = s.id
      · subst hid'
        rw [← Option.some.inj ((Ledger.insert_self g s.id i).symm.trans hj)]
        exact hl
      · exact hf id j ((Ledger.insert_of_ne g hid' i).symm.trans hj)
    · exact (hmem _).mpr (Or.inl rfl)
  · exact .refl hI hf ⟨hidle, hheld⟩

/-- Handing the message over changes nothing, and does not fail. -/
theorem setImmediate_triple {F : World → Ledger → Prop} (hF : startProtocol.Stable i F)
    (task : Task) : startProtocol.Triple i F (setImmediate task)
      fun r w g => r = .ok () ∧ F w g := by
  refine .perform hF (fun _ => (Protocol.Stable.const _).and hF) fun w g hI hw => ⟨trivial, ?_⟩
  intro c w' r ts _ he l hl hf
  rcases World.exec_cases_of_not_redis he rfl with ⟨-, hp⟩ | ⟨m, -, -, -, -, hl⟩
  · simp only [World.perform, Option.some.injEq, Prod.mk.injEq] at hp
    obtain ⟨rfl, rfl, rfl⟩ := hp
    exact (Protocol.Respects.refl hI).settles rfl hl hf ⟨rfl, hw⟩
  · simp [Op.isLocal] at hl

/-- What a call does under its lock. -/
theorem findOrCreate_triple (tok : String) :
    startProtocol.Triple i (fun w g => Idle i w g ∧ Holding i t tok w g)
      (findOrCreate t.sagaType t.correlationId t.data t.steps)
      fun r w g => Ended i t r w g ∧ Holding i t tok w g := by
  have hpost : ∀ r, startProtocol.Stable i fun w g => Ended i t r w g ∧ Holding i t tok w g :=
    fun r => (ended_stable r).and (holding_stable tok)
  refine .bind _ (findOne_triple tok) (fun found => ?_) fun e =>
    .throw (looked_stable tok _) fun w g _ h => h.1
  cases found with
  | some s =>
    exact .ret (looked_stable tok _) fun w g _ h => ⟨h.2.1 s rfl, h.1.2⟩
  | none =>
    refine .bind _ ((insert_triple tok (newSaga t.sagaType t.correlationId t.data t.steps) rfl
      rfl).pre fun w g _ h => ⟨h.1.1, h.1.2, h.2.2 rfl⟩) (fun s => ?_) fun e =>
        .throw (hpost _) fun w g _ h => h
    refine .bind _ (setImmediate_triple (hpost (.ok s)) _) (fun _ => ?_) fun e => ?_
    · exact .ret ((Protocol.Stable.const _).and (hpost _)) fun w g _ h => h.2
    · exact .assuming (A := False) (fun w g _ h => by cases h.1) False.elim

theorem startSaga_triple (t : StartCall) :
    startProtocol.Triple i (Idle i) (startSaga t.sagaType t.correlationId t.data t.steps)
      (Ended i t) :=
  Locking.withLock_triple (L := locking i (lockKey t.sagaType t.correlationId)) (idle_blind _)
    (ended_blind _) (fun _ _ _ _ _ => trivial) findOrCreate_triple fun _ _ _ _ _ h _ => h

/-! ### Soundness -/

/-- Initially there is at most one saga for each pair. -/
def Fresh (w : World) : Prop := w.OneSaga

/-- **The calls keep to the protocol.** -/
theorem startCalls_sound : startProtocol.Sound Fresh Allowed where
  init := by
    intro w hw
    refine ⟨⟨fun _ => none, fun _ => none⟩, ⟨?_, hw, ?_⟩, ?_⟩
    · intro k i tok h
      simp at h
    · intro id j h
      simp at h
    · intro id j h
      simp at h
  start := by
    intro p t g _ hI hf
    refine ⟨g, hI, startProtocol.mono_refl _ _, fun j _ => startProtocol.keep_refl _ _ _, ?_, ?_⟩
    · intro id j hj
      have := hf id j hj
      rw [List.length_append]
      omega
    · intro id hid
      have := hf id _ hid
      simp [Pool.tags] at this
  tick := by
    intro p d g ha hI
    exact ⟨⟨hI.1.later ha, hI.2⟩, startProtocol.mono_refl p.world g,
      fun j => startProtocol.keep_refl j p.world g⟩
  canRun := fun _ _ _ _ _ _ _ _ _ _ => trivial
  body := fun i t w g hb hI => startSaga_triple t w g hI hb

end StartCalls

open StartCalls

/-- Call `i`, for the pair of `t`, has returned `s`. -/
def Returned (p : Pool startCalls) (i : ℕ) (t : StartCall) (s : SagaInstance) : Prop :=
  p.acts[i]? = some ⟨t, .ret s⟩

/-- Call `i` has thrown. -/
def Threw (p : Pool startCalls) (i : ℕ) : Prop := ∃ t e, p.acts[i]? = some ⟨t, .throw e⟩

/-- **There is one saga for each pair, and every call returns it.**  In every reachable state
there is at most one saga for each type and correlation id; a call that has returned has
returned the stored one; a call that has added a row never throws; and once a call for a
pair has returned, no row is added for it. -/
theorem saga_started_once {p : Pool startCalls} (hp : Pool.Reachable Fresh Allowed p) :
    p.world.OneSaga ∧
    (∀ i t s, Returned p i t s → s ∈ p.world.sagas ∧ s.Is t.sagaType t.correlationId) ∧
    (∀ i c p' p'', Allowed p (.run i c) → p.next (.run i c) = some p' →
      (∃ x ∈ p'.world.sagas, x ∉ p.world.sagas) → Pool.Runs Allowed p' p'' → ¬Threw p'' i) ∧
    ∀ i t s p', Returned p i t s → Pool.Runs Allowed p p' →
      ∀ x ∈ p'.world.sagas, x.Is t.sagaType t.correlationId → x ∈ p.world.sagas := by
  obtain ⟨g, hH⟩ := startCalls_sound.reachable hp
  have hreturned : ∀ i t s, Returned p i t s →
      s ∈ p.world.sagas ∧ s.Is t.sagaType t.correlationId :=
    fun i t s hi => hH.post hi rfl
  refine ⟨hH.inv.2.1, hreturned, fun i c p' p'' ha hn hx hr => ?_,
    fun i t s p' hi hr x hx hxi => ?_⟩
  · obtain ⟨x, hx, hnot⟩ := hx
    obtain ⟨g', hH', hm, hk⟩ := startCalls_sound.run hH ha hn
    obtain ⟨j, hj⟩ := hm.2.2 x hx hnot
    -- the row is the call's own
    have hji : j = i := by
      by_contra hne
      have hlen : p'.acts.length = p.acts.length := by
        obtain ⟨t, o, k, w, r, ts, -, -, rfl⟩ := Pool.next_run hn
        simp
      have hlt : j < p'.tags.length := hH'.fits _ j hj
      rw [Pool.tags, List.length_map, hlen] at hlt
      obtain ⟨y, hy, hid⟩ := hH.inv.2.2 _ j ((hk j hlt hne).2.2 _ hj)
      exact hnot (Table.eq_of_pk (hm.1 y hy) hx hid ▸ hy)
    subst hji
    rintro ⟨t, e, hthrew⟩
    obtain ⟨g'', hH'', hm'⟩ := startCalls_sound.runs hH' hr
    have hidle : Idle j p''.world g'' := hH''.post hthrew rfl
    exact hidle x.id (hm'.2.1 _ j hj)
  · obtain ⟨g', hH', hm⟩ := startCalls_sound.runs hH hr
    obtain ⟨hs, hsi⟩ := hreturned i t s hi
    have : x = s := hH'.inv.2.1 _ _ x hx hxi s (hm.1 s hs) hsi
    rw [this]
    exact hs

/-! ### Two nodes start the same saga -/

instance StartCalls.decidableAllowed (p : Pool startCalls) : ∀ a, Decidable (Allowed p a)
  | .start _ => isTrue trivial
  | .run _ _ => isTrue trivial
  | .tick d => inferInstanceAs (Decidable (p.world.Outlasts d))

/-- A call. -/
def oneSaga : StartCall := ⟨"T", "c", {}, []⟩

/-- The second call finds the lock taken, waits, and then finds the saga. -/
def startTwice : List (Action startCalls) :=
  [.start oneSaga, .start oneSaga, .run 0 { text := "a" }, .run 1 { text := "b" },
    .run 0 {}, .run 0 {}, .run 1 {}, .run 0 { text := "s" }, .tick 100, .run 0 {}, .run 0 {},
    .run 1 {}, .run 1 {}, .run 1 {}, .run 1 {}]

theorem startTwice_played : (Pool.play Allowed ⟨World.empty 0, []⟩ startTwice).isSome := by
  decide +kernel

/-- The calls after the race. -/
def startedTwice : Pool startCalls :=
  (Pool.play Allowed ⟨World.empty 0, []⟩ startTwice).get startTwice_played

/-- The saga both calls return. -/
def theSaga : SagaInstance := ⟨newSaga "T" "c" {} [], "s", none, 0, 0⟩

/-- Both calls have returned the one saga there is. -/
theorem saga_started_once_twice :
    Returned startedTwice 0 oneSaga theSaga ∧ Returned startedTwice 1 oneSaga theSaga ∧
      (∀ x ∈ startedTwice.world.sagas, x.Is "T" "c" → x = theSaga) ∧
      ∀ p', Pool.Runs Allowed startedTwice p' → ∀ x ∈ p'.world.sagas, x.Is "T" "c" →
        x ∈ startedTwice.world.sagas := by
  have hreach : Pool.Reachable Fresh Allowed startedTwice :=
    Pool.reachable_of_play (fun _ _ x hx => absurd hx (Table.notMem_empty x)) startTwice_played
  obtain ⟨hone, hret, -, hlater⟩ := saga_started_once hreach
  have h0 : Returned startedTwice 0 oneSaga theSaga := rfl
  have h1 : Returned startedTwice 1 oneSaga theSaga := rfl
  refine ⟨h0, h1, fun x hx hxi => ?_, fun p' => hlater 0 oneSaga theSaga p' h0⟩
  obtain ⟨hs, hsi⟩ := hret 0 oneSaga theSaga h0
  exact hone _ _ x hx hxi theSaga hs hsi

end CqrsSaga
