import CqrsSaga.Lock.Discipline
import CqrsSaga.Progress.Ends
import CqrsSaga.Progress.Routine

/-!
# Locks are given back

A lock is set by `withLock` under a token its caller has drawn, and is asked to be deleted before
the caller goes on, whether its section returns or throws; the test that takes a lock by single
calls gives it back too.  Nobody takes a second lock inside a section.  So as long as Redis answers
and the process goes on, every lock that is held belongs to an activity that is still at work, and
none is left behind.  Where Redis fails, or the process is ended, a lock may stay, but no longer
than its expiry says.

## Main definitions

* `World.Accounted` — whoever has a lock is known, and has drawn its token.
* `Answering` — the restriction on runs: no call to Redis fails.

## Main results

* `locks_at_work` — **a lock that is held belongs to an activity that is still at work.**
* `locks_expire` — **no lock outlasts the longest expiry**, whichever operations fail.
-/

namespace CqrsSaga

open SagaManager RedisLockService KafkaService

namespace Lease

variable {κ τ : Type} [DecidableEq κ] [DecidableEq τ] {t : Entries κ τ} {now : ℕ} {k : κ} {tok : τ}
  {e : Entry τ}

theorem live_answer_of_ne {k' : κ} (h : k' ≠ k) (c : Call) :
    live (answer t now k tok c).1 now k' = live t now k' := by
  rw [live, answer_lookup_of_ne t h, live]

/-- An entry that was set carries the token of the one who set it. -/
theorem live_set {ttl : ℕ} (hs : (answer t now k tok (.set ttl)).2 = true)
    (h : live (answer t now k tok (.set ttl)).1 now k = some e) : e.token = tok := by
  simp only [answer] at h hs
  split at h
  · obtain ⟨hl, -⟩ := Server.live_eq_some.mp h
    rw [AList.lookup_insert, Option.some.injEq] at hl
    rw [← hl]
  · next hne =>
    rw [if_neg hne] at hs
    cases hs

/-- A set that is refused changes nothing. -/
theorem set_refused {ttl : ℕ} (hs : (answer t now k tok (.set ttl)).2 = false) :
    (answer t now k tok (.set ttl)).1 = t := by
  simp only [answer] at hs ⊢
  split
  · next hfree =>
    rw [if_pos hfree] at hs
    cases hs
  · rfl

/-- Once a client has asked for its entry to be deleted, it is gone. -/
theorem live_unlock (h : live (answer t now k tok .unlock).1 now k = some e) :
    live t now k = some e ∧ e.token ≠ tok := by
  simp only [answer] at h
  split at h
  · obtain ⟨hl, -⟩ := Server.live_eq_some.mp h
    rw [AList.lookup_erase] at hl
    cases hl
  · next hne =>
    refine ⟨h, fun htok => hne ?_⟩
    rw [h, Option.map_some, htok]

/-- An entry that is prolonged keeps its token. -/
theorem live_renew {ttl : ℕ} (h : live (answer t now k tok (.renew ttl)).1 now k = some e) :
    ∃ e', live t now k = some e' ∧ e'.token = e.token := by
  simp only [answer] at h
  split at h
  · next hown =>
    obtain ⟨e', he', htok⟩ := Option.map_eq_some_iff.mp hown
    obtain ⟨hl, -⟩ := Server.live_eq_some.mp h
    rw [AList.lookup_insert, Option.some.injEq] at hl
    exact ⟨e', he', by rw [htok, ← hl]⟩
  · exact ⟨e, h, rfl⟩

end Lease

namespace World

/-- Whoever has a lock is known, and has drawn its token. -/
structure Accounted (w : World) (g : Holders) : Prop where
  live : ∀ k e, Lease.live w.redis.entries w.clock k = some e → ∃ i, g k = some (i, e.token)
  drawn : ∀ k i tok, g k = some (i, tok) → (i, tok) ∈ w.tokens

variable {w w' : World} {g : Holders} {i : ℕ} {k tok : String}

theorem Accounted.of_same (h : w.Accounted g) (hr : w'.redis = w.redis) (hc : w'.clock = w.clock)
    (ht : w.tokens ⊆ w'.tokens) : w'.Accounted g := by
  refine ⟨fun k e he => h.live k e ?_, fun k i tok hk => ht (h.drawn k i tok hk)⟩
  rwa [hr, hc] at he

/-- Time passes, and entries run out. -/
theorem Accounted.elapse (h : w.Accounted g) (d : ℕ) :
    World.Accounted { w with clock := w.clock + d } g := by
  refine ⟨fun k e he => h.live k e ?_, h.drawn⟩
  obtain ⟨hl, hd⟩ := Lease.Server.live_eq_some.mp he
  exact Lease.Server.live_eq_some.mpr ⟨hl, Nat.le_trans (Nat.le_add_right _ d) hd⟩

/-- What is under other keys is not looked at. -/
theorem Accounted.live_of_ne (h : w.Accounted g) {k' : String} (hk : k' ≠ k) (c : Lease.Call)
    {e : Lease.Entry String} (he : Lease.live (w.callRedis k tok c).1.redis.entries
      (w.callRedis k tok c).1.clock k' = some e) : ∃ i, g k' = some (i, e.token) :=
  h.live k' e ((Lease.live_answer_of_ne (t := w.redis.entries) hk c).symm.trans he)

/-- An entry is set. -/
theorem Accounted.set (h : w.Accounted g) (ht : (i, tok) ∈ w.tokens) {ttl : ℕ}
    (hs : (w.callRedis k tok (.set ttl)).2 = true) :
    (w.callRedis k tok (.set ttl)).1.Accounted (Function.update g k (some (i, tok))) := by
  refine ⟨fun k' e he => ?_, fun k' j tok' hk => ?_⟩
  · by_cases hk : k' = k
    · subst hk
      rw [Function.update_self]
      exact ⟨i, by rw [Lease.live_set hs he]⟩
    · rw [Function.update_of_ne hk]
      exact h.live_of_ne hk _ he
  · by_cases hkk : k' = k
    · subst hkk
      rw [Function.update_self, Option.some.injEq, Prod.mk.injEq] at hk
      obtain ⟨rfl, rfl⟩ := hk
      exact ht
    · rw [Function.update_of_ne hkk] at hk
      exact h.drawn k' j tok' hk

/-- An entry is not set. -/
theorem Accounted.set_refused (h : w.Accounted g) {ttl : ℕ}
    (hs : (w.callRedis k tok (.set ttl)).2 = false) :
    (w.callRedis k tok (.set ttl)).1.Accounted g :=
  ⟨fun k' e he => h.live k' e (Lease.set_refused hs ▸ he), h.drawn⟩

/-- Whoever has asked for his entry to be deleted has none any more. -/
theorem Accounted.unlock (h : w.Accounted g) (k tok : String) :
    (w.callRedis k tok .unlock).1.Accounted
      (if g k = some (i, tok) then Function.update g k none else g) := by
  -- the entry that is left under `k` is not the caller's
  have hlive : ∀ k' e, Lease.live (w.callRedis k tok .unlock).1.redis.entries
      (w.callRedis k tok .unlock).1.clock k' = some e →
        (k' = k → e.token ≠ tok) ∧ ∃ j, g k' = some (j, e.token) := by
    intro k' e he
    by_cases hk : k' = k
    · subst hk
      obtain ⟨he, hne⟩ := Lease.live_unlock he
      exact ⟨fun _ => hne, h.live k' e he⟩
    · exact ⟨fun heq => absurd heq hk, h.live_of_ne hk _ he⟩
  split
  · next hown =>
    refine ⟨fun k' e he => ?_, fun k' j tok' hk => ?_⟩
    · obtain ⟨hne, j, hj⟩ := hlive k' e he
      by_cases hk : k' = k
      · subst hk
        rw [hown, Option.some.injEq, Prod.mk.injEq] at hj
        exact absurd hj.2.symm (hne rfl)
      · exact ⟨j, by rw [Function.update_of_ne hk, hj]⟩
    · by_cases hkk : k' = k
      · subst hkk
        rw [Function.update_self] at hk
        cases hk
      · rw [Function.update_of_ne hkk] at hk
        exact h.drawn k' j tok' hk
  · exact ⟨fun k' e he => (hlive k' e he).2, h.drawn⟩

/-- An entry is prolonged, or not. -/
theorem Accounted.renew (h : w.Accounted g) (k tok : String) (ttl : ℕ) :
    (w.callRedis k tok (.renew ttl)).1.Accounted g := by
  refine ⟨fun k' e he => ?_, h.drawn⟩
  by_cases hk : k' = k
  · subst hk
    obtain ⟨e', he', htok⟩ := Lease.live_renew he
    exact htok ▸ h.live k' e' he'
  · exact h.live_of_ne hk _ he

end World

/-! ### Programs without locks -/

/-- The operation does not go to Redis. -/
def Op.NoRedis (o : Op) : Prop := o.isRedis = false

theorem Op.Ordinary.noRedis {o : Op} (h : o.Ordinary) : o.NoRedis := by
  cases o <;> first | exact absurd h id | exact rfl

theorem connected_noRedis {p : ℕ → Async App Unit} (hp : ∀ n, (p n).Only Op.NoRedis) :
    (queryRunner.connect.bind fun n => (queryRunner.startTransaction n).bind fun _ => p n).Only
      Op.NoRedis :=
  .bind (.perform rfl) fun n => .bind (.perform rfl) fun _ => hp n

theorem inTransaction_noRedis {n : ℕ} {block : Async App Unit} {recover : Err → Async App Unit}
    (hb : block.Only Op.NoRedis) (hr : ∀ e, (recover e).Only Op.NoRedis) :
    (inTransaction n block recover).Only Op.NoRedis :=
  .andFinally (.handle hb fun e => .bind (.perform rfl) fun _ => hr e) (.perform rfl)

theorem commit_noRedis (n : ℕ) {p : Async App Unit} (hp : p.Only Op.NoRedis) :
    ((queryRunner.commitTransaction n).bind fun _ => p).Only Op.NoRedis :=
  .bind (.perform rfl) fun _ => hp

section Failure

variable [Hashes]

theorem markSagaAsFinalFailure_noRedis (saga : SagaInstance) (errorMessage : String) :
    (markSagaAsFinalFailure saga errorMessage).Only Op.NoRedis := by
  refine connected_noRedis fun n => inTransaction_noRedis (.bind (.perform rfl) fun found => ?_)
    fun _ => trivial
  cases found with
  | none => exact commit_noRedis n (.perform rfl)
  | some x => exact .bind (.perform rfl) fun _ => commit_noRedis n (.perform rfl)

theorem compensateSteps_noRedis (steps : List String) :
    ∀ saga : SagaInstance, (compensateSteps steps saga).Only Op.NoRedis := by
  induction steps with
  | nil => exact fun _ => trivial
  | cons step steps ih => exact fun saga => .bind (.bind (.perform rfl) fun _ => trivial) ih

theorem startCompensation_noRedis (saga : SagaInstance) :
    (startCompensation saga).Only Op.NoRedis := by
  refine connected_noRedis fun n => inTransaction_noRedis ?_
    fun e => markSagaAsFinalFailure_noRedis saga _
  refine .bind (compensateSteps_noRedis _ saga) fun s => .bind (.perform rfl) fun found =>
    .bind ?_ fun _ => commit_noRedis n (.perform rfl)
  cases found with
  | none => exact trivial
  | some x => exact .perform rfl

/-- The handling of a failure has nothing to do with locks. -/
theorem handleSagaFailure_noRedis (saga : SagaInstance) (failedStep errorMessage : String) :
    (handleSagaFailure saga failedStep errorMessage).Only Op.NoRedis := by
  refine connected_noRedis fun n => inTransaction_noRedis (.bind (.perform rfl) fun found => ?_)
    fun _ => trivial
  cases found with
  | none => exact trivial
  | some x =>
    exact .bind (.perform rfl) fun _ => commit_noRedis n (.bind (.perform rfl) fun _ =>
      startCompensation_noRedis _)

end Failure

/-! ### What the activities agree on -/

section Application

variable [Hashes]

/-- **What the activities agree on.**  The ghost state tells who was the last to set each lock. -/
def lockKeepers : Protocol application where
  Ghost := Holders
  Inv := World.Accounted
  Mono := fun w _ w' _ => w.tokens ⊆ w'.tokens
  Keep := fun j _ g _ g' => ∀ k tok, g' k = some (j, tok) → g k = some (j, tok)
  CanRun := fun _ _ _ o c => o.isRedis = true → c.fault = none
  Assert := fun _ _ _ _ => True
  Fits := fun g l => ∀ k i tok, g k = some (i, tok) → i < l.length
  Born := fun i _ _ g => ∀ k tok, g k ≠ some (i, tok)
  Post := fun i _ _ _ g => ∀ k tok, g k ≠ some (i, tok)
  mono_refl := fun _ _ => List.Subset.refl _
  mono_trans := fun h h' => List.Subset.trans h h'
  keep_refl := fun _ _ _ _ _ h => h
  keep_trans := fun h h' k tok hk => h k tok (h' k tok hk)

namespace LockKeepers

variable {w w' : World} {g g' : Holders} {i : ℕ} {o : Op} {c : Choice} {r : Except Err (Op.Val o)}
  {ts : List Task} {k tok : String}

/-- Activity `i` has no lock. -/
def Without (i : ℕ) (_ : World) (g : Holders) : Prop := ∀ k tok, g k ≠ some (i, tok)

/-- Activity `i` has no lock but `k`, and that under the token `tok`. -/
def AtMost (i : ℕ) (k tok : String) (_ : World) (g : Holders) : Prop :=
  ∀ k' tok', g k' = some (i, tok') → k' = k ∧ tok' = tok

theorem without_stable (i : ℕ) : lockKeepers.Stable i (Without i) :=
  fun _ _ _ _ _ hk _ h k tok hg => h k tok (hk k tok hg)

theorem atMost_stable (i : ℕ) (k tok : String) : lockKeepers.Stable i (AtMost i k tok) :=
  fun _ _ _ _ _ hk _ h k' tok' hg => h k' tok' (hk k' tok' hg)

theorem drawn_lasting (i : ℕ) (tok : String) :
    lockKeepers.Lasting fun w _ => (i, tok) ∈ w.tokens :=
  fun _ _ _ _ hm _ h => hm h

/-- What an operation of activity `i` leaves, if only he may have become a holder. -/
theorem settles {l : List Job} {Φ : World → Holders → Prop} (hI : w'.Accounted g')
    (ht : w.tokens ⊆ w'.tokens) (hg : ∀ k j tok, g' k = some (j, tok) → g k = some (j, tok) ∨ j = i)
    (hl : i < l.length) (hf : lockKeepers.Fits g l) (h : Φ w' g') :
    lockKeepers.Settles i l w g w' ts Φ := by
  have hlt : ∀ k j tok, g' k = some (j, tok) → j < l.length := by
    intro k j tok hk
    rcases hg k j tok hk with hk | rfl
    · exact hf k j tok hk
    · exact hl
  refine ⟨g', hI, ht, fun j _ hj k tok hk => (hg k j tok hk).resolve_right hj,
    fun k j tok hk => ?_, fun n t _ k tok hk => ?_, h⟩
  · rw [List.length_append]
    exact Nat.lt_add_right _ (hlt k j tok hk)
  · exact absurd (hlt k _ tok hk) (by omega)

omit [Hashes] in
/-- No token is forgotten. -/
theorem exec_tokens (he : w.exec i o c = some (w', r, ts)) : w.tokens ⊆ w'.tokens := by
  by_cases hw : .tokens ∈ o.writes
  · cases o <;> simp [Op.writes] at hw
    obtain ⟨hp, -⟩ := World.exec_local he rfl
    obtain rfl := (congrArg Prod.fst (Option.some.inj hp) :
      { w with tokens := (i, c.text) :: w.tokens } = w')
    exact List.subset_cons_self _ _
  · rw [(World.exec_frame he).tokens hw]
    exact List.Subset.refl _

/-- An operation that does not go to Redis leaves everything about locks as it was. -/
theorem noRedis_settles {l : List Job} {Φ : World → Holders → Prop} (ho : o.NoRedis)
    (hI : w.Accounted g) (he : w.exec i o c = some (w', r, ts)) (hl : i < l.length)
    (hf : lockKeepers.Fits g l) (h : w.tokens ⊆ w'.tokens → Φ w' g) :
    lockKeepers.Settles i l w g w' ts Φ := by
  have hframe := World.exec_frame he
  have hredis : w'.redis = w.redis := by
    refine hframe.redis fun hw => ?_
    cases o <;> simp [Op.writes] at hw <;> cases ho
  have ht := exec_tokens he
  exact settles (hI.of_same hredis hframe.clock ht) ht (fun _ _ _ hk => Or.inl hk) hl hf (h ht)

theorem noRedis_atomic {F : Holders → Prop} (ho : o.NoRedis) (hI : w.Accounted g) (h : F g) :
    lockKeepers.atomic i o (fun _ _ => F) w g :=
  ⟨trivial, fun _ _ _ _ _ he _ hl hf => noRedis_settles ho hI he hl hf fun _ => h⟩

theorem noRedis_triple {α : Type} {F : Holders → Prop} (hF : lockKeepers.Stable i fun _ => F)
    {p : Async App α} (hp : p.Only Op.NoRedis) :
    lockKeepers.Triple i (fun _ => F) p fun _ _ => F :=
  fun _ _ _ hw => Protocol.wp_of_only hF (fun _ _ _ ho hI h => noRedis_atomic ho hI h) hp hw

/-! ### The lock service -/

open RedisLockService

/-- A step within the process does not fail. -/
theorem local_triple {F : World → Holders → Prop} (hF : lockKeepers.Stable i F)
    (hF' : ∀ w w' g, w.tokens ⊆ w'.tokens → F w g → F w' g) (ho : o.NoRedis)
    (hlocal : o.isLocal = true) : lockKeepers.Triple i F (.perform o) (Returns F) := by
  refine .perform hF (returns_stable hF) fun w g hI h => ⟨trivial, ?_⟩
  intro c w' r ts _ he l hl hf
  exact noRedis_settles ho hI he hl hf fun ht => ⟨(World.exec_local he hlocal).2, hF' w w' g ht h⟩

/-- Activity `i` has no lock, and has drawn the token `tok`. -/
def Ready (i : ℕ) (tok : String) (w : World) (g : Holders) : Prop :=
  Without i w g ∧ (i, tok) ∈ w.tokens

theorem ready_stable (i : ℕ) (tok : String) : lockKeepers.Stable i (Ready i tok) :=
  (without_stable i).and (drawn_lasting i tok).stable

theorem generateToken_triple : lockKeepers.Triple i (Without i) generateToken
    fun r w g => ∃ tok, r = .ok tok ∧ Ready i tok w g := by
  have hst : ∀ r : Except Err String,
      lockKeepers.Stable i fun w g => ∃ tok, r = .ok tok ∧ Ready i tok w g := by
    rintro r w g w' g' hm hk hI ⟨tok, rfl, h⟩
    exact ⟨tok, rfl, ready_stable i tok hm hk hI h⟩
  refine .perform (without_stable i) hst fun (w : World) (g : Holders) hI h => ⟨trivial, ?_⟩
  intro c w' r ts _ he l hl hf
  refine noRedis_settles (o := .generateToken) rfl hI he hl hf fun _ => ?_
  obtain ⟨hp, -⟩ := World.exec_local he rfl
  simp only [World.perform, Option.some.injEq, Prod.mk.injEq] at hp
  obtain ⟨rfl, rfl, -⟩ := hp
  exact ⟨c.text, rfl, h, List.mem_cons_self⟩

/-- Whoever is answered `OK` has the lock. -/
theorem set_triple (k tok : String) (ttl : ℕ) : lockKeepers.Triple i (Ready i tok)
    (redis.set k tok ttl) (Attempted (Ready i tok) (AtMost i k tok)) := by
  refine .perform (ready_stable i tok)
    (attempted_stable (ready_stable i tok) (atMost_stable i k tok))
    fun (w : World) (g : Holders) hI h => ⟨trivial, ?_⟩
  intro c w' r ts hc he l hl hf
  have hp : w.perform i c (.redisSet k tok ttl) = some (w', r, ts) :=
    World.exec_eq_perform (hc rfl) ▸ he
  simp only [World.perform] at hp
  split at hp
  · simp only [Option.some.injEq, Prod.mk.injEq] at hp
    obtain ⟨rfl, rfl, rfl⟩ := hp
    exact settles hI (List.Subset.refl _) (fun _ _ _ hk => Or.inl hk) hl hf (attempted_error h _)
  · simp only [Option.some.injEq, Prod.mk.injEq] at hp
    obtain ⟨rfl, rfl, rfl⟩ := hp
    cases hs : (w.callRedis k tok (.set ttl)).2 with
    | false =>
      exact settles (World.Accounted.set_refused hI hs) (List.Subset.refl _)
        (fun _ _ _ hk => Or.inl hk) hl hf (attempted_false h)
    | true =>
      refine settles (World.Accounted.set hI h.2 hs) (List.Subset.refl _) (fun k' j tok' hk => ?_)
        hl hf (Or.inl ⟨rfl, fun k' tok' hk => ?_⟩)
      · by_cases hkk : k' = k
        · subst hkk
          rw [Function.update_self, Option.some.injEq, Prod.mk.injEq] at hk
          exact Or.inr hk.1.symm
        · rw [Function.update_of_ne hkk] at hk
          exact Or.inl hk
      · by_cases hkk : k' = k
        · subst hkk
          rw [Function.update_self, Option.some.injEq, Prod.mk.injEq] at hk
          exact ⟨rfl, hk.2.symm⟩
        · rw [Function.update_of_ne hkk] at hk
          exact absurd hk (h.1 k' tok')

/-- Whoever gives back his only lock has none. -/
theorem unlock_triple (k tok : String) :
    lockKeepers.Triple i (AtMost i k tok) (redis.unlock k tok) fun _ => Without i := by
  refine .perform (atMost_stable i k tok) (fun _ => without_stable i)
    fun (w : World) (g : Holders) hI h => ⟨trivial, ?_⟩
  intro c w' r ts hc he l hl hf
  have hp : w.perform i c (.redisUnlock k tok) = some (w', r, ts) :=
    World.exec_eq_perform (hc rfl) ▸ he
  obtain rfl := (congrArg Prod.fst (Option.some.inj hp) : (w.callRedis k tok .unlock).1 = w')
  have hupdate : ∀ k' x, Function.update g k none k' = some x → k' ≠ k ∧ g k' = some x := by
    intro k' x hk
    by_cases hkk : k' = k
    · subst hkk
      rw [Function.update_self] at hk
      cases hk
    · exact ⟨hkk, Function.update_of_ne hkk none g ▸ hk⟩
  refine settles (World.Accounted.unlock (i := i) hI k tok) (List.Subset.refl _)
    (fun k' j tok' hk => ?_) hl hf fun k' tok' hk => ?_
  · split at hk
    · exact Or.inl (hupdate k' _ hk).2
    · exact Or.inl hk
  · split at hk
    · obtain ⟨hne, hk⟩ := hupdate k' _ hk
      exact hne (h k' tok' hk).1
    · next hown =>
      obtain ⟨rfl, rfl⟩ := h k' tok' hk
      exact hown hk

theorem taking (k : String) (options : LockOptions) :
    Taking lockKeepers i k options (Without i) (Ready i) (AtMost i k) (Without i) where
  free := ready_stable i
  held := atMost_stable i k
  gaveUp := without_stable i
  token := generateToken_triple
  set := fun tok => set_triple k tok _
  sleep := fun tok => local_triple (ready_stable i tok) (fun _ _ _ ht h => ⟨h.1, ht h.2⟩) rfl rfl
  log := fun _ => (local_triple (o := .log (.lockNotAcquired k)) (without_stable i)
    (fun _ _ _ _ h => h) rfl rfl).pre fun _ _ _ h => h.1

/-- **A section under a lock leaves nothing behind.** -/
theorem withLock_triple {α : Type} {key : String} {fn : Async App α} {options : LockOptions}
    (hfn : fn.Only Op.NoRedis) :
    lockKeepers.Triple i (Without i) (withLock key fn options) fun _ => Without i :=
  RedisLockService.withLock_triple (taking ("lock:" ++ key) options) (fun _ => without_stable i)
    (fun tok => noRedis_triple (atMost_stable i _ tok) hfn) (fun tok _ => unlock_triple _ tok)
    fun _ _ _ _ h => h

/-- A lock that is prolonged remains the only one; prolonging it never throws. -/
theorem renewLock_triple (lock : AcquiredLock) {ttl : ℕ} (httl : ttl ≠ 0) :
    lockKeepers.Triple i (AtMost i lock.key lock.token) (renewLock lock ttl)
      (Protocol.Answers fun v w g =>
        (v.1.key = lock.key ∧ v.1.token = lock.token) ∧ AtMost i lock.key lock.token w g) := by
  have hst := atMost_stable i lock.key lock.token
  have hrenew : lockKeepers.Triple i (AtMost i lock.key lock.token)
      (redis.renew lock.key lock.token ttl) fun _ => AtMost i lock.key lock.token := by
    refine .perform hst (fun _ => hst) fun (w : World) (g : Holders) hI h => ⟨trivial, ?_⟩
    intro c w' r ts hc he l hl hf
    have hp : w.perform i c (.redisRenew lock.key lock.token ttl) = some (w', r, ts) :=
      World.exec_eq_perform (hc rfl) ▸ he
    rw [World.perform, if_neg httl] at hp
    obtain rfl := congrArg Prod.fst (Option.some.inj hp)
    exact settles (World.Accounted.renew hI _ _ _) (exec_tokens he) (fun _ _ _ hk => Or.inl hk)
      hl hf h
  have hdone : ∀ (l : AcquiredLock) (b : Bool), l.key = lock.key → l.token = lock.token →
      lockKeepers.Triple i (AtMost i lock.key lock.token) (.ret (l, b)) (Protocol.Answers
        fun v w g => (v.1.key = lock.key ∧ v.1.token = lock.token) ∧
          AtMost i lock.key lock.token w g) :=
    fun l b hkey htoken => .ret hst fun _ _ _ h => ⟨(l, b), rfl, ⟨hkey, htoken⟩, h⟩
  -- what the `try` block has come to: an answer, or an error with the lock as it was
  refine .handle (fun r w g => AtMost i lock.key lock.token w g ∧
      ∀ v, r = .ok v → v.1.key = lock.key ∧ v.1.token = lock.token)
    (.bind _ hrenew (fun b => ?_) fun e => .throw hst fun _ _ _ h => ⟨h, fun v hv => by cases hv⟩)
    (fun e => ?_) fun v => ?_
  · have hret : ∀ l : AcquiredLock, l.key = lock.key → l.token = lock.token →
        lockKeepers.Triple i (AtMost i lock.key lock.token) (.ret (l, b)) fun r w g =>
          AtMost i lock.key lock.token w g ∧
            ∀ v, r = .ok v → v.1.key = lock.key ∧ v.1.token = lock.token := by
      intro l hkey htoken
      refine .ret hst fun _ _ _ h => ⟨h, fun v hv => ?_⟩
      obtain rfl := Except.ok.inj hv
      exact ⟨hkey, htoken⟩
    cases b with
    | true => exact hret _ rfl rfl
    | false => exact hret _ rfl rfl
  · exact (hdone _ _ rfl rfl).pre fun _ _ _ h => h.1
  · refine .assuming (fun _ _ _ h => h.2 v rfl) fun hv => ?_
    exact (hdone v.1 v.2 hv.1 hv.2).pre fun _ _ _ h => h.1

/-- Whoever asks whether a lock is held does not get one. -/
theorem isLocked_triple (key : String) :
    lockKeepers.Triple i (Without i) (isLocked key) fun _ => Without i := by
  refine .rescue (without_stable i) (.perform (without_stable i) (fun _ => without_stable i)
    fun (w : World) (g : Holders) hI h => ⟨trivial, ?_⟩) fun _ => .skip (without_stable i)
  intro c w' r ts hc he l hl hf
  have hp : w.perform i c (.redisExists ("lock:" ++ key)) = some (w', r, ts) :=
    World.exec_eq_perform (hc rfl) ▸ he
  obtain rfl : w = w' := congrArg Prod.fst (Option.some.inj hp)
  exact settles hI (List.Subset.refl _) (fun _ _ _ hk => Or.inl hk) hl hf h

/-- The lock that is taken, prolonged and given back by single calls is not left behind. -/
theorem manualLockTest_triple (key : String) :
    lockKeepers.Triple i (Without i) (RedisTestController.manualLockTest key)
      fun _ => Without i := by
  have hwithout := without_stable i
  have hsleep : ∀ (k tok : String) (d : ℕ),
      lockKeepers.Triple i (AtMost i k tok) (sleep d) (Returns (AtMost i k tok)) :=
    fun k tok _ => local_triple (atMost_stable i k tok) (fun _ _ _ _ h => h) rfl rfl
  have hslept : ∀ {α : Type} {k tok : String} {e : Err} {p : Async App α},
      lockKeepers.Triple i (Returns (AtMost i k tok) (.error e : Except Err Unit)) p
        fun _ => Without i := by
    intro α k tok e p
    refine .never fun _ _ h => ?_
    obtain ⟨v, hv⟩ := h.1
    cases hv
  refine .bind _ (acquireLock_triple (taking ("lock:" ++ key) _)) (fun lock => ?_) fun e => ?_
  · cases lock with
    | none =>
      refine .pre (F := Without i) ?_ (.skip hwithout)
      rintro w g - ⟨tok, ⟨hr, -⟩ | ⟨-, h⟩⟩
      · cases hr
      · exact h
    | some lock =>
      refine .pre (F := AtMost i lock.key lock.token) ?_
        (.bind _ (hsleep _ _ _) (fun _ => ?_) fun _ => hslept)
      · rintro w g - ⟨tok, ⟨hr, h⟩ | ⟨hr, -⟩⟩
        · cases hr
          exact h
        · cases hr
      refine .bind _ ((renewLock_triple lock (by decide)).pre fun _ _ _ h => h.2)
        (fun renewal => ?_) fun e => .never fun _ _ h => ?_
      swap
      · obtain ⟨v, hv, -⟩ := h
        cases hv
      refine .assuming (A := renewal.1.key = lock.key ∧ renewal.1.token = lock.token) ?_
        fun ⟨hkey, htoken⟩ => ?_
      · rintro w g - ⟨v, hv, h, -⟩
        obtain rfl := Except.ok.inj hv
        exact h
      refine .pre (F := AtMost i lock.key lock.token) ?_
        (.bind _ (hsleep _ _ _) (fun _ => ?_) fun _ => hslept)
      · rintro w g - ⟨v, -, -, h⟩
        exact h
      have hunlock : lockKeepers.Triple i (AtMost i lock.key lock.token)
          (redis.unlock renewal.1.key renewal.1.token) fun _ => Without i := by
        rw [hkey, htoken]
        exact unlock_triple _ _
      refine .bind _ ((releaseLock_triple renewal.1 hwithout hunlock).pre fun _ _ _ h => h.2)
        (fun _ => ?_) fun e => .never fun _ _ h => ?_
      · exact .pre (fun _ _ _ h => h.2) (.skip hwithout)
      · obtain ⟨v, hv⟩ := h.1
        cases hv
  · -- acquiring a lock never throws
    refine .never ?_
    rintro w g ⟨tok, ⟨hr, -⟩ | ⟨hr, -⟩⟩
    · cases hr
    · cases hr

theorem lockTest_triple (test : LockTest) :
    lockKeepers.Triple i (Without i) test.run fun _ => Without i := by
  have hst := without_stable i
  cases test with
  | testDistributedLock key duration nodeId | testSagaCreation correlationId nodeId =>
    exact .seq hst (.rescue hst (.seq hst (withLock_triple (.perform rfl)) fun _ => .skip hst)
      fun _ => .skip hst) fun _ => .skip hst
  | checkLockStatus key => exact .seq hst (isLocked_triple key) fun _ => .skip hst
  | manualLockTest key => exact .seq hst (manualLockTest_triple key) fun _ => .skip hst

theorem routine (i : ℕ) : Routine lockKeepers i (Without i) where
  stable := without_stable i
  ordinary := fun _ _ _ ho hI h => noRedis_atomic (F := fun g => ∀ k tok, g k ≠ some (i, tok))
    ho.noRedis hI h
  locked := fun _ hfn => withLock_triple (hfn.mono fun _ ho => ho.noRedis)
  lockTest := lockTest_triple
  failure := fun saga s m => noRedis_triple (without_stable i) (handleSagaFailure_noRedis saga s m)

/-- No lock is held. -/
def Free (w : World) : Prop := ∀ k, Lease.live w.redis.entries w.clock k = none

end LockKeepers

/-- No call to Redis fails. -/
def Answering (p : Pool application) : Action application → Prop
  | .run i c => ∀ o ∈ p.awaits i, o.isRedis = true → c.fault = none
  | _ => True

namespace LockKeepers

/-- **Every activity keeps to the agreements.** -/
theorem sound : lockKeepers.Sound Free Answering where
  init := fun w hw => ⟨fun _ => none, ⟨fun k e he => by simp [hw k] at he, by simp⟩, by
    simp [lockKeepers]⟩
  start := by
    rintro p t g - hI hf
    refine ⟨g, hI, List.Subset.refl _, fun j _ _ _ hk => hk, fun k i tok hk => ?_,
      fun k tok hk => ?_⟩
    · rw [List.length_append]
      exact Nat.lt_add_right _ (hf k i tok hk)
    · have hlt := hf k _ tok hk
      simp [Pool.tags] at hlt
  tick := fun p d g _ hI =>
    ⟨World.Accounted.elapse hI d, List.Subset.refl _, fun _ _ _ hk => hk⟩
  canRun := by
    rintro p i c t o k g ha hi - ho
    exact ha o (Pool.awaits_eq_some.mpr ⟨t, k, hi⟩) ho
  body := fun i t w g hb hI => (routine i).job t w g hI hb

end LockKeepers

open LockKeepers in
/-- **A lock that is held belongs to an activity that is still at work**, and that has drawn its
token, as long as the process goes on. -/
theorem locks_at_work {p : Pool application} (hp : Pool.Reachable Free Answering p)
    (hc : ¬Crashed p) {k : String} {e : Lease.Entry String}
    (hk : Lease.live (World.redis p.world).entries (World.clock p.world) k = some e) :
    ∃ i, (i, e.token) ∈ World.tokens p.world ∧ AtWork p i := by
  obtain ⟨g, hH⟩ := sound.reachable hp
  obtain ⟨i, hi⟩ := hH.inv.live k e hk
  have hlt : i < p.acts.length := by simpa [Pool.tags] using hH.fits k i _ hi
  have ha : p.acts[i]? = some p.acts[i] := List.getElem?_eq_getElem hlt
  refine ⟨i, hH.inv.drawn k i _ hi, hc, ?_⟩
  cases ho : p.acts[i].prog.awaited? with
  | some o => exact ⟨o, by rw [Pool.awaits, ha, Option.bind_some, ho]⟩
  | none =>
    -- whoever has ended has given back his lock
    obtain ⟨r, hr⟩ := Async.result?_isSome_of_awaited? ho
    exact absurd hi (hH.post ha hr k _)

end Application

/-! ### Locks that are left behind -/

/-- The operation lets no entry live for more than another minute. -/
def Op.Brief : Op → Prop
  | .redisSet _ _ ttl => ttl ≤ 60000
  | .redisRenew _ _ ttl => ttl ≤ 60000
  | _ => True

theorem Op.NoRedis.brief {o : Op} (h : o.NoRedis) : o.Brief := by
  cases o <;> first | exact trivial | cases h

theorem acquireLock_brief {key : String} {options : LockOptions} (ht : options.ttl ≤ 60000) :
    (acquireLock key options).Only Op.Brief := by
  have hattempt : ∀ {k tok : String} {backOff : Async App Unit}, backOff.Only Op.Brief →
      (attempt k tok options.ttl backOff).Only Op.Brief := by
    intro k tok backOff hb
    refine .handle (.bind (.perform ht) fun b => ?_) fun _ => .bind hb fun _ => trivial
    cases b with
    | true => exact trivial
    | false => exact .bind hb fun _ => trivial
  have hattempts : ∀ (k tok : String) (n : ℕ),
      (attempts k tok options.ttl options.retryDelay n).Only Op.Brief := by
    intro k tok n
    induction n with
    | zero =>
      refine .bind (hattempt trivial) fun b => ?_
      cases b with
      | true => exact trivial
      | false => exact .bind (.perform trivial) fun _ => trivial
    | succ n ih =>
      refine .bind (hattempt (.perform trivial)) fun b => ?_
      cases b with
      | true => exact trivial
      | false => exact ih
  exact .bind (.perform trivial) fun tok => hattempts _ tok _

theorem withLock_brief {α : Type} {key : String} {fn : Async App α} {options : LockOptions}
    (ht : options.ttl ≤ 60000) (hfn : fn.Only Op.Brief) :
    (withLock key fn options).Only Op.Brief := by
  refine .bind (acquireLock_brief ht) fun lock => ?_
  cases lock with
  | none => exact trivial
  | some lock => exact .andFinally hfn (.handle (.perform trivial) fun _ => trivial)

theorem lockTest_brief (test : LockTest) : test.run.Only Op.Brief := by
  have hsleep : ∀ d, (sleep d).Only Op.Brief := fun _ => .perform trivial
  have hhold : ∀ (key : String) (d : ℕ) (nodeId : String) (options : LockOptions),
      options.ttl ≤ 60000 →
        (RedisTestController.holdLock key d nodeId options).Only Op.Brief :=
    fun _ _ _ _ ht => .handle (.bind (withLock_brief ht (hsleep _)) fun _ => trivial)
      fun _ => trivial
  cases test with
  | testDistributedLock key duration nodeId =>
    exact .bind (hhold _ _ _ _ (by decide)) fun _ => trivial
  | testSagaCreation correlationId nodeId =>
    exact .bind (hhold _ _ _ _ (by decide)) fun _ => trivial
  | checkLockStatus key =>
    exact .bind (.handle (.perform trivial) fun _ => trivial) fun _ => trivial
  | manualLockTest key =>
    refine .bind (.bind (acquireLock_brief (by decide)) fun lock => ?_) fun _ => trivial
    cases lock with
    | none => exact trivial
    | some lock =>
      refine .bind (hsleep _) fun _ => .bind (.handle (.bind (.perform ?_) fun b => ?_)
        fun _ => trivial) fun _ => .bind (hsleep _) fun _ =>
          .bind (.handle (.perform trivial) fun _ => trivial) fun _ => trivial
      · exact show 15000 ≤ 60000 by decide
      · cases b with
        | true => exact trivial
        | false => exact trivial

/-- No entry lives for more than another minute. -/
def World.Expiring (w : World) : Prop :=
  ∀ k e, w.redis.entries.lookup k = some e → e.deadline ≤ w.clock + 60000

namespace World

variable {w w' : World} {i : ℕ} {o : Op} {c : Choice} {r : Except Err (Op.Val o)} {ts : List Task}

theorem Expiring.callRedis (h : w.Expiring) (k tok : String) {call : Lease.Call}
    (hc : ∀ ttl, call = .set ttl ∨ call = .renew ttl → ttl ≤ 60000) :
    (w.callRedis k tok call).1.Expiring := by
  intro k' e he
  by_cases hk : k' = k
  · subst hk
    simp only [World.callRedis, Lease.Server.serve_entries] at he ⊢
    cases call with
    | set ttl =>
      simp only [Lease.answer] at he
      split at he
      · rw [AList.lookup_insert, Option.some.injEq] at he
        rw [← he]
        exact Nat.add_le_add_left (hc ttl (Or.inl rfl)) _
      · exact h _ e he
    | renew ttl =>
      simp only [Lease.answer] at he
      split at he
      · rw [AList.lookup_insert, Option.some.injEq] at he
        rw [← he]
        exact Nat.add_le_add_left (hc ttl (Or.inr rfl)) _
      · exact h _ e he
    | unlock =>
      simp only [Lease.answer] at he
      split at he
      · rw [AList.lookup_erase] at he
        cases he
      · exact h _ e he
  · exact h k' e ((Lease.answer_lookup_of_ne w.redis.entries hk w.clock tok call).symm.trans he)

theorem Expiring.exec (h : w.Expiring) (ho : o.Brief) (he : w.exec i o c = some (w', r, ts)) :
    w'.Expiring := by
  have hperform : ∀ {v}, w.perform i c o = some (w', v, ts) → w'.Expiring := by
    intro v hp
    cases o with
    | redisSet k tok ttl | redisRenew k tok ttl =>
      simp only [World.perform] at hp
      split at hp
      · obtain rfl := congrArg Prod.fst (Option.some.inj hp)
        first
        | exact h
        | exact h.callRedis k tok (by simp)
      · obtain rfl := congrArg Prod.fst (Option.some.inj hp)
        refine h.callRedis k tok fun t ht => ?_
        obtain rfl : ttl = t := by simpa using ht
        exact ho
    | redisUnlock k tok =>
      obtain rfl := congrArg Prod.fst (Option.some.inj hp)
      exact h.callRedis k tok (by simp)
    | _ =>
      have hframe := World.perform_frame hp
      intro k e hk
      rw [hframe.redis (by simp [Op.writes])] at hk
      rw [hframe.clock]
      exact h k e hk
  rcases exec_cases he with ⟨-, hp⟩ | ⟨m, -, rfl, -⟩ | ⟨m, v, -, -, hp, -⟩
  · exact hperform hp
  · exact h
  · exact hperform hp

end World

section Expiry

variable [Hashes]

/-- What the activities agree on about locks that are left behind. -/
def lockExpiry : Protocol application where
  Ghost := Unit
  Inv := fun w _ => w.Expiring
  Mono := fun _ _ _ _ => True
  Keep := fun _ _ _ _ _ => True
  CanRun := fun _ _ _ _ _ => True
  Assert := fun _ _ _ _ => True
  Fits := fun _ _ => True
  Born := fun _ _ _ _ => True
  Post := fun _ _ _ _ _ => True
  mono_refl := fun _ _ => trivial
  mono_trans := fun _ _ => trivial
  keep_refl := fun _ _ _ => trivial
  keep_trans := fun _ _ => trivial

namespace LockExpiry

variable {i : ℕ} {α : Type} {p : Async App α}

theorem only_triple (hp : p.Only Op.Brief) :
    lockExpiry.Triple i (fun _ _ => True) p fun _ _ _ => True := by
  refine fun _ _ _ hw => Protocol.wp_of_only (.const True) (fun o w g ho hI _ => ?_) hp hw
  exact ⟨trivial, fun _ _ _ _ _ he _ _ _ => ⟨g, World.Expiring.exec hI ho he, trivial,
    fun _ _ _ => trivial, trivial, fun _ _ _ => trivial, trivial⟩⟩

theorem routine (i : ℕ) : Routine lockExpiry i fun _ _ => True where
  stable := .const True
  ordinary := fun _ _ g ho hI _ => ⟨trivial, fun _ _ _ _ _ he _ _ _ => ⟨g,
    World.Expiring.exec hI ho.noRedis.brief he, trivial, fun _ _ _ => trivial, trivial,
    fun _ _ _ => trivial, trivial⟩⟩
  locked := fun ht hfn => only_triple (withLock_brief ht (hfn.mono fun _ ho => ho.noRedis.brief))
  lockTest := fun test => only_triple (lockTest_brief test)
  failure := fun saga s m => only_triple ((handleSagaFailure_noRedis saga s m).mono
    fun _ ho => ho.brief)

theorem sound {allowed : Pool application → Action application → Prop} :
    lockExpiry.Sound World.Expiring allowed where
  init := fun _ hw => ⟨(), hw, trivial⟩
  start := fun _ _ g _ hI _ => ⟨g, hI, trivial, fun _ _ => trivial, trivial, trivial⟩
  tick := fun _ d _ _ hI => ⟨fun k e hk => Nat.le_trans (hI k e hk)
    (Nat.add_le_add_right (Nat.le_add_right _ d) _), trivial, fun _ => trivial⟩
  canRun := fun _ _ _ _ _ _ _ _ _ _ => trivial
  body := fun i t w g _ hI => (routine i).job t w g hI trivial

end LockExpiry

open LockKeepers in
/-- **No lock outlasts the longest expiry**, whichever operations fail: when nobody has set one for
more than a minute, none is held. -/
theorem locks_expire {allowed : Pool application → Action application → Prop}
    {p : Pool application} (hp : Pool.Reachable World.Expiring allowed p) :
    World.Expiring p.world ∧ ∀ d : ℕ, 60000 < d → Free (app.elapse p.world d) := by
  obtain ⟨g, hH⟩ := LockExpiry.sound.reachable hp
  have hI : World.Expiring p.world := hH.inv
  refine ⟨hI, fun d hd k => Lease.Server.live_eq_none.mpr fun e he => ?_⟩
  have hle := hI k e he
  show e.deadline < World.clock p.world + d
  omega

end Expiry

/-! ### A saga is being created -/

namespace LockKeepers

open Samples

instance decidableAnswering (p : Pool application) : ∀ a, Decidable (Answering p a)
  | .start _ => isTrue trivial
  | .run i c =>
    inferInstanceAs (Decidable (∀ o ∈ p.awaits i, o.isRedis = true → c.fault = none))
  | .tick _ => isTrue trivial

/-- An order has been created. -/
def orderCreated : Job := .task (.deliver (.orderCreatedHandler
  ⟨"order-1", "user-1", 10, [⟨"product-1", "P", 1, 10⟩], "somewhere", some "key-1"⟩))

/-- Its saga is being created. -/
def creation : List (Action application) :=
  .start orderCreated :: List.replicate 4 (.run 0 { text := "token" })

theorem creation_played : (Pool.play Answering ⟨World.empty 0, []⟩ creation).isSome := by
  decide +kernel

/-- The lock is held. -/
def creating : Pool application :=
  (Pool.play Answering ⟨World.empty 0, []⟩ creation).get creation_played

theorem free_empty : Free (World.empty 0) := fun _ => rfl

theorem locks_at_work_creating : ∃ i, (i, "token") ∈ World.tokens creating.world ∧
    AtWork creating i :=
  locks_at_work (k := "lock:saga_creation:OrderProcessingSaga:key-1") (e := ⟨"token", 30000⟩)
    (Pool.reachable_of_play free_empty creation_played) (by decide +kernel) (by decide +kernel)

theorem locks_expire_creating :
    World.Expiring creating.world ∧ ∀ d : ℕ, 60000 < d → Free (app.elapse creating.world d) :=
  locks_expire
    (Pool.reachable_of_play (show World.Expiring (World.empty 0) from nofun) creation_played)

end LockKeepers

end CqrsSaga
