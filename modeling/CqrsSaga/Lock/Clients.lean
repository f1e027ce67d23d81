import CqrsSaga.App.Frame
import CqrsSaga.Lock.Service

/-!
# Clients of the lock service

Any number of clients acquire, renew and release locks, each with a token of its own,
while time passes.  The entries of the lock server are tied to what the clients may
believe by the invariant `Lease.Server.Ok`; what is added here is that the programs of
the lock service use no token but the one they have drawn, and run nothing under a
lock they have not set.

## Main definitions

* `LockClient`, `lockClients` — the clients, and the system of any number of them.
* `World.HeldBy` — a client holds the lock on a key.
* `lockProtocol` — what the clients agree on.

## Main results

* `lockClients_sound` — the clients keep to the protocol.
* `lock_exclusion` — **the lock is exclusive while its time has not run out.**
-/

namespace CqrsSaga

open RedisLockService Lease

/-- What a client does with a lock it has acquired. -/
inductive LockCall
  | renew (ttl : ℕ)
  | release
  /-- Anything that takes time. -/
  | wait (ms : ℕ)

/-- Make the calls one after the other, whatever they answer. -/
def useLock : List LockCall → AcquiredLock → Async App Unit
  | [], _ => return ()
  | .renew ttl :: calls, lock => do
    let renewed ← renewLock lock ttl
    useLock calls renewed.1
  | .release :: calls, lock => do
    let _ ← releaseLock lock
    useLock calls lock
  | .wait ms :: calls, lock => do
    sleep ms
    useLock calls lock

/-- A client of the lock service. -/
inductive LockClient
  /-- Acquire a lock and, if that succeeds, make some calls. -/
  | session (key : String) (options : LockOptions) (calls : List LockCall)
  /-- Run `fn` under a lock. -/
  | withLock (key : String) (options : LockOptions) (fn : Async App Unit)

namespace LockClient

/-- The key a client locks. -/
def key : LockClient → String
  | session key _ _ => key
  | withLock key _ _ => key

/-- The program of a client. -/
def run : LockClient → Async App Unit
  | session key options calls => do
    let lock ← acquireLock key options
    match lock with
    | none => return ()
    | some lock => useLock calls lock
  | withLock key options fn => RedisLockService.withLock key fn options

end LockClient

/-- Any number of clients. -/
abbrev lockClients : System app where
  Tag := LockClient
  Res := Unit
  body := LockClient.run
  spawned := fun _ => none

/-- An operation that draws no token and changes no entry. -/
def Op.SparesLocks (o : Op) : Prop := .redis ∉ o.writes ∧ .tokens ∉ o.writes

/-- The runs looked at: what is run under a lock takes, renews and releases none, tokens are
distinct, and no reply of Redis is lost.  Time passes at will. -/
def LockClients.Allowed (p : Pool lockClients) : Action lockClients → Prop
  | .start (.withLock _ _ fn) => fn.Only Op.SparesLocks
  | .start (.session _ _ _) => True
  | .run i c => (∀ m, c.fault ≠ some (.replyLost m)) ∧
      (p.awaits i = some .generateToken → ∀ t ∈ p.world.tokens, t.2 ≠ c.text)
  | .tick _ => True

/-- Before any client has called: whatever entries there are, nobody was granted one. -/
def LockClients.Fresh (w : World) : Prop := w.redis.log = [] ∧ w.tokens = []

/-- Client `i` holds the lock on `k`: it has set or renewed its entry, has not released it
since, and the time it was given has not run out. -/
def World.HeldBy (w : World) (k : String) (i : ℕ) : Prop :=
  ∃ tok, (i, tok) ∈ w.tokens ∧ w.redis.Holds w.clock k tok

/-! ### The protocol -/

namespace LockClients

/-- Client `i` is in a section on the lock `k`, under the token `tok`. -/
def InSection (w : World) (i : ℕ) (k tok : String) : Prop :=
  (i, tok) ∈ w.tokens ∧ inSection k tok w.redis.log = true

/-- What a client must ensure before an operation: it uses its own token, and does
whatever is not a call of the lock service in a section on its key. -/
def Asserts (i : ℕ) (o : Op) (w : World) (keys : List String) : Prop :=
  match o with
  | .redisSet _ tok _ => (i, tok) ∈ w.tokens
  | .redisUnlock _ tok => (i, tok) ∈ w.tokens
  | .redisRenew _ tok _ => (i, tok) ∈ w.tokens
  | o => o.isLockService = false →
      ∃ key tok, keys[i]? = some key ∧ InSection w i ("lock:" ++ key) tok

/-- What the clients agree on; the ghost state is the list of their keys. -/
def lockProtocol : Protocol lockClients where
  Ghost := List String
  Inv := fun w _ => w.redis.Ok w.clock ∧ w.tokens.Pairwise fun a b => a.2 ≠ b.2
  Mono := fun w keys w' keys' => (∀ t ∈ w.tokens, t ∈ w'.tokens) ∧ keys <+: keys'
  Keep := fun i w _ w' _ => ∀ k tok, InSection w i k tok → InSection w' i k tok
  CanRun := fun w _ _ o c => (∀ m, c.fault ≠ some (.replyLost m)) ∧
    (o = .generateToken → ∀ t ∈ w.tokens, t.2 ≠ c.text)
  Assert := Asserts
  Fits := fun keys l => keys = l.map LockClient.key
  Born := fun i t _ keys => keys[i]? = some t.key ∧
    ∀ key options fn, t = .withLock key options fn → fn.Only Op.SparesLocks
  Post := fun _ _ _ _ _ => True
  mono_refl := fun _ _ => ⟨fun _ h => h, List.prefix_rfl⟩
  mono_trans := fun h h' => ⟨fun t ht => h'.1 t (h.1 t ht), h.2.trans h'.2⟩
  keep_refl := fun _ _ _ _ _ h => h
  keep_trans := fun h h' k tok hs => h' k tok (h k tok hs)

variable {i : ℕ} {w w' : World} {keys keys' : List String}

/-- The client's key. -/
def HasKey (i : ℕ) (key : String) (_ : World) (keys : List String) : Prop := keys[i]? = some key

/-- The client's token. -/
def HasToken (i : ℕ) (tok : String) (w : World) (_ : List String) : Prop := (i, tok) ∈ w.tokens

theorem hasKey_lasting (key : String) : lockProtocol.Lasting (HasKey i key) := by
  intro w keys w' keys' hm _ hk
  obtain ⟨l, rfl⟩ := hm.2
  obtain ⟨hlt, -⟩ := List.getElem?_eq_some_iff.mp hk
  exact (List.getElem?_append_left hlt).trans hk

theorem hasToken_lasting (tok : String) : lockProtocol.Lasting (HasToken i tok) :=
  fun _ _ _ _ hm _ ht => hm.1 _ ht

theorem inSection_stable (k tok : String) :
    lockProtocol.Stable i fun w _ => InSection w i k tok :=
  fun _ _ _ _ _ hk _ h => hk k tok h

/-- Two clients never share a token. -/
theorem token_unique (hI : lockProtocol.Inv w keys) {i j : ℕ} {tok : String}
    (hi : (i, tok) ∈ w.tokens) (hj : (j, tok) ∈ w.tokens) : i = j := by
  by_contra hne
  have : Std.Symm fun a b : ℕ × String => a.2 ≠ b.2 := ⟨fun _ _ => Ne.symm⟩
  exact hI.2.forall hi hj (fun h => hne (congrArg Prod.fst h)) rfl

/-- A call of the lock server under the client's own token. -/
theorem settles_redis {l : List LockClient} {k tok : String} {c : Call}
    {Φ : World → List String → Prop} (hI : lockProtocol.Inv w keys)
    (hf : lockProtocol.Fits keys l) (ht : (i, tok) ∈ w.tokens)
    (hΦ : Φ (w.callRedis k tok c).1 keys) :
    lockProtocol.Settles i l w keys (w.callRedis k tok c).1 [] Φ := by
  refine Protocol.Settles.quiet rfl keys ⟨Server.serve_ok hI.1 k tok c, hI.2⟩
    ⟨fun _ h => h, List.prefix_rfl⟩ ?_ hf hΦ
  rintro j - hj k' tok' ⟨htok, hsec⟩
  refine ⟨htok, ?_⟩
  have hne : tok ≠ tok' := fun h => hj (token_unique hI htok (h ▸ ht))
  exact (Server.inSection_serve_of_ne w.redis w.clock c hne).trans hsec

/-- An operation that is no business of the lock service, or refused by Redis. -/
theorem unseen_of_frame (hr : w'.redis = w.redis) (ht : w'.tokens = w.tokens)
    (hc : w'.clock = w.clock) : lockProtocol.Unseen w w' := by
  intro keys hI
  refine ⟨⟨?_, ?_⟩, ⟨fun t h => ht ▸ h, List.prefix_rfl⟩, fun j k tok h => ?_⟩
  · rw [hr, hc]
    exact hI.1
  · rw [ht]
    exact hI.2
  · exact ⟨ht ▸ h.1, hr ▸ h.2⟩

/-! ### The operations -/

/-- An operation that is no call of the lock server. -/
theorem atomic_other {o : Op} {F : World → List String → Prop} (hA : Asserts i o w keys)
    (hr : .redis ∉ o.writes) (ht : .tokens ∉ o.writes) (hI : lockProtocol.Inv w keys)
    (hF : lockProtocol.Stable i F) (h : F w keys) :
    lockProtocol.atomic i o (fun _ => F) w keys := by
  refine ⟨hA, fun c w' r ts _ he l _ hf => ?_⟩
  have hframe := World.exec_frame he
  refine Protocol.Settles.unseen (by simp [lockClients]) hI
    (unseen_of_frame (hframe.redis hr) (hframe.tokens ht) hframe.clock) hf fun hI' hm hk => ?_
  exact hF hm (hk i) hI' h

/-- A call of the lock server. -/
theorem atomic_call (k tok : String) (c : Call) {o : Op}
    {Φ : Except Err (Op.Val o) → World → List String → Prop} (hA : Asserts i o w keys)
    (ht : (i, tok) ∈ w.tokens) (hI : lockProtocol.Inv w keys) (herr : ∀ e, Φ (.error e) w keys)
    (hp : ∀ ch w' r ts, w.perform i ch o = some (w', r, ts) →
      ts = [] ∧ (w' = w ∧ (∃ e, r = .error e) ∨
        w' = (w.callRedis k tok c).1 ∧ Φ r (w.callRedis k tok c).1 keys)) :
    lockProtocol.atomic i o Φ w keys := by
  refine ⟨hA, fun ch w' r ts hc he l _ hf => ?_⟩
  rcases World.exec_cases_of_reply he hc.1 with hperf | ⟨m, rfl, rfl, rfl, -⟩
  · obtain ⟨rfl, ⟨rfl, e, rfl⟩ | ⟨rfl, hΦ⟩⟩ := hp ch w' r ts hperf
    · exact Protocol.Settles.refl hI hf (herr e)
    · exact settles_redis hI hf ht hΦ
  · exact Protocol.Settles.refl hI hf (herr _)

variable {key k tok : String}

theorem generateToken_triple :
    lockProtocol.Triple i (fun _ _ => True) generateToken fun r w keys =>
      ∃ tok, r = .ok tok ∧ HasToken i tok w keys := by
  have hpost : ∀ r : Except Err String, lockProtocol.Stable i fun w keys =>
      ∃ tok, r = .ok tok ∧ HasToken i tok w keys := by
    rintro r w keys w' keys' hm - hI ⟨tok, rfl, ht⟩
    exact ⟨tok, rfl, hasToken_lasting tok hm hI ht⟩
  refine Protocol.Triple.perform (.const True) hpost fun w keys hI _ => ?_
  refine ⟨fun h => by simp [Op.isLockService] at h, fun c w' r ts hc he l _ hf => ?_⟩
  rcases World.exec_cases_of_reply he hc.1 with hperf | ⟨m, -, -, -, hl⟩
  · simp only [World.perform, Option.some.injEq, Prod.mk.injEq] at hperf
    obtain ⟨rfl, rfl, rfl⟩ := hperf
    refine Protocol.Settles.quiet rfl keys ⟨hI.1, ?_⟩
      ⟨fun t ht => List.mem_cons_of_mem _ ht, List.prefix_rfl⟩ ?_ hf ?_
    · exact List.pairwise_cons.mpr ⟨fun t ht => Ne.symm (hc.2 rfl t ht), hI.2⟩
    · exact fun j _ _ k tok hs => ⟨List.mem_cons_of_mem _ hs.1, hs.2⟩
    · exact ⟨c.text, rfl, List.mem_cons_self⟩
  · simp [Op.isLocal] at hl

/-- A call that stays in the process and is none of the lock server's returns. -/
theorem local_triple {F : World → List String → Prop} (hF : lockProtocol.Stable i F) {o : Op}
    (ho : o.isLocal = true) (hl : o.isLockService = true) (hr : .redis ∉ o.writes)
    (ht : .tokens ∉ o.writes) :
    lockProtocol.Triple i F (Async.perform (S := App) o) (Returns F) := by
  refine Protocol.Triple.perform hF (returns_stable hF) fun w keys hI h => ?_
  have hA : Asserts i o w keys := by
    unfold Asserts
    split <;> first
    | exact fun h => by simp [hl] at h
    | simp [Op.isLocal] at ho
  refine ⟨hA, fun c w' r ts _ he l _ hf => ?_⟩
  have hframe := World.exec_frame he
  refine Protocol.Settles.unseen (by simp [lockClients]) hI
    (unseen_of_frame (hframe.redis hr) (hframe.tokens ht) hframe.clock) hf fun hI' hm hk => ?_
  exact ⟨(World.exec_local he ho).2, hF hm (hk i) hI' h⟩

theorem sleep_triple {F : World → List String → Prop} (hF : lockProtocol.Stable i F) (ms : ℕ) :
    lockProtocol.Triple i F (sleep ms) (Returns F) :=
  local_triple hF rfl rfl (by simp [Op.writes]) (by simp [Op.writes])

theorem logger_triple {F : World → List String → Prop} (hF : lockProtocol.Stable i F)
    (line : LogLine) : lockProtocol.Triple i F (logger line) (Returns F) :=
  local_triple hF rfl rfl (by simp [Op.writes]) (by simp [Op.writes])

theorem set_triple (k tok : String) (ttl : ℕ) :
    lockProtocol.Triple i (HasToken i tok) (redis.set k tok ttl) fun r w keys =>
      HasToken i tok w keys ∧ (r = .ok true → InSection w i k tok) := by
  refine Protocol.Triple.perform (hasToken_lasting tok).stable
    (fun r => (hasToken_lasting tok).stable.and (.imp fun _ => inSection_stable k tok))
    fun w keys hI ht => ?_
  refine atomic_call k tok (.set ttl) ht ht hI
    (fun e => ⟨ht, fun h => by simp at h⟩) fun ch w' r ts hp => ?_
  simp only [World.perform] at hp
  split at hp
  · simp only [Option.some.injEq, Prod.mk.injEq] at hp
    obtain ⟨rfl, rfl, rfl⟩ := hp
    exact ⟨rfl, Or.inl ⟨rfl, _, rfl⟩⟩
  · simp only [Option.some.injEq, Prod.mk.injEq] at hp
    obtain ⟨rfl, rfl, rfl⟩ := hp
    refine ⟨rfl, Or.inr ⟨rfl, ht, fun hr => ⟨ht, ?_⟩⟩⟩
    exact Server.inSection_serve_set (Except.ok.inj hr)

theorem unlock_triple (k tok : String) :
    lockProtocol.Triple i (HasToken i tok) (redis.unlock k tok) fun _ => HasToken i tok := by
  refine Protocol.Triple.perform (hasToken_lasting tok).stable
    (fun _ => (hasToken_lasting tok).stable) fun w keys hI ht => ?_
  refine atomic_call k tok .unlock ht ht hI (fun _ => ht)
    fun ch w' r ts hp => ?_
  simp only [World.perform, Option.some.injEq, Prod.mk.injEq] at hp
  exact ⟨hp.2.2.symm, Or.inr ⟨hp.1.symm, ht⟩⟩

theorem renew_triple (k tok : String) (ttl : ℕ) :
    lockProtocol.Triple i (HasToken i tok) (redis.renew k tok ttl) fun _ => HasToken i tok := by
  refine Protocol.Triple.perform (hasToken_lasting tok).stable
    (fun _ => (hasToken_lasting tok).stable) fun w keys hI ht => ?_
  by_cases httl : ttl = 0
  · -- `PEXPIRE key 0` amounts to a release
    refine atomic_call k tok .unlock ht ht hI (fun _ => ht)
      fun ch w' r ts hp => ?_
    simp only [World.perform, httl, if_true, Option.some.injEq, Prod.mk.injEq] at hp
    exact ⟨hp.2.2.symm, Or.inr ⟨hp.1.symm, ht⟩⟩
  · refine atomic_call k tok (.renew ttl) ht ht hI (fun _ => ht)
      fun ch w' r ts hp => ?_
    simp only [World.perform, httl, if_false, Option.some.injEq, Prod.mk.injEq] at hp
    exact ⟨hp.2.2.symm, Or.inr ⟨hp.1.symm, ht⟩⟩

/-! ### The lock service -/

/-- A client that knows its key takes its lock. -/
theorem taking (key : String) (options : LockOptions) :
    Taking lockProtocol i ("lock:" ++ key) options (HasKey i key)
      (fun tok w keys => HasToken i tok w keys ∧ HasKey i key w keys)
      (fun tok w keys => InSection w i ("lock:" ++ key) tok ∧ HasKey i key w keys)
      fun _ _ => True := by
  have hfree : ∀ tok, lockProtocol.Lasting fun w keys =>
      HasToken i tok w keys ∧ HasKey i key w keys :=
    fun tok => (hasToken_lasting tok).and (hasKey_lasting key)
  refine ⟨fun tok => (hfree tok).stable, fun tok => (inSection_stable _ tok).and
    (hasKey_lasting key).stable, .const True, ?_, fun tok => ?_,
    fun tok => sleep_triple (hfree tok).stable _,
    fun tok => (logger_triple (hfree tok).stable _).post fun _ _ _ _ h => ⟨h.1, trivial⟩⟩
  · refine (generateToken_triple.frame (hasKey_lasting key)).conseq (fun _ _ _ h => ⟨trivial, h⟩) ?_
    rintro r w keys - ⟨⟨tok, rfl, ht⟩, hk⟩
    exact ⟨tok, rfl, ht, hk⟩
  · refine ((set_triple _ tok _).frame (hasKey_lasting key)).post ?_
    rintro r w keys - ⟨⟨ht, hs⟩, hk⟩
    by_cases hr : r = .ok true
    · exact Or.inl ⟨hr, hs hr, hk⟩
    · exact Or.inr ⟨hr, ht, hk⟩

/-- What a client knows of a lock it has tried to renew. -/
def Renewed (i : ℕ) (tok : String) (r : Except Err (AcquiredLock × Bool)) (w : World)
    (keys : List String) : Prop :=
  HasToken i tok w keys ∧ ∀ a, r = .ok a → a.1.token = tok

theorem renewed_stable (r : Except Err (AcquiredLock × Bool)) :
    lockProtocol.Stable i (Renewed i tok r) :=
  (hasToken_lasting tok).stable.and (.const _)

theorem renewLock_triple (lock : AcquiredLock) (ttl : ℕ) :
    lockProtocol.Triple i (HasToken i lock.token) (renewLock lock ttl) (Renewed i lock.token) := by
  have hret : ∀ (l : AcquiredLock) (b : Bool), l.token = lock.token →
      lockProtocol.Triple i (HasToken i lock.token) (.ret (l, b)) (Renewed i lock.token) := by
    intro l b hl
    refine .ret (hasToken_lasting _).stable fun _ _ _ h => ⟨h, fun a ha => ?_⟩
    have : (l, b) = a := Except.ok.inj ha
    rw [← this]
    exact hl
  refine .handle (Renewed i lock.token)
    (.bind _ (renew_triple lock.key lock.token ttl) (fun b => ?_) fun e => ?_)
    (fun e => (hret lock false rfl).pre fun _ _ _ h => h.1)
    fun a => .ret (renewed_stable _) fun _ _ _ h => h
  · cases b with
    | true => exact hret { lock with ttl } true rfl
    | false => exact hret lock false rfl
  · exact .throw (hasToken_lasting _).stable fun _ _ _ h => ⟨h, fun a ha => by simp at ha⟩

/-! ### The clients -/

theorem useLock_triple : ∀ (calls : List LockCall) (lock : AcquiredLock),
    lockProtocol.Triple i (HasToken i lock.token) (useLock calls lock) fun _ _ _ => True := by
  intro calls
  induction calls with
  | nil => exact fun lock => .ret (hasToken_lasting _).stable fun _ _ _ _ => trivial
  | cons call calls ih =>
    intro lock
    cases call with
    | renew ttl =>
      refine .bind _ (renewLock_triple lock ttl) (fun a => ?_) fun e => ?_
      · refine (ih a.1).pre fun w keys _ h => ?_
        rw [h.2 a rfl]
        exact h.1
      · exact .throw (renewed_stable _) fun _ _ _ _ => trivial
    | release =>
      refine .bind _ (releaseLock_triple lock (hasToken_lasting _).stable
        (unlock_triple lock.key lock.token)) (fun _ => (ih lock).pre fun _ _ _ h => h.2) fun e => ?_
      exact .throw (returns_stable (hasToken_lasting _).stable _) fun _ _ _ _ => trivial
    | wait ms =>
      have hst : lockProtocol.Stable i (HasToken i lock.token) :=
        (hasToken_lasting lock.token).stable
      refine .bind _ (sleep_triple hst ms) (fun _ => (ih lock).pre fun _ _ _ h => h.2) fun e => ?_
      exact .throw (returns_stable hst _) fun _ _ _ _ => trivial

/-- What is run under a lock is run in a section. -/
theorem section_triple {fn : Async App Unit} (hfn : fn.Only Op.SparesLocks) :
    lockProtocol.Triple i
      (fun w keys => HasKey i key w keys ∧ InSection w i ("lock:" ++ key) tok) fn
      fun _ w keys => HasKey i key w keys ∧ InSection w i ("lock:" ++ key) tok := by
  have hst : lockProtocol.Stable i fun w keys =>
      HasKey i key w keys ∧ InSection w i ("lock:" ++ key) tok :=
    (hasKey_lasting key).stable.and (inSection_stable _ tok)
  refine fun w keys hI h => Protocol.wp_of_only hst ?_ hfn h
  intro o w keys ho hI h
  have hA : Asserts i o w keys := by
    unfold Asserts
    split <;> first
    | exact fun _ => ⟨key, tok, h⟩
    | exact absurd (by simp [Op.writes]) ho.1
  exact atomic_other hA ho.1 ho.2 hI hst h

theorem client_triple (t : LockClient)
    (ht : ∀ key options fn, t = .withLock key options fn → fn.Only Op.SparesLocks) :
    lockProtocol.Triple i (HasKey i t.key) t.run fun _ _ _ => True := by
  cases t with
  | session key options calls =>
    have hst : ∀ r : Except Err (Option AcquiredLock), lockProtocol.Stable i fun w keys =>
        ∃ tok, Acquired ("lock:" ++ key) tok options.ttl
          (fun w keys => InSection w i ("lock:" ++ key) tok ∧ HasKey i key w keys)
          (fun _ _ => True) r w keys := by
      rintro r w keys w' keys' hm hk hI ⟨tok, h⟩
      exact ⟨tok, acquired_stable ((taking key options).held tok) (.const True) r hm hk hI h⟩
    refine .bind _ (acquireLock_triple (taking key options)) (fun lock => ?_)
      fun e => .throw (hst _) fun _ _ _ _ => trivial
    cases lock with
    | none => exact .ret (hst _) fun _ _ _ _ => trivial
    | some lock =>
      refine (useLock_triple calls lock).pre ?_
      rintro w keys - ⟨tok, ⟨hr, hs, -⟩ | ⟨hr, -⟩⟩
      · have hlock : lock = ⟨"lock:" ++ key, tok, options.ttl⟩ := by simpa using hr
        rw [hlock]
        exact hs.1
      · simp at hr
  | withLock key options fn =>
    refine withLock_triple (M := fun tok _ => HasToken i tok) (taking key options)
      (fun _ => .const True) (fun tok => ?_) (fun tok r => ?_) fun _ _ _ _ _ => trivial
    · exact (section_triple (ht key options fn rfl)).conseq (fun _ _ _ h => ⟨h.2, h.1⟩)
        fun _ _ _ _ h => h.2.1
    · exact (unlock_triple _ tok).post fun _ _ _ _ _ => trivial

/-- **The clients keep to the protocol.** -/
theorem lockClients_sound : lockProtocol.Sound Fresh Allowed where
  init := by
    rintro w ⟨hlog, htok⟩
    refine ⟨[], ⟨⟨?_, ?_, ?_⟩, ?_⟩, rfl⟩
    · intro k tok d h
      simp [hlog, grant] at h
    · intro k e _ tok
      simp [hlog, setRank]
    · intro k a b h
      simp [hlog, inSection] at h
    · rw [htok]
      exact List.Pairwise.nil
  start := by
    intro p (t : LockClient) (keys : List String) ha hI hf
    change keys = p.tags.map LockClient.key at hf
    refine ⟨keys ++ [t.key], hI, ⟨fun _ h => h, List.prefix_append _ _⟩, fun _ _ _ _ h => h,
      ?_, ?_, ?_⟩
    · change keys ++ [t.key] = (p.tags ++ [t]).map LockClient.key
      rw [hf, List.map_append, List.map_singleton]
    · have hlen : p.acts.length = keys.length := by simp [hf, Pool.tags]
      rw [hlen]
      exact List.getElem?_concat_length
    · rintro key options fn rfl
      exact ha
  tick := by
    intro p d keys _ hI
    exact ⟨⟨hI.1.later (Nat.le_add_right _ _), hI.2⟩, ⟨fun _ h => h, List.prefix_rfl⟩,
      fun _ _ _ h => h⟩
  canRun := by
    intro p i c t o k keys ha hi _
    refine ⟨ha.1, ?_⟩
    -- a token that is drawn is new
    rintro rfl
    exact ha.2 (by simp [Pool.awaits, hi, Async.awaited?])
  body := by
    rintro i t w keys ⟨hkey, hfn⟩ hI
    exact client_triple t hfn w keys hI hkey

/-! ### What the protocol says -/

section Reachable

variable {p : Pool lockClients}

theorem held_unique (hI : lockProtocol.Inv w keys) {k : String} {i j : ℕ} (hi : w.HeldBy k i)
    (hj : w.HeldBy k j) : i = j := by
  obtain ⟨a, hta, ha⟩ := hi
  obtain ⟨b, htb, hb⟩ := hj
  obtain rfl := hI.1.holder_unique ha hb
  exact token_unique hI hta htb

/-- A call under the token of somebody who does not hold the lock is refused. -/
theorem foreign_call (hI : lockProtocol.Inv w keys) {i j : ℕ} (hi : w.HeldBy k i) (hij : j ≠ i)
    (hj : (j, tok) ∈ w.tokens) (c : Call) :
    (w.callRedis k tok c).1.redis.entries = w.redis.entries ∧ (w.callRedis k tok c).2 = false := by
  obtain ⟨a, hta, ha⟩ := hi
  have hne : tok ≠ a := fun h => hij (token_unique hI hj (h ▸ hta))
  have hanswer := hI.1.foreign ha hne c
  exact ⟨congrArg Prod.fst hanswer, congrArg Prod.snd hanswer⟩

variable {p' : Pool lockClients} {i j : ℕ} {t : LockClient} {lock : AcquiredLock} {c : Choice}

/-- What becomes of a foreign release. -/
theorem foreign_release (hp : Pool.Reachable Fresh Allowed p) {f : Bool → Async App Unit}
    (hi : p.world.HeldBy lock.key i) (hij : j ≠ i)
    (hj : p.acts[j]? = some ⟨t, (releaseLock lock).bind f⟩) (ha : Allowed p (.run j c))
    (hn : p.next (.run j c) = some p') :
    p'.acts[j]? = some ⟨t, f false⟩ ∧ p'.world.redis.entries = p.world.redis.entries := by
  obtain ⟨keys, hH⟩ := lockClients_sound.reachable hp
  have htok : (j, lock.token) ∈ p.world.tokens := hH.assert hj
  obtain ⟨r, ts, he, hacts⟩ := Pool.next_run_at hj hn
  obtain ⟨hsame, hfalse⟩ := foreign_call hH.inv hi hij htok .unlock
  rcases World.exec_cases_of_reply he ha.1 with hperf | ⟨m, hw, rfl, -, -⟩
  · simp only [World.perform, hfalse, Option.some.injEq, Prod.mk.injEq] at hperf
    obtain ⟨hw, rfl, -⟩ := hperf
    exact ⟨hacts, by rw [← hw, hsame]⟩
  · exact ⟨hacts, by rw [hw]⟩

/-- What becomes of a foreign renewal. -/
theorem foreign_renewal (hp : Pool.Reachable Fresh Allowed p) {ttl : ℕ}
    {f : AcquiredLock × Bool → Async App Unit} (hi : p.world.HeldBy lock.key i) (hij : j ≠ i)
    (hj : p.acts[j]? = some ⟨t, (renewLock lock ttl).bind f⟩) (ha : Allowed p (.run j c))
    (hn : p.next (.run j c) = some p') :
    p'.acts[j]? = some ⟨t, f (lock, false)⟩ ∧
      p'.world.redis.entries = p.world.redis.entries := by
  obtain ⟨keys, hH⟩ := lockClients_sound.reachable hp
  have htok : (j, lock.token) ∈ p.world.tokens := hH.assert hj
  obtain ⟨r, ts, he, hacts⟩ := Pool.next_run_at hj hn
  rcases World.exec_cases_of_reply he ha.1 with hperf | ⟨m, hw, rfl, -, -⟩
  · by_cases httl : ttl = 0
    · obtain ⟨hsame, hfalse⟩ := foreign_call hH.inv hi hij htok .unlock
      simp only [World.perform, httl, if_true, hfalse, Option.some.injEq, Prod.mk.injEq] at hperf
      obtain ⟨hw, rfl, -⟩ := hperf
      exact ⟨hacts, by rw [← hw, hsame]⟩
    · obtain ⟨hsame, hfalse⟩ := foreign_call hH.inv hi hij htok (.renew ttl)
      simp only [World.perform, httl, if_false, hfalse, Option.some.injEq, Prod.mk.injEq] at hperf
      obtain ⟨hw, rfl, -⟩ := hperf
      exact ⟨hacts, by rw [← hw, hsame]⟩
  · exact ⟨hacts, by rw [hw]⟩

/-- Client `i` is about to perform an operation of what it runs under the lock on `key`, one that
the lock service does not perform itself. -/
def Running (p : Pool lockClients) (i : ℕ) (key : String) : Prop :=
  ∃ options fn o k, p.acts[i]? = some ⟨.withLock key options fn, .await o k⟩ ∧
    o.isLockService = false

/-- The time given to `tok` has run out. -/
def RanOut (w : World) (k tok : String) : Prop :=
  ∃ d, grant k tok w.redis.log = some d ∧ d < w.clock

/-- `a` has set its entry before `b`. -/
def Earlier (w : World) (k a b : String) : Prop :=
  setRank k a w.redis.log < setRank k b w.redis.log

theorem running_inSection (hp : Pool.Reachable Fresh Allowed p) {key : String}
    (h : Running p i key) : ∃ tok, InSection p.world i ("lock:" ++ key) tok := by
  obtain ⟨(keys : List String), hH⟩ := lockClients_sound.reachable hp
  obtain ⟨options, fn, o, k, hi, ho⟩ := h
  have hkey : keys[i]? = some key := by
    have hfits : keys = p.tags.map LockClient.key := hH.fits
    rw [hfits, Pool.tags, List.getElem?_map, List.getElem?_map, hi]
    rfl
  have hA : Asserts i o p.world keys := hH.assert hi
  unfold Asserts at hA
  split at hA <;> first
  | obtain ⟨key', tok, hkey', hs⟩ := hA ho
    rw [hkey, Option.some.injEq] at hkey'
    subst hkey'
    exact ⟨tok, hs⟩
  | simp [Op.isLockService] at ho

/-- Of two sections under one lock, the earlier one has outlived its time. -/
theorem overlap (hI : lockProtocol.Inv w keys) {k a b : String} {i j : ℕ} (hij : i ≠ j)
    (hi : InSection w i k a) (hj : InSection w j k b) :
    Earlier w k a b ∧ RanOut w k a ∨ Earlier w k b a ∧ RanOut w k b := by
  obtain ⟨hta, ha⟩ := hi
  obtain ⟨htb, hb⟩ := hj
  have hne : setRank k a w.redis.log ≠ setRank k b w.redis.log := by
    intro heq
    have hab := setRank_inj (setRank_pos ha) heq
    exact hij (token_unique hI hta (hab ▸ htb))
  obtain ⟨d, hd⟩ := grant_of_inSection ha
  obtain ⟨e, he⟩ := grant_of_inSection hb
  rcases Nat.lt_or_gt_of_ne hne with hlt | hlt
  · exact Or.inl ⟨hlt, d, hd, hI.1.overlap _ a b ha hb hlt d hd⟩
  · exact Or.inr ⟨hlt, e, he, hI.1.overlap _ b a hb ha hlt e he⟩

end Reachable

end LockClients

open LockClients

/-- **The lock is exclusive while its time has not run out.**  In every reachable state, at
most one client holds the lock on a key, and the entry carries its token; a release or a
renewal by another client answers `false` and changes no entry; and of two clients running
something under locks on one key, or of two that have set an entry under it and have not released
it, the one that began first has outlived the time it was given. -/
theorem lock_exclusion {p : Pool lockClients} (hp : Pool.Reachable Fresh Allowed p) :
    (∀ k i j, p.world.HeldBy k i → p.world.HeldBy k j → i = j) ∧
    (∀ k i, p.world.HeldBy k i → ∃ tok d, (i, tok) ∈ p.world.tokens ∧
      live p.world.redis.entries p.world.clock k = some ⟨tok, d⟩) ∧
    (∀ i j t lock f c p', p.world.HeldBy lock.key i → j ≠ i →
      p.acts[j]? = some ⟨t, (releaseLock lock).bind f⟩ → Allowed p (.run j c) →
        p.next (.run j c) = some p' →
          p'.acts[j]? = some ⟨t, f false⟩ ∧ p'.world.redis.entries = p.world.redis.entries) ∧
    (∀ i j t lock ttl f c p', p.world.HeldBy lock.key i → j ≠ i →
      p.acts[j]? = some ⟨t, (renewLock lock ttl).bind f⟩ → Allowed p (.run j c) →
        p.next (.run j c) = some p' →
          p'.acts[j]? = some ⟨t, f (lock, false)⟩ ∧
            p'.world.redis.entries = p.world.redis.entries) ∧
    (∀ i j key, i ≠ j → Running p i key → Running p j key →
      ∃ a b, (i, a) ∈ p.world.tokens ∧ (j, b) ∈ p.world.tokens ∧
        (Earlier p.world ("lock:" ++ key) a b ∧ RanOut p.world ("lock:" ++ key) a ∨
          Earlier p.world ("lock:" ++ key) b a ∧ RanOut p.world ("lock:" ++ key) b)) ∧
    ∀ i j k a b, i ≠ j → InSection p.world i k a → InSection p.world j k b →
      Earlier p.world k a b ∧ RanOut p.world k a ∨ Earlier p.world k b a ∧ RanOut p.world k b := by
  obtain ⟨keys, hH⟩ := lockClients_sound.reachable hp
  refine ⟨fun k i j => held_unique hH.inv, fun k i hi => ?_,
    fun i j t lock f c p' hi hij hj ha hn =>
    foreign_release hp hi hij hj ha hn, fun i j t lock ttl f c p' hi hij hj ha hn =>
    foreign_renewal hp hi hij hj ha hn, fun i j key hij hi hj => ?_,
    fun i j k a b hij ha hb => overlap hH.inv hij ha hb⟩
  · obtain ⟨tok, ht, hh⟩ := hi
    obtain ⟨d, hd⟩ := hH.inv.1.live_of_holds hh
    exact ⟨tok, d, ht, hd⟩
  · obtain ⟨a, ha⟩ := running_inSection hp hi
    obtain ⟨b, hb⟩ := running_inSection hp hj
    exact ⟨a, b, ha.1, hb.1, overlap hH.inv hij ha hb⟩

/-! ### A lock that is taken over -/

open Classical in
/-- What may be run under a lock is not decided, the rest is. -/
noncomputable instance LockClients.decidableAllowed (p : Pool lockClients) :
    ∀ a, Decidable (Allowed p a)
  | .start (.withLock _ _ _) => propDecidable _
  | .start (.session _ _ _) => isTrue trivial
  | .run _ c =>
    have : Decidable (∀ m, c.fault ≠ some (.replyLost m)) :=
      match c.fault with
      | some (.replyLost m) => isFalse fun hc => hc m rfl
      | some (.refused _) => isTrue fun _ hm => by cases hm
      | none => isTrue fun _ hm => by cases hm
    inferInstanceAs (Decidable (_ ∧ _))
  | .tick _ => isTrue trivial

/-- Client 0 acquires a lock for 10 ms and is late; client 1 takes it over. -/
def takeover : List (Action lockClients) :=
  [.start (.session "k" { ttl := 10, retryCount := 0 } [.release]),
    .run 0 { text := "a" }, .run 0 {}, .tick 20,
    .start (.session "k" { ttl := 100, retryCount := 0 } []),
    .run 1 { text := "b" }, .run 1 {}]

/-- The clients after the takeover. -/
noncomputable def takenOver : Pool lockClients :=
  (Pool.play Allowed ⟨World.empty 0, []⟩ takeover).get (by decide)

theorem takenOver_reachable : Pool.Reachable Fresh Allowed takenOver :=
  Pool.reachable_of_play ⟨rfl, rfl⟩ _

/-- Client 1 holds the lock, nobody else does, and the late release changes nothing. -/
theorem lock_exclusion_takenOver :
    takenOver.world.HeldBy "lock:k" 1 ∧ (∀ i, takenOver.world.HeldBy "lock:k" i → i = 1) ∧
      ∀ p', takenOver.next (.run 0 {}) = some p' →
        p'.acts[0]? = some ⟨.session "k" { ttl := 10, retryCount := 0 } [.release], .ret ()⟩ ∧
          p'.world.redis.entries = takenOver.world.redis.entries := by
  have hheld : takenOver.world.HeldBy "lock:k" 1 :=
    ⟨"b", by decide, 120, by decide, by decide⟩
  obtain ⟨hone, -, hrelease, -, -, -⟩ := lock_exclusion takenOver_reachable
  refine ⟨hheld, fun i hi => hone _ i 1 hi hheld, fun p' hn => ?_⟩
  exact hrelease 1 0 _ ⟨"lock:k", "a", 10⟩ (fun _ => .ret ()) {} p' hheld (by decide) rfl
    (by decide) hn

end CqrsSaga
