import CqrsSaga.Async.Protocol
import CqrsSaga.App.RedisLock
import CqrsSaga.App.Frame

/-!
# Rules for the lock service

What the programs of the lock service come to, given what a protocol says about the
calls of Redis they make.  The assertions are those of the protocol: `F` holds while
the client has no lock, `G` while it has one.

## Main results

* `attempts_triple`, `acquireLock_triple`, `releaseLock_triple` — the parts.
* `withLock_triple`, `withLock_certain`, `withLock_answers` — **a section under a lock**, and one
  under a lock nobody else tries for.
-/

namespace CqrsSaga

/-- The operations the lock service is made of. -/
def Op.isLockService : Op → Bool
  | .generateToken => true
  | .redisSet _ _ _ => true
  | .redisUnlock _ _ => true
  | .redisRenew _ _ _ => true
  | .redisExists _ => true
  | .sleep _ => true
  | .log _ => true
  | _ => false

/-! ### Locks nobody tries for -/

/-- Nothing is stored under the key of a lock. -/
def World.Unlocked (w : World) (key : String) : Prop := w.redis.entries.lookup key = none

/-- Only an attempt to take a lock puts anything under its key. -/
theorem World.Unlocked.exec {w w' : World} {key : String} {i : ℕ} {o : Op} {c : Choice}
    {r : Except Err (Op.Val o)} {ts : List Task} (h : w.Unlocked key)
    (he : w.exec i o c = some (w', r, ts)) (ho : ∀ tok ttl, o ≠ .redisSet key tok ttl) :
    w'.Unlocked key := by
  have hperform : ∀ {v ts'}, w.perform i c o = some (w', v, ts') → w'.Unlocked key := by
    intro v ts' hp
    have hcall : ∀ {k tok call}, (k = key → ∀ ttl, call ≠ .set ttl) →
        (w.callRedis k tok call).1.Unlocked key := by
      intro k tok call hk
      exact Lease.answer_lookup w.clock tok h hk
    -- of the calls to Redis only SET puts something where nothing is
    cases o with
    | redisSet k tok ttl =>
      simp only [World.perform] at hp
      split at hp <;> simp only [Option.some.injEq, Prod.mk.injEq] at hp <;> rw [← hp.1]
      · exact h
      · refine hcall fun hk => ?_
        subst hk
        exact absurd rfl (ho tok ttl)
    | redisUnlock k tok =>
      simp only [World.perform, Option.some.injEq, Prod.mk.injEq] at hp
      rw [← hp.1]
      exact hcall fun _ _ => by simp
    | redisRenew k tok ttl =>
      simp only [World.perform] at hp
      split at hp <;> simp only [Option.some.injEq, Prod.mk.injEq] at hp <;> rw [← hp.1] <;>
        exact hcall fun _ _ => by simp
    | _ =>
      have hredis := (World.perform_frame hp).redis (by simp [Op.writes])
      unfold World.Unlocked
      rw [hredis]
      exact h
  rcases World.exec_cases he with ⟨-, hp⟩ | ⟨m, -, rfl, -⟩ | ⟨m, v, -, -, hp, -⟩
  · exact hperform hp
  · exact h
  · exact hperform hp

/-- A lock that is free is taken. -/
theorem World.Unlocked.set {w : World} {key : String} (h : w.Unlocked key) (tok : String)
    (ttl : ℕ) : (w.callRedis key tok (.set ttl)).2 = true := by
  have hlive : Lease.live w.redis.entries w.clock key = none := by
    unfold World.Unlocked at h
    simp [Lease.live, h]
  simp [World.callRedis, Lease.answer, hlive]

namespace RedisLockService

variable {sys : System app} {P : Protocol sys} {i : ℕ} {k tok : String}
  {F G N : World → P.Ghost → Prop}

/-- What an attempt to set an entry leads to. -/
def Attempted (F G : World → P.Ghost → Prop) (r : Except Err Bool) (w : World) (g : P.Ghost) :
    Prop :=
  r = .ok true ∧ G w g ∨ r ≠ .ok true ∧ F w g

theorem attempted_error {w : World} {g : P.Ghost} (h : F w g) (e : Err) :
    Attempted F G (.error e) w g := Or.inr ⟨by simp, h⟩

theorem attempted_false {w : World} {g : P.Ghost} (h : F w g) : Attempted F G (.ok false) w g :=
  Or.inr ⟨by simp, h⟩

theorem attempted_stable (hF : P.Stable i F) (hG : P.Stable i G) (r : Except Err Bool) :
    P.Stable i (Attempted F G r) := by
  rintro w g w' g' hm hk hI (⟨hr, h⟩ | ⟨hr, h⟩)
  · exact Or.inl ⟨hr, hG hm hk hI h⟩
  · exact Or.inr ⟨hr, hF hm hk hI h⟩

/-- What an attempt of `acquireLock` leads to; it never throws. -/
def Tried (F G : World → P.Ghost → Prop) (r : Except Err Bool) (w : World) (g : P.Ghost) : Prop :=
  r = .ok true ∧ G w g ∨ r = .ok false ∧ F w g

theorem tried_stable (hF : P.Stable i F) (hG : P.Stable i G) (r : Except Err Bool) :
    P.Stable i (Tried F G r) := by
  rintro w g w' g' hm hk hI (⟨hr, h⟩ | ⟨hr, h⟩)
  · exact Or.inl ⟨hr, hG hm hk hI h⟩
  · exact Or.inr ⟨hr, hF hm hk hI h⟩

/-- A program that returns, and keeps an assertion. -/
def Returns {α : Type} (F : World → P.Ghost → Prop) (r : Except Err α) (w : World) (g : P.Ghost) :
    Prop := (∃ v, r = .ok v) ∧ F w g

theorem returns_stable {α : Type} (hF : P.Stable i F) (r : Except Err α) :
    P.Stable i (Returns F r) := (Protocol.Stable.const _).and hF

theorem attempt_triple {ttl : ℕ} {backOff : Async App Unit} (hF : P.Stable i F) (hG : P.Stable i G)
    (hset : P.Triple i F (redis.set k tok ttl) (Attempted F G))
    (hb : P.Triple i F backOff (Returns F)) :
    P.Triple i F (attempt k tok ttl backOff) (Tried F G) := by
  have hst := attempted_stable hF hG
  have hfail : P.Triple i F (backOff.bind fun _ => .ret false) (Tried F G) := by
    refine .bind (Returns F) hb (fun _ => ?_) fun _ => ?_
    · exact .ret (returns_stable hF _) fun _ _ _ h => Or.inr ⟨rfl, h.2⟩
    · exact .assuming (A := False) (fun _ _ _ h => by simpa using h.1) False.elim
  -- what the `try` block has come to is what the set has
  refine .handle (fun r w g => Tried F G r w g ∨ (∃ e, r = .error e) ∧ F w g) ?_ (fun e => ?_)
    fun a => ?_
  · refine .bind (Attempted F G) hset (fun b => ?_) fun e => .throw (hst _) ?_
    · cases b with
      | true =>
        refine .ret (hst _) ?_
        rintro w g - (h | ⟨hr, -⟩)
        · exact Or.inl (Or.inl h)
        · exact absurd rfl hr
      | false =>
        refine (hfail.pre ?_).post fun _ _ _ _ h => Or.inl h
        rintro w g - (⟨hr, -⟩ | ⟨-, h⟩)
        · simp at hr
        · exact h
    · rintro w g - (⟨hr, -⟩ | ⟨-, h⟩)
      · simp at hr
      · exact Or.inr ⟨⟨e, rfl⟩, h⟩
  · refine hfail.pre ?_
    rintro w g - ((⟨hr, -⟩ | ⟨hr, -⟩) | ⟨-, h⟩)
    · simp at hr
    · simp at hr
    · exact h
  · refine Protocol.Triple.pre (F := Tried F G (.ok a)) ?_ (.ret (tried_stable hF hG _) ?_)
    · rintro w g - (h | ⟨⟨e, he⟩, -⟩)
      · exact h
      · simp at he
    · exact fun _ _ _ h => h

/-- What a client knows after trying to acquire a lock: it has the lock and `G` holds, or it
has given up and `N` holds. -/
def Acquired (k tok : String) (ttl : ℕ) (G N : World → P.Ghost → Prop)
    (r : Except Err (Option AcquiredLock)) (w : World) (g : P.Ghost) : Prop :=
  r = .ok (some ⟨k, tok, ttl⟩) ∧ G w g ∨ r = .ok none ∧ N w g

theorem acquired_stable {ttl : ℕ} (hG : P.Stable i G) (hN : P.Stable i N)
    (r : Except Err (Option AcquiredLock)) : P.Stable i (Acquired k tok ttl G N r) := by
  rintro w g w' g' hm hk hI (⟨hr, h⟩ | ⟨hr, h⟩)
  · exact Or.inl ⟨hr, hG hm hk hI h⟩
  · exact Or.inr ⟨hr, hN hm hk hI h⟩

theorem attempts_triple {ttl retryDelay : ℕ} (hF : P.Stable i F) (hG : P.Stable i G)
    (hN : P.Stable i N) (hset : P.Triple i F (redis.set k tok ttl) (Attempted F G))
    (hsleep : P.Triple i F (sleep retryDelay) (Returns F))
    (hlog : P.Triple i F (logger (.lockNotAcquired k)) (Returns N)) :
    ∀ n, P.Triple i F (attempts k tok ttl retryDelay n) (Acquired k tok ttl G N) := by
  have hdone : P.Triple i (Tried F G (.ok true)) (.ret (some ⟨k, tok, ttl⟩))
      (Acquired k tok ttl G N) := by
    refine .ret (tried_stable hF hG _) ?_
    rintro w g - (⟨-, h⟩ | ⟨hr, -⟩)
    · exact Or.inl ⟨rfl, h⟩
    · simp at hr
  have herr : ∀ e, P.Triple i (Tried F G (.error e)) (.throw e) (Acquired k tok ttl G N) := by
    refine fun e => .assuming (A := False) ?_ False.elim
    rintro w g - (⟨hr, -⟩ | ⟨hr, -⟩)
    · simp at hr
    · simp at hr
  have hfree : ∀ w g, Tried F G (.ok false) w g → F w g := by
    rintro w g (⟨hr, -⟩ | ⟨-, h⟩)
    · simp at hr
    · exact h
  -- every attempt but the last goes on to the next; the last one logs and gives up
  intro n
  induction n with
  | zero =>
    have hskip : P.Triple i F (.ret ()) (Returns F) := .ret hF fun _ _ _ h => ⟨⟨(), rfl⟩, h⟩
    refine .bind (Tried F G) (attempt_triple hF hG hset hskip) (fun b => ?_) herr
    cases b with
    | true => exact hdone
    | false =>
      refine .bind (Returns N) (hlog.pre fun _ _ _ h => hfree _ _ h) (fun _ => ?_) fun e => ?_
      · exact .ret (returns_stable hN _) fun _ _ _ h => Or.inr ⟨rfl, h.2⟩
      · exact .assuming (A := False) (fun _ _ _ h => by simpa using h.1) False.elim
  | succ n ih =>
    refine .bind (Tried F G) (attempt_triple hF hG hset hsleep) (fun b => ?_) herr
    cases b with
    | true => exact hdone
    | false => exact ih.pre fun _ _ _ h => hfree _ _ h

/-- What a protocol has to say about the calls by which a client takes the lock `k`: `E` holds
before, `F tok` once it has drawn the token `tok`, `G tok` while it has the lock under it, and
`N` after it has given up. -/
structure Taking (P : Protocol sys) (i : ℕ) (k : String) (options : LockOptions)
    (E : World → P.Ghost → Prop) (F G : String → World → P.Ghost → Prop)
    (N : World → P.Ghost → Prop) : Prop where
  free : ∀ tok, P.Stable i (F tok)
  held : ∀ tok, P.Stable i (G tok)
  gaveUp : P.Stable i N
  token : P.Triple i E generateToken fun r w g => ∃ tok, r = .ok tok ∧ F tok w g
  set : ∀ tok, P.Triple i (F tok) (redis.set k tok options.ttl) (Attempted (F tok) (G tok))
  sleep : ∀ tok, P.Triple i (F tok) (CqrsSaga.sleep options.retryDelay) (Returns (F tok))
  log : ∀ tok, P.Triple i (F tok) (logger (.lockNotAcquired k)) (Returns N)

variable {key : String} {options : LockOptions} {E : World → P.Ghost → Prop}
  {Ft Gt : String → World → P.Ghost → Prop}

theorem acquireLock_triple (h : Taking P i ("lock:" ++ key) options E Ft Gt N) :
    P.Triple i E (acquireLock key options) fun r w g =>
      ∃ tok, Acquired ("lock:" ++ key) tok options.ttl (Gt tok) N r w g := by
  refine .bind _ h.token (fun tok => ?_) fun e => ?_
  · refine .conseq (F := Ft tok) ?_ (fun r w g _ hr => ⟨tok, hr⟩)
      (attempts_triple (h.free tok) (h.held tok) h.gaveUp (h.set tok) (h.sleep tok) (h.log tok)
        options.retryCount)
    rintro w g - ⟨tok', htok, hf⟩
    rw [Except.ok.inj htok]
    exact hf
  · exact .assuming (A := False) (fun w g _ ⟨tok, htok, _⟩ => by simp at htok) False.elim

/-- A release never throws. -/
theorem releaseLock_triple (lock : AcquiredLock) {M Q : World → P.Ghost → Prop}
    (hQ : P.Stable i Q) (h : P.Triple i M (redis.unlock lock.key lock.token) fun _ => Q) :
    P.Triple i M (releaseLock lock) (Returns Q) :=
  .handle (fun _ => Q) h (fun _ => .ret hQ fun _ _ _ h => ⟨⟨false, rfl⟩, h⟩)
    fun b => .ret hQ fun _ _ _ h => ⟨⟨b, rfl⟩, h⟩

/-- **A section under a lock**: with the lock, `fn` leads from `G` to `M`, and from there the
release leads to `Q`; without it, an error is thrown. -/
theorem withLock_triple {α : Type} {fn : Async App α} {M : String → P.Assn α} {Q : P.Assn α}
    (h : Taking P i ("lock:" ++ key) options E Ft Gt N) (hQ : ∀ r, P.Stable i (Q r))
    (hfn : ∀ tok, P.Triple i (Gt tok) fn (M tok))
    (hunlock : ∀ tok r, P.Triple i (M tok r) (redis.unlock ("lock:" ++ key) tok) fun _ => Q r)
    (hN : ∀ e w g, P.Inv w g → N w g → Q (.error e) w g) :
    P.Triple i E (withLock key fn options) Q := by
  refine .bind _ (acquireLock_triple h) (fun lock => ?_) fun e => ?_
  · cases lock with
    | none =>
      refine Protocol.Triple.pre (F := N) ?_ (.throw h.gaveUp fun w g hI hn => hN _ w g hI hn)
      rintro w g - ⟨tok, ⟨hr, -⟩ | ⟨-, hn⟩⟩
      · simp at hr
      · exact hn
    | some lock =>
      have hsplit : ∀ w g, (∃ tok, Acquired ("lock:" ++ key) tok options.ttl (Gt tok) N
          (.ok (some lock)) w g) → lock.key = "lock:" ++ key ∧ Gt lock.token w g := by
        rintro w g ⟨tok, ⟨hr, hg⟩ | ⟨hr, -⟩⟩
        · have hlock : lock = ⟨"lock:" ++ key, tok, options.ttl⟩ := by simpa using hr
          subst hlock
          exact ⟨rfl, hg⟩
        · simp at hr
      refine .assuming (fun w g _ hw => (hsplit w g hw).1) fun hkey => ?_
      refine .pre (fun w g _ hw => (hsplit w g hw).2) (.andFinally _ (hfn lock.token) fun r => ?_)
      have hrel := releaseLock_triple lock (hQ r) (hkey ▸ hunlock lock.token r)
      refine hrel.post ?_
      rintro r' w g hI ⟨⟨b, rfl⟩, hq⟩
      exact (hQ r).later hq
  · -- acquiring a lock never throws
    refine .assuming (A := False) ?_ False.elim
    rintro w g - ⟨tok, ⟨hr, -⟩ | ⟨hr, -⟩⟩
    · simp at hr
    · simp at hr

/-- **A section under a lock nobody else tries for**: the first attempt takes it. -/
theorem withLock_certain {α : Type} {fn : Async App α} {M : P.Assn α} {Q : P.Assn α}
    (hG : P.Stable i G) (hQ : ∀ r, P.Stable i (Q r))
    (htoken : P.Triple i E generateToken (Returns F))
    (hset : ∀ tok, P.Triple i F (redis.set ("lock:" ++ key) tok options.ttl) fun r w g =>
      r = .ok true ∧ G w g)
    (hfn : P.Triple i G fn M)
    (hunlock : ∀ tok r, P.Triple i (M r) (redis.unlock ("lock:" ++ key) tok) fun _ => Q r) :
    P.Triple i E (withLock key fn options) Q := by
  have hnever : ∀ {β : Type} {p : Async App β} {A : World → P.Ghost → Prop} {q : P.Assn β},
      (∀ w g, A w g → False) → P.Triple i A p q :=
    fun h => .assuming (A := False) (fun w g _ ha => h w g ha) False.elim
  have hst : ∀ v : Bool, P.Stable i fun w g => (Except.ok v : Except Err Bool) = .ok true ∧ G w g :=
    fun v => (Protocol.Stable.const _).and hG
  -- the first attempt takes the lock, so there is neither a back-off nor an error
  have hattempt : ∀ tok backOff, P.Triple i F (attempt ("lock:" ++ key) tok options.ttl backOff)
      fun r w g => r = .ok true ∧ G w g := by
    intro tok backOff
    refine .handle (fun r w g => r = .ok true ∧ G w g) (.bind _ (hset tok) (fun b => ?_)
      fun e => ?_) (fun e => hnever fun w g hw => by simp at hw)
        fun b => .ret (hst b) fun w g _ hw => hw
    · cases b with
      | true => exact .ret (hst true) fun w g _ hw => hw
      | false => exact hnever fun w g hw => by simp at hw
    · exact hnever fun w g hw => by simp at hw
  have hattempts : ∀ tok n, P.Triple i F
      (attempts ("lock:" ++ key) tok options.ttl options.retryDelay n) fun r w g =>
        r = .ok (some ⟨"lock:" ++ key, tok, options.ttl⟩) ∧ G w g := by
    intro tok n
    cases n with
    | zero | succ n =>
      refine .bind _ (hattempt tok _) (fun b => ?_) fun e => hnever fun w g hw => by simp at hw
      cases b with
      | true => exact .ret (hst true) fun w g _ hw => ⟨rfl, hw.2⟩
      | false => exact hnever fun w g hw => by simp at hw
  refine .bind (fun r w g => ∃ tok, r = .ok (some ⟨"lock:" ++ key, tok, options.ttl⟩) ∧ G w g)
    (.bind _ htoken (fun tok => ?_) fun e => hnever fun w g hw => ?_) (fun lock => ?_)
      fun e => hnever fun w g hw => ?_
  · exact .conseq (fun w g _ hw => hw.2) (fun r w g _ hw => ⟨tok, hw⟩) (hattempts tok _)
  · obtain ⟨⟨v, hv⟩, -⟩ := hw
    simp at hv
  · cases lock with
    | none => exact hnever fun w g ⟨tok, hr, _⟩ => by simp at hr
    | some lock =>
      refine .assuming (A := ∃ tok, lock = ⟨"lock:" ++ key, tok, options.ttl⟩)
        (fun w g _ ⟨tok, hr, _⟩ => ⟨tok, by simpa using hr⟩) ?_
      rintro ⟨tok, rfl⟩
      refine .pre (fun w g _ ⟨_, _, hg⟩ => hg) (.andFinally _ hfn fun r => ?_)
      refine (releaseLock_triple _ (hQ r) (hunlock tok r)).post ?_
      rintro r' w g hI ⟨⟨b, rfl⟩, hq⟩
      exact (hQ r).later hq
  · obtain ⟨tok, hr, -⟩ := hw
    simp at hr

/-- The same where nothing fails: the section returns, and so does the whole. -/
theorem withLock_answers {α : Type} {fn : Async App α} {M Q : α → World → P.Ghost → Prop}
    (hG : P.Stable i G) (hQ : ∀ a, P.Stable i (Q a))
    (htoken : P.Triple i E generateToken (Protocol.Answers fun _ => F))
    (hset : ∀ tok, P.Triple i F (redis.set ("lock:" ++ key) tok options.ttl) fun r w g =>
      r = .ok true ∧ G w g)
    (hfn : P.Triple i G fn (Protocol.Answers M))
    (hunlock : ∀ tok a, P.Triple i (M a) (redis.unlock ("lock:" ++ key) tok)
      (Protocol.Answers fun _ => Q a)) :
    P.Triple i E (withLock key fn options) (Protocol.Answers Q) := by
  refine withLock_certain hG (fun r => Protocol.answers_stable hQ r) (htoken.post ?_) hset hfn
    fun tok r => ?_
  · rintro r w g - ⟨v, rfl, h⟩
    exact ⟨⟨v, rfl⟩, h⟩
  · cases r with
    | error e =>
      refine .never ?_
      rintro w g ⟨v, hv, -⟩
      cases hv
    | ok a =>
      refine .conseq ?_ ?_ (hunlock tok a)
      · rintro w g - ⟨_, ha, h⟩
        exact Except.ok.inj ha ▸ h
      · rintro _ w g - ⟨_, -, h⟩
        exact ⟨a, rfl, h⟩

/-- **A section under a lock**, for those to whom locks do not matter. -/
theorem withLock_keeps {α : Type} {fn : Async App α} (hF : P.Stable i F)
    (hop : ∀ o : Op, o.isLockService = true → (∀ s y, o ≠ .log (.commandExecuted s y)) →
      P.Triple i F (call o) fun _ => F)
    (hfn : P.Triple i F fn fun _ => F) : P.Triple i F (withLock key fn options) fun _ => F := by
  have hattempt : ∀ {k tok : String} {ttl : ℕ} {backOff : Async App Unit},
      P.Triple i F backOff (fun _ => F) → P.Triple i F (attempt k tok ttl backOff) fun _ => F := by
    intro k tok ttl backOff hb
    have hfail : P.Triple i F (backOff.bind fun _ => .ret false) fun _ => F :=
      .seq hF hb fun _ => .skip hF
    refine .rescue hF (.seq hF (hop _ rfl (by simp)) fun b => ?_) fun _ => hfail
    cases b with
    | true => exact .skip hF
    | false => exact hfail
  -- by induction on the attempts that are left
  have hattempts : ∀ {k tok : String} {ttl delay : ℕ} (n : ℕ),
      P.Triple i F (attempts k tok ttl delay n) fun _ => F := by
    intro k tok ttl delay n
    induction n with
    | zero =>
      refine .seq hF (hattempt (.skip hF)) fun b => ?_
      cases b with
      | true => exact .skip hF
      | false => exact .seq hF (hop _ rfl (by simp)) fun _ => .skip hF
    | succ n ih =>
      refine .seq hF (hattempt (hop _ rfl (by simp))) fun b => ?_
      cases b with
      | true => exact .skip hF
      | false => exact ih
  refine .seq hF (.seq hF (hop _ rfl (by simp)) fun _ => hattempts _) fun lock => ?_
  cases lock with
  | none => exact .fail hF
  | some lock => exact .ensure hF hfn (.rescue hF (hop _ rfl (by simp)) fun _ => .skip hF)

end RedisLockService

end CqrsSaga
