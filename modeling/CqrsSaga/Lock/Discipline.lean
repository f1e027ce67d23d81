import CqrsSaga.App.Frame
import CqrsSaga.Lock.Service

/-!
# Locks within a protocol

As long as time does not pass the deadline of an entry, a lock is what it is meant to be:
whoever has set its entry has it until he releases it.  A protocol keeps track of that in
its ghost state, by a map from keys to holders.  What it has to provide for the rules of
the lock service is collected in `Locking`; tokens need not be distinct, since nobody
releases a lock he has not acquired.

## Main definitions

* `Holders`, `World.Backs` — who holds which lock, and that the entries agree.
* `Locking` — a protocol whose ghost state knows the holders.
* `Locking.Blind` — an assertion locks do not matter to.

## Main results

* `World.Backs.set`, `World.Backs.unlock` — what calls of the lock server do to holders.
* `Locking.taking` — the locks of such a protocol can be taken.
* `Locking.withLock_triple` — **a section under a lock.**
-/

namespace CqrsSaga

open Lease

/-- Who holds which lock, under which token. -/
abbrev Holders := String → Option (ℕ × String)

/-- Every lock that is held is backed by an entry carrying the holder's token. -/
def World.Backs (w : World) (h : Holders) : Prop :=
  ∀ k i tok, h k = some (i, tok) → ∃ d, live w.redis.entries w.clock k = some ⟨tok, d⟩

/-- No entry's deadline is passed when time advances by `d`. -/
def World.Outlasts (w : World) (d : ℕ) : Prop :=
  ∀ s ∈ w.redis.entries.entries, w.clock + d ≤ s.2.deadline

instance (w : World) (d : ℕ) : Decidable (w.Outlasts d) :=
  inferInstanceAs (Decidable (∀ s ∈ w.redis.entries.entries, _))

namespace World

variable {w w' : World} {h : Holders} {k tok : String} {i ttl : ℕ}

theorem Backs.of_same (hb : w.Backs h) (hr : w'.redis = w.redis) (hc : w'.clock = w.clock) :
    w'.Backs h := by
  intro k i tok hk
  rw [hr, hc]
  exact hb k i tok hk

/-- Nothing is said about a lock nobody holds. -/
theorem Backs.drop (hb : w.Backs h) (k : String) : w.Backs (Function.update h k none) := by
  intro k' i tok hk
  by_cases hkk : k' = k
  · subst hkk
    simp at hk
  · rw [Function.update_of_ne hkk] at hk
    exact hb k' i tok hk

theorem Backs.later (hb : w.Backs h) {d : ℕ} (hd : w.Outlasts d) :
    { w with clock := w.clock + d }.Backs h := by
  intro k i tok hk
  obtain ⟨e, he⟩ := hb k i tok hk
  obtain ⟨hl, -⟩ := Server.live_eq_some.mp he
  refine ⟨e, Server.live_eq_some.mpr ⟨hl, ?_⟩⟩
  exact hd ⟨k, ⟨tok, e⟩⟩ (AList.mem_lookup_iff.mp hl)

/-- An entry is set only where nobody holds the lock. -/
theorem Backs.free_of_set (hb : w.Backs h) (hs : (w.callRedis k tok (.set ttl)).2 = true) :
    h k = none := by
  cases hk : h k with
  | none => rfl
  | some x =>
    obtain ⟨d, hd⟩ := hb k x.1 x.2 hk
    simp [callRedis, answer, hd] at hs

/-- A set that is refused changes no entry. -/
theorem Backs.set_refused (hb : w.Backs h) (hs : (w.callRedis k tok (.set ttl)).2 = false) :
    (w.callRedis k tok (.set ttl)).1.Backs h := by
  have hsame : (w.callRedis k tok (.set ttl)).1.redis.entries = w.redis.entries := by
    simp only [callRedis, Server.serve_done, answer] at hs
    simp only [callRedis, Server.serve_entries, answer]
    split at hs
    · simp at hs
    · next hne => rw [if_neg hne]
  intro k' j tok' hk
  rw [hsame]
  exact hb k' j tok' hk

/-- Whoever sets the entry has the lock. -/
theorem Backs.set (hb : w.Backs h) (hs : (w.callRedis k tok (.set ttl)).2 = true) :
    (w.callRedis k tok (.set ttl)).1.Backs (Function.update h k (some (i, tok))) := by
  have hfree : live w.redis.entries w.clock k = none := by
    simp only [callRedis, Server.serve_done, answer] at hs
    split at hs
    · assumption
    · simp at hs
  have hentries : (w.callRedis k tok (.set ttl)).1.redis.entries =
      w.redis.entries.insert k ⟨tok, w.clock + ttl⟩ := by
    simp [callRedis, answer, hfree]
  intro k' j tok' hk
  by_cases hkk : k' = k
  · subst hkk
    rw [Function.update_self, Option.some.injEq, Prod.mk.injEq] at hk
    refine ⟨w.clock + ttl, Server.live_eq_some.mpr ⟨?_, Nat.le_add_right _ _⟩⟩
    rw [hentries, AList.lookup_insert, hk.2]
  · rw [Function.update_of_ne hkk] at hk
    obtain ⟨d, hd⟩ := hb k' j tok' hk
    obtain ⟨hl, hle⟩ := Server.live_eq_some.mp hd
    refine ⟨d, Server.live_eq_some.mpr ⟨?_, hle⟩⟩
    rw [hentries, AList.lookup_insert_ne hkk]
    exact hl

/-- Setting an entry takes no lock from anybody. -/
theorem Backs.set_any (hb : w.Backs h) : (w.callRedis k tok (.set ttl)).1.Backs h := by
  cases hs : (w.callRedis k tok (.set ttl)).2 with
  | false => exact hb.set_refused hs
  | true =>
    intro k' j tok' hk
    refine hb.set (i := j) hs k' j tok' ?_
    have hkk : k' ≠ k := by
      rintro rfl
      simp [hb.free_of_set hs] at hk
    rw [Function.update_of_ne hkk]
    exact hk

/-- Only the lock on the key is given up by a release. -/
theorem Backs.unlock (hb : w.Backs h) :
    (w.callRedis k tok .unlock).1.Backs (Function.update h k none) := by
  intro k' j tok' hk
  by_cases hkk : k' = k
  · subst hkk
    simp at hk
  · rw [Function.update_of_ne hkk] at hk
    obtain ⟨d, hd⟩ := hb k' j tok' hk
    obtain ⟨hl, hle⟩ := Server.live_eq_some.mp hd
    refine ⟨d, Server.live_eq_some.mpr ⟨?_, hle⟩⟩
    simp only [callRedis, Server.serve_entries, answer]
    split
    · rw [AList.lookup_erase_ne hkk]
      exact hl
    · exact hl

end World

variable {sys : System app}

/-- A protocol whose ghost state knows who holds which lock, and lets activity `i` take the lock
`k`.  `MayDrop` is what the holder has to see to before he releases it. -/
structure Locking (P : Protocol sys) (i : ℕ) (k : String) (MayDrop : World → P.Ghost → Prop) where
  /-- Who holds which lock. -/
  holders : P.Ghost → Holders
  /-- The lock passes to somebody, or to nobody. -/
  pass : P.Ghost → Option (ℕ × String) → P.Ghost
  holders_pass : ∀ g x, holders (pass g x) = Function.update (holders g) k x
  backs : ∀ w g, P.Inv w g → w.Backs (holders g)
  /-- Nobody else takes the lock away. -/
  kept : ∀ tok, P.Stable i fun _ g => holders g k = some (i, tok)
  /-- The calls by which locks are taken and released may always be made. -/
  asserts : ∀ o w g, (∃ tok ttl, o = .redisSet k tok ttl) ∨ (∃ tok, o = .redisUnlock k tok) ∨
    o = .generateToken ∨ (∃ ms, o = .sleep ms) ∨ o = .log (.lockNotAcquired k) →
    P.Assert i o w g
  /-- A lock nobody holds may be taken. -/
  take : ∀ w g tok ttl c, P.Inv w g → P.CanRun w g i (.redisSet k tok ttl) c →
    (w.callRedis k tok (.set ttl)).2 = true → holders g k = none →
    P.Respects i w g (w.callRedis k tok (.set ttl)).1 (pass g (some (i, tok)))
  /-- The holder may release his lock, and it is his no more whatever Redis answers. -/
  drop : ∀ w g tok redis, P.Inv w g → holders g k = some (i, tok) → MayDrop w g →
    { w with redis }.Backs (Function.update (holders g) k none) →
    P.Respects i w g { w with redis } (pass g none)
  /-- Nobody minds what else becomes of entries, tokens and the log. -/
  idle : ∀ w g redis, P.Inv w g → { w with redis }.Backs (holders g) →
    P.Respects i w g { w with redis } g
  token : ∀ w g t, P.Inv w g → P.Respects i w g { w with tokens := t :: w.tokens } g
  log : ∀ w g, P.Inv w g → P.Respects i w g { w with log := w.log ++ [.lockNotAcquired k] } g

namespace Locking

open RedisLockService

variable {P : Protocol sys} {i : ℕ} {k : String} {D : World → P.Ghost → Prop}
  (L : Locking P i k D)

/-- Activity `i` holds the lock under the token `tok`. -/
def Held (tok : String) (_ : World) (g : P.Ghost) : Prop := L.holders g k = some (i, tok)

/-- An assertion locks, tokens and the log do not matter to. -/
structure Blind (E : World → P.Ghost → Prop) : Prop where
  stable : P.Stable i E
  redis : ∀ w g r, E w g → E { w with redis := r } g
  tokens : ∀ w g t, E w g → E { w with tokens := t } g
  log : ∀ w g l, E w g → E { w with log := l } g
  pass : ∀ w g x, E w g → E w (L.pass g x)

variable {L} {E : World → P.Ghost → Prop}

theorem held_stable (tok : String) : P.Stable i (L.Held tok) := L.kept tok

theorem sleep_triple (hE : L.Blind E) (ms : ℕ) : P.Triple i E (sleep ms) (Returns E) := by
  refine .perform hE.stable (returns_stable hE.stable)
    fun w g hI hw => ⟨L.asserts _ w g (by simp), ?_⟩
  intro c w' r ts _ he l hl hf
  obtain ⟨hp, hr⟩ := World.exec_local he rfl
  simp only [World.perform, Option.some.injEq, Prod.mk.injEq] at hp
  obtain ⟨rfl, -, rfl⟩ := hp
  exact .refl hI hf ⟨hr, hw⟩

theorem logger_triple (hE : L.Blind E) {N : World → P.Ghost → Prop} (hN : P.Stable i N)
    (hEN : ∀ w g c, P.Inv w g → E w g → P.CanRun w g i (.log (.lockNotAcquired k)) c →
      N { w with log := w.log ++ [.lockNotAcquired k] } g) :
    P.Triple i E (logger (.lockNotAcquired k)) (Returns N) := by
  refine .perform hE.stable (returns_stable hN) fun w g hI hw => ⟨L.asserts _ w g (by simp), ?_⟩
  intro c w' r ts hc he l hl hf
  obtain ⟨hp, hr⟩ := World.exec_local he rfl
  simp only [World.perform, Option.some.injEq, Prod.mk.injEq] at hp
  obtain ⟨rfl, -, rfl⟩ := hp
  exact (L.log w g hI).settles rfl hl hf ⟨hr, hEN w g c hI hw hc⟩

theorem generateToken_triple (hE : L.Blind E) :
    P.Triple i E generateToken fun r w g => ∃ tok, r = .ok tok ∧ E w g := by
  have hst : ∀ r : Except Err String, P.Stable i fun w g => ∃ tok, r = .ok tok ∧ E w g := by
    rintro r w g w' g' hm hk hI ⟨tok, rfl, h⟩
    exact ⟨tok, rfl, hE.stable hm hk hI h⟩
  refine .perform hE.stable hst fun w g hI hw => ⟨L.asserts _ w g (by simp), ?_⟩
  intro c w' r ts _ he l hl hf
  obtain ⟨hp, -⟩ := World.exec_local he rfl
  simp only [World.perform, Option.some.injEq, Prod.mk.injEq] at hp
  obtain ⟨rfl, rfl, rfl⟩ := hp
  exact (L.token w g _ hI).settles rfl hl hf ⟨c.text, rfl, hE.tokens w g _ hw⟩

/-- Setting an entry: whoever is answered `OK` has the lock. -/
theorem set_triple (hE : L.Blind E) (tok : String) (ttl : ℕ) :
    P.Triple i E (redis.set k tok ttl) (Attempted E fun w g => E w g ∧ L.Held tok w g) := by
  have hst := attempted_stable hE.stable (hE.stable.and (held_stable (L := L) tok))
  refine .perform hE.stable hst fun w g hI hw => ⟨L.asserts _ w g (by simp), ?_⟩
  have hrefl : P.Respects i w g w g := .refl hI
  have hidle : P.Respects i w g (w.callRedis k tok (.set ttl)).1 g :=
    L.idle w g _ hI (L.backs w g hI).set_any
  intro c w' r ts hc he l hl hf
  rcases World.exec_cases he with ⟨-, hp⟩ | ⟨m, -, rfl, rfl, rfl, -⟩ | ⟨m, v, -, -, hp, rfl⟩
  · simp only [World.perform] at hp
    split at hp
    · simp only [Option.some.injEq, Prod.mk.injEq] at hp
      obtain ⟨rfl, rfl, rfl⟩ := hp
      exact hrefl.settles rfl hl hf (attempted_error hw _)
    · simp only [Option.some.injEq, Prod.mk.injEq] at hp
      obtain ⟨rfl, rfl, rfl⟩ := hp
      cases hs : (w.callRedis k tok (.set ttl)).2 with
      | false => exact hidle.settles rfl hl hf (attempted_false (hE.redis w g _ hw))
      | true =>
        have hfree := (L.backs w g hI).free_of_set hs
        refine (L.take w g tok ttl c hI hc hs hfree).settles rfl hl hf
          (Or.inl ⟨rfl, hE.pass _ _ _ (hE.redis w g _ hw), ?_⟩)
        simp [Held, L.holders_pass]
  · exact hrefl.settles rfl hl hf (attempted_error hw _)
  · -- the entry may be there, but nobody knows
    simp only [World.perform] at hp
    split at hp
    · simp only [Option.some.injEq, Prod.mk.injEq] at hp
      obtain ⟨rfl, -, rfl⟩ := hp
      exact hrefl.settles rfl hl hf (attempted_error hw _)
    · simp only [Option.some.injEq, Prod.mk.injEq] at hp
      obtain ⟨rfl, -, rfl⟩ := hp
      exact hidle.settles rfl hl hf (attempted_error (hE.redis w g _ hw) _)

/-- Releasing a lock: it is gone, whatever Redis answers. -/
theorem unlock_triple (hE : L.Blind E) (hD : ∀ w g, P.Inv w g → E w g → D w g) (tok : String) :
    P.Triple i (fun w g => E w g ∧ L.Held tok w g) (redis.unlock k tok) fun _ => E := by
  refine .perform (hE.stable.and (held_stable tok)) (fun _ => hE.stable) fun w g hI hw =>
    ⟨L.asserts _ w g (by simp), ?_⟩
  have hb := L.backs w g hI
  have hrefused : P.Respects i w g w (L.pass g none) :=
    L.drop w g tok w.redis hI hw.2 (hD w g hI hw.1) (hb.drop k)
  have hdone : P.Respects i w g (w.callRedis k tok .unlock).1 (L.pass g none) :=
    L.drop w g tok _ hI hw.2 (hD w g hI hw.1) hb.unlock
  intro c w' r ts _ he l hl hf
  rcases World.exec_cases he with ⟨-, hp⟩ | ⟨m, -, rfl, rfl, rfl, -⟩ | ⟨m, v, -, -, hp, rfl⟩
  · simp only [World.perform, Option.some.injEq, Prod.mk.injEq] at hp
    obtain ⟨rfl, -, rfl⟩ := hp
    exact hdone.settles rfl hl hf (hE.pass _ _ _ (hE.redis w g _ hw.1))
  · exact hrefused.settles rfl hl hf (hE.pass _ _ _ hw.1)
  · simp only [World.perform, Option.some.injEq, Prod.mk.injEq] at hp
    obtain ⟨rfl, -, rfl⟩ := hp
    exact hdone.settles rfl hl hf (hE.pass _ _ _ (hE.redis w g _ hw.1))

end Locking

namespace Locking

open RedisLockService

variable {P : Protocol sys} {i : ℕ} {key : String} {D : World → P.Ghost → Prop}
  {L : Locking P i ("lock:" ++ key) D} {E N : World → P.Ghost → Prop} {options : LockOptions}

/-- **The locks of the protocol can be taken.** -/
theorem taking (hE : L.Blind E) (hN : P.Stable i N) (options : LockOptions)
    (hEN : ∀ w g c, P.Inv w g → E w g → P.CanRun w g i (.log (.lockNotAcquired ("lock:" ++ key))) c →
      N { w with log := w.log ++ [.lockNotAcquired ("lock:" ++ key)] } g) :
    Taking P i ("lock:" ++ key) options E (fun _ => E) (fun tok w g => E w g ∧ L.Held tok w g) N where
  free := fun _ => hE.stable
  held := fun tok => hE.stable.and (held_stable tok)
  gaveUp := hN
  token := generateToken_triple hE
  set := fun tok => set_triple hE tok _
  sleep := fun _ => sleep_triple hE _
  log := fun _ => logger_triple hE hN hEN

/-- **A section under a lock**: with the lock, `fn` leads to a state in which it may be
released; without it, an error is thrown. -/
theorem withLock_triple (hE : L.Blind E) {α : Type} {fn : Async App α} {Q : P.Assn α}
    (hQ : ∀ r, L.Blind (Q r)) (hD : ∀ r w g, P.Inv w g → Q r w g → D w g)
    (hfn : ∀ tok, P.Triple i (fun w g => E w g ∧ L.Held tok w g) fn
      fun r w g => Q r w g ∧ L.Held tok w g)
    (hN : ∀ e w g c, P.Inv w g → E w g →
      P.CanRun w g i (.log (.lockNotAcquired ("lock:" ++ key))) c →
        Q (.error e) { w with log := w.log ++ [.lockNotAcquired ("lock:" ++ key)] } g) :
    P.Triple i E (withLock key fn options) Q :=
  RedisLockService.withLock_triple (N := fun w g => ∀ e, Q (.error e) w g)
    (taking hE (.all fun e => (hQ (.error e)).stable) options fun w g c hI hw hc e =>
      hN e w g c hI hw hc)
    (fun r => (hQ r).stable) hfn (fun tok r => unlock_triple (hQ r) (hD r) tok)
    fun e _ _ _ h => h e

end Locking

end CqrsSaga
