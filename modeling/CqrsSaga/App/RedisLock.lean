import CqrsSaga.App.Calls

/-!
# The lock service

`RedisLockService`: a lock is an entry set if absent, carrying a token drawn by the
one who sets it, and released or renewed by scripts that compare the token first.

## Main definitions

* `RedisLockService.acquireLock`, `releaseLock`, `renewLock`, `isLocked`, `withLock`.
-/

namespace CqrsSaga

/-- `LockOptions`, with the defaults of `acquireLock`. -/
structure LockOptions where
  ttl : ℕ := 30000
  retryCount : ℕ := 3
  retryDelay : ℕ := 100

/-- A lock that was acquired: its entry, the token the entry carries, and how long it lives. -/
structure AcquiredLock where
  key : String
  token : String
  ttl : ℕ
  deriving DecidableEq, Repr

namespace RedisLockService

/-- One attempt of `acquireLock`, an exception counting as a failure; `backOff` is what it
does before the next attempt. -/
def attempt (lockKey token : String) (ttl : ℕ) (backOff : Async App Unit) : Async App Bool :=
  Async.handle
    (do
      let result ← redis.set lockKey token ttl
      if result then
        return true
      else do
        backOff
        return false)
    fun _ => do
      backOff
      return false

/-- The loop of `acquireLock`, with `n` attempts left after this one. -/
def attempts (lockKey token : String) (ttl retryDelay : ℕ) :
    ℕ → Async App (Option AcquiredLock)
  | 0 => do
    let acquired ← attempt lockKey token ttl (pure ())
    if acquired then
      return some ⟨lockKey, token, ttl⟩
    else do
      logger (.lockNotAcquired lockKey)
      return none
  | n + 1 => do
    let acquired ← attempt lockKey token ttl (sleep retryDelay)
    if acquired then
      return some ⟨lockKey, token, ttl⟩
    else
      attempts lockKey token ttl retryDelay n

/-- Acquire the lock on `key`, or give up after `retryCount` further attempts. -/
def acquireLock (key : String) (options : LockOptions) : Async App (Option AcquiredLock) := do
  let token ← generateToken
  attempts ("lock:" ++ key) token options.ttl options.retryDelay options.retryCount

/-- Release a lock; `false` if the entry is not the lock's, or Redis failed. -/
def releaseLock (lock : AcquiredLock) : Async App Bool :=
  (redis.unlock lock.key lock.token).handle fun _ => return false

/-- Let a lock live for `ttl` from now; the lock as it is afterwards, and whether it was
renewed. -/
def renewLock (lock : AcquiredLock) (ttl : ℕ) : Async App (AcquiredLock × Bool) :=
  Async.handle
    (do
      let result ← redis.renew lock.key lock.token ttl
      if result then
        return ({ lock with ttl }, true)
      else
        return (lock, false))
    fun _ => return (lock, false)

/-- Whether somebody holds the lock on `key`. -/
def isLocked (key : String) : Async App Bool :=
  (redis.keyExists ("lock:" ++ key)).handle fun _ => return false

/-- Run `fn` under the lock on `key`, which is released afterwards in any case. -/
def withLock {α : Type} (key : String) (fn : Async App α) (options : LockOptions) :
    Async App α := do
  let lock ← acquireLock key options
  match lock with
  | none => .throw (.error ("Failed to acquire lock: " ++ key))
  | some lock => fn.andFinally (releaseLock lock)

end RedisLockService

end CqrsSaga
