import Mathlib.Tactic.Basic

/-!
# Asynchronous programs

An `async` function runs in pieces: between two awaited calls it computes on its
own, and at each `await` the rest of the system may move.  A program is therefore
a tree.  It has returned, it has thrown, or it awaits one operation and goes on
with whatever the operation answers — a value, or an error that is thrown at the
`await`.

The operations are left open.  An `Interface` names them, says what a successful
call of each answers and what a failed one throws; what a call does to the world
is the business of `CqrsSaga.Async.Pool`.

## Main definitions

* `Interface` — the operations a family of programs may await.
* `Async` — programs over an interface, a monad with exceptions.
* `Async.handle`, `Async.andFinally` — `try … catch` and `try … finally`.
* `Async.perform` — await one operation and throw what it throws.
* `Async.Only`, `Async.NoThrow` — what a program may await, and that it throws
  only what an operation threw.
-/

namespace CqrsSaga

/-- The operations programs may await: the calls, the value a successful call
answers, and the errors. -/
structure Interface where
  /-- The operations. -/
  Op : Type
  /-- What a successful call of an operation answers. -/
  Val : Op → Type
  /-- What is thrown. -/
  Err : Type

/-- A program over the interface `S` returning an `α`. -/
inductive Async (S : Interface) (α : Type) : Type
  /-- The program has returned. -/
  | ret (a : α) : Async S α
  /-- The program has thrown. -/
  | throw (e : S.Err) : Async S α
  /-- The program awaits `o` and continues with its answer. -/
  | await (o : S.Op) (k : Except S.Err (S.Val o) → Async S α) : Async S α

namespace Async

variable {S : Interface} {α β : Type}

/-! ### Sequencing -/

/-- Run `p`, then `f` on what it returns; an exception of `p` skips `f`. -/
def bind : Async S α → (α → Async S β) → Async S β
  | ret a, f => f a
  | throw e, _ => throw e
  | await o k, f => await o fun r => bind (k r) f

/-- `try p catch h`: an exception of `p` is passed to `h`. -/
def handle : Async S α → (S.Err → Async S α) → Async S α
  | ret a, _ => ret a
  | throw e, h => h e
  | await o k, h => await o fun r => handle (k r) h

/-- `try p finally q`: `q` runs whether `p` returns or throws, and what `p`
returned or threw is passed on after it. -/
def andFinally : Async S α → Async S β → Async S α
  | ret a, q => bind q fun _ => ret a
  | throw e, q => bind q fun _ => throw e
  | await o k, q => await o fun r => andFinally (k r) q

/-- Await one operation and throw what it throws. -/
def perform (o : S.Op) : Async S (S.Val o) :=
  await o fun
    | .ok v => ret v
    | .error e => throw e

instance : Monad (Async S) where
  pure := ret
  bind := bind

instance : MonadExceptOf S.Err (Async S) where
  throw := throw
  tryCatch := handle

@[simp] theorem pure_eq (a : α) : (pure a : Async S α) = ret a := rfl

@[simp] theorem bind_eq (p : Async S α) (f : α → Async S β) : (p >>= f) = p.bind f := rfl

@[simp] theorem map_eq (f : α → β) (p : Async S α) : (f <$> p) = p.bind fun a => ret (f a) := rfl

@[simp] theorem throw_eq (e : S.Err) :
    (MonadExceptOf.throw e : Async S α) = throw e := rfl

@[simp] theorem tryCatch_eq (p : Async S α) (h : S.Err → Async S α) :
    (MonadExceptOf.tryCatch p h : Async S α) = p.handle h := rfl

@[simp] theorem ret_bind (a : α) (f : α → Async S β) : (ret a).bind f = f a := rfl

@[simp] theorem throw_bind (e : S.Err) (f : α → Async S β) : (throw e).bind f = throw e := rfl

@[simp] theorem await_bind (o : S.Op) (k : Except S.Err (S.Val o) → Async S α)
    (f : α → Async S β) : (await o k).bind f = await o fun r => (k r).bind f := rfl

@[simp] theorem ret_handle (a : α) (h : S.Err → Async S α) : (ret a).handle h = ret a := rfl

@[simp] theorem throw_handle (e : S.Err) (h : S.Err → Async S α) : (throw e).handle h = h e := rfl

@[simp] theorem await_handle (o : S.Op) (k : Except S.Err (S.Val o) → Async S α)
    (h : S.Err → Async S α) : (await o k).handle h = await o fun r => (k r).handle h := rfl

@[simp] theorem bind_assoc {γ : Type} (p : Async S α) (f : α → Async S β) (h : β → Async S γ) :
    (p.bind f).bind h = p.bind fun a => (f a).bind h := by
  induction p with
  | ret a => rfl
  | throw e => rfl
  | await o k ih => simp only [await_bind, ih]

/-! ### The end of a program -/

/-- What a program that has ended returned or threw. -/
def result? : Async S α → Option (Except S.Err α)
  | ret a => some (.ok a)
  | throw e => some (.error e)
  | await _ _ => none

@[simp] theorem result?_ret (a : α) : (ret a : Async S α).result? = some (.ok a) := rfl

@[simp] theorem result?_throw (e : S.Err) : (throw e : Async S α).result? = some (.error e) := rfl

@[simp] theorem result?_await (o : S.Op) (k : Except S.Err (S.Val o) → Async S α) :
    (await o k).result? = none := rfl

/-- The program has returned. -/
def returned : Async S α → Bool
  | ret _ => true
  | _ => false

theorem result?_of_returned {p : Async S α} (h : p.returned = true) :
    ∃ a, p.result? = some (.ok a) := by
  cases p with
  | ret a => exact ⟨a, rfl⟩
  | throw e => simp [returned] at h
  | await o k => simp [returned] at h

/-- The operation a program awaits. -/
def awaited? : Async S α → Option S.Op
  | await o _ => some o
  | _ => none

/-- A program that awaits nothing has ended. -/
theorem result?_isSome_of_awaited? {p : Async S α} (h : p.awaited? = none) :
    ∃ r, p.result? = some r := by
  cases p with
  | ret a => exact ⟨_, rfl⟩
  | throw e => exact ⟨_, rfl⟩
  | await o k => simp [awaited?] at h

/-! ### What a program may do -/

/-- Every operation the program may come to await satisfies `P`. -/
def Only (P : S.Op → Prop) : Async S α → Prop
  | ret _ => True
  | throw _ => True
  | await o k => P o ∧ ∀ r, Only P (k r)

/-- The program throws only after an operation it awaited has failed. -/
def NoThrow : Async S α → Prop
  | ret _ => True
  | throw _ => False
  | await _ k => ∀ v, NoThrow (k (.ok v))

/-- A program that awaits nothing. -/
theorem Only.of_awaited? {P : S.Op → Prop} {p : Async S α} (h : p.awaited? = none) : p.Only P := by
  cases p with
  | ret a => exact trivial
  | throw e => exact trivial
  | await o k => simp [awaited?] at h

theorem Only.of_all {P : S.Op → Prop} (h : ∀ o, P o) (p : Async S α) : p.Only P := by
  induction p with
  | ret a => exact trivial
  | throw e => exact trivial
  | await o k ih => exact ⟨h o, ih⟩

theorem Only.mono {P Q : S.Op → Prop} (h : ∀ o, P o → Q o) {p : Async S α} (hp : p.Only P) :
    p.Only Q := by
  induction p with
  | ret a => exact trivial
  | throw e => exact trivial
  | await o k ih => exact ⟨h o hp.1, fun r => ih r (hp.2 r)⟩

theorem Only.and {P Q : S.Op → Prop} {p : Async S α} (hp : p.Only P) (hq : p.Only Q) :
    p.Only fun o => P o ∧ Q o := by
  induction p with
  | ret a => exact trivial
  | throw e => exact trivial
  | await o k ih => exact ⟨⟨hp.1, hq.1⟩, fun r => ih r (hp.2 r) (hq.2 r)⟩

theorem Only.bind {P : S.Op → Prop} {p : Async S α} {f : α → Async S β} (hp : p.Only P)
    (hf : ∀ a, (f a).Only P) : (p.bind f).Only P := by
  induction p with
  | ret a => exact hf a
  | throw e => exact trivial
  | await o k ih => exact ⟨hp.1, fun r => ih r (hp.2 r)⟩

theorem Only.handle {P : S.Op → Prop} {p : Async S α} {h : S.Err → Async S α} (hp : p.Only P)
    (hh : ∀ e, (h e).Only P) : (p.handle h).Only P := by
  induction p with
  | ret a => exact trivial
  | throw e => exact hh e
  | await o k ih => exact ⟨hp.1, fun r => ih r (hp.2 r)⟩

theorem Only.andFinally {P : S.Op → Prop} {p : Async S α} {q : Async S β} (hp : p.Only P)
    (hq : q.Only P) : (p.andFinally q).Only P := by
  induction p with
  | ret a => exact hq.bind fun _ => trivial
  | throw e => exact hq.bind fun _ => trivial
  | await o k ih => exact ⟨hp.1, fun r => ih r (hp.2 r)⟩

theorem Only.perform {P : S.Op → Prop} {o : S.Op} (h : P o) : (perform o).Only P :=
  ⟨h, fun r => by cases r <;> trivial⟩

end Async

end CqrsSaga
