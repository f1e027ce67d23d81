import Mathlib.Tactic.ByContra
import CqrsSaga.Async.Pool

/-!
# Rely–guarantee reasoning about pools

A property of every reachable pool is proved one activity at a time.  A
`Protocol` fixes what the activities of a system agree on: an invariant of the
world and of a *ghost* state (bookkeeping the program does not have, such as
which activity is responsible for an order), a relation `Mono` that every step
respects, and, for each activity `i`, a relation `Keep i` that the steps of all
the *other* activities respect.  Under these agreements a program is verified
against a postcondition by `Protocol.wp`: before each of its operations any number
of foreign steps may have happened, all respecting `Mono` and `Keep i`, and the
operation itself must restore the invariant and respect `Mono` and everybody
else's `Keep`.

`Protocol.Sound` collects the obligations — one `wp` for each program of the system
among them — and `Protocol.Sound.reachable` is what they buy: the invariant holds in
every reachable pool, what is left of each program still meets its
postcondition, and an activity that has ended has established it.

## Main definitions

* `Protocol` — the agreements.
* `Protocol.Later` — what holds after any foreign steps.
* `Protocol.atomic` — the obligations of one operation.
* `Protocol.wp` — the weakest precondition of a program.
* `Protocol.Sound`, `Protocol.Holds` — the obligations, and what holds of a pool.

## Main results

* `Protocol.wp_bind`, `wp_handle`, `wp_andFinally` — the rules of the combinators.
* `Protocol.wp_frame` — what every step keeps may be carried along a program.
* `Protocol.wp_of_only` — a program all of whose operations keep an assertion.
* `Protocol.Triple.andThen`, `Triple.unthrown` — programs that return.
* `Protocol.Sound.step`, `Protocol.Sound.reachable` — **soundness**.
-/

namespace CqrsSaga

variable {S : Interface} {M : Machine S}

/-- What the activities of a system agree on. -/
structure Protocol (sys : System M) where
  /-- The bookkeeping of the proof. -/
  Ghost : Type
  /-- What holds between any two steps. -/
  Inv : M.World → Ghost → Prop
  /-- What every step respects. -/
  Mono : M.World → Ghost → M.World → Ghost → Prop
  /-- What the steps of others respect, as far as activity `i` is concerned. -/
  Keep : ℕ → M.World → Ghost → M.World → Ghost → Prop
  /-- What is known of an operation that is about to be performed: the form the
  restrictions on the runs take inside a proof. -/
  CanRun : M.World → Ghost → ℕ → S.Op → M.Choice → Prop
  /-- What has to hold whenever an activity is about to perform an operation. -/
  Assert : ℕ → S.Op → M.World → Ghost → Prop
  /-- The ghost state fits a pool whose activities were started as these. -/
  Fits : Ghost → List sys.Tag → Prop
  /-- What an activity may assume when it starts. -/
  Born : ℕ → sys.Tag → M.World → Ghost → Prop
  /-- What an activity has to establish. -/
  Post : ℕ → sys.Tag → Except S.Err sys.Res → M.World → Ghost → Prop
  mono_refl : ∀ w g, Mono w g w g
  mono_trans : ∀ {w g w' g' w'' g''}, Mono w g w' g' → Mono w' g' w'' g'' → Mono w g w'' g''
  keep_refl : ∀ i w g, Keep i w g w g
  keep_trans : ∀ {i w g w' g' w'' g''},
    Keep i w g w' g' → Keep i w' g' w'' g'' → Keep i w g w'' g''

namespace Protocol

variable {sys : System M} (P : Protocol sys)

/-- A postcondition: of the result, the world and the ghost state. -/
abbrev Assn (α : Type) := Except S.Err α → M.World → P.Ghost → Prop

/-- `Φ` holds now and after any number of steps of other activities. -/
def Later (i : ℕ) (Φ : M.World → P.Ghost → Prop) (w : M.World) (g : P.Ghost) : Prop :=
  ∀ w' g', P.Mono w g w' g' → P.Keep i w g w' g' → P.Inv w' g' → Φ w' g'

/-- What an operation of activity `i` has done to the world, and has started, is
accounted for: the ghost state can be brought up to date so that the invariant holds,
everybody's agreements are respected, what was started may start, and `Φ` holds. -/
def Settles (i : ℕ) (l : List sys.Tag) (w : M.World) (g : P.Ghost) (w' : M.World)
    (ts : List M.Task) (Φ : M.World → P.Ghost → Prop) : Prop :=
  ∃ g', P.Inv w' g' ∧ P.Mono w g w' g' ∧ (∀ j, j < l.length → j ≠ i → P.Keep j w g w' g') ∧
    P.Fits g' (l ++ ts.filterMap sys.spawned) ∧
    (∀ k t, (ts.filterMap sys.spawned)[k]? = some t → P.Born (l.length + k) t w' g') ∧ Φ w' g'

/-- Activity `i` may perform `o`: what is asserted of it holds, whatever comes of it is
accounted for, and `Φ` holds of the answer. -/
def atomic (i : ℕ) (o : S.Op) (Φ : P.Assn (S.Val o)) (w : M.World) (g : P.Ghost) : Prop :=
  P.Assert i o w g ∧ ∀ c w' r ts, P.CanRun w g i o c → M.exec w i o c = some (w', r, ts) →
    ∀ l, i < l.length → P.Fits g l → P.Settles i l w g w' ts (Φ r)

/-- **The weakest precondition of a program**: run by activity `i` it respects the
protocol throughout, and if it ends it establishes `Q`. -/
def wp {α : Type} (i : ℕ) : Async S α → P.Assn α → M.World → P.Ghost → Prop
  | .ret a, Q => P.Later i (Q (.ok a))
  | .throw e, Q => P.Later i (Q (.error e))
  | .await o k, Q => P.Later i (P.atomic i o fun r => wp i (k r) Q)

variable {P} {α β : Type} {i : ℕ} {w w' : M.World} {g g' : P.Ghost}

/-! ### Foreign steps -/

theorem Later.now {Φ : M.World → P.Ghost → Prop} (h : P.Later i Φ w g) (hI : P.Inv w g) : Φ w g :=
  h w g (P.mono_refl w g) (P.keep_refl i w g) hI

theorem Later.mono {Φ Ψ : M.World → P.Ghost → Prop} (hΦ : ∀ w g, P.Inv w g → Φ w g → Ψ w g)
    (h : P.Later i Φ w g) : P.Later i Ψ w g :=
  fun w' g' hm hk hI => hΦ w' g' hI (h w' g' hm hk hI)

theorem Later.move {Φ : M.World → P.Ghost → Prop} (hm : P.Mono w g w' g')
    (hk : P.Keep i w g w' g') (h : P.Later i Φ w g) : P.Later i Φ w' g' :=
  fun _ _ hm' hk' hI => h _ _ (P.mono_trans hm hm') (P.keep_trans hk hk') hI

theorem later_later {Φ : M.World → P.Ghost → Prop} :
    P.Later i (P.Later i Φ) w g ↔ P.Later i Φ w g := by
  constructor
  · intro h w' g' hm hk hI
    exact (h w' g' hm hk hI).now hI
  · intro h w' g' hm hk _
    exact h.move hm hk

/-- An assertion the steps of other activities keep. -/
def Stable (P : Protocol sys) (i : ℕ) (F : M.World → P.Ghost → Prop) : Prop :=
  ∀ ⦃w g w' g'⦄, P.Mono w g w' g' → P.Keep i w g w' g' → P.Inv w' g' → F w g → F w' g'

/-- An assertion all steps keep. -/
def Lasting (P : Protocol sys) (F : M.World → P.Ghost → Prop) : Prop :=
  ∀ ⦃w g w' g'⦄, P.Mono w g w' g' → P.Inv w' g' → F w g → F w' g'

theorem Lasting.stable {F : M.World → P.Ghost → Prop} (hF : P.Lasting F) : P.Stable i F :=
  fun _ _ _ _ hm _ hI => hF hm hI

theorem Lasting.and {F G : M.World → P.Ghost → Prop} (hF : P.Lasting F) (hG : P.Lasting G) :
    P.Lasting fun w g => F w g ∧ G w g :=
  fun _ _ _ _ hm hI h => ⟨hF hm hI h.1, hG hm hI h.2⟩

theorem Lasting.const (A : Prop) : P.Lasting fun _ _ => A := fun _ _ _ _ _ _ h => h

theorem Stable.and {F G : M.World → P.Ghost → Prop} (hF : P.Stable i F) (hG : P.Stable i G) :
    P.Stable i fun w g => F w g ∧ G w g :=
  fun _ _ _ _ hm hk hI h => ⟨hF hm hk hI h.1, hG hm hk hI h.2⟩

theorem Stable.or {F G : M.World → P.Ghost → Prop} (hF : P.Stable i F) (hG : P.Stable i G) :
    P.Stable i fun w g => F w g ∨ G w g :=
  fun _ _ _ _ hm hk hI h => h.imp (hF hm hk hI) (hG hm hk hI)

theorem Stable.const (A : Prop) : P.Stable i fun _ _ => A := fun _ _ _ _ _ _ _ h => h

/-- An assertion that is stable once something fixed is known. -/
theorem Stable.imp {A : Prop} {F : M.World → P.Ghost → Prop} (hF : A → P.Stable i F) :
    P.Stable i fun w g => A → F w g :=
  fun _ _ _ _ hm hk hI h ha => hF ha hm hk hI (h ha)

theorem Stable.all {γ : Type} {F : γ → M.World → P.Ghost → Prop} (hF : ∀ x, P.Stable i (F x)) :
    P.Stable i fun w g => ∀ x, F x w g :=
  fun _ _ _ _ hm hk hI h x => hF x hm hk hI (h x)

theorem Stable.ex {γ : Type} {F : γ → M.World → P.Ghost → Prop} (hF : ∀ x, P.Stable i (F x)) :
    P.Stable i fun w g => ∃ x, F x w g := by
  rintro w g w' g' hm hk hI ⟨x, hx⟩
  exact ⟨x, hF x hm hk hI hx⟩

theorem Stable.later {F : M.World → P.Ghost → Prop} (hF : P.Stable i F) (h : F w g) :
    P.Later i F w g :=
  fun _ _ hm hk hI => hF hm hk hI h

/-! ### Programs -/

@[simp] theorem wp_ret (a : α) (Q : P.Assn α) :
    P.wp i (.ret a) Q w g ↔ P.Later i (Q (.ok a)) w g := Iff.rfl

@[simp] theorem wp_throw (e : S.Err) (Q : P.Assn α) :
    P.wp i (.throw e) Q w g ↔ P.Later i (Q (.error e)) w g := Iff.rfl

@[simp] theorem wp_await (o : S.Op) (k : Except S.Err (S.Val o) → Async S α) (Q : P.Assn α) :
    P.wp i (.await o k) Q w g ↔ P.Later i (P.atomic i o fun r => P.wp i (k r) Q) w g := Iff.rfl

theorem Settles.mono {l : List sys.Tag} {ts : List M.Task} {Φ Ψ : M.World → P.Ghost → Prop}
    (h : ∀ g', P.Inv w' g' → P.Mono w g w' g' → Φ w' g' → Ψ w' g')
    (hs : P.Settles i l w g w' ts Φ) : P.Settles i l w g w' ts Ψ := by
  obtain ⟨g', hI, hm, hk, hf, hb, hΦ⟩ := hs
  exact ⟨g', hI, hm, hk, hf, hb, h g' hI hm hΦ⟩

/-- Nothing was started. -/
theorem Settles.quiet {l : List sys.Tag} {ts : List M.Task} {Φ : M.World → P.Ghost → Prop}
    (hts : ts.filterMap sys.spawned = []) (g' : P.Ghost) (hI : P.Inv w' g') (hm : P.Mono w g w' g')
    (hk : ∀ j, j < l.length → j ≠ i → P.Keep j w g w' g') (hf : P.Fits g' l) (h : Φ w' g') :
    P.Settles i l w g w' ts Φ :=
  ⟨g', hI, hm, hk, by simpa [hts] using hf, fun k t hk => by simp [hts] at hk, h⟩

/-- What activity `i` has done respects all agreements, once the ghost state is brought up to
date. -/
structure Respects (P : Protocol sys) (i : ℕ) (w : M.World) (g : P.Ghost) (w' : M.World)
    (g' : P.Ghost) : Prop where
  inv : P.Inv w' g'
  mono : P.Mono w g w' g'
  keep : ∀ j, j ≠ i → P.Keep j w g w' g'
  fits : ∀ l, i < l.length → P.Fits g l → P.Fits g' l

theorem Respects.refl (hI : P.Inv w g) : P.Respects i w g w g :=
  ⟨hI, P.mono_refl w g, fun j _ => P.keep_refl j w g, fun _ _ h => h⟩

theorem Respects.settles {l : List sys.Tag} {ts : List M.Task} {Φ : M.World → P.Ghost → Prop}
    (hr : P.Respects i w g w' g') (hts : ts.filterMap sys.spawned = []) (hl : i < l.length)
    (hf : P.Fits g l) (h : Φ w' g') : P.Settles i l w g w' ts Φ :=
  Settles.quiet hts g' hr.inv hr.mono (fun j _ => hr.keep j) (hr.fits l hl hf) h

/-- Nothing has happened. -/
theorem Settles.refl {l : List sys.Tag} {Φ : M.World → P.Ghost → Prop} (hI : P.Inv w g)
    (hf : P.Fits g l) (h : Φ w g) : P.Settles i l w g w [] Φ :=
  Settles.quiet rfl g hI (P.mono_refl w g) (fun j _ _ => P.keep_refl j w g) hf h

/-- Going from `w` to `w'` concerns no agreement. -/
def Unseen (P : Protocol sys) (w w' : M.World) : Prop :=
  ∀ g, P.Inv w g → P.Inv w' g ∧ P.Mono w g w' g ∧ ∀ j, P.Keep j w g w' g

theorem Unseen.refl (w : M.World) : P.Unseen w w :=
  fun g hI => ⟨hI, P.mono_refl w g, fun j => P.keep_refl j w g⟩

/-- What happened concerns no agreement, and nothing was started. -/
theorem Settles.unseen {l : List sys.Tag} {ts : List M.Task} {Φ : M.World → P.Ghost → Prop}
    (hts : ts.filterMap sys.spawned = []) (hI : P.Inv w g) (hu : P.Unseen w w') (hf : P.Fits g l)
    (h : P.Inv w' g → P.Mono w g w' g → (∀ j, P.Keep j w g w' g) → Φ w' g) :
    P.Settles i l w g w' ts Φ := by
  obtain ⟨hI', hm, hk⟩ := hu g hI
  exact Settles.quiet hts g hI' hm (fun j _ _ => hk j) hf (h hI' hm hk)

theorem atomic_mono {o : S.Op} {Φ Ψ : P.Assn (S.Val o)}
    (h : ∀ r w g, P.Inv w g → Φ r w g → Ψ r w g) (ha : P.atomic i o Φ w g) :
    P.atomic i o Ψ w g :=
  ⟨ha.1, fun c w' r ts hc he l hl hf =>
    (ha.2 c w' r ts hc he l hl hf).mono fun g' hI _ => h r w' g' hI⟩

/-- The operation may use what every step keeps. -/
theorem atomic_frame {o : S.Op} {Φ : P.Assn (S.Val o)} {F : M.World → P.Ghost → Prop}
    (hF : P.Lasting F) (h : F w g) (ha : P.atomic i o Φ w g) :
    P.atomic i o (fun r w g => Φ r w g ∧ F w g) w g :=
  ⟨ha.1, fun c w' r ts hc he l hl hf =>
    (ha.2 c w' r ts hc he l hl hf).mono fun _ hI hm hΦ => ⟨hΦ, hF hm hI h⟩⟩

/-- A weakest precondition is kept by the steps of other activities. -/
theorem later_wp {p : Async S α} {Q : P.Assn α} : P.Later i (P.wp i p Q) w g ↔ P.wp i p Q w g := by
  cases p with
  | ret a => exact later_later
  | throw e => exact later_later
  | await o k => exact later_later

theorem wp_move {p : Async S α} {Q : P.Assn α} (hm : P.Mono w g w' g') (hk : P.Keep i w g w' g')
    (h : P.wp i p Q w g) : P.wp i p Q w' g' := by
  rw [← later_wp] at h ⊢
  exact h.move hm hk

/-- The postcondition may be weakened. -/
theorem wp_mono {p : Async S α} {Q Q' : P.Assn α}
    (hQ : ∀ r w g, P.Inv w g → Q r w g → Q' r w g) (h : P.wp i p Q w g) : P.wp i p Q' w g := by
  induction p generalizing w g with
  | ret a => exact h.mono fun w g hI => hQ _ w g hI
  | throw e => exact h.mono fun w g hI => hQ _ w g hI
  | await o k ih => exact h.mono fun w g _ => atomic_mono fun r w g _ => ih r

/-- **The frame rule**: what every step keeps may be carried along a program. -/
theorem wp_frame {p : Async S α} {Q : P.Assn α} {F : M.World → P.Ghost → Prop}
    (hF : P.Lasting F) (hf : F w g) (h : P.wp i p Q w g) :
    P.wp i p (fun r w g => Q r w g ∧ F w g) w g := by
  induction p generalizing w g with
  | ret a => exact fun w' g' hm hk hI => ⟨h w' g' hm hk hI, hF hm hI hf⟩
  | throw e => exact fun w' g' hm hk hI => ⟨h w' g' hm hk hI, hF hm hI hf⟩
  | await o k ih =>
    intro w' g' hm hk hI
    exact atomic_mono (fun r w g _ hr => ih r hr.2 hr.1)
      (atomic_frame hF (hF hm hI hf) (h w' g' hm hk hI))

/-- Sequencing. -/
theorem wp_bind {p : Async S α} {f : α → Async S β} {Q : P.Assn β}
    (h : P.wp i p (fun
      | .ok a => P.wp i (f a) Q
      | .error e => P.Later i (Q (.error e))) w g) : P.wp i (p.bind f) Q w g := by
  induction p generalizing w g with
  | ret a => exact later_wp.mp h
  | throw e => exact later_later.mp h
  | await o k ih => exact h.mono fun w g _ => atomic_mono fun r w g _ => ih r

/-- `try … catch`. -/
theorem wp_handle {p : Async S α} {f : S.Err → Async S α} {Q : P.Assn α}
    (h : P.wp i p (fun
      | .ok a => P.Later i (Q (.ok a))
      | .error e => P.wp i (f e) Q) w g) : P.wp i (p.handle f) Q w g := by
  induction p generalizing w g with
  | ret a => exact later_later.mp h
  | throw e => exact later_wp.mp h
  | await o k ih => exact h.mono fun w g _ => atomic_mono fun r w g _ => ih r

/-- `try … finally`: the second program runs in either case, and the result of
the first is passed on unless the second one throws. -/
theorem wp_andFinally {p : Async S α} {q : Async S β} {Q : P.Assn α}
    (h : P.wp i p (fun r => P.wp i q fun
      | .ok _ => P.Later i (Q r)
      | .error e => P.Later i (Q (.error e))) w g) : P.wp i (p.andFinally q) Q w g := by
  induction p generalizing w g with
  | ret a =>
    refine wp_bind (wp_mono ?_ (later_wp.mp h))
    rintro (e | b) w g - hr
    · exact hr
    · exact hr
  | throw e =>
    refine wp_bind (wp_mono ?_ (later_wp.mp h))
    rintro (e | b) w g - hr
    · exact hr
    · exact hr
  | await o k ih => exact h.mono fun w g _ => atomic_mono fun r w g _ => ih r

/-- **A program all of whose operations keep a stable assertion keeps it.** -/
theorem wp_of_only {F : M.World → P.Ghost → Prop} {A : S.Op → Prop} (hF : P.Stable i F)
    (hA : ∀ o w g, A o → P.Inv w g → F w g → P.atomic i o (fun _ => F) w g) {p : Async S α}
    (hp : p.Only A) (h : F w g) : P.wp i p (fun _ => F) w g := by
  induction p generalizing w g with
  | ret a => exact hF.later h
  | throw e => exact hF.later h
  | await o k ih =>
    exact (hF.later h).mono fun w g hI hf =>
      atomic_mono (fun r w g _ => ih r (hp.2 r)) (hA o w g hp.1 hI hf)

/-- The same where no operation fails and the program throws nothing of its own: it returns. -/
theorem wp_of_only_noThrow {F : M.World → P.Ghost → Prop} {A : S.Op → Prop} (hF : P.Stable i F)
    (hA : ∀ o w g, A o → P.Inv w g → F w g →
      P.atomic i o (fun r w g => (∃ v, r = .ok v) ∧ F w g) w g) {p : Async S α}
    (hp : p.Only A) (ht : p.NoThrow) (h : F w g) :
    P.wp i p (fun r w g => (∃ a, r = .ok a) ∧ F w g) w g := by
  induction p generalizing w g with
  | ret a => exact (hF.later h).mono fun w g _ hf => ⟨⟨a, rfl⟩, hf⟩
  | throw e => exact ht.elim
  | await o k ih =>
    refine (hF.later h).mono fun w g hI hf => atomic_mono ?_ (hA o w g hp.1 hI hf)
    rintro r w g - ⟨⟨v, rfl⟩, hf⟩
    exact ih (.ok v) (hp.2 _) (ht v) hf

/-! ### Triples

The rules again, for a program started in any state satisfying a stable
assertion; a proof of a triple is an outline of the program. -/

/-- Started in a state satisfying `F`, activity `i` may run `p`, and it ends in
one satisfying `Q`. -/
def Triple (P : Protocol sys) (i : ℕ) (F : M.World → P.Ghost → Prop) (p : Async S α)
    (Q : P.Assn α) : Prop :=
  ∀ w g, P.Inv w g → F w g → P.wp i p Q w g

namespace Triple

variable {F G : M.World → P.Ghost → Prop} {p : Async S α} {Q Q' : P.Assn α}

theorem ret {a : α} (hF : P.Stable i F) (h : ∀ w g, P.Inv w g → F w g → Q (.ok a) w g) :
    P.Triple i F (.ret a) Q :=
  fun _ _ _ hf => (hF.later hf).mono h

theorem throw {e : S.Err} (hF : P.Stable i F)
    (h : ∀ w g, P.Inv w g → F w g → Q (.error e) w g) : P.Triple i F (.throw e) Q :=
  fun _ _ _ hf => (hF.later hf).mono h

/-- One operation, and what follows it. -/
theorem await {o : S.Op} {k : Except S.Err (S.Val o) → Async S α} (Φ : P.Assn (S.Val o))
    (hF : P.Stable i F) (h : ∀ w g, P.Inv w g → F w g → P.atomic i o Φ w g)
    (hk : ∀ r, P.Triple i (Φ r) (k r) Q) : P.Triple i F (.await o k) Q :=
  fun _ _ _ hf => (hF.later hf).mono fun w g hI hf =>
    atomic_mono (fun r w g hI => hk r w g hI) (h w g hI hf)

/-- One operation on its own. -/
theorem perform {o : S.Op} {Φ : P.Assn (S.Val o)} (hF : P.Stable i F) (hΦ : ∀ r, P.Stable i (Φ r))
    (h : ∀ w g, P.Inv w g → F w g → P.atomic i o Φ w g) :
    P.Triple i F (Async.perform o) Φ := by
  refine await Φ hF h fun r => ?_
  cases r with
  | ok v => exact ret (hΦ _) fun w g _ h => h
  | error e => exact throw (hΦ _) fun w g _ h => h

theorem conseq (hF : ∀ w g, P.Inv w g → G w g → F w g)
    (hQ : ∀ r w g, P.Inv w g → Q r w g → Q' r w g) (h : P.Triple i F p Q) : P.Triple i G p Q' :=
  fun w g hI hg => wp_mono hQ (h w g hI (hF w g hI hg))

theorem pre (hF : ∀ w g, P.Inv w g → G w g → F w g) (h : P.Triple i F p Q) : P.Triple i G p Q :=
  fun w g hI hg => h w g hI (hF w g hI hg)

theorem post (hQ : ∀ r w g, P.Inv w g → Q r w g → Q' r w g) (h : P.Triple i F p Q) :
    P.Triple i F p Q' :=
  fun w g hI hf => wp_mono hQ (h w g hI hf)

/-- What every step keeps may be carried along. -/
theorem frame (hG : P.Lasting G) (h : P.Triple i F p Q) :
    P.Triple i (fun w g => F w g ∧ G w g) p fun r w g => Q r w g ∧ G w g :=
  fun w g hI hf => wp_frame hG hf.2 (h w g hI hf.1)

/-- Something there is in the beginning may be named. -/
theorem given {γ : Type} {F : γ → M.World → P.Ghost → Prop} (h : ∀ x, P.Triple i (F x) p Q) :
    P.Triple i (fun w g => ∃ x, F x w g) p Q :=
  fun w g hI ⟨x, hx⟩ => h x w g hI hx

/-- A consequence that does not depend on the state may be used throughout. -/
theorem assuming {A : Prop} (hA : ∀ w g, P.Inv w g → F w g → A) (h : A → P.Triple i F p Q) :
    P.Triple i F p Q :=
  fun w g hI hf => h (hA w g hI hf) w g hI hf

theorem bind {f : α → Async S β} {Q : P.Assn β} (M : P.Assn α) (hp : P.Triple i F p M)
    (hf : ∀ a, P.Triple i (M (.ok a)) (f a) Q)
    (he : ∀ e, P.Triple i (M (.error e)) (.throw e) Q) : P.Triple i F (p.bind f) Q := by
  intro w g hI hw
  refine wp_bind (wp_mono ?_ (hp w g hI hw))
  rintro (e | a) w g hI hM
  · exact he e w g hI hM
  · exact hf a w g hI hM

theorem handle {f : S.Err → Async S α} (M : P.Assn α) (hp : P.Triple i F p M)
    (hf : ∀ e, P.Triple i (M (.error e)) (f e) Q)
    (ha : ∀ a, P.Triple i (M (.ok a)) (.ret a) Q) : P.Triple i F (p.handle f) Q := by
  intro w g hI hw
  refine wp_handle (wp_mono ?_ (hp w g hI hw))
  rintro (e | a) w g hI hM
  · exact hf e w g hI hM
  · exact ha a w g hI hM

theorem andFinally {q : Async S β} (M : P.Assn α) (hp : P.Triple i F p M)
    (hq : ∀ r, P.Triple i (M r) q fun
      | .ok _ => P.Later i (Q r)
      | .error e => P.Later i (Q (.error e))) : P.Triple i F (p.andFinally q) Q :=
  fun w g hI hw => wp_andFinally (wp_mono (fun r w g hI hM => hq r w g hI hM) (hp w g hI hw))

/-- Nothing has to be said of a program that is not run. -/
theorem never (h : ∀ w g, F w g → False) : P.Triple i F p Q :=
  fun w g _ hf => (h w g hf).elim

/-! A stable assertion that each part of a program keeps is kept by the whole. -/

theorem skip {a : α} (hF : P.Stable i F) : P.Triple i F (.ret a) fun _ => F :=
  ret hF fun _ _ _ h => h

theorem fail {e : S.Err} (hF : P.Stable i F) : P.Triple i F (.throw e : Async S α) fun _ => F :=
  throw hF fun _ _ _ h => h

/-- A program that ends at once keeps whatever asks for nothing. -/
theorem ended {a : α} : P.Triple i F (.ret a) fun _ _ _ => True :=
  pre (F := fun _ _ => True) (fun _ _ _ _ => trivial) (skip (.const _))

theorem failed {e : S.Err} : P.Triple i F (.throw e : Async S α) fun _ _ _ => True :=
  pre (F := fun _ _ => True) (fun _ _ _ _ => trivial) (fail (.const _))

theorem seq {f : α → Async S β} (hF : P.Stable i F) (hp : P.Triple i F p fun _ => F)
    (hf : ∀ a, P.Triple i F (f a) fun _ => F) : P.Triple i F (p.bind f) fun _ => F :=
  bind (fun _ => F) hp hf fun _ => fail hF

theorem rescue {f : S.Err → Async S α} (hF : P.Stable i F) (hp : P.Triple i F p fun _ => F)
    (hf : ∀ e, P.Triple i F (f e) fun _ => F) : P.Triple i F (p.handle f) fun _ => F :=
  handle (fun _ => F) hp hf fun _ => skip hF

theorem ensure {q : Async S β} (hF : P.Stable i F) (hp : P.Triple i F p fun _ => G)
    (hq : P.Triple i G q fun _ => F) : P.Triple i F (p.andFinally q) fun _ => F := by
  refine andFinally (fun _ => G) hp fun r => hq.post ?_
  rintro (e | b) w g - hf
  · exact hF.later hf
  · exact hF.later hf

end Triple

/-! ### Programs that return -/

/-- The program returns, and `G` holds of what it returns. -/
def Answers (G : α → M.World → P.Ghost → Prop) : P.Assn α :=
  fun r w g => ∃ a, r = .ok a ∧ G a w g

theorem answers_stable {G : α → M.World → P.Ghost → Prop} (hG : ∀ a, P.Stable i (G a))
    (r : Except S.Err α) : P.Stable i (Answers G r) :=
  .ex fun a => (Stable.const (r = .ok a)).and (hG a)

namespace Triple

variable {F : M.World → P.Ghost → Prop} {G G' : α → M.World → P.Ghost → Prop} {p : Async S α}

theorem answer {a : α} (hF : P.Stable i F) (h : ∀ w g, P.Inv w g → F w g → G a w g) :
    P.Triple i F (.ret a) (Answers G) :=
  ret hF fun w g hI hf => ⟨a, rfl, h w g hI hf⟩

/-- An operation that returns. -/
theorem calls {o : S.Op} {G : S.Val o → M.World → P.Ghost → Prop} (hF : P.Stable i F)
    (hG : ∀ v, P.Stable i (G v))
    (h : ∀ w g, P.Inv w g → F w g → P.atomic i o (Answers G) w g) :
    P.Triple i F (Async.perform o) (Answers G) :=
  perform hF (answers_stable hG) h

/-- Sequencing, after a program that returns. -/
theorem andThen {f : α → Async S β} {Q : P.Assn β} (hp : P.Triple i F p (Answers G))
    (hf : ∀ a, P.Triple i (G a) (f a) Q) : P.Triple i F (p.bind f) Q := by
  refine bind (Answers G) hp (fun a => ?_) fun e => ?_
  · refine pre ?_ (hf a)
    rintro w g - ⟨b, hb, hg⟩
    exact Except.ok.inj hb ▸ hg
  · refine never ?_
    rintro w g ⟨b, hb, -⟩
    simp at hb

/-- What a program that returns does not throw need not be caught. -/
theorem unthrown {f : S.Err → Async S α} (hG : ∀ a, P.Stable i (G a))
    (hp : P.Triple i F p (Answers G)) : P.Triple i F (p.handle f) (Answers G) := by
  refine handle (Answers G) hp (fun e => ?_) fun a => ?_
  · refine never ?_
    rintro w g ⟨b, hb, -⟩
    simp at hb
  · exact ret (answers_stable hG _) fun _ _ _ h => h

theorem answers_mono (h : ∀ a w g, P.Inv w g → G a w g → G' a w g)
    (hp : P.Triple i F p (Answers G)) : P.Triple i F p (Answers G') := by
  refine hp.post ?_
  rintro r w g hI ⟨a, rfl, hg⟩
  exact ⟨a, rfl, h a w g hI hg⟩

end Triple

/-! ### Soundness -/

variable (P)

/-- What is known of a pool: the invariant, and that what is left of each program
meets its postcondition. -/
structure Holds (p : Pool sys) (g : P.Ghost) : Prop where
  inv : P.Inv p.world g
  fits : P.Fits g p.tags
  acts : ∀ i a, p.acts[i]? = some a → P.wp i a.prog (P.Post i a.tag) p.world g

/-- The obligations of a protocol for the runs from the worlds satisfying `init`
by allowed actions. -/
structure Sound (init : M.World → Prop) (allowed : Pool sys → Action sys → Prop) : Prop where
  /-- The invariant holds initially. -/
  init : ∀ w, init w → ∃ g, P.Inv w g ∧ P.Fits g []
  /-- An activity that may start finds what it assumes. -/
  start : ∀ p t g, allowed p (.start t) → P.Inv p.world g → P.Fits g p.tags →
    ∃ g', P.Inv p.world g' ∧ P.Mono p.world g p.world g' ∧
      (∀ j, j < p.acts.length → P.Keep j p.world g p.world g') ∧
      P.Fits g' (p.tags ++ [t]) ∧ P.Born p.acts.length t p.world g'
  /-- Time may pass. -/
  tick : ∀ p d g, allowed p (.tick d) → P.Inv p.world g →
    P.Inv (M.elapse p.world d) g ∧ P.Mono p.world g (M.elapse p.world d) g ∧
      ∀ j, P.Keep j p.world g (M.elapse p.world d) g
  /-- What is assumed of operations follows from the restriction on the runs. -/
  canRun : ∀ p i c t o k g, allowed p (.run i c) → p.acts[i]? = some ⟨t, .await o k⟩ →
    P.Holds p g → P.CanRun p.world g i o c
  /-- Every program meets its specification. -/
  body : ∀ i t w g, P.Born i t w g → P.Inv w g → P.wp i (sys.body t) (P.Post i t) w g

variable {P}

/-- An activity that has ended has established its postcondition. -/
theorem Holds.post {p : Pool sys} {g : P.Ghost} (h : P.Holds p g) {i : ℕ} {a : Activity sys}
    (hi : p.acts[i]? = some a) {r : Except S.Err sys.Res} (hr : a.prog.result? = some r) :
    P.Post i a.tag r p.world g := by
  have hwp := h.acts i a hi
  cases hp : a.prog with
  | ret v =>
    rw [hp] at hwp hr
    simp only [Async.result?_ret, Option.some.injEq] at hr
    subst hr
    exact Later.now hwp h.inv
  | throw e =>
    rw [hp] at hwp hr
    simp only [Async.result?_throw, Option.some.injEq] at hr
    subst hr
    exact Later.now hwp h.inv
  | await o k => rw [hp] at hr; simp at hr

/-- What is asserted of an operation holds when an activity is about to perform it. -/
theorem Holds.assert {p : Pool sys} {g : P.Ghost} (h : P.Holds p g) {i : ℕ} {t : sys.Tag}
    {o : S.Op} {k : Except S.Err (S.Val o) → Async S sys.Res}
    (hi : p.acts[i]? = some ⟨t, .await o k⟩) : P.Assert i o p.world g := by
  have hwp : P.wp i (.await o k) (P.Post i t) p.world g := h.acts i _ hi
  exact (Later.now hwp h.inv).1

namespace Sound

variable {init : M.World → Prop} {allowed : Pool sys → Action sys → Prop}

/-- **What the step of an activity does**: it keeps what is known of a pool, and respects
`Mono` and what the other activities have to be kept. -/
theorem run (hP : P.Sound init allowed) {p p' : Pool sys} {g : P.Ghost} (h : P.Holds p g) {i : ℕ}
    {c : M.Choice} (ha : allowed p (.run i c)) (hn : p.next (.run i c) = some p') :
    ∃ g', P.Holds p' g' ∧ P.Mono p.world g p'.world g' ∧
      ∀ j, j < p.acts.length → j ≠ i → P.Keep j p.world g p'.world g' := by
  obtain ⟨t, o, k, w, r, ts, hi, he, rfl⟩ := Pool.next_run hn
  have hlt : i < p.acts.length := by
    by_contra hge
    rw [List.getElem?_eq_none (by omega)] at hi
    simp at hi
  have hwp : P.wp i (.await o k) (P.Post i t) p.world g := h.acts i _ hi
  obtain ⟨g', hI, hm, hk, hf, hb, hΦ⟩ :=
    (Later.now hwp h.inv).2 c w r ts (hP.canRun p i c t o k g ha hi h) he p.tags
      (by simpa [Pool.tags] using hlt) h.fits
  simp only [Pool.tags, List.length_map] at hk hb
  refine ⟨g', ⟨hI, by rw [Pool.tags_run hi]; exact hf, fun j b hj => ?_⟩, hm, hk⟩
  dsimp only at hj ⊢
  rcases Nat.lt_or_ge j p.acts.length with hjl | hjl
  · rw [List.getElem?_append_left (by simpa using hjl)] at hj
    by_cases hij : j = i
    · -- the activity that moved
      subst hij
      rw [List.getElem?_set_self hjl, Option.some.injEq] at hj
      subst hj
      exact hΦ
    · rw [List.getElem?_set_ne (Ne.symm hij)] at hj
      exact wp_move hm (hk j hjl hij) (h.acts j b hj)
  · -- an activity the operation has started
    rw [List.getElem?_append_right (by simpa using hjl), List.length_set,
      List.getElem?_map, Option.map_eq_some_iff] at hj
    obtain ⟨t', ht', rfl⟩ := hj
    have hborn := hb _ t' ht'
    rw [Nat.add_sub_cancel' hjl] at hborn
    exact hP.body j t' _ _ hborn hI

/-- **One step keeps what is known of a pool**, and respects `Mono`. -/
theorem step (hP : P.Sound init allowed) {p p' : Pool sys} {g : P.Ghost} (h : P.Holds p g)
    (hs : Pool.Step allowed p p') : ∃ g', P.Holds p' g' ∧ P.Mono p.world g p'.world g' := by
  obtain ⟨a, ha, hn⟩ := hs
  cases a with
  | start t =>
    simp only [Pool.next, Option.some.injEq] at hn
    subst hn
    obtain ⟨g', hI, hm, hk, hf, hb⟩ := hP.start p t g ha h.inv h.fits
    refine ⟨g', ⟨hI, by simpa [Pool.tags, System.begin] using hf, fun i b hi => ?_⟩, hm⟩
    dsimp only at hi ⊢
    rcases Nat.lt_or_ge i p.acts.length with hlt | hge
    · rw [List.getElem?_append_left hlt] at hi
      exact wp_move hm (hk i hlt) (h.acts i b hi)
    · -- the new activity
      rw [List.getElem?_append_right hge] at hi
      have hi0 : i - p.acts.length = 0 := by
        by_contra hne
        rw [List.getElem?_eq_none (by simp; omega)] at hi
        simp at hi
      rw [hi0] at hi
      simp only [List.getElem?_cons_zero, Option.some.injEq] at hi
      subst hi
      have : i = p.acts.length := by omega
      subst this
      exact hP.body _ t _ _ hb hI
  | tick d =>
    simp only [Pool.next, Option.some.injEq] at hn
    subst hn
    obtain ⟨hI, hm, hk⟩ := hP.tick p d g ha h.inv
    exact ⟨g, ⟨hI, h.fits, fun i b hi => wp_move hm (hk i) (h.acts i b hi)⟩, hm⟩
  | run i c =>
    obtain ⟨g', hH, hm, -⟩ := hP.run h ha hn
    exact ⟨g', hH, hm⟩

/-- **Soundness along a run.** -/
theorem runs (hP : P.Sound init allowed) {p p' : Pool sys} {g : P.Ghost} (h : P.Holds p g)
    (hs : Pool.Runs allowed p p') : ∃ g', P.Holds p' g' ∧ P.Mono p.world g p'.world g' := by
  induction hs with
  | refl => exact ⟨g, h, P.mono_refl _ _⟩
  | tail _ hst ih =>
    obtain ⟨g₁, h₁, hm₁⟩ := ih
    obtain ⟨g₂, h₂, hm₂⟩ := hP.step h₁ hst
    exact ⟨g₂, h₂, P.mono_trans hm₁ hm₂⟩

/-- **Soundness**: what the protocol says holds of every reachable pool. -/
theorem reachable (hP : P.Sound init allowed) {p : Pool sys}
    (h : Pool.Reachable init allowed p) : ∃ g, P.Holds p g := by
  obtain ⟨w, hw, hr⟩ := h
  obtain ⟨g, hg, hf⟩ := hP.init w hw
  obtain ⟨g', hg', -⟩ := hP.runs (p := ⟨w, []⟩) ⟨hg, hf, fun i a hi => by simp at hi⟩ hr
  exact ⟨g', hg'⟩

end Sound

end Protocol

end CqrsSaga
