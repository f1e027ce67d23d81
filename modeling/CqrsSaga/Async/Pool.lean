import Mathlib.Data.Nat.Notation
import Mathlib.Logic.Relation
import CqrsSaga.Async.Prog

/-!
# Pools of asynchronous activities

Requests, event handlers and `setImmediate` callbacks all run at once, on any
number of nodes, against one shared world.  A `Machine` says what one operation
does to that world; a `System` says which activities there are and which program
each of them runs; a `Pool` is a world together with the activities started so
far, each with what is left of its program.

One step of a pool starts an activity, lets one activity perform the operation it
awaits, or lets time pass.  Everything a step leaves open — whether the operation
fails, which identifier is drawn, how a coin falls — is in the `Action`, so a step
is a function, and a run is a list of actions.  Which actions may be taken is a
parameter: every assumption on a run (no failing operation, no expiring lock) is
such an `allowed` relation.

## Main definitions

* `Machine`, `System`, `Pool`, `Action` — the machine and its states.
* `Pool.next` — one step, as a function of the action.
* `Pool.Step`, `Pool.Runs`, `Pool.Reachable` — steps, runs and reachable pools.
* `Pool.play` — the pool a list of actions leads to.

## Main results

* `Pool.next_run` — what performing one operation does to a pool.
* `Pool.Reachable.induct`, `Pool.Reachable.acts` — what holds of every reachable pool, and of every
  activity of one.
* `Pool.runs_of_play` — a list of allowed actions is a run.
-/

namespace CqrsSaga

/-- A shared world on which the operations of `S` act. -/
structure Machine (S : Interface) where
  /-- The shared state. -/
  World : Type
  /-- What one operation leaves to chance. -/
  Choice : Type
  /-- What an operation may hand over to be run as an activity of its own. -/
  Task : Type
  /-- An advance of time. -/
  Tick : Type
  /-- Activity `i` performs an operation.  `none`: it cannot be performed now, or
  not with this choice. -/
  exec : World → ℕ → (o : S.Op) → Choice → Option (World × Except S.Err (S.Val o) × List Task)
  /-- Time passes. -/
  elapse : World → Tick → World

variable {S : Interface}

/-- The activities that run on a machine. -/
structure System (M : Machine S) where
  /-- The kinds of activity, with their arguments. -/
  Tag : Type
  /-- What an activity returns. -/
  Res : Type
  /-- The program of an activity. -/
  body : Tag → Async S Res
  /-- The activity a task handed over by an operation becomes; `none` where the
  task lies outside the system. -/
  spawned : M.Task → Option Tag

variable {M : Machine S}

/-- An activity: what it was started as, and what is left of its program. -/
structure Activity (sys : System M) where
  /-- What the activity was started as. -/
  tag : sys.Tag
  /-- What is left of its program. -/
  prog : Async S sys.Res

/-- The activity a tag starts as. -/
def System.begin (sys : System M) (t : sys.Tag) : Activity sys := ⟨t, sys.body t⟩

/-- A world and the activities started so far, each known by its position. -/
structure Pool (sys : System M) where
  /-- The shared state. -/
  world : M.World
  /-- The activities, in the order they were started. -/
  acts : List (Activity sys)

/-- A step of a pool, with everything it leaves to chance. -/
inductive Action (sys : System M)
  /-- An activity starts. -/
  | start (t : sys.Tag)
  /-- Activity `i` performs the operation it awaits. -/
  | run (i : ℕ) (c : M.Choice)
  /-- Time passes. -/
  | tick (d : M.Tick)

namespace Pool

variable {sys : System M}

/-- One step of a pool. -/
def next (p : Pool sys) : Action sys → Option (Pool sys)
  | .start t => some { p with acts := p.acts ++ [sys.begin t] }
  | .run i c =>
    match p.acts[i]? with
    | some ⟨t, .await o k⟩ =>
      match M.exec p.world i o c with
      | some (w, r, ts) =>
        some ⟨w, p.acts.set i ⟨t, k r⟩ ++ (ts.filterMap sys.spawned).map sys.begin⟩
      | none => none
    | _ => none
  | .tick d => some { p with world := M.elapse p.world d }

/-- **What performing one operation does to a pool.** -/
theorem next_run {p p' : Pool sys} {i : ℕ} {c : M.Choice} (h : p.next (.run i c) = some p') :
    ∃ t o k w r ts, p.acts[i]? = some ⟨t, .await o k⟩ ∧ M.exec p.world i o c = some (w, r, ts) ∧
      p' = ⟨w, p.acts.set i ⟨t, k r⟩ ++ (ts.filterMap sys.spawned).map sys.begin⟩ := by
  unfold next at h
  cases hi : p.acts[i]? with
  | none => simp [hi] at h
  | some a =>
    obtain ⟨t, prog⟩ := a
    cases prog with
    | ret a => simp [hi] at h
    | throw e => simp [hi] at h
    | await o k =>
      cases he : M.exec p.world i o c with
      | none => simp [hi, he] at h
      | some s =>
        obtain ⟨w, r, ts⟩ := s
        simp only [hi, he, Option.some.injEq] at h
        exact ⟨t, o, k, w, r, ts, rfl, he, h.symm⟩

/-- What performing one operation does to the activity that performs it. -/
theorem next_run_at {p p' : Pool sys} {i : ℕ} {c : M.Choice} {t : sys.Tag} {o : S.Op}
    {k : Except S.Err (S.Val o) → Async S sys.Res} (hi : p.acts[i]? = some ⟨t, .await o k⟩)
    (h : p.next (.run i c) = some p') :
    ∃ r ts, M.exec p.world i o c = some (p'.world, r, ts) ∧ p'.acts[i]? = some ⟨t, k r⟩ := by
  obtain ⟨t', o', k', w, r, ts, hi', he, rfl⟩ := next_run h
  rw [hi, Option.some.injEq, Activity.mk.injEq] at hi'
  obtain ⟨rfl, hprog⟩ := hi'
  injection hprog with ho hk
  subst ho
  subst hk
  refine ⟨r, ts, he, ?_⟩
  have hlt := (List.getElem?_eq_some_iff.mp hi).1
  rw [List.getElem?_append_left (by simpa using hlt), List.getElem?_set_self hlt]

/-- What the activities of a pool were started as. -/
def tags (p : Pool sys) : List sys.Tag := p.acts.map Activity.tag

/-- An activity that moves keeps its tag, and what it starts comes after the others. -/
theorem tags_run {p : Pool sys} {i : ℕ} {t : sys.Tag} {q q' : Async S sys.Res}
    (hi : p.acts[i]? = some ⟨t, q⟩) {w : M.World} {us : List sys.Tag} :
    tags ⟨w, p.acts.set i ⟨t, q'⟩ ++ us.map sys.begin⟩ = p.tags ++ us := by
  have hset : (p.acts.set i ⟨t, q'⟩).map Activity.tag = p.acts.map Activity.tag := by
    obtain ⟨hlt, hget⟩ := List.getElem?_eq_some_iff.mp hi
    have ht : t = (p.acts.map Activity.tag).get ⟨i, by simpa using hlt⟩ := by simp [hget]
    rw [List.map_set, ht, List.get_eq_getElem, List.set_getElem_self]
  simp only [tags, List.map_append, hset, List.map_map]
  congr 1
  exact List.map_id us

/-- Tags stay. -/
theorem tags_next {p p' : Pool sys} {a : Action sys}
    (h : p.next a = some p') : p.tags <+: p'.tags := by
  cases a with
  | start t =>
    obtain rfl := Option.some.inj h
    exact ⟨[t], by simp [tags, System.begin]⟩
  | tick d =>
    obtain rfl := Option.some.inj h
    exact List.prefix_rfl
  | run i c =>
    obtain ⟨t, o, k, w, r, ts, hi, -, rfl⟩ := next_run h
    rw [tags_run hi]
    exact List.prefix_append ..

/-- The operation activity `i` is about to perform. -/
def awaits (p : Pool sys) (i : ℕ) : Option S.Op := p.acts[i]?.bind fun a => a.prog.awaited?

/-- What activity `i` has returned or thrown. -/
def result? (p : Pool sys) (i : ℕ) : Option (Except S.Err sys.Res) :=
  p.acts[i]?.bind fun a => a.prog.result?

theorem awaits_eq_some {p : Pool sys} {i : ℕ} {o : S.Op} :
    p.awaits i = some o ↔ ∃ t k, p.acts[i]? = some ⟨t, .await o k⟩ := by
  constructor
  · intro h
    obtain ⟨⟨t, q⟩, hi, hq⟩ := Option.bind_eq_some_iff.mp h
    cases q with
    | await o' k =>
      obtain rfl := Option.some.inj hq
      exact ⟨t, k, hi⟩
    | ret a => simp [Async.awaited?] at hq
    | throw e => simp [Async.awaited?] at hq
  · rintro ⟨t, k, hi⟩
    simp [awaits, hi, Async.awaited?]

/-- A step by one of the allowed actions. -/
def Step (allowed : Pool sys → Action sys → Prop) (p p' : Pool sys) : Prop :=
  ∃ a, allowed p a ∧ p.next a = some p'

/-- Any number of allowed steps. -/
def Runs (allowed : Pool sys → Action sys → Prop) : Pool sys → Pool sys → Prop :=
  Relation.ReflTransGen (Step allowed)

/-- The pools allowed steps lead to from a world satisfying `init` in which
nothing has been started. -/
def Reachable (init : M.World → Prop) (allowed : Pool sys → Action sys → Prop)
    (p : Pool sys) : Prop :=
  ∃ w, init w ∧ Runs allowed ⟨w, []⟩ p

/-- A run may be looked at under a weaker restriction. -/
theorem Runs.mono {allowed allowed' : Pool sys → Action sys → Prop}
    (h : ∀ p a, allowed p a → allowed' p a) {p p' : Pool sys} (hr : Runs allowed p p') :
    Runs allowed' p p' := by
  induction hr with
  | refl => exact Relation.ReflTransGen.refl
  | tail _ hs ih =>
    obtain ⟨a, ha, hn⟩ := hs
    exact ih.tail ⟨a, h _ a ha, hn⟩

theorem Reachable.mono {init : M.World → Prop} {allowed allowed' : Pool sys → Action sys → Prop}
    (h : ∀ p a, allowed p a → allowed' p a) {p : Pool sys} (hp : Reachable init allowed p) :
    Reachable init allowed' p := by
  obtain ⟨w, hw, hr⟩ := hp
  exact ⟨w, hw, hr.mono h⟩

theorem Reachable.step {init : M.World → Prop} {allowed : Pool sys → Action sys → Prop}
    {p p' : Pool sys} (h : Reachable init allowed p) (hs : Step allowed p p') :
    Reachable init allowed p' := by
  obtain ⟨w, hw, hr⟩ := h
  exact ⟨w, hw, hr.tail hs⟩

theorem Reachable.runs {init : M.World → Prop} {allowed : Pool sys → Action sys → Prop}
    {p p' : Pool sys} (h : Reachable init allowed p) (hs : Runs allowed p p') :
    Reachable init allowed p' := by
  obtain ⟨w, hw, hr⟩ := h
  exact ⟨w, hw, hr.trans hs⟩

/-- **A property of the initial pools that every allowed step from a reachable
pool keeps holds of every reachable pool.** -/
theorem Reachable.induct {init : M.World → Prop} {allowed : Pool sys → Action sys → Prop}
    {P : Pool sys → Prop} (h0 : ∀ w, init w → P ⟨w, []⟩)
    (hs : ∀ p p', Reachable init allowed p → P p → Step allowed p p' → P p')
    {p : Pool sys} (h : Reachable init allowed p) : P p := by
  obtain ⟨w, hw, hr⟩ := h
  induction hr with
  | refl => exact h0 w hw
  | tail hr hst ih => exact hs _ _ ⟨w, hw, hr⟩ ih hst

/-- What is known of every reachable pool may be assumed of the actions of a run. -/
theorem Reachable.assuming {init : M.World → Prop} {allowed Q : Pool sys → Action sys → Prop}
    (hQ : ∀ p a, Reachable init allowed p → allowed p a → Q p a) {p : Pool sys}
    (h : Reachable init allowed p) : Reachable init (fun p a => allowed p a ∧ Q p a) p := by
  refine Reachable.induct (P := Reachable init fun p a => allowed p a ∧ Q p a)
    (fun w hw => ⟨w, hw, .refl⟩) ?_ h
  rintro p p' hp hp' ⟨a, ha, hn⟩
  exact hp'.step ⟨a, ⟨ha, hQ p a hp ha⟩, hn⟩

/-- **What every activity starts with, and no operation of its own takes from it, holds of all
activities.** -/
theorem Reachable.acts {init : M.World → Prop} {allowed : Pool sys → Action sys → Prop}
    {P : Activity sys → Prop} (hstart : ∀ p t, allowed p (.start t) → P (sys.begin t))
    (hspawn : ∀ u t, sys.spawned u = some t → P (sys.begin t))
    (hstep : ∀ t o k r, P ⟨t, .await o k⟩ → P ⟨t, k r⟩) {p : Pool sys}
    (h : Reachable init allowed p) : ∀ a ∈ p.acts, P a := by
  refine Reachable.induct (P := fun p => ∀ a ∈ p.acts, P a) (fun w _ a ha => by simp at ha) ?_ h
  rintro p p' - hp ⟨act, hact, hn⟩
  cases act with
  | start t =>
    obtain rfl := Option.some.inj hn
    intro a ha
    rcases List.mem_append.mp ha with ha | ha
    · exact hp a ha
    · exact List.mem_singleton.mp ha ▸ hstart p t hact
  | tick d =>
    obtain rfl := Option.some.inj hn
    exact hp
  | run i c =>
    obtain ⟨t, o, k, w, r, ts, hi, -, rfl⟩ := next_run hn
    intro a ha
    rcases List.mem_append.mp ha with ha | ha
    · rcases List.mem_or_eq_of_mem_set ha with ha | rfl
      · exact hp a ha
      · exact hstep t o k r (hp _ (List.mem_of_getElem? hi))
    · obtain ⟨t', ht', rfl⟩ := List.mem_map.mp ha
      obtain ⟨u, -, hu⟩ := List.mem_filterMap.mp ht'
      exact hspawn u t' hu

/-- What is left of a program awaits no more than the whole of it. -/
theorem Reachable.only {init : M.World → Prop} {allowed : Pool sys → Action sys → Prop}
    {P : sys.Tag → S.Op → Prop} (hP : ∀ t, (sys.body t).Only (P t)) {p : Pool sys}
    (h : Reachable init allowed p) : ∀ a ∈ p.acts, a.prog.Only (P a.tag) :=
  h.acts (P := fun a => a.prog.Only (P a.tag)) (fun _ t _ => hP t) (fun _ t _ => hP t)
    fun _ _ _ r ha => ha.2 r

/-- Nothing is left to run. -/
def Quiescent (p : Pool sys) : Prop := ∀ a ∈ p.acts, a.prog.awaited? = none

instance (p : Pool sys) : Decidable p.Quiescent :=
  inferInstanceAs (Decidable (∀ a ∈ p.acts, a.prog.awaited? = none))

/-! ### Playing a list of actions -/

/-- The pool a list of allowed actions leads to. -/
def play (allowed : Pool sys → Action sys → Prop) [∀ p a, Decidable (allowed p a)] :
    Pool sys → List (Action sys) → Option (Pool sys)
  | p, [] => some p
  | p, a :: as =>
    if allowed p a then
      match p.next a with
      | some p' => play allowed p' as
      | none => none
    else none

theorem runs_of_play {allowed : Pool sys → Action sys → Prop} [∀ p a, Decidable (allowed p a)] :
    ∀ (as : List (Action sys)) (p p' : Pool sys), play allowed p as = some p' →
      Runs allowed p p' := by
  intro as
  induction as with
  | nil =>
    intro p p' h
    simp only [play, Option.some.injEq] at h
    subst h
    exact Relation.ReflTransGen.refl
  | cons a as ih =>
    intro p p' h
    rw [play] at h
    split at h
    · next ha =>
      cases hn : p.next a with
      | none => simp [hn] at h
      | some q =>
        simp only [hn] at h
        exact Relation.ReflTransGen.head ⟨a, ha, hn⟩ (ih q p' h)
    · simp at h

/-- What has been played goes on for ever by letting time pass. -/
theorem exists_course_of_play {allowed : Pool sys → Action sys → Prop}
    [∀ p a, Decidable (allowed p a)] (d : M.Tick) : ∀ (as : List (Action sys)) (p : Pool sys),
      (play allowed p as).isSome → ∃ f : ℕ → Pool sys,
        f 0 = p ∧ ∀ n, (f n).next (as[n]?.getD (.tick d)) = some (f (n + 1)) := by
  intro as
  induction as with
  | nil =>
    intro p _
    exact ⟨fun n => n.rec p fun _ q => ⟨M.elapse q.world d, q.acts⟩, rfl, fun n => rfl⟩
  | cons a as ih =>
    intro p h
    rw [play] at h
    split at h
    · cases hn : p.next a with
      | none => simp [hn] at h
      | some q =>
        simp only [hn] at h
        obtain ⟨f, rfl, hf⟩ := ih q h
        refine ⟨fun n => n.casesOn p f, rfl, fun n => ?_⟩
        cases n with
        | zero => exact hn
        | succ n => exact hf n
    · simp at h

/-- Tags stay along a run. -/
theorem tags_runs {allowed : Pool sys → Action sys → Prop} {p p' : Pool sys}
    (h : Runs allowed p p') : p.tags <+: p'.tags := by
  induction h with
  | refl => exact List.prefix_rfl
  | tail _ hs ih =>
    obtain ⟨a, -, hn⟩ := hs
    exact ih.trans (tags_next hn)

/-- On the way to a pool nothing is started but what has been started there. -/
theorem Reachable.within {init : M.World → Prop} {allowed : Pool sys → Action sys → Prop}
    {p : Pool sys} (h : Reachable init allowed p) : Reachable init (fun q a => allowed q a ∧
      ∃ q', q.next a = some q' ∧ q'.tags <+: p.tags) p := by
  obtain ⟨w, hw, hrun⟩ := h
  refine ⟨w, hw, ?_⟩
  generalize (⟨w, []⟩ : Pool sys) = q at hrun ⊢
  induction hrun using Relation.ReflTransGen.head_induction_on with
  | refl => exact Relation.ReflTransGen.refl
  | head hs hr ih =>
    obtain ⟨a, ha, hn⟩ := hs
    exact Relation.ReflTransGen.head ⟨a, ⟨ha, _, hn, tags_runs hr⟩, hn⟩ ih

/-- The activity that is started first keeps its place. -/
theorem tags_of_play_start {allowed : Pool sys → Action sys → Prop}
    [∀ p a, Decidable (allowed p a)] {p p' : Pool sys} {t : sys.Tag} {as : List (Action sys)}
    (h : play allowed p (.start t :: as) = some p') : p'.tags[p.acts.length]? = some t := by
  rw [play] at h
  split at h
  · obtain ⟨ts, hts⟩ := tags_runs (runs_of_play as _ p' h)
    rw [← hts]
    simp [tags, System.begin]
  · cases h

/-- The pool a list of allowed actions leads to is reachable. -/
theorem reachable_of_play {init : M.World → Prop} {allowed : Pool sys → Action sys → Prop}
    [∀ p a, Decidable (allowed p a)] {w : M.World} (hw : init w) {as : List (Action sys)}
    (h : (play allowed ⟨w, []⟩ as).isSome) :
    Reachable init allowed ((play allowed ⟨w, []⟩ as).get h) :=
  ⟨w, hw, runs_of_play as _ _ (Option.some_get h).symm⟩

end Pool

end CqrsSaga
