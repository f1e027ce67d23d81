import CqrsSaga.Async.Pool

/-!
# What programs do, given what they are told

Which operations a program comes to await depends on the answers it is given.  Where facts about
the world, once true, stay true, an answer may be judged by any later world: a row that
was read is still stored there, under the same keys.  So all programs of a pool can be looked at in
the light of one world, the last one, and what they await is then a matter of the programs
alone, not of the steps the others take in between.

## Main definitions

* `Async.Along` — what a program awaits and how it ends, as long as it is told what `Q` allows.
* `Outlook`, `Outlook.Approves` — how the activities of a pool are judged by a later world.

## Main results

* `Async.Along.bind`, `Along.handle`, `Along.andFinally` — the rules of the combinators.
* `Outlook.reachable_inv` — **in every reachable pool all programs are as they should be, in the
  light of any later world.**
-/

namespace CqrsSaga

variable {S : Interface}

namespace Async

/-- Every operation the program comes to await satisfies `P`, and it ends as `R` says, as long as
it is told what `Q` allows. -/
def Along {α : Type} (P : S.Op → Prop) (Q : (o : S.Op) → Except S.Err (S.Val o) → Prop)
    (R : Except S.Err α → Prop) : Async S α → Prop
  | ret a => R (.ok a)
  | throw e => R (.error e)
  | await o k => P o ∧ ∀ r, Q o r → Along P Q R (k r)

namespace Along

variable {α β : Type} {P P' : S.Op → Prop} {Q : (o : S.Op) → Except S.Err (S.Val o) → Prop}
  {R R' : Except S.Err α → Prop} {p : Async S α}

theorem mono (h : p.Along P Q R) (hP : ∀ o, P o → P' o) (hR : ∀ r, R r → R' r) :
    p.Along P' Q R' := by
  induction p with
  | ret a => exact hR _ h
  | throw e => exact hR _ h
  | await o k ih => exact ⟨hP o h.1, fun r hr => ih r (h.2 r hr)⟩

theorem post (h : p.Along P Q R) (hR : ∀ r, R r → R' r) : p.Along P Q R' :=
  h.mono (fun _ h => h) hR

/-- A program all of whose operations satisfy `P`. -/
theorem of_only (h : p.Only P) (hR : ∀ r, R r) : p.Along P Q R := by
  induction p with
  | ret a => exact hR _
  | throw e => exact hR _
  | await o k ih => exact ⟨h.1, fun r _ => ih r (h.2 r)⟩

/-- What a program does whatever it is told. -/
theorem only (h : p.Along P (fun _ _ => True) R) : p.Only P := by
  induction p with
  | ret a => exact trivial
  | throw e => exact trivial
  | await o k ih => exact ⟨h.1, fun r => ih r (h.2 r trivial)⟩

theorem perform {o : S.Op} {R : Except S.Err (S.Val o) → Prop} (h : P o) (hR : ∀ r, Q o r → R r) :
    (perform o).Along P Q R := by
  refine ⟨h, fun r hr => ?_⟩
  cases r with
  | ok v => exact hR _ hr
  | error e => exact hR _ hr

/-- Sequencing. -/
theorem bind {f : α → Async S β} {R : Except S.Err β → Prop} (M : Except S.Err α → Prop)
    (hp : p.Along P Q M) (hf : ∀ a, M (.ok a) → (f a).Along P Q R)
    (he : ∀ e, M (.error e) → R (.error e)) :
    (p.bind f).Along P Q R := by
  induction p with
  | ret a => exact hf a hp
  | throw e => exact he e hp
  | await o k ih => exact ⟨hp.1, fun r hr => ih r (hp.2 r hr)⟩

/-- `try … catch`. -/
theorem handle {f : S.Err → Async S α} (M : Except S.Err α → Prop) (hp : p.Along P Q M)
    (hf : ∀ e, M (.error e) → (f e).Along P Q R) (ha : ∀ a, M (.ok a) → R (.ok a)) :
    (p.handle f).Along P Q R := by
  induction p with
  | ret a => exact ha a hp
  | throw e => exact hf e hp
  | await o k ih => exact ⟨hp.1, fun r hr => ih r (hp.2 r hr)⟩

/-- `try … finally`. -/
theorem andFinally {q : Async S β} (hp : p.Along P Q R)
    (hq : q.Along P Q fun r => ∀ e, r = .error e → R (.error e)) :
    (p.andFinally q).Along P Q R := by
  induction p with
  | ret a => exact bind _ hq (fun _ _ => hp) fun e he => he e rfl
  | throw e => exact bind _ hq (fun _ _ => hp) fun e he => he e rfl
  | await o k ih => exact ⟨hp.1, fun r hr => ih r (hp.2 r hr)⟩

/-! A program whose end does not matter. -/

theorem seq {f : α → Async S β} (hp : p.Along P Q fun _ => True)
    (hf : ∀ a, (f a).Along P Q fun _ => True) : (p.bind f).Along P Q fun _ => True :=
  bind _ hp (fun a _ => hf a) fun _ _ => trivial

theorem rescue {f : S.Err → Async S α} (hp : p.Along P Q fun _ => True)
    (hf : ∀ e, (f e).Along P Q fun _ => True) : (p.handle f).Along P Q fun _ => True :=
  handle _ hp (fun e _ => hf e) fun _ _ => trivial

/-! A program that returns. -/

theorem returning {f : α → Async S β} (hp : p.Along P Q fun r => ∃ a, r = .ok a)
    (hf : ∀ a, (f a).Along P Q fun r => ∃ b, r = .ok b) :
    (p.bind f).Along P Q fun r => ∃ b, r = .ok b := by
  refine bind _ hp (fun a _ => hf a) fun e he => ?_
  obtain ⟨a, ha⟩ := he
  cases ha

/-- A program that has ended has ended so. -/
theorem result {r : Except S.Err α} (h : p.Along P Q R) (hr : p.result? = some r) : R r := by
  cases p with
  | ret a => exact Option.some.inj hr ▸ h
  | throw e => exact Option.some.inj hr ▸ h
  | await o k => cases hr

end Along

end Async

variable {M : Machine S}

/-- How the activities of a system are judged by a later world. -/
structure Outlook (sys : System M) where
  /-- The world comes before the other one. -/
  Before : M.World → M.World → Prop
  /-- What an activity is started as. -/
  Born : M.World → sys.Tag → Prop
  /-- What an activity may await. -/
  Does : M.World → ℕ → sys.Tag → S.Op → Prop
  /-- What an activity may be told. -/
  Told : M.World → ℕ → sys.Tag → (o : S.Op) → Except S.Err (S.Val o) → Prop
  /-- What an activity may answer. -/
  Ends : M.World → sys.Tag → Except S.Err sys.Res → Prop
  trans : ∀ {w w' W}, Before w w' → Before w' W → Before w W
  /-- Whatever is started as it should be does what it should. -/
  body : ∀ {W t}, Born W t → ∀ i, (sys.body t).Along (Does W i t) (Told W i t) (Ends W t)

/-- In the light of `W`, all activities were started as they should be, await what they should, and
answer what they may. -/
def Outlook.Approves {sys : System M} (V : Outlook sys) (W : M.World) (p : Pool sys) : Prop :=
  ∀ (i : ℕ) (a : Activity sys), p.acts[i]? = some a →
    V.Born W a.tag ∧ a.prog.Along (V.Does W i a.tag) (V.Told W i a.tag) (V.Ends W a.tag)

/-- **In every reachable pool all programs are as they should be**, in the light of any later
world, and so is the world, if what an activity may await keeps it so. -/
theorem Outlook.reachable_inv {sys : System M} (V : Outlook sys) {I init : M.World → Prop}
    {allowed : Pool sys → Action sys → Prop} (hrefl : ∀ w, V.Before w w) (hinit : ∀ w, init w → I w)
    (hstart : ∀ p t, allowed p (.start t) → ∀ W, V.Born W t)
    (htick : ∀ w d, I w → I (M.elapse w d) ∧ V.Before w (M.elapse w d))
    (hrun : ∀ p, Pool.Reachable init allowed p → I p.world → ∀ i t o k c w r ts,
      allowed p (.run i c) → p.acts[i]? = some ⟨t, .await o k⟩ → V.Does p.world i t o →
      M.exec p.world i o c = some (w, r, ts) →
      I w ∧ V.Before p.world w ∧ ∀ W, V.Before w W → V.Told W i t o r ∧
        (V.Does W i t o → ∀ t' ∈ ts.filterMap sys.spawned, V.Born W t'))
    {p : Pool sys} (hp : Pool.Reachable init allowed p) :
    I p.world ∧ ∀ W, V.Before p.world W → V.Approves W p := by
  refine Pool.Reachable.induct (P := fun p => I p.world ∧ ∀ W, V.Before p.world W → V.Approves W p)
    (fun w hw => ⟨hinit w hw, fun W _ i a hi => by simp at hi⟩) ?_ hp
  rintro p p' hp ⟨hI, ih⟩ ⟨act, hact, hn⟩
  cases act with
  | start t =>
    obtain rfl := Option.some.inj hn
    refine ⟨hI, fun W hW i a hi => ?_⟩
    dsimp only at hi
    rcases Nat.lt_or_ge i p.acts.length with hlt | hge
    · rw [List.getElem?_append_left hlt] at hi
      exact ih W hW i a hi
    · obtain rfl : a = sys.begin t := List.mem_singleton.mp
        (List.mem_of_getElem? (List.getElem?_append_right hge ▸ hi))
      exact ⟨hstart p t hact W, V.body (hstart p t hact W) i⟩
  | tick d =>
    obtain rfl := Option.some.inj hn
    obtain ⟨hI', hb⟩ := htick p.world d hI
    exact ⟨hI', fun W hW i a hi => ih W (V.trans hb hW) i a hi⟩
  | run j c =>
    obtain ⟨t, o, k, w, r, ts, hj, he, rfl⟩ := Pool.next_run hn
    have hdoes : V.Does p.world j t o := (ih _ (hrefl _) j _ hj).2.1
    obtain ⟨hI', hb, htold⟩ := hrun p hp hI j t o k c w r ts hact hj hdoes he
    refine ⟨hI', fun W hW i a hi => ?_⟩
    obtain ⟨htold, hborn⟩ := htold W hW
    have hlt := (List.getElem?_eq_some_iff.mp hj).1
    have hold := ih W (V.trans hb hW)
    dsimp only at hi
    rcases Nat.lt_or_ge i p.acts.length with hil | hil
    · rw [List.getElem?_append_left (by simpa using hil)] at hi
      by_cases hij : i = j
      · -- the activity that moved
        subst hij
        rw [List.getElem?_set_self hil, Option.some.injEq] at hi
        subst hi
        obtain ⟨htag, hdo, hk⟩ := hold i _ hj
        exact ⟨htag, hk r htold⟩
      · rw [List.getElem?_set_ne (Ne.symm hij)] at hi
        exact hold i a hi
    · -- an activity the operation has started
      rw [List.getElem?_append_right (by simpa using hil), List.getElem?_map,
        Option.map_eq_some_iff] at hi
      obtain ⟨t', ht', rfl⟩ := hi
      have hmem := hborn (hold j _ hj).2.1 t' (List.mem_of_getElem? ht')
      exact ⟨hmem, V.body hmem i⟩

/-- The same, with nothing to be kept of the world. -/
theorem Outlook.reachable {sys : System M} (V : Outlook sys) {init : M.World → Prop}
    {allowed : Pool sys → Action sys → Prop} (hrefl : ∀ w, V.Before w w)
    (hstart : ∀ p t, allowed p (.start t) → ∀ W, V.Born W t)
    (htick : ∀ w d, V.Before w (M.elapse w d))
    (hrun : ∀ p, Pool.Reachable init allowed p → ∀ i t o k c w r ts, allowed p (.run i c) →
      p.acts[i]? = some ⟨t, .await o k⟩ → V.Does p.world i t o →
      M.exec p.world i o c = some (w, r, ts) →
      V.Before p.world w ∧ ∀ W, V.Before w W → V.Told W i t o r ∧
        (V.Does W i t o → ∀ t' ∈ ts.filterMap sys.spawned, V.Born W t'))
    {p : Pool sys} (hp : Pool.Reachable init allowed p) :
    ∀ W, V.Before p.world W → V.Approves W p :=
  (V.reachable_inv (I := fun _ => True) hrefl (fun _ _ => trivial) hstart
    (fun w d _ => ⟨trivial, htick w d⟩)
    (fun p hp _ i t o k c w r ts ha hi hd he => ⟨trivial, hrun p hp i t o k c w r ts ha hi hd he⟩)
    hp).2

end CqrsSaga
