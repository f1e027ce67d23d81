import CqrsSaga.Async.Protocol

/-!
# What activities answer

What an activity may answer depends on the world it was started in: a row that was stored then, and
that nobody deletes, is one it finds.  A contract says which world may come after which, and
what an activity of each kind may answer that was started in one world and has ended in a later
one.  The worlds the activities were started in are kept as a ghost state, so that a program is
verified against the one its own activity was started in.  Whoever is started later on in a run
was started in a later world.

## Main definitions

* `Contract` — what lasts, and what activities may answer.
* `Contract.protocol` — the worlds the activities were started in as a protocol.
* `Contract.Serves` — what a program does for an activity that was started in a given world.

## Main results

* `Contract.Serves.call`, `Serves.bind` — the rules.
* `Contract.sound` — the contract is kept if every program does what its activity is to do.
* `Contract.inv`, `Contract.ended`, `Contract.since` — **what holds in every reachable state, and
  what was answered, also by those that were started after a given state.**
-/

namespace CqrsSaga

variable {S : Interface} {M : Machine S}

/-- What the activities of a system may rely on, and what they may answer. -/
structure Contract (sys : System M) where
  /-- The second world may come after the first one. -/
  Before : M.World → M.World → Prop
  /-- What holds of the world, given what has been started. -/
  Inv : M.World → List sys.Tag → Prop
  /-- What has to hold of an operation that is about to be performed. -/
  Asserts : M.World → List sys.Tag → S.Op → Prop
  /-- What is known of an operation that is performed. -/
  Can : M.World → ℕ → S.Op → M.Choice → Prop
  /-- What an activity may answer that was started in the first world, in the light of the second
  one. -/
  Meets : M.World → sys.Tag → Except S.Err sys.Res → M.World → Prop
  refl : ∀ w, Before w w
  trans : ∀ {w w' w''}, Before w w' → Before w' w'' → Before w w''
  start : ∀ {w l} t, Inv w l → Inv w (l ++ [t])
  tick : ∀ {w l} d, Inv w l → Before w (M.elapse w d) ∧ Inv (M.elapse w d) l
  step : ∀ {w l i o c w' r ts}, Inv w l → Asserts w l o → Can w i o c →
    M.exec w i o c = some (w', r, ts) → Before w w' ∧ Inv w' (l ++ ts.filterMap sys.spawned)

namespace Contract

variable {sys : System M} (C : Contract sys)

/-- Who has been started, and in which world. -/
abbrev Starts (sys : System M) := List (M.World × sys.Tag)

/-- The worlds the activities were started in as a ghost state. -/
def protocol : Protocol sys where
  Ghost := Starts sys
  Inv w g := C.Inv w (g.map Prod.snd)
  Mono w g w' g' := C.Before w w' ∧ ∃ new, g' = g ++ new ∧ ∀ e ∈ new, C.Before w e.1
  Keep _ _ _ _ _ := True
  CanRun w _ i o c := C.Can w i o c
  Assert _ o w g := C.Asserts w (g.map Prod.snd) o
  Fits g l := g.map Prod.snd = l
  Born i t w g := ∃ W, g[i]? = some (W, t) ∧ C.Before W w
  Post i t r w g := ∃ W, g[i]? = some (W, t) ∧ C.Meets W t r w
  mono_refl w g := ⟨C.refl w, [], (List.append_nil g).symm, fun e he => absurd he List.not_mem_nil⟩
  mono_trans := by
    intro w g w' g' w'' g'' h h'
    obtain ⟨hw, new, rfl, hnew⟩ := h
    obtain ⟨hw', new', rfl, hnew'⟩ := h'
    refine ⟨C.trans hw hw', new ++ new', List.append_assoc .., fun e he => ?_⟩
    rcases List.mem_append.mp he with he | he
    · exact hnew e he
    · exact C.trans hw (hnew' e he)
  keep_refl _ _ _ := trivial
  keep_trans _ _ := trivial

/-- A property of the world that no step takes away. -/
def Lasts (F : M.World → Prop) : Prop :=
  ∀ ⦃w w' : M.World⦄ ⦃l : List sys.Tag⦄, C.Before w w' → C.Inv w' l → F w → F w'

/-- Activity `i` was started as `t` in the world `W`, and now `F` holds. -/
def Of (i : ℕ) (W : M.World) (t : sys.Tag) (F : M.World → Prop) (w : M.World) (g : Starts sys) :
    Prop :=
  g[i]? = some (W, t) ∧ C.Before W w ∧ F w

/-- **What a program does for an activity** that was started as `t` in the world `W`: run where `F`
holds, it keeps the contract and ends with `Q`. -/
def Serves {α : Type} (W : M.World) (t : sys.Tag) (F : M.World → Prop) (p : Async S α)
    (Q : Except S.Err α → M.World → Prop) : Prop :=
  ∀ i, C.protocol.Triple i (C.Of i W t F) p fun r => C.Of i W t (Q r)

/-- The program returns, and `R` holds of what it returns. -/
def Returns {α : Type} (R : α → M.World → Prop) (r : Except S.Err α) (w : M.World) : Prop :=
  ∃ a, r = .ok a ∧ R a w

/-- `R` holds of what the program returns, if it does. -/
def Yields {α : Type} (R : α → M.World → Prop) (r : Except S.Err α) (w : M.World) : Prop :=
  ∀ a, r = .ok a → R a w

variable {C} {α β : Type} {W : M.World} {t : sys.Tag} {F G : M.World → Prop}
  {Q Q' : Except S.Err α → M.World → Prop} {p : Async S α}

theorem Lasts.const (A : Prop) : C.Lasts fun _ => A := fun _ _ _ _ _ h => h

theorem Lasts.and (hF : C.Lasts F) (hG : C.Lasts G) : C.Lasts fun w => F w ∧ G w :=
  fun _ _ _ hw hI h => ⟨hF hw hI h.1, hG hw hI h.2⟩

theorem Lasts.or (hF : C.Lasts F) (hG : C.Lasts G) : C.Lasts fun w => F w ∨ G w :=
  fun _ _ _ hw hI h => h.imp (hF hw hI) (hG hw hI)

theorem Lasts.ex {γ : Type} {F : γ → M.World → Prop} (hF : ∀ x, C.Lasts (F x)) :
    C.Lasts fun w => ∃ x, F x w := by
  intro w w' l hw hI h
  obtain ⟨x, hx⟩ := h
  exact ⟨x, hF x hw hI hx⟩

theorem Lasts.yields {R : α → M.World → Prop} (hR : ∀ a, C.Lasts (R a)) (r : Except S.Err α) :
    C.Lasts (Yields R r) :=
  fun _ _ _ hw hI h a hr => hR a hw hI (h a hr)

theorem of_stable (i : ℕ) (hF : C.Lasts F) : C.protocol.Stable i (C.Of i W t F) := by
  intro w g w' g' hm _ hI h
  obtain ⟨hw, new, rfl, -⟩ := hm
  obtain ⟨hi, hW, hf⟩ := h
  refine ⟨?_, C.trans hW hw, hF hw hI hf⟩
  rw [List.getElem?_append_left (List.getElem?_eq_some_iff.mp hi).1]
  exact hi

/-! ### Programs -/

namespace Serves

theorem ret {a : α} (hF : C.Lasts F) (h : ∀ w, C.Before W w → F w → Q (.ok a) w) :
    C.Serves W t F (.ret a) Q :=
  fun i => .ret (of_stable i hF) fun w _ _ hf => ⟨hf.1, hf.2.1, h w hf.2.1 hf.2.2⟩

theorem throw {e : S.Err} (hF : C.Lasts F) (h : ∀ w, C.Before W w → F w → Q (.error e) w) :
    C.Serves W t F (.throw e) Q :=
  fun i => .throw (of_stable i hF) fun w _ _ hf => ⟨hf.1, hf.2.1, h w hf.2.1 hf.2.2⟩

theorem pre (hF : ∀ w, C.Before W w → G w → F w) (h : C.Serves W t F p Q) : C.Serves W t G p Q :=
  fun i => (h i).pre fun w _ _ hg => ⟨hg.1, hg.2.1, hF w hg.2.1 hg.2.2⟩

theorem post (hQ : ∀ r w, C.Before W w → Q r w → Q' r w) (h : C.Serves W t F p Q) :
    C.Serves W t F p Q' :=
  fun i => (h i).post fun r w _ _ hq => ⟨hq.1, hq.2.1, hQ r w hq.2.1 hq.2.2⟩

/-- A consequence that does not depend on the state may be used throughout. -/
theorem assuming {A : Prop} (hA : ∀ w, F w → A) (h : A → C.Serves W t F p Q) :
    C.Serves W t F p Q :=
  fun i => .assuming (fun w _ _ hf => hA w hf.2.2) fun ha => h ha i

/-- Something there is in the beginning may be named. -/
theorem given {γ : Type} {F : γ → M.World → Prop} (h : ∀ x, C.Serves W t (F x) p Q) :
    C.Serves W t (fun w => ∃ x, F x w) p Q := by
  intro i w g hI hf
  obtain ⟨hi, hW, x, hx⟩ := hf
  exact h x i w g hI ⟨hi, hW, hx⟩

/-- Nothing has to be said of a program that is not run. -/
theorem never (h : ∀ w, F w → False) : C.Serves W t F p Q :=
  fun _ => .never fun w _ hf => h w hf.2.2

/-- Sequencing. -/
theorem bind {f : α → Async S β} {Q : Except S.Err β → M.World → Prop}
    (R : Except S.Err α → M.World → Prop) (hp : C.Serves W t F p R)
    (hf : ∀ a, C.Serves W t (R (.ok a)) (f a) Q)
    (he : ∀ e, C.Serves W t (R (.error e)) (.throw e) Q) : C.Serves W t F (p.bind f) Q :=
  fun i => .bind _ (hp i) (fun a => hf a i) fun e => he e i

/-- Sequencing, after a program that returns. -/
theorem next {f : α → Async S β} {Q : Except S.Err β → M.World → Prop} {R : α → M.World → Prop}
    (hp : C.Serves W t F p (Returns R)) (hf : ∀ a, C.Serves W t (R a) (f a) Q) :
    C.Serves W t F (p.bind f) Q := by
  refine bind _ hp (fun a => (hf a).pre fun w _ h => ?_) fun e => never fun w h => ?_
  · obtain ⟨b, hb, hr⟩ := h
    exact Except.ok.inj hb ▸ hr
  · obtain ⟨b, hb, -⟩ := h
    cases hb

/-- `try … catch`. -/
theorem handle {f : S.Err → Async S α} (R : Except S.Err α → M.World → Prop)
    (hp : C.Serves W t F p R) (hf : ∀ e, C.Serves W t (R (.error e)) (f e) Q)
    (ha : ∀ a, C.Serves W t (R (.ok a)) (.ret a) Q) : C.Serves W t F (p.handle f) Q :=
  fun i => .handle _ (hp i) (fun e => hf e i) fun a => ha a i

/-- What throws returns nothing. -/
theorem throws {e : S.Err} {R : α → M.World → Prop} (hF : C.Lasts F) :
    C.Serves W t F (.throw e) (Yields R) :=
  throw hF fun _ _ _ _ h => by cases h

/-- Sequencing, after a program that may return. -/
theorem andYields {f : α → Async S β} {R : α → M.World → Prop} {R' : β → M.World → Prop}
    (hp : C.Serves W t F p (Yields R)) (hf : ∀ a, C.Serves W t (R a) (f a) (Yields R')) :
    C.Serves W t F (p.bind f) (Yields R') := by
  refine bind _ hp (fun a => (hf a).pre fun w _ h => h a rfl) fun e => ?_
  exact pre (F := fun _ => True) (fun _ _ _ => trivial) (throws (.const _))

/-- **One operation**: what it answers, in the world it leaves. -/
theorem call {o : S.Op} {Q : Except S.Err (S.Val o) → M.World → Prop} (hF : C.Lasts F)
    (hQ : ∀ r, C.Lasts (Q r)) (hA : ∀ w l, t ∈ l → C.Inv w l → F w → C.Asserts w l o)
    (h : ∀ w i c w' r ts, C.Before W w → F w → F w' → C.Can w i o c →
      M.exec w i o c = some (w', r, ts) → Q r w') : C.Serves W t F (Async.perform o) Q := by
  intro i
  refine .perform (of_stable i hF) (fun r => of_stable i (hQ r)) fun w (g : Starts sys) hI hf => ?_
  obtain ⟨hi, hW, hf⟩ := hf
  have hassert : C.Asserts w (g.map Prod.snd) o :=
    hA w _ (List.mem_map_of_mem (List.mem_of_getElem? hi)) hI hf
  refine ⟨hassert, fun c w' r ts hcan he l _ hfits => ?_⟩
  obtain ⟨hw, hI'⟩ := C.step hI hassert hcan he
  obtain rfl : g.map Prod.snd = l := hfits
  -- whatever is started now is started in the world the operation leaves
  have hmap : (g ++ (ts.filterMap sys.spawned).map fun t => (w', t)).map Prod.snd =
      g.map Prod.snd ++ ts.filterMap sys.spawned := by
    rw [List.map_append, List.map_map]
    exact congrArg _ (List.map_id _)
  refine ⟨g ++ (ts.filterMap sys.spawned).map fun t => (w', t), ?_, ⟨hw, _, rfl, ?_⟩,
    fun _ _ _ => trivial, hmap, fun k t' hk => ⟨w', ?_, C.refl w'⟩, ?_, C.trans hW hw,
    h w i c w' r ts hW hf (hF hw hI' hf) hcan he⟩
  · show C.Inv w' _
    rw [hmap]
    exact hI'
  · intro e hmem
    obtain ⟨t', -, rfl⟩ := List.mem_map.mp hmem
    exact hw
  · rw [List.length_map, List.getElem?_append_right (Nat.le_add_right ..),
      Nat.add_sub_cancel_left, List.getElem?_map, hk]
    rfl
  · rw [List.getElem?_append_left (List.getElem?_eq_some_iff.mp hi).1]
    exact hi

/-- A program whose answer does not matter keeps what lasts. -/
theorem keeps {A : S.Op → Prop} (hF : C.Lasts F) (hA : ∀ w l o, A o → C.Asserts w l o)
    (hp : p.Only A) : C.Serves W t F p fun _ => F := by
  induction p with
  | ret a => exact ret hF fun _ _ h => h
  | throw e => exact throw hF fun _ _ h => h
  | await o k ih =>
    have hcall : C.Serves W t F (Async.perform o) fun _ => F :=
      call hF (fun _ => hF) (fun w l _ _ _ => hA w l o hp.1) fun _ _ _ _ _ _ _ _ hf _ _ => hf
    intro i
    refine .await _ (of_stable i hF) (fun w g hI hf => ?_) fun r => ih r (hp.2 r) i
    have hwp := (hcall i w g hI hf).now hI
    exact Protocol.atomic_mono (fun r w g hI' hr => by cases r <;> exact hr.now hI') hwp

end Serves

/-! ### Runs -/

variable {init : M.World → Prop} {allowed : Pool sys → Action sys → Prop} {q q' : Pool sys}

/-- Every activity has been started in some world. -/
theorem length_of_fits {g : Starts sys} (hf : C.protocol.Fits g q.tags) :
    g.length = q.acts.length := by
  have hfits : g.map Prod.snd = q.acts.map Activity.tag := hf
  have hlen := congrArg List.length hfits
  rwa [List.length_map, List.length_map] at hlen

variable (C) in
/-- **The contract is kept** if every program does for its activity what that is to do. -/
theorem sound (hinit : ∀ w, init w → C.Inv w [])
    (hcan : ∀ p i c t o k, allowed p (.run i c) → p.acts[i]? = some ⟨t, .await o k⟩ →
      C.Can p.world i o c)
    (hbody : ∀ W t, C.Serves W t (fun _ => True) (sys.body t) (C.Meets W t)) :
    C.protocol.Sound init allowed where
  init w hw := ⟨[], hinit w hw, rfl⟩
  start p t (g : Starts sys) _ hI hf := by
    have hmap : (g ++ [(p.world, t)]).map Prod.snd = g.map Prod.snd ++ [t] := List.map_append
    have hlen : g.length = p.acts.length := length_of_fits hf
    refine ⟨g ++ [(p.world, t)], ?_, ⟨C.refl _, _, rfl, ?_⟩, fun _ _ => trivial, ?_, p.world, ?_,
      C.refl _⟩
    · show C.Inv p.world _
      rw [hmap]
      exact C.start t hI
    · intro e he
      obtain rfl := List.mem_singleton.mp he
      exact C.refl _
    · show (g ++ [(p.world, t)]).map Prod.snd = p.tags ++ [t]
      rw [hmap]
      exact congrArg (· ++ [t]) hf
    · rw [← hlen]
      exact List.getElem?_concat_length
  tick p d (g : Starts sys) _ hI := by
    obtain ⟨hw, hI'⟩ := C.tick d hI
    exact ⟨hI', ⟨hw, [], (List.append_nil g).symm, fun e he => absurd he List.not_mem_nil⟩,
      fun _ => trivial⟩
  canRun p i c t o k _ ha hi _ := hcan p i c t o k ha hi
  body i t w g hb hI := by
    obtain ⟨W, hi, hW⟩ := hb
    refine Protocol.wp_mono (fun r w g _ h => ?_) (hbody W t i w g hI ⟨hi, hW, trivial⟩)
    exact ⟨W, h.1, h.2.2⟩

variable {i : ℕ} {r : Except S.Err sys.Res}

/-- An activity that has ended, and the world it was started in. -/
theorem exists_start {g : Starts sys} (hH : C.protocol.Holds q g) (hi : q.tags[i]? = some t)
    (hr : q.result? i = some r) : ∃ W, g[i]? = some (W, t) ∧ C.Meets W t r q.world := by
  obtain ⟨a, ha, hend⟩ := Option.bind_eq_some_iff.mp hr
  rw [Pool.tags, List.getElem?_map, ha] at hi
  obtain rfl := Option.some.inj hi
  exact hH.post ha hend

/-- What holds of every reachable pool. -/
theorem inv (hC : C.protocol.Sound init allowed) (hq : Pool.Reachable init allowed q) :
    C.Inv q.world q.tags := by
  obtain ⟨g, hH⟩ := hC.reachable hq
  have hfits : g.map Prod.snd = q.tags := hH.fits
  rw [← hfits]
  exact hH.inv

/-- What an activity that has ended has answered. -/
theorem ended (hC : C.protocol.Sound init allowed) (hq : Pool.Reachable init allowed q)
    (hi : q.tags[i]? = some t) (hr : q.result? i = some r) : ∃ W, C.Meets W t r q.world := by
  obtain ⟨g, hH⟩ := hC.reachable hq
  obtain ⟨W, -, hmeets⟩ := exists_start hH hi hr
  exact ⟨W, hmeets⟩

/-- The world of a pool comes before those its runs lead to. -/
theorem runs_before (hC : C.protocol.Sound init allowed) (hq : Pool.Reachable init allowed q)
    (hrun : Pool.Runs allowed q q') : C.Before q.world q'.world := by
  obtain ⟨g, hH⟩ := hC.reachable hq
  obtain ⟨g', -, hm⟩ := hC.runs hH hrun
  exact hm.1

/-- **What an activity has answered that was started later on** answers to a later world. -/
theorem since (hC : C.protocol.Sound init allowed) (hq : Pool.Reachable init allowed q)
    (hrun : Pool.Runs allowed q q') (hlater : q.acts.length ≤ i) (hi : q'.tags[i]? = some t)
    (hr : q'.result? i = some r) : ∃ W, C.Before q.world W ∧ C.Meets W t r q'.world := by
  obtain ⟨g, hH⟩ := hC.reachable hq
  obtain ⟨g', hH', hm⟩ := hC.runs hH hrun
  obtain ⟨hw, new, rfl, hnew⟩ := hm
  obtain ⟨W, hget, hmeets⟩ := exists_start hH' hi hr
  have hlen := length_of_fits hH.fits
  have hmem : (W, t) ∈ new :=
    List.mem_of_getElem? ((List.getElem?_append_right (hlen ▸ hlater)).symm.trans hget)
  exact ⟨W, hnew _ hmem, hmeets⟩

end Contract

end CqrsSaga
