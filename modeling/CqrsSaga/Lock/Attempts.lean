import CqrsSaga.App.Frame
import CqrsSaga.App.RedisLock
import CqrsSaga.Async.Solo
import CqrsSaga.Store.Remnants
import Mathlib.Data.Fintype.EquivFin

/-!
# What a failed acquisition leaves

A call of `acquireLock` tries several times with one token, and takes every exception for a failure.
Meanwhile others take and lose their locks and time passes, and an attempt may fail before it
reaches Redis, or be carried out and its reply lost.  In the last case the entry is set, every
later attempt finds the key taken, and the call gives up while its own entry is there.

## Main definitions

* `World.Beside` — what others may do while an activity is at work.
* `amongOthers` — the circumstances of a call.
* `World.Attempting`, `World.Taken` — where the call stands between two attempts, and once one
  has succeeded.

## Main results

* `World.Beside.exec`, `World.Beside.elapse` — others, and the clock, do no more.
* `acquisition_leaves` — **a lock that is returned is there; of a call that gives up something is
  left exactly if Redis has carried out a `SET` of its that has not run out.**
-/

namespace CqrsSaga

open RedisLockService Lease Lease.Server

/-! ### What others do -/

/-- The token an operation comes to Redis with. -/
def Op.token? : Op → Option String
  | .redisSet _ token _ => some token
  | .redisUnlock _ token => some token
  | .redisRenew _ token _ => some token
  | _ => none

namespace World

variable {w w' w'' : World} {i : ℕ}

/-- What others may do while activity `i` is at work: the tokens it has drawn stay its own, and
nothing happens to what carries them except that it runs out. -/
structure Beside (i : ℕ) (w w' : World) : Prop where
  clock : w.clock ≤ w'.clock
  tokens : ∀ tok, (i, tok) ∈ w'.tokens ↔ (i, tok) ∈ w.tokens
  spares : ∀ tok, (i, tok) ∈ w.tokens → w.redis.Spares w'.redis w'.clock tok

theorem Beside.refl (i : ℕ) (w : World) : w.Beside i w :=
  ⟨Nat.le_refl _, fun _ => Iff.rfl, fun _ _ => .refl _ _ _⟩

theorem Beside.trans (h : w.Beside i w') (h' : w'.Beside i w'') : w.Beside i w'' := by
  refine ⟨Nat.le_trans h.clock h'.clock, fun tok => (h'.tokens tok).trans (h.tokens tok),
    fun tok htok => ?_⟩
  exact (h.spares tok htok).trans (h'.spares tok ((h.tokens tok).mpr htok)) h'.clock

theorem Beside.elapse (i d : ℕ) (w : World) : w.Beside i { w with clock := w.clock + d } :=
  ⟨Nat.le_add_right _ _, fun _ => Iff.rfl, fun _ _ => .refl _ _ _⟩

/-- A call to Redis with a token of somebody else's. -/
theorem Beside.callRedis {tok' : String} (h : (i, tok') ∉ w.tokens) (key : String) (c : Call) :
    w.Beside i (w.callRedis key tok' c).1 := by
  refine ⟨Nat.le_refl _, fun _ => Iff.rfl, fun tok htok => ?_⟩
  refine serve_spares w.redis w.clock key c ?_
  rintro rfl
  exact h htok

/-- **Others do no more**, as long as they use tokens of their own. -/
theorem Beside.exec {j : ℕ} {o : Op} {c : Choice} {r : Except Err (Op.Val o)} {ts : List Task}
    (hj : j ≠ i) (ho : ∀ tok, o.token? = some tok → (i, tok) ∉ w.tokens)
    (he : w.exec j o c = some (w', r, ts)) : w.Beside i w' := by
  have hperform : ∀ {v ts'}, w.perform j c o = some (w', v, ts') → w.Beside i w' := by
    intro v ts' hp
    have hframe := World.perform_frame hp
    cases o with
    | generateToken =>
      simp only [World.perform, Option.some.injEq, Prod.mk.injEq] at hp
      obtain ⟨rfl, -⟩ := hp
      refine ⟨Nat.le_refl _, fun tok => ?_, fun _ _ => .refl _ _ _⟩
      rw [List.mem_cons]
      exact or_iff_right fun h => hj (congrArg Prod.fst h).symm
    | redisSet key token ttl =>
      simp only [World.perform] at hp
      split at hp <;> simp only [Option.some.injEq, Prod.mk.injEq] at hp <;> rw [← hp.1]
      · exact .refl i w
      · exact .callRedis (ho token rfl) key _
    | redisUnlock key token =>
      simp only [World.perform, Option.some.injEq, Prod.mk.injEq] at hp
      rw [← hp.1]
      exact .callRedis (ho token rfl) key _
    | redisRenew key token ttl =>
      simp only [World.perform] at hp
      split at hp <;> simp only [Option.some.injEq, Prod.mk.injEq] at hp <;> rw [← hp.1]
      · exact .callRedis (ho token rfl) key _
      · exact .callRedis (ho token rfl) key _
    | _ =>
      -- nothing else touches the lock server or the tokens
      have hredis := hframe.redis (by simp [Op.writes])
      have htokens := hframe.tokens (by simp [Op.writes])
      refine ⟨hframe.clock.ge, fun tok => ?_, fun tok _ => ?_⟩
      · rw [htokens]
      · rw [hredis]
        exact .refl _ _ _
  rcases World.exec_cases he with ⟨-, hp⟩ | ⟨m, -, rfl, -⟩ | ⟨m, v, -, -, hp, -⟩
  · exact hperform hp
  · exact .refl i w'
  · exact hperform hp

/-! ### The circumstances of a call -/

/-- Nobody has used the token. -/
def Unused (w : World) (tok : String) : Prop :=
  (∀ x ∈ w.tokens, x.2 ≠ tok) ∧ (∀ x ∈ w.redis.entries.entries, x.2.token ≠ tok) ∧
    ∀ r ∈ w.redis.log, r.token ≠ tok

instance (w : World) (tok : String) : Decidable (w.Unused tok) :=
  inferInstanceAs (Decidable (_ ∧ _ ∧ _))

theorem exists_unused (w : World) : ∃ tok, w.Unused tok := by
  obtain ⟨tok, htok⟩ := Infinite.exists_notMem_finset (w.tokens.map Prod.snd ++
    w.redis.entries.entries.map (fun x => x.2.token) ++ w.redis.log.map Record.token).toFinset
  simp only [List.mem_toFinset, List.mem_append, not_or, List.mem_map, not_exists, not_and] at htok
  exact ⟨tok, htok.1.1, htok.1.2, htok.2⟩

end World

/-- A token that is drawn is new. -/
def Op.DrawsNew (w : World) (c : Choice) (o : Op) : Prop := o = .generateToken → w.Unused c.text

instance (w : World) (c : Choice) (o : Op) : Decidable (o.DrawsNew w c) :=
  inferInstanceAs (Decidable (o = .generateToken → w.Unused c.text))

/-- Redis carries the operation out, but the reply is lost. -/
def Choice.losesReply (c : Choice) : Bool :=
  match c.fault with
  | some (.replyLost _) => true
  | _ => false

/-- Others are at work, any operation may fail, and replies of Redis are lost if they may be. -/
def amongOthers (i : ℕ) (lossy : Prop) : Solo app Unit where
  Aside := World.Beside i
  Can := fun w o c => o.DrawsNew w c ∧ (c.losesReply = true → lossy)
  note := fun _ _ => []

instance (i : ℕ) (lossy : Prop) [Decidable lossy] (w : World) (o : Op) (c : Choice) :
    Decidable ((amongOthers i lossy).Can w o c) :=
  inferInstanceAs (Decidable (_ ∧ (_ → _)))

/-! ### One attempt -/

section Attempts

variable {i : ℕ} {lossy : Prop} {k tok : String} {ttl : ℕ} {l : List Unit} {w w' : World}

/-- The call has drawn its token, and is between two attempts. -/
structure World.Attempting (w : World) (i : ℕ) (lossy : Prop) (k tok : String) (ttl : ℕ) :
    Prop where
  token : ∀ t, (i, t) ∈ w.tokens ↔ t = tok
  remnants : w.redis.Remnants w.clock k tok ttl
  /-- No attempt has been carried out, unless a reply was lost. -/
  lost : ∀ r ∈ w.redis.log, r.token = tok → r.done = true → lossy

/-- An attempt has succeeded. -/
structure World.Taken (w : World) (i : ℕ) (k tok : String) (ttl : ℕ) : Prop where
  token : ∀ t, (i, t) ∈ w.tokens ↔ t = tok
  live : live w.redis.entries w.clock k = some ⟨tok, w.clock + ttl⟩

/-- Others do not matter. -/
theorem World.Attempting.beside (h : w.Attempting i lossy k tok ttl) (hw : w.Beside i w') :
    w'.Attempting i lossy k tok ttl := by
  have hspares := hw.spares tok ((h.token tok).mpr rfl)
  refine ⟨fun t => (hw.tokens t).trans (h.token t), h.remnants.spared hspares hw.clock, ?_⟩
  exact fun r hr ht hdone => h.lost r ((hspares.log_iff r ht).mp hr) ht hdone

/-- Of a `SET` that is carried out, the call learns, or its reply is lost. -/
theorem World.Attempting.set (h : w.Attempting i lossy k tok ttl)
    (hlost : (w.callRedis k tok (.set ttl)).2 = true → lossy) :
    (w.callRedis k tok (.set ttl)).1.Attempting i lossy k tok ttl := by
  refine ⟨h.token, h.remnants.set, fun r hr ht hdone => ?_⟩
  rcases List.mem_cons.mp hr with rfl | hr
  · exact hlost hdone
  · exact h.lost r hr ht hdone

/-- What comes of one `SET`. -/
def SetAnswered (i : ℕ) (lossy : Prop) (k tok : String) (ttl : ℕ) (_ : List Unit)
    (r : Except Err Bool) (w : World) : Prop :=
  (r = .ok true ∧ w.Taken i k tok ttl) ∨
    ((r = .ok false ∨ ∃ e, r = .error e) ∧ w.Attempting i lossy k tok ttl)

theorem set_ends (h : w.Attempting i lossy k tok ttl) :
    (amongOthers i lossy).Ends i (SetAnswered i lossy k tok ttl) (redis.set k tok ttl) l w := by
  refine .perform fun v hv => ?_
  have hbefore : v.Attempting i lossy k tok ttl := h.beside hv
  constructor
  · obtain ⟨s, hs⟩ : ∃ s, World.exec v i (.redisSet k tok ttl) {} = some s := by
      by_cases httl : ttl = 0
      · exact ⟨_, if_pos httl⟩
      · exact ⟨_, if_neg httl⟩
    exact ⟨{}, s, ⟨(fun h => by cases h), fun hc => absurd hc Bool.false_ne_true⟩, hs⟩
  · rintro c v' r ts ⟨-, hlossy⟩ he
    have hperform : ∀ {x ts'}, v.perform i c (.redisSet k tok ttl) = some (v', x, ts') →
        (∃ e, x = .error e ∧ v' = v) ∨ (x = .ok (v.callRedis k tok (.set ttl)).2 ∧
          v' = (v.callRedis k tok (.set ttl)).1) := by
      intro x ts' hp
      simp only [World.perform] at hp
      split at hp <;> simp only [Option.some.injEq, Prod.mk.injEq] at hp
      · exact Or.inl ⟨_, hp.2.1.symm, hp.1.symm⟩
      · exact Or.inr ⟨hp.2.1.symm, hp.1.symm⟩
    rcases World.exec_cases he with ⟨-, hp⟩ | ⟨m, -, rfl, rfl, -⟩ | ⟨m, x, hfault, -, hp, rfl⟩
    · rcases hperform hp with ⟨e, rfl, rfl⟩ | ⟨rfl, rfl⟩
      · exact Or.inr ⟨Or.inr ⟨e, rfl⟩, hbefore⟩
      · cases hdone : (v.callRedis k tok (.set ttl)).2 with
        | true => exact Or.inl ⟨rfl, hbefore.token, live_of_set hdone⟩
        | false => exact Or.inr ⟨Or.inl rfl, hbefore.set fun hd => by rw [hdone] at hd; cases hd⟩
    · exact Or.inr ⟨Or.inr ⟨_, rfl⟩, hbefore⟩
    · refine Or.inr ⟨Or.inr ⟨_, rfl⟩, ?_⟩
      rcases hperform hp with ⟨e, rfl, rfl⟩ | ⟨rfl, rfl⟩
      · exact hbefore
      · exact hbefore.set fun _ => hlossy (by simp [Choice.losesReply, hfault])

/-- One operation in the process: it does not fail, and nothing that matters to locks is touched. -/
theorem inside_ends {o : Op} (h : w.Attempting i lossy k tok ttl) (hlocal : o.isLocal = true)
    (hredis : .redis ∉ o.writes) (htokens : .tokens ∉ o.writes)
    (hgo : ∀ v : World, ∃ s, v.perform i {} o = some s) :
    (amongOthers i lossy).Ends i (fun _ r w => (∃ a, r = .ok a) ∧ w.Attempting i lossy k tok ttl)
      (call o) l w := by
  refine .perform fun v hv => ⟨?_, fun c v' r ts _ he => ?_⟩
  · obtain ⟨s, hs⟩ := hgo v
    refine ⟨{}, s, ⟨?_, fun hc => absurd hc Bool.false_ne_true⟩, hs⟩
    rintro rfl
    simp [Op.writes] at htokens
  · have hframe := World.exec_frame he
    refine ⟨(World.exec_local he hlocal).2, ?_⟩
    refine (h.beside hv).beside ⟨hframe.clock.ge, fun t => ?_, fun t _ => ?_⟩
    · rw [hframe.tokens htokens]
    · rw [hframe.redis hredis]
      exact .refl _ _ _

/-- What comes of one attempt. -/
def AfterAttempt (i : ℕ) (lossy : Prop) (k tok : String) (ttl : ℕ) (_ : List Unit)
    (r : Except Err Bool) (w : World) : Prop :=
  (r = .ok true ∧ w.Taken i k tok ttl) ∨ (r = .ok false ∧ w.Attempting i lossy k tok ttl)

/-- **One attempt**: whatever becomes of its `SET`, only a success ends the call. -/
theorem attempt_ends (h : w.Attempting i lossy k tok ttl) {backOff : Async App Unit}
    (hb : ∀ l w, w.Attempting i lossy k tok ttl → (amongOthers i lossy).Ends i
      (fun _ r w => r = .ok () ∧ w.Attempting i lossy k tok ttl) backOff l w) :
    (amongOthers i lossy).Ends i (AfterAttempt i lossy k tok ttl) (attempt k tok ttl backOff) l w := by
  have hback : ∀ {l w}, w.Attempting i lossy k tok ttl → (amongOthers i lossy).Ends i
      (AfterAttempt i lossy k tok ttl) (backOff.bind fun _ => pure false) l w := by
    intro l w hw
    refine .bind _ (hb l w hw) (fun l a w hw => Or.inr ⟨rfl, hw.2⟩) fun l e w hw => ?_
    cases hw.1
  refine .handle (SetAnswered i lossy k tok ttl) ?_ ?_ ?_
  · refine .bind _ (set_ends h) (fun l a w hw => ?_) fun l e w hw => hw
    rcases hw with ⟨ha, hw⟩ | ⟨ha, hw⟩
    · obtain rfl := Except.ok.inj ha
      exact Or.inl ⟨rfl, hw⟩
    · cases a with
      | true => rcases ha with ha | ⟨e, ha⟩ <;> cases ha
      | false =>
        refine (hback hw).mono fun l r w hr => ?_
        rcases hr with ⟨rfl, hw⟩ | ⟨rfl, hw⟩
        · exact Or.inl ⟨rfl, hw⟩
        · exact Or.inr ⟨Or.inl rfl, hw⟩
  · rintro l e w (⟨he, -⟩ | ⟨-, hw⟩)
    · cases he
    · exact hback hw
  · rintro l a w (⟨ha, hw⟩ | ⟨ha, hw⟩)
    · exact Or.inl ⟨ha, hw⟩
    · rcases ha with ha | ⟨e, ha⟩
      · exact Or.inr ⟨ha, hw⟩
      · cases ha

/-! ### The call -/

/-- What comes of all attempts: a lock that is there, or none. -/
def AfterCall (i : ℕ) (lossy : Prop) (k tok : String) (ttl : ℕ) (_ : List Unit)
    (r : Except Err (Option AcquiredLock)) (w : World) : Prop :=
  (r = .ok (some ⟨k, tok, ttl⟩) ∧ w.Taken i k tok ttl) ∨
    (r = .ok none ∧ w.Attempting i lossy k tok ttl)

/-- All attempts, by induction on how many are left. -/
theorem attempts_ends (retryDelay n : ℕ) (h : w.Attempting i lossy k tok ttl) :
    (amongOthers i lossy).Ends i (AfterCall i lossy k tok ttl)
      (attempts k tok ttl retryDelay n) l w := by
  induction n generalizing l w with
  | zero =>
    refine .bind _ (attempt_ends h fun _ _ hw => ⟨rfl, hw⟩) (fun l a w hw => ?_)
      fun l e w hw => by rcases hw with ⟨he, -⟩ | ⟨he, -⟩ <;> cases he
    rcases hw with ⟨ha, hw⟩ | ⟨ha, hw⟩ <;> obtain rfl := Except.ok.inj ha
    · exact Or.inl ⟨rfl, hw⟩
    · refine .bind _ (inside_ends (o := .log (.lockNotAcquired k)) hw rfl (by simp [Op.writes])
        (by simp [Op.writes]) fun v => ⟨_, rfl⟩)
        (fun l a w hw => Or.inr ⟨rfl, hw.2⟩) fun l e w hw => ?_
      obtain ⟨⟨a, ha⟩, -⟩ := hw
      cases ha
  | succ n ih =>
    refine .bind _ (attempt_ends h fun l w hw => ?_) (fun l a w hw => ?_)
      fun l e w hw => by rcases hw with ⟨he, -⟩ | ⟨he, -⟩ <;> cases he
    · exact (inside_ends (o := .sleep retryDelay) hw rfl (by simp [Op.writes]) (by simp [Op.writes])
        fun v => ⟨_, rfl⟩).mono fun l r w hr => by
          obtain ⟨⟨a, rfl⟩, hw⟩ := hr
          exact ⟨rfl, hw⟩
    · rcases hw with ⟨ha, hw⟩ | ⟨ha, hw⟩ <;> obtain rfl := Except.ok.inj ha
      · exact Or.inl ⟨rfl, hw⟩
      · exact ih hw

/-- The token is drawn. -/
theorem generateToken_ends (hw : ∀ t, (i, t) ∉ w.tokens) (k : String) (ttl : ℕ) :
    (amongOthers i lossy).Ends i
      (fun _ r w => ∃ tok, r = .ok tok ∧ w.Attempting i lossy k tok ttl)
      generateToken l w := by
  refine .perform fun v hv => ⟨?_, fun c v' r ts hc he => ?_⟩
  · obtain ⟨tok, htok⟩ := v.exists_unused
    exact ⟨{ text := tok }, _, ⟨fun _ => htok, fun h => absurd h Bool.false_ne_true⟩, rfl⟩
  · obtain ⟨hp, -⟩ := World.exec_local he rfl
    simp only [World.perform, Option.some.injEq, Prod.mk.injEq] at hp
    obtain ⟨rfl, rfl, -⟩ := hp
    obtain ⟨-, hentries, hlog⟩ : World.Unused v c.text := hc.1 rfl
    refine ⟨c.text, rfl, fun t => ?_, .unused (fun k' e he => ?_) hlog, fun r hr ht => ?_⟩
    · rw [List.mem_cons]
      refine (or_iff_left fun h => hw t ((hv.tokens t).mp h)).trans ?_
      exact ⟨fun h => congrArg Prod.snd h, fun h => h ▸ rfl⟩
    · exact hentries ⟨k', e⟩ (AList.mem_lookup_iff.mp he)
    · exact absurd ht (hlog r hr)

/-- **What a call of `acquireLock` leaves**, whatever becomes of its attempts and whatever others do
meanwhile.  It draws one token and ends.  If it returns a lock, the entry under the key carries
the token at that time.  If it returns `null`, nothing that carries the token is in the store
exactly if every `SET` of the call that Redis has carried out has run out by then; and Redis has
carried out none if no reply may be lost. -/
theorem acquisition_leaves (i : ℕ) (lossy : Prop) (hw : ∀ t, (i, t) ∉ w.tokens) (key : String)
    (options : LockOptions) :
    (amongOthers i lossy).Ends i (fun _ r w' => ∃ tok, (∀ t, (i, t) ∈ w'.tokens ↔ t = tok) ∧
      ((∃ lock : AcquiredLock, r = .ok (some lock) ∧ lock.key = "lock:" ++ key ∧ lock.token = tok ∧
          Lease.live w'.redis.entries w'.clock lock.key = some ⟨tok, w'.clock + options.ttl⟩) ∨
        (r = .ok none ∧
          (w'.redis.Gone w'.clock tok ↔ ∀ s ∈ w'.redis.log, s.token = tok → s.done = true →
            s.time + options.ttl < w'.clock) ∧
          ((∃ s ∈ w'.redis.log, s.token = tok ∧ s.done = true) → lossy))))
      (acquireLock key options) [] w := by
  refine .bind _ (generateToken_ends hw ("lock:" ++ key) options.ttl) (fun l tok v hv => ?_)
    fun l e v hv => ?_
  · obtain ⟨tok', htok, hv⟩ := hv
    obtain rfl := Except.ok.inj htok
    refine (attempts_ends options.retryDelay options.retryCount hv).mono fun l r w' hr => ?_
    rcases hr with ⟨rfl, hw'⟩ | ⟨rfl, hw'⟩
    · exact ⟨tok, hw'.token, Or.inl ⟨_, rfl, rfl, rfl, hw'.live⟩⟩
    · refine ⟨tok, hw'.token, Or.inr ⟨rfl, hw'.remnants.gone_iff, ?_⟩⟩
      rintro ⟨s, hs, ht, hdone⟩
      exact hw'.lost s hs ht hdone
  · obtain ⟨tok', htok, -⟩ := hv
    cases htok

end Attempts

/-! ### A lost reply -/

/-- The reply to the first `SET` is lost; the second finds the key taken. -/
def oneLost : List Choice :=
  [{ text := "token-1" }, { fault := some (.replyLost "timeout") }, {}, {}, {}]

/-- The call gives up, and its own entry keeps everybody from the key. -/
theorem acquisition_blocks :
    ¬(amongOthers 0 True).Ends 0 (fun _ r w => r = .ok none →
        ∀ tok, (0, tok) ∈ w.tokens → w.redis.Gone w.clock tok)
      (acquireLock "order" { retryCount := 1 }) [] (World.empty 0) ∧
    ∃ w, (amongOthers 0 True).play 0 (acquireLock "order" { retryCount := 1 }) oneLost []
        (World.empty 0) = some ([], .ok none, w) ∧
      (w.callRedis "lock:order" "token-2" (.set 30000)).2 = false := by
  obtain ⟨w, hplay, htoken, hlive, hblocked⟩ :
      ∃ w, (amongOthers 0 True).play 0 (acquireLock "order" { retryCount := 1 }) oneLost []
          (World.empty 0) = some ([], .ok none, w) ∧ (0, "token-1") ∈ w.tokens ∧
        Lease.live w.redis.entries w.clock "lock:order" = some ⟨"token-1", 30000⟩ ∧
        (w.callRedis "lock:order" "token-2" (.set 30000)).2 = false :=
    ⟨_, rfl, by decide +kernel, by decide +kernel, by decide +kernel⟩
  refine ⟨fun h => ?_, w, hplay, hblocked⟩
  exact h.of_play (World.Beside.refl 0) hplay rfl "token-1" htoken _ _ hlive rfl

theorem acquisition_leaves_empty :
    (amongOthers 0 True).Ends 0 (fun _ r w' => ∃ tok, (∀ t, (0, t) ∈ w'.tokens ↔ t = tok) ∧
      ((∃ lock : AcquiredLock, r = .ok (some lock) ∧ lock.key = "lock:" ++ "order" ∧
          lock.token = tok ∧
          Lease.live w'.redis.entries w'.clock lock.key = some ⟨tok, w'.clock + 30000⟩) ∨
        (r = .ok none ∧
          (w'.redis.Gone w'.clock tok ↔ ∀ s ∈ w'.redis.log, s.token = tok → s.done = true →
            s.time + 30000 < w'.clock) ∧
          ((∃ s ∈ w'.redis.log, s.token = tok ∧ s.done = true) → True))))
      (acquireLock "order" {}) [] (World.empty 0) :=
  acquisition_leaves 0 True (fun _ h => absurd h List.not_mem_nil) "order" {}

end CqrsSaga
