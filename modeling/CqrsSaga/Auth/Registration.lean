import CqrsSaga.Async.Protocol
import CqrsSaga.Auth.Rotation

/-!
# Registrations with one email

Calls of `AuthService.register` with the same email look for it, each on its own, and save a user
if nobody has it.  The unique index lets one of them save.  A call that has looked in vain and comes
too late is stopped by the index, and reports that instead of the conflict; only if nobody looks
while another call has looked in vain and not yet saved, every other call is stopped by the check.

## Main definitions

* `registrations` — the system.
* `Registration.Calls`, `Registration.Spaced` — the calls, and who waits for whom.
* `Registration.OneWins` — one call creates the user, and every other reports a conflict.

## Main results

* `register_triple` — what one call comes to.
* `register_once` — **if nobody looks while another is about to save, one call wins.**
* `register_collides` — two calls that look at the same time.
-/

namespace CqrsSaga

/-- The user table has the email. -/
def UserTable.Has (users : UserTable) (email : String) : Prop := ∃ user ∈ users, user.email = email

instance (users : UserTable) (email : String) : Decidable (users.Has email) :=
  inferInstanceAs (Decidable (∃ user ∈ users.rows, user.email = email))

/-- The call looks for a user. -/
def AuthOp.looks : AuthOp → Bool
  | .userFindOne _ => true
  | _ => false

section Registrations

variable [Bcrypt] [JwtService] [ProcessEnv]

/-- Calls of `AuthService.register`, as many as there may be. -/
abbrev registrations : System accounts where
  Tag := RegisterDto
  Res := User × AuthTokens
  body := AuthService.register
  spawned := Empty.elim

namespace Registration

/-- The calls are for one email; no query fails, and an id that is drawn is new. -/
def Calls (email : String) (p : Pool registrations) : Action registrations → Prop
  | .start dto => dto.email = email
  | .run _ c => c.fault = none ∧ ∀ user ∈ p.world.rows, user.id ≠ c.id
  | .tick _ => True

/-- The call has not looked yet. -/
def Looking (p : Pool registrations) (i : ℕ) : Prop := (p.awaits i).any AuthOp.looks = true

/-- While nobody has the email, a call looks for it only if no other has. -/
def Spaced (email : String) (p : Pool registrations) : Action registrations → Prop
  | .run i _ => Looking p i →
    UserTable.Has p.world email ∨ ∀ j < p.acts.length, Looking p j
  | _ => True

/-- The call has created the user, and returned tokens. -/
def Creates (email : String) (p : Pool registrations) (i : ℕ) : Prop :=
  ∃ (user : User) (tokens : AuthTokens), p.result? i = some (.ok (user, tokens)) ∧
    user.email = email ∧ ∃ row ∈ p.world.rows, row.id = user.id ∧ row.email = email

/-- The call has thrown a `ConflictException`. -/
def Refused (p : Pool registrations) (i : ℕ) : Prop :=
  p.result? i = some (.error (.conflict "Email already exists"))

/-- **One call wins**: every call that has ended has created the user or reported the conflict; one
has created the user at most, none if the email was taken, and one has when all have ended if it was
free. -/
structure OneWins (email : String) (free : Prop) (p : Pool registrations) : Prop where
  ended : ∀ i r, p.result? i = some r → Creates email p i ∨ Refused p i
  unique : ∀ i j, Creates email p i → Creates email p j → i = j
  taken : ¬free → ∀ i, ¬Creates email p i
  wins : free → p.Quiescent → p.acts ≠ [] → ∃ i, Creates email p i

/-! ### What the calls agree on -/

/-- Who has looked in vain and has not saved yet, and who has saved. -/
structure Race where
  looked : Option ℕ
  winner : Option ℕ

/-- The agreements: while nobody has the email one call at most is about to save, and
the user is saved once. -/
def race (email : String) (free : Prop) : Protocol registrations where
  Ghost := Race
  Inv := fun users g => (users.Has email → g.looked = none) ∧ (g.winner ≠ none → users.Has email) ∧
    (free → users.Has email → g.winner ≠ none) ∧ (¬free → users.Has email ∧ g.winner = none)
  Mono := fun users g users' g' =>
    (∀ user ∈ users, ∃ user' ∈ users', user'.id = user.id ∧ user'.email = user.email) ∧
      ∀ j, g.winner = some j → g'.winner = some j
  Keep := fun i _ g _ g' => (g.looked = some i ↔ g'.looked = some i) ∧
    (g.winner ≠ some i → g'.winner ≠ some i)
  CanRun := fun users g _ o c => c.fault = none ∧ (∀ user ∈ users.rows, user.id ≠ c.id) ∧
    (o.looks = true → users.Has email ∨ g.looked = none)
  Assert := fun i o _ g => o.looks = true → g.looked ≠ some i
  Fits := fun g l => (∀ j, g.looked = some j → j < l.length) ∧ ∀ j, g.winner = some j → j < l.length
  Born := fun i dto _ g => dto.email = email ∧ g.looked ≠ some i ∧ g.winner ≠ some i
  Post := fun i _ r users g =>
    (∃ user tokens, r = .ok (user, tokens) ∧ g.winner = some i ∧ user.email = email ∧
      ∃ row ∈ users.rows, row.id = user.id ∧ row.email = email) ∨
    (r = .error (.conflict "Email already exists") ∧ users.Has email ∧ g.winner ≠ some i)
  mono_refl := fun _ _ => ⟨fun user hu => ⟨user, hu, rfl, rfl⟩, fun _ h => h⟩
  mono_trans := by
    rintro w g w' g' w'' g'' ⟨hrows, hwin⟩ ⟨hrows', hwin'⟩
    refine ⟨fun user hu => ?_, fun j h => hwin' j (hwin j h)⟩
    obtain ⟨user', hu', hid, hemail⟩ := hrows user hu
    obtain ⟨user'', hu'', hid', hemail'⟩ := hrows' user' hu'
    exact ⟨user'', hu'', hid'.trans hid, hemail'.trans hemail⟩
  keep_refl := fun _ _ _ => ⟨Iff.rfl, id⟩
  keep_trans := fun h h' => ⟨h.1.trans h'.1, fun hne => h'.2 (h.2 hne)⟩

variable {email : String} {free : Prop} {i : ℕ} {users users' : UserTable} {g g' : Race}

/-- The call has neither looked in vain nor saved. -/
def Idle (i : ℕ) (_ : UserTable) (g : Race) : Prop := g.looked ≠ some i ∧ g.winner ≠ some i

/-- The call has looked in vain. -/
def Looked (i : ℕ) (_ : UserTable) (g : Race) : Prop := g.looked = some i ∧ g.winner ≠ some i

/-- The call has saved the user with this id. -/
def Won (email : String) (i : ℕ) (id : Uuid) (users : UserTable) (g : Race) : Prop :=
  g.winner = some i ∧ ∃ row ∈ users.rows, row.id = id ∧ row.email = email

theorem idle_stable : (race email free).Stable i (Idle i) := by
  rintro w g w' g' - hk - ⟨hlooked, hwinner⟩
  exact ⟨fun h => hlooked (hk.1.mpr h), hk.2 hwinner⟩

theorem looked_stable : (race email free).Stable i (Looked i) := by
  rintro w g w' g' - hk - ⟨hlooked, hwinner⟩
  exact ⟨hk.1.mp hlooked, hk.2 hwinner⟩

theorem won_lasting (id : Uuid) : (race email free).Lasting (Won email i id) := by
  rintro w g w' g' hm - ⟨hwinner, row, hrow, hid, hemail⟩
  obtain ⟨row', hrow', hid', hemail'⟩ := hm.1 row hrow
  exact ⟨hm.2 i hwinner, row', hrow', hid'.trans hid, hemail'.trans hemail⟩

theorem has_lasting : (race email free).Lasting fun users _ => users.Has email := by
  rintro w g w' g' hm - ⟨user, hu, hemail⟩
  obtain ⟨user', hu', -, hemail'⟩ := hm.1 user hu
  exact ⟨user', hu', hemail'.trans hemail⟩

/-! ### What becomes of the bookkeeping -/

/-- Somebody looks in vain. -/
theorem respects_looked (hI : (race email free).Inv users g) (hfree : ¬users.Has email)
    (hnone : g.looked = none) :
    (race email free).Respects i users g users ⟨some i, g.winner⟩ where
  inv := ⟨fun h => absurd h hfree, hI.2.1, hI.2.2.1, hI.2.2.2⟩
  mono := (race email free).mono_refl users g
  keep := by
    intro j hj
    refine ⟨⟨?_, ?_⟩, id⟩
    · intro h
      rw [hnone] at h
      cases h
    · intro h
      exact absurd (Option.some.inj h).symm hj
  fits := by
    rintro l hl ⟨-, hwinner⟩
    refine ⟨?_, hwinner⟩
    intro j hj
    rw [← Option.some.inj hj]
    exact hl

/-- Whoever has looked in vain saves the user. -/
theorem respects_saved (hI : (race email free).Inv users g) (hlooked : g.looked = some i)
    (hfree : ¬users.Has email) (hhas : users'.Has email)
    (hrows : ∀ user ∈ users, ∃ user' ∈ users', user'.id = user.id ∧ user'.email = user.email) :
    (race email free).Respects i users g users' ⟨none, some i⟩ where
  inv := by
    refine ⟨fun _ => rfl, fun _ => hhas, ?_, ?_⟩
    · intro _ _ h
      cases h
    · intro htaken
      exact absurd (hI.2.2.2 htaken).1 hfree
  mono := by
    refine ⟨hrows, ?_⟩
    intro j hj
    have hwinner : g.winner ≠ none := by
      rw [hj]
      exact Option.some_ne_none j
    exact absurd (hI.2.1 hwinner) hfree
  keep := by
    intro j hj
    refine ⟨⟨?_, ?_⟩, ?_⟩
    · intro h
      rw [hlooked] at h
      exact absurd (Option.some.inj h).symm hj
    · intro h
      cases h
    · intro _ h
      exact hj (Option.some.inj h).symm
  fits := by
    intro l hl _
    constructor
    · intro j hj
      cases hj
    · intro j hj
      rw [← Option.some.inj hj]
      exact hl

/-- No email changes. -/
theorem respects_same (hI : (race email free).Inv users g)
    (hsame : users'.Has email ↔ users.Has email)
    (hrows : ∀ user ∈ users, ∃ user' ∈ users', user'.id = user.id ∧ user'.email = user.email) :
    (race email free).Respects i users g users' g where
  inv := by
    show (users'.Has email → _) ∧ (_ → users'.Has email) ∧ (_ → users'.Has email → _) ∧
      (_ → users'.Has email ∧ _)
    rw [hsame]
    exact hI
  mono := ⟨hrows, fun _ h => h⟩
  keep := fun j _ => ⟨Iff.rfl, id⟩
  fits := fun _ _ h => h

/-! ### One call of the database or of a library -/

/-- One call, and how the bookkeeping is brought up to date. -/
theorem atomic_call {o : AuthOp} {Φ : (race email free).Assn o.Val}
    (hA : o.looks = true → g.looked ≠ some i)
    (h : ∀ c : AuthChoice, (∀ user ∈ users.rows, user.id ≠ c.id) →
      (o.looks = true → users.Has email ∨ g.looked = none) →
      ∃ g', (race email free).Respects i users g (users.perform c o).1 g' ∧
        Φ (users.perform c o).2 (users.perform c o).1 g') :
    (race email free).atomic i o Φ users g := by
  refine ⟨hA, ?_⟩
  rintro c w' r ts ⟨hfault, hfresh, hlooks⟩ he l hl hf
  obtain ⟨⟨w, r'⟩, hexec, heq⟩ := Option.map_eq_some_iff.mp he
  obtain ⟨rfl, rfl, rfl⟩ : w = w' ∧ r' = r ∧ [] = ts := by simpa using heq
  rw [UserTable.exec, hfault] at hexec
  obtain ⟨g', hr, hΦ⟩ := h c hfresh hlooks
  rw [Option.some.inj hexec] at hr hΦ
  exact hr.settles rfl hl hf hΦ

/-- A call that leaves the table as it is. -/
theorem blind_triple {F : UserTable → Race → Prop} (hF : (race email free).Stable i F) {o : AuthOp}
    (hlooks : o.looks = false) (ho : ∀ (c : AuthChoice) (users : UserTable),
      ∃ v, users.perform c o = (users, .ok v)) :
    (race email free).Triple i F (authCall o) fun r users g => (∃ v, r = .ok v) ∧ F users g := by
  refine .perform hF (fun r => (Protocol.Stable.const _).and hF) fun users g hI hf => ?_
  refine atomic_call (fun h => ?_) fun c _ _ => ?_
  · rw [hlooks] at h
    cases h
  · obtain ⟨v, hv⟩ := ho c users
    rw [hv]
    exact ⟨g, .refl hI, ⟨v, rfl⟩, hf⟩

/-- What the check finds. -/
def Found (email : String) (i : ℕ) (r : Except AuthErr (Option User)) (users : UserTable)
    (g : Race) : Prop :=
  (r = .ok none ∧ Looked i users g) ∨
    ((∃ user, r = .ok (some user)) ∧ Idle i users g ∧ users.Has email)

theorem found_stable (r : Except AuthErr (Option User)) :
    (race email free).Stable i (Found email i r) := by
  rintro w g w' g' hm hk hI (⟨hr, h⟩ | ⟨hr, h, hhas⟩)
  · exact Or.inl ⟨hr, looked_stable hm hk hI h⟩
  · exact Or.inr ⟨hr, idle_stable hm hk hI h, has_lasting hm hI hhas⟩

/-- The check: nobody else is about to save if it finds nothing. -/
theorem findOne_triple : (race email free).Triple i (Idle i)
    (userRepository.findOne { email := some email }) (Found email i) := by
  refine .perform idle_stable found_stable fun users g hI hidle => ?_
  refine atomic_call (fun _ => hidle.1) fun c _ hlooks => ?_
  have hsel : ∀ user : User, UserWhere.selects { email := some email } user = true ↔
      user.email = email := by
    intro user
    simp [UserWhere.selects, meets, eq_comm]
  cases hfind : users.find? (UserWhere.selects { email := some email }) with
  | some user =>
    refine ⟨g, .refl hI, Or.inr ⟨⟨user, congrArg Except.ok hfind⟩, hidle, user, ?_, ?_⟩⟩
    · exact Table.mem_of_find? hfind
    · exact (hsel user).mp (Table.find?_some hfind)
  | none =>
    have hfree : ¬users.Has email := by
      rintro ⟨user, hu, hemail⟩
      have hnot := Table.find?_eq_none.mp hfind user hu
      rw [(hsel user).mpr hemail] at hnot
      cases hnot
    have hnone : g.looked = none := (hlooks rfl).resolve_left hfree
    refine ⟨⟨some i, g.winner⟩, respects_looked hI hfree hnone, ?_⟩
    exact Or.inl ⟨congrArg Except.ok hfind, rfl, hidle.2⟩

/-- The user is saved: nobody has the email yet. -/
theorem insert_triple {n : NewUser} (hn : n.email = email) :
    (race email free).Triple i (Looked i) (userRepository.insert n) fun r users g =>
      ∃ user, r = .ok user ∧ user.email = email ∧ Won email i user.id users g := by
  refine .perform looked_stable (fun r => ?_) fun users g hI hlooked => ?_
  · rintro w g w' g' hm - hI ⟨user, hr, hemail, hwon⟩
    exact ⟨user, hr, hemail, won_lasting _ hm hI hwon⟩
  · refine atomic_call (fun h => by cases h) fun c hfresh _ => ?_
    have hfree : ¬users.Has email := by
      intro h
      have hnone := hI.1 h
      rw [hlooked.1] at hnone
      cases hnone
    have hid : users.find? (fun user => decide (user.id = c.id)) = none :=
      Table.find?_eq_none.mpr fun user hu => decide_eq_false (hfresh user hu)
    cases hsave : users.save { n with id := c.id } with
    | none =>
      obtain ⟨user, hu, -, e, he, hne⟩ := Table.save_eq_none.mp hsave
      have hemail : user.email = email :=
        (Option.some.inj he).trans ((Option.some.inj hne).symm.trans hn)
      exact absurd ⟨user, hu, hemail⟩ hfree
    | some users' =>
      have hperform : users.perform c (.userInsert n) = (users', .ok { n with id := c.id }) := by
        rw [UserTable.perform, UserTable.insert, hid, hsave]
        rfl
      rw [hperform]
      have hmem := Table.mem_save_self hsave
      have hrows : ∀ user ∈ users, ∃ user' ∈ users', user'.id = user.id ∧
          user'.email = user.email := by
        intro user hu
        exact ⟨user, (Table.mem_save hsave).mpr (Or.inr ⟨hu, hfresh user hu⟩), rfl, rfl⟩
      refine ⟨⟨none, some i⟩, respects_saved hI hlooked.1 hfree ⟨_, hmem, hn⟩ hrows, ?_⟩
      exact ⟨_, rfl, hn, rfl, _, hmem, rfl, hn⟩

/-- A hash of a refresh token is stored: no email changes. -/
theorem update_triple (id id' : Uuid) (token : Option String) :
    (race email free).Triple i (Won email i id) (userRepository.update id' token) fun r users g =>
      (∃ v, r = .ok v) ∧ Won email i id users g := by
  refine .perform (won_lasting id).stable
    (fun r => (Protocol.Stable.const _).and (won_lasting id).stable) fun users g hI hwon => ?_
  refine atomic_call (fun h => by cases h) fun c _ _ => ?_
  have hrows : ∀ user ∈ users, ∃ user' ∈ users.setRefreshToken id' token, user'.id = user.id ∧
      user'.email = user.email := by
    intro user hu
    by_cases hid : user.id = id'
    · exact ⟨_, UserTable.mem_setRefreshToken.mpr (Or.inr ⟨user, hu, hid, rfl⟩), rfl, rfl⟩
    · exact ⟨user, UserTable.mem_setRefreshToken.mpr (Or.inl ⟨hu, hid⟩), rfl, rfl⟩
  have hsame : (users.setRefreshToken id' token).Has email ↔ users.Has email := by
    constructor
    · rintro ⟨user, hu, hemail⟩
      rcases UserTable.mem_setRefreshToken.mp hu with ⟨hu, -⟩ | ⟨user', hu', -, rfl⟩
      · exact ⟨user, hu, hemail⟩
      · exact ⟨user', hu', hemail⟩
    · rintro ⟨user, hu, hemail⟩
      obtain ⟨user', hu', -, hemail'⟩ := hrows user hu
      exact ⟨user', hu', hemail'.trans hemail⟩
  have hrespects : (race email free).Respects i users g (users.setRefreshToken id' token) g :=
    respects_same hI hsame hrows
  exact ⟨g, hrespects, ⟨(), rfl⟩, won_lasting id hrespects.mono hrespects.inv hwon⟩

/-! ### A call of `register` -/

/-- Sequencing, after a program that returns. -/
theorem next_triple {α β : Type} {p : Async Auth α} {f : α → Async Auth β}
    {F G : UserTable → Race → Prop} {Q : (race email free).Assn β}
    (hp : (race email free).Triple i F p fun r users g => (∃ v, r = .ok v) ∧ G users g)
    (hf : ∀ a, (race email free).Triple i G (f a) Q) :
    (race email free).Triple i F (p.bind f) Q := by
  refine .bind _ hp (fun a => (hf a).pre fun _ _ _ h => h.2) fun e => ?_
  refine .assuming (A := False) (fun users g _ h => ?_) False.elim
  obtain ⟨⟨v, hv⟩, -⟩ := h
  cases hv

theorem generateTokens_triple {F : UserTable → Race → Prop} (hF : (race email free).Stable i F)
    (user : User) : (race email free).Triple i F (AuthService.generateTokens user)
      fun r users g => (∃ tokens, r = .ok tokens) ∧ F users g := by
  refine next_triple (blind_triple hF rfl fun c users => ⟨_, rfl⟩) fun accessToken => ?_
  refine next_triple (blind_triple hF rfl fun c users => ⟨_, rfl⟩) fun refreshToken => ?_
  exact .ret hF fun users g _ h => ⟨⟨_, rfl⟩, h⟩

/-- The user has been saved: tokens are made, and the call returns them. -/
theorem saved_triple {dto : RegisterDto} (savedUser : User) (hemail : savedUser.email = email) :
    (race email free).Triple i (Won email i savedUser.id)
      ((AuthService.generateTokens savedUser).bind fun tokens =>
        (AuthService.updateRefreshToken savedUser.id tokens.refreshToken).bind fun _ =>
          .ret (savedUser, tokens)) ((race email free).Post i dto) := by
  have hwon : (race email free).Lasting (Won email i savedUser.id) := won_lasting savedUser.id
  refine next_triple (generateTokens_triple hwon.stable savedUser) fun tokens => ?_
  refine next_triple (G := Won email i savedUser.id) ?_ fun _ => ?_
  · refine next_triple (blind_triple hwon.stable rfl fun c users => ⟨_, rfl⟩) fun hashed => ?_
    exact update_triple savedUser.id savedUser.id (some hashed)
  · refine .ret hwon.stable fun users g _ h => ?_
    exact Or.inl ⟨savedUser, tokens, rfl, h.1, hemail, h.2⟩

/-- **What one call comes to**: it creates the user, or reports the conflict. -/
theorem register_triple {dto : RegisterDto} (hdto : dto.email = email) :
    (race email free).Triple i (Idle i) (AuthService.register dto)
      ((race email free).Post i dto) := by
  unfold AuthService.register
  rw [hdto]
  refine .bind _ findOne_triple (fun found => ?_) fun e => ?_
  · cases found with
    | some user =>
      refine .throw (found_stable _) ?_
      rintro users g - (⟨hr, -⟩ | ⟨-, hidle, hhas⟩)
      · cases hr
      · exact Or.inr ⟨rfl, hhas, hidle.2⟩
    | none =>
      refine .pre (F := Looked i) ?_ ?_
      · rintro users g - (⟨-, h⟩ | ⟨⟨user, hr⟩, -⟩)
        · exact h
        · cases hr
      · refine next_triple (blind_triple looked_stable rfl fun c users => ⟨_, rfl⟩)
          fun hashedPassword => ?_
        have hinsert : (race email free).Triple i (Looked i)
            (userRepository.insert ⟨email, hashedPassword, dto.firstName, dto.lastName⟩)
            fun r users g =>
              ∃ user, r = .ok user ∧ user.email = email ∧ Won email i user.id users g :=
          insert_triple rfl
        refine .bind _ hinsert (fun savedUser => ?_) fun e => ?_
        · refine .assuming (A := savedUser.email = email) ?_ fun hemail =>
            (saved_triple savedUser hemail).pre ?_
          · rintro users g - ⟨user, hr, hemail, -⟩
            obtain rfl := Except.ok.inj hr
            exact hemail
          · rintro users g - ⟨user, hr, -, hwon⟩
            obtain rfl := Except.ok.inj hr
            exact hwon
        · refine .assuming (A := False) (fun users g _ h => ?_) False.elim
          obtain ⟨user, hr, -⟩ := h
          cases hr
  · refine .throw (found_stable _) ?_
    rintro users g - (⟨hr, -⟩ | ⟨⟨user, hr⟩, -⟩)
    · cases hr
    · cases hr

/-! ### Runs -/

/-- **Every call respects the agreements**, in runs in which nobody looks while another call is
about to save. -/
theorem race_sound (users : UserTable) :
    (race email (¬users.Has email)).Sound (fun w => w = users)
      (fun p a => Calls email p a ∧ Spaced email p a) where
  init := by
    rintro w rfl
    refine ⟨⟨none, none⟩,
      ⟨fun _ => rfl, fun h => absurd rfl h, fun hf h => absurd h hf, fun h => ?_⟩,
      fun j hj => ?_, fun j hj => ?_⟩
    · exact ⟨not_not.mp h, rfl⟩
    · cases hj
    · cases hj
  start := by
    rintro p dto g ⟨hdto, -⟩ hI hf
    rw [Pool.tags] at hf
    have hlen : ∀ j, j < (p.acts.map Activity.tag).length → j < p.acts.length := by
      intro j hj
      rwa [List.length_map] at hj
    refine ⟨g, hI, (race _ _).mono_refl _ g, fun j _ => (race _ _).keep_refl j _ g, ?_, hdto,
      ?_, ?_⟩
    · refine ⟨fun j hj => ?_, fun j hj => ?_⟩
      · rw [List.length_append]
        exact Nat.lt_add_right _ (hf.1 j hj)
      · rw [List.length_append]
        exact Nat.lt_add_right _ (hf.2 j hj)
    · exact fun h => absurd (hlen _ (hf.1 _ h)) (Nat.lt_irrefl _)
    · exact fun h => absurd (hlen _ (hf.2 _ h)) (Nat.lt_irrefl _)
  tick := by
    rintro p d
    cases d
  canRun := by
    rintro p i c dto o k g ⟨⟨hfault, hfresh⟩, hspaced⟩ hi hH
    refine ⟨hfault, hfresh, fun hlooks => ?_⟩
    have hlooking : Looking p i := by
      rw [Looking, Pool.awaits_eq_some.mpr ⟨dto, k, hi⟩]
      exact hlooks
    refine (hspaced hlooking).imp id fun hall => ?_
    -- whoever has looked in vain does not await the check any more
    by_contra hne
    obtain ⟨j, hj⟩ := Option.ne_none_iff_exists'.mp hne
    have hlt := hH.fits.1 j hj
    rw [Pool.tags, List.length_map] at hlt
    obtain ⟨o', ho', hlooks'⟩ := (Option.any_eq_true _ _).mp (hall j hlt)
    obtain ⟨dto', k', hact⟩ := Pool.awaits_eq_some.mp ho'
    exact hH.assert hact hlooks' hj
  body := by
    rintro i dto w g ⟨hdto, hidle⟩ hI
    exact register_triple hdto w g hI hidle

variable {p : Pool registrations}

/-- What is known of a call that has ended. -/
theorem race_ended {free : Prop} {g : Race} (hH : (race email free).Holds p g) {i : ℕ}
    {r : Except AuthErr (User × AuthTokens)} (hr : p.result? i = some r) :
    (Creates email p i ∧ g.winner = some i) ∨
      (Refused p i ∧ UserTable.Has p.world email ∧ g.winner ≠ some i) := by
  obtain ⟨a, ha, hend⟩ := Option.bind_eq_some_iff.mp hr
  rcases hH.post ha hend with ⟨user, tokens, rfl, hwinner, hemail, hrow⟩ | ⟨rfl, hhas, hne⟩
  · exact Or.inl ⟨⟨user, tokens, hr, hemail, hrow⟩, hwinner⟩
  · exact Or.inr ⟨hr, hhas, hne⟩

/-- Whoever has created the user is the winner. -/
theorem Creates.winner {free : Prop} {g : Race} (hH : (race email free).Holds p g) {i : ℕ}
    (h : Creates email p i) : g.winner = some i := by
  obtain ⟨user, tokens, hr, -⟩ := h
  rcases race_ended hH hr with ⟨-, hwinner⟩ | ⟨hrefused, -⟩
  · exact hwinner
  · rw [Refused, hr] at hrefused
    cases hrefused

/-- Where nothing is left to run, every call has ended. -/
theorem exists_result (hq : p.Quiescent) {i : ℕ} (hi : i < p.acts.length) :
    ∃ r, p.result? i = some r := by
  have hnone := hq _ (List.getElem_mem hi)
  unfold Pool.result?
  rw [List.getElem?_eq_getElem hi, Option.bind_some]
  cases hprog : p.acts[i].prog with
  | ret a => exact ⟨_, rfl⟩
  | throw e => exact ⟨_, rfl⟩
  | await o k =>
    rw [hprog] at hnone
    cases hnone

/-- **One call wins.**  Any number of calls with one email, interleaved in any way in which no
call looks for the email while another has looked in vain and not saved yet: at every point of
the run, every call that has ended has created the user or thrown a `ConflictException`; if the
email was taken none has created the user, and if it was free exactly one has when all have
ended. -/
theorem register_once (users : UserTable) (email : String)
    (hp : Pool.Reachable (fun w => w = users) (fun p a => Calls email p a ∧ Spaced email p a) p) :
    OneWins email (¬users.Has email) p := by
  have hsound : (race email (¬users.Has email)).Sound (fun w => w = users) _ := race_sound users
  obtain ⟨g, hH⟩ := hsound.reachable hp
  refine ⟨fun i r hr => (race_ended hH hr).imp And.left And.left, fun i j hi hj => ?_,
    fun htaken i hi => ?_, fun hfree hq hne => ?_⟩
  · exact Option.some.inj ((Creates.winner hH hi).symm.trans (Creates.winner hH hj))
  · have hnone := (hH.inv.2.2.2 htaken).2
    rw [Creates.winner hH hi] at hnone
    cases hnone
  · -- somebody has ended, so the email is stored, and whoever stored it has ended too
    have hhas : UserTable.Has p.world email := by
      obtain ⟨r, hr⟩ := exists_result hq (List.length_pos_iff.mpr hne)
      rcases race_ended hH hr with ⟨⟨user, tokens, -, -, row, hrow, -, hemail⟩, -⟩ | ⟨-, hhas, -⟩
      · exact ⟨row, hrow, hemail⟩
      · exact hhas
    obtain ⟨j, hj⟩ := Option.ne_none_iff_exists'.mp (hH.inv.2.2.1 hfree hhas)
    have hlt := hH.fits.2 j hj
    rw [Pool.tags, List.length_map] at hlt
    obtain ⟨r, hr⟩ := exists_result hq hlt
    rcases race_ended hH hr with ⟨hcreates, -⟩ | ⟨-, -, hne⟩
    · exact ⟨j, hcreates⟩
    · exact absurd hj hne

instance Calls.decidable (email : String) (p : Pool registrations) :
    ∀ a, Decidable (Calls email p a)
  | .start dto => inferInstanceAs (Decidable (dto.email = email))
  | .run _ c => inferInstanceAs (Decidable (c.fault = none ∧ ∀ user ∈ p.world.rows, user.id ≠ c.id))
  | .tick _ => isTrue trivial

instance (p : Pool registrations) (i : ℕ) : Decidable (Looking p i) :=
  inferInstanceAs (Decidable (_ = true))

instance Spaced.decidable (email : String) (p : Pool registrations) :
    ∀ a, Decidable (Spaced email p a)
  | .start _ => isTrue trivial
  | .run i _ => inferInstanceAs (Decidable (Looking p i →
      UserTable.Has p.world email ∨ ∀ j < p.acts.length, Looking p j))
  | .tick _ => isTrue trivial

end Registration

end Registrations

/-! ### Two calls with one email -/

namespace Registration

open Samples

/-- The id of the first user. -/
def firstId : Uuid := ⟨"5a0c9b7e-41d2-4c3f-a8b6-0f1e2d3c4b5a", by decide +kernel⟩

/-- The id that the second call draws. -/
def secondId : Uuid := ⟨"7d1e5a90-2c3b-4f68-9e07-5b6c7d8e9f01", by decide +kernel⟩

/-- What both calls ask for. -/
def john : RegisterDto := ⟨"john@example.com", "password123", "John", "Doe"⟩

/-- Both look before either saves. -/
def colliding : List (Action registrations) :=
  [.start john, .start john, .run 0 {}, .run 1 {}, .run 0 {}, .run 1 {}, .run 0 { id := firstId },
    .run 1 { id := secondId }, .run 0 {}, .run 0 {}, .run 0 {}, .run 0 {}]

/-- The second looks after the first has saved. -/
def waiting : List (Action registrations) :=
  [.start john, .start john, .run 0 {}, .run 0 {}, .run 0 { id := firstId }, .run 1 {}, .run 0 {},
    .run 0 {}, .run 0 {}, .run 0 {}]

theorem collision_played :
    (Pool.play (Calls john.email) ⟨.empty, []⟩ colliding).isSome := by decide +kernel

/-- The calls after the collision. -/
def collided : Pool registrations :=
  (Pool.play (Calls john.email) ⟨.empty, []⟩ colliding).get collision_played

theorem register_collides : ∃ p : Pool registrations,
    Pool.Reachable (fun w => w = (.empty : UserTable)) (Calls john.email) p ∧ p.Quiescent ∧
      p.result? 1 = some (.error (.uniqueViolation "email")) ∧
      ¬OneWins john.email (¬UserTable.Has .empty john.email) p := by
  have hended : collided.result? 1 = some (.error (.uniqueViolation "email")) := by decide +kernel
  refine ⟨collided, Pool.reachable_of_play (by rfl) collision_played, by decide +kernel, hended,
    fun h => ?_⟩
  rcases h.ended 1 _ hended with ⟨user, tokens, hcreates, -⟩ | hrefused
  · rw [hended] at hcreates
    cases hcreates
  · rw [Refused, hended] at hrefused
    cases hrefused

theorem waiting_played :
    (Pool.play (fun p a => Calls john.email p a ∧ Spaced john.email p a) ⟨.empty, []⟩
      waiting).isSome := by decide +kernel

/-- The calls after the second has waited. -/
def waited : Pool registrations :=
  (Pool.play (fun p a => Calls john.email p a ∧ Spaced john.email p a) ⟨.empty, []⟩ waiting).get
    waiting_played

theorem register_once_waited :
    OneWins john.email (¬UserTable.Has .empty john.email) waited :=
  register_once .empty john.email (Pool.reachable_of_play (by rfl) waiting_played)

end Registration

end CqrsSaga
