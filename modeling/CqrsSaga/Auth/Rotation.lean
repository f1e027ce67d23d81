import CqrsSaga.Auth.Service
import CqrsSaga.Async.Solo

/-!
# The rotation of refresh tokens

Registrations, logins, refreshes and logouts, each run to its end before the next begins; queries
may fail.  A user's row then holds a hash of the refresh token issued to them last, or none.  A hash
tells two tokens apart by their first 72 bytes only, and these are the header and the beginning of
the payload, which holds the user's id: all refresh tokens of a user agree on them.

## Main definitions

* `AuthCall`, `AuthRecord`, `Reached` — the calls, and the histories of calls.
* `latestToken` — the refresh token issued last, unless a logout came after it.
* `tokenPrefix` — the first 72 bytes of every token of a user.

## Main results

* `Rotation.Reached.kept` — what the rows hold after any history.
* `refreshTokens_rotates` — **when a refresh is confined to the token issued last**.
* `issues_superseded` — every token ever issued to a user is accepted while their row holds a hash.
-/

namespace CqrsSaga

open Base64Url

/-- A call of `AuthService`. -/
inductive AuthCall
  | register (registerDto : RegisterDto)
  | login (user : User)
  | refreshTokens (userId : Uuid) (refreshToken : String)
  | logout (userId : Uuid)

/-- What a call answers. -/
inductive AuthReply
  | registered (user : User) (tokens : AuthTokens)
  | tokens (tokens : AuthTokens)
  | done

/-- The method that is called. -/
def AuthCall.run [ProcessEnv] : AuthCall → Async Auth AuthReply
  | register registerDto => (fun r => .registered r.1 r.2) <$> AuthService.register registerDto
  | login user => .tokens <$> AuthService.login user
  | refreshTokens userId token => .tokens <$> AuthService.refreshTokens userId token
  | logout userId => (fun _ => .done) <$> AuthService.logout userId

/-- A call, and what it came to. -/
abbrev AuthRecord := AuthCall × Except AuthErr AuthReply

/-- The user to whom a call issued a refresh token, or from whom it took theirs; a call that throws
does neither. -/
def AuthRecord.turns : AuthRecord → Option (Uuid × Option String)
  | (.register _, .ok (.registered user tokens)) => some (user.id, some tokens.refreshToken)
  | (.login user, .ok (.tokens tokens)) => some (user.id, some tokens.refreshToken)
  | (.refreshTokens userId _, .ok (.tokens tokens)) => some (userId, some tokens.refreshToken)
  | (.logout userId, .ok .done) => some (userId, none)
  | _ => none

/-- The refresh token issued last to a user, unless a logout came after it; the last call stands
first. -/
def latestToken (u : Uuid) : List AuthRecord → Option String
  | [] => none
  | record :: past =>
    match record.turns with
    | some (id, token) => if id = u then token else latestToken u past
    | none => latestToken u past

/-- The circumstances: one call at a time. -/
def alone [Bcrypt] [JwtService] : Solo accounts Unit where
  Aside := fun users users' => users' = users
  Can := fun _ _ _ => True
  note := fun _ _ => []

instance [Bcrypt] [JwtService] (users : UserTable) (o : AuthOp) (c : AuthChoice) :
    Decidable (alone.Can users o c) := inferInstanceAs (Decidable True)

/-- The histories of calls, from any users of whom none holds a refresh token. -/
inductive Reached [Bcrypt] [JwtService] [ProcessEnv] : List AuthRecord → UserTable → Prop
  | start {users : UserTable} (h : ∀ user ∈ users, user.refreshToken = none) : Reached [] users
  | call {past : List AuthRecord} {users users' : UserTable} {call : AuthCall}
      {cs : List AuthChoice} {l : List Unit} {r : Except AuthErr AuthReply} (h : Reached past users)
      (hplay : alone.play 0 call.run cs [] users = some (l, r, users')) :
      Reached ((call, r) :: past) users'

/-- The first 72 bytes of every token of a user: the header, and the payload up to the 19th
character of the id. -/
def tokenPrefix (u : Uuid) : List UInt8 :=
  (utf8 (base64url jwtHeader ++ "." ++
    String.ofList (encode ((utf8 (jwtSubject u)).take 27)))).take 72

namespace Rotation

variable [Bcrypt] [JwtService] [ProcessEnv] {i : ℕ} {l : List Unit} {users : UserTable}
  {past : List AuthRecord} {record : AuthRecord} {u : Uuid} {t : String}

/-- A token begins as the tokens of the user do. -/
def Opens (u : Uuid) (t : String) : Prop := (utf8 t).take 72 = tokenPrefix u

omit [Bcrypt] [ProcessEnv] in
/-- **The first 72 bytes of a token say no more than whose it is.** -/
theorem opens_signAsync (payload : JwtPayload) (options : JwtSignOptions) (now : ℕ) :
    Opens payload.sub (JwtService.signAsync payload options now) := by
  obtain ⟨fields, signature, hsign⟩ := JwtService.signAsync_eq payload options now
  have hlen : 27 ≤ (utf8 (jwtSubject payload.sub)).length := by
    have hle := length_le_utf8 (jwtSubject payload.sub)
    rw [jwtSubject, String.length_append, payload.sub.length_text] at hle
    exact Nat.le_trans (by omega) hle
  obtain ⟨rest, hrest⟩ := base64url_append _ ("\"" ++ fields) (n := 27) ⟨9, rfl⟩ hlen
  rw [Opens, hsign, hrest]
  -- the header and nine groups of the payload are 73 characters
  have htake := List.length_take_of_le hlen
  have hgroups : 3 * (encode ((utf8 (jwtSubject payload.sub)).take 27)).length = 4 * 27 := by
    rw [length_encode ⟨9, htake⟩, htake]
  have hheader : (base64url jwtHeader ++ ".").length = 37 := by decide +kernel
  have hbytes := length_le_utf8 (base64url jwtHeader ++ "." ++
    String.ofList (encode ((utf8 (jwtSubject payload.sub)).take 27)))
  rw [String.length_append, hheader, String.length_ofList] at hbytes
  rw [tokenPrefix, ← String.append_assoc, String.append_assoc, String.append_assoc, utf8_append,
    List.take_append_of_le_length (by omega)]

/-! ### What a call comes to -/

omit [ProcessEnv] in
/-- One call of a library or of the database. -/
theorem call_ends {o : AuthOp} {Q : Except AuthErr o.Val → UserTable → Prop}
    (hok : ∀ c, Q (users.perform c o).2 (users.perform c o).1)
    (herr : o.isQuery = true → ∀ m, Q (.error (.injected m)) users) :
    alone.Ends i (fun _ r w => Q r w) (authCall o) l users := by
  refine .perform fun users' hsame => ⟨⟨{}, _, trivial, rfl⟩, fun c v r ts _ he => ?_⟩
  obtain rfl : users' = users := hsame
  obtain ⟨⟨w, r'⟩, hexec, heq⟩ := Option.map_eq_some_iff.mp he
  simp only [Prod.mk.injEq] at heq
  obtain ⟨rfl, rfl, -⟩ := heq
  unfold UserTable.exec at hexec
  split at hexec
  · have hok := hok c
    rw [Option.some.inj hexec] at hok
    exact hok
  · next m _ =>
    split at hexec
    · next hq =>
      obtain ⟨rfl, rfl⟩ := Prod.mk.inj (Option.some.inj hexec)
      exact herr hq m
    · exact nomatch hexec

/-- The tokens of a user. -/
theorem generateTokens_ends (user : User) : alone.Ends i
    (Solo.Ends.Returns fun _ tokens w => w = users ∧ Opens user.id tokens.refreshToken)
    (AuthService.generateTokens user) l users := by
  refine .next (R := fun _ _ w => w = users) ?_ ?_
  · exact call_ends (fun c => ⟨_, rfl, rfl⟩) nofun
  · rintro l accessToken w rfl
    refine .next (R := fun _ t w' => w' = w ∧ Opens user.id t) ?_ ?_
    · exact call_ends (fun c => ⟨_, rfl, rfl, opens_signAsync _ _ _⟩) nofun
    · rintro l t w' ⟨rfl, ht⟩
      exact ⟨_, rfl, rfl, ht⟩

/-- A user's row comes to hold a hash of the token, or is as it was. -/
def Turned (u : Uuid) (t : String) (users : UserTable) {α : Type} (a : α) (r : Except AuthErr α)
    (w : UserTable) : Prop :=
  (∃ e, r = .error e) ∧ w = users ∨
    r = .ok a ∧ ∃ salt, w = users.setRefreshToken u (some (Bcrypt.hash t 12 salt))

omit [ProcessEnv] in
theorem updateRefreshToken_ends : alone.Ends i (fun _ r w => Turned u t users () r w)
    (AuthService.updateRefreshToken u t) l users := by
  refine .next (R := fun _ h w => w = users ∧ ∃ salt, h = Bcrypt.hash t 12 salt) ?_ ?_
  · exact call_ends (fun c => ⟨_, rfl, rfl, c.salt, rfl⟩) nofun
  · rintro l h w ⟨rfl, salt, rfl⟩
    exact call_ends (fun c => Or.inr ⟨rfl, salt, rfl⟩) fun _ m => Or.inl ⟨⟨_, rfl⟩, rfl⟩

/-- **Tokens are made, and the row comes to hold a hash of the second**, or nothing is answered. -/
theorem issue_ends {α : Type} (user : User) (f : AuthTokens → α) : alone.Ends i
    (fun _ r w => ∃ tokens, Opens user.id tokens.refreshToken ∧
      Turned user.id tokens.refreshToken users (f tokens) r w)
    ((AuthService.generateTokens user).bind fun tokens =>
      (AuthService.updateRefreshToken user.id tokens.refreshToken).bind fun _ =>
        .ret (f tokens)) l users := by
  refine .next (generateTokens_ends user) ?_
  rintro l tokens w ⟨rfl, hopens⟩
  refine .bind _ updateRefreshToken_ends ?_ ?_
  · rintro l _ w' (⟨⟨e, he⟩, -⟩ | ⟨-, hw⟩)
    · exact nomatch he
    · exact ⟨tokens, hopens, Or.inr ⟨rfl, hw⟩⟩
  · rintro l e w' (⟨-, hw⟩ | ⟨he, -⟩)
    · exact ⟨tokens, hopens, Or.inl ⟨⟨e, rfl⟩, hw⟩⟩
    · exact nomatch he

/-- **What a refresh comes to**: nothing, or the token presented stands against the stored hash and
new tokens are issued. -/
theorem refreshTokens_ends : alone.Ends i
    (fun _ r w => (∃ e, r = .error e) ∧ w = users ∨
      ∃ user ∈ users, user.id = u ∧
        (∃ stored, user.refreshToken = some stored ∧ Bcrypt.compare t stored = true) ∧
        ∃ tokens, Opens u tokens.refreshToken ∧ Turned u tokens.refreshToken users tokens r w)
    (AuthService.refreshTokens u t) l users := by
  refine .bind (fun _ r w => w = users ∧ ∀ user, r = .ok (some user) → user ∈ users ∧ user.id = u)
    (call_ends (fun c => ⟨rfl, fun user h => ?_⟩) fun _ m => ⟨rfl, nofun⟩) ?_ ?_
  · have h := Except.ok.inj h
    have hsel := Table.find?_some h
    simp only [UserWhere.selects, meets_some, meets_none, Bool.and_true] at hsel
    exact ⟨Table.mem_of_find? h, hsel.symm⟩
  · rintro l found w ⟨rfl, hfound⟩
    cases found with
    | none => exact Or.inl ⟨⟨_, rfl⟩, rfl⟩
    | some user =>
      obtain ⟨hmem, rfl⟩ := hfound user rfl
      dsimp only
      cases hstored : truthy user.refreshToken with
      | none => exact Or.inl ⟨⟨_, rfl⟩, rfl⟩
      | some stored =>
        -- the stored hash is compared, and only a match goes on to issue
        obtain ⟨hrow, -⟩ := truthy_eq_some.mp hstored
        refine .next (R := fun _ b w' => w' = w ∧ b = Bcrypt.compare t stored)
          (call_ends (fun c => ⟨_, rfl, rfl, rfl⟩) nofun) ?_
        rintro l b w' ⟨rfl, rfl⟩
        split
        · exact Or.inl ⟨⟨_, rfl⟩, rfl⟩
        · next hb =>
          refine (issue_ends user id).mono ?_
          rintro l r w'' h
          exact Or.inr ⟨user, hmem, rfl, ⟨stored, hrow, by simpa using hb⟩, h⟩
  · rintro l e w ⟨rfl, -⟩
    exact Or.inl ⟨⟨e, rfl⟩, rfl⟩

/-! ### What the rows hold -/

omit [Bcrypt] [JwtService] [ProcessEnv] in
/-- The token issued last was issued. -/
theorem issued_of_latest : ∀ {past : List AuthRecord}, latestToken u past = some t →
    ∃ record ∈ past, record.turns = some (u, some t) := by
  intro past
  induction past with
  | nil => exact nofun
  | cons record past ih =>
    intro h
    have hrest : latestToken u past = some t →
        ∃ record' ∈ record :: past, record'.turns = some (u, some t) := fun h => by
      obtain ⟨record', hmem, hturns⟩ := ih h
      exact ⟨record', List.mem_cons_of_mem _ hmem, hturns⟩
    rw [latestToken] at h
    split at h
    · next id token hturns =>
      split at h
      · next he =>
        subst he
        subst h
        exact ⟨record, List.mem_cons_self, hturns⟩
      · exact hrest h
    · exact hrest h

/-- Every row holds no hash, or one of the token issued last; and every token issued to a user
begins as theirs do. -/
structure Kept (past : List AuthRecord) (users : UserTable) : Prop where
  hashed : ∀ user ∈ users, user.refreshToken = none ∨ ∃ t salt,
    latestToken user.id past = some t ∧ user.refreshToken = some (Bcrypt.hash t 12 salt)
  opens : ∀ record ∈ past, ∀ u t, record.turns = some (u, some t) → Opens u t

omit [JwtService] [ProcessEnv] in
/-- A record that says nothing of a token. -/
theorem Kept.still (h : Kept past users) (hrecord : record.turns = none) :
    Kept (record :: past) users := by
  have hlatest : ∀ u, latestToken u (record :: past) = latestToken u past := fun u => by
    rw [latestToken, hrecord]
  refine ⟨fun user hu => ?_, fun record' hmem u t ht => ?_⟩
  · rw [hlatest]
    exact h.hashed user hu
  · rcases List.mem_cons.mp hmem with rfl | hmem
    · rw [hrecord] at ht
      exact nomatch ht
    · exact h.opens record' hmem u t ht

omit [JwtService] [ProcessEnv] in
/-- **A token is issued or taken**, and the row comes to hold a hash of it or none. -/
theorem Kept.turned (h : Kept past users) {token stored : Option String}
    (hrecord : record.turns = some (u, token)) (hopens : ∀ t, token = some t → Opens u t)
    (hstored : stored = none ∨ ∃ t salt, token = some t ∧ stored = some (Bcrypt.hash t 12 salt)) :
    Kept (record :: past) (users.setRefreshToken u stored) := by
  have hlatest : ∀ v, latestToken v (record :: past) = if u = v then token else latestToken v past :=
    fun v => by rw [latestToken, hrecord]
  refine ⟨fun user hu => ?_, fun record' hmem v t ht => ?_⟩
  · rw [hlatest]
    rcases UserTable.mem_setRefreshToken.mp hu with ⟨hu, hne⟩ | ⟨user, -, rfl, rfl⟩
    · rw [if_neg (Ne.symm hne)]
      exact h.hashed user hu
    · rw [if_pos rfl]
      exact hstored
  · rcases List.mem_cons.mp hmem with rfl | hmem
    · obtain ⟨rfl, rfl⟩ := Prod.mk.inj (Option.some.inj (hrecord.symm.trans ht))
      exact hopens t rfl
    · exact h.opens record' hmem v t ht

omit [JwtService] [ProcessEnv] in
/-- A user is inserted, without a token. -/
theorem Kept.insert (h : Kept past users) {id : Uuid} {n : NewUser} :
    Kept past (users.insert id n).1 := by
  unfold UserTable.insert
  split
  · exact h
  · split
    · exact h
    · next users' hsave =>
      refine ⟨fun user hu => ?_, h.opens⟩
      rcases (Table.mem_save hsave).mp hu with rfl | ⟨hu, -⟩
      · exact Or.inl rfl
      · exact h.hashed user hu

theorem register_ends {registerDto : RegisterDto} (h : Kept past users) :
    alone.Ends i (fun _ r w => (∃ e, r = .error e) ∧ Kept past w ∨
      ∃ user tokens users', r = .ok (user, tokens) ∧ Kept past users' ∧
        Opens user.id tokens.refreshToken ∧ ∃ salt,
          w = users'.setRefreshToken user.id (some (Bcrypt.hash tokens.refreshToken 12 salt)))
      (AuthService.register registerDto) l users := by
  refine .bind (fun _ _ w => w = users) (call_ends (fun c => rfl) fun _ m => rfl) ?_ ?_
  · rintro l found w rfl
    dsimp only
    split
    · exact Or.inl ⟨⟨_, rfl⟩, h⟩
    · refine .next (R := fun _ _ w' => w' = w) (call_ends (fun c => ⟨_, rfl, rfl⟩) nofun) ?_
      rintro l hashedPassword w' rfl
      refine .bind (fun _ _ w => Kept past w) (call_ends (fun c => h.insert) fun _ m => h) ?_ ?_
      · rintro l savedUser w h
        refine (issue_ends savedUser fun tokens => (savedUser, tokens)).mono ?_
        rintro l r w' ⟨tokens, hopens, ⟨he, rfl⟩ | ⟨rfl, salt, rfl⟩⟩
        · exact Or.inl ⟨he, h⟩
        · exact Or.inr ⟨savedUser, tokens, w, rfl, h, hopens, salt, rfl⟩
      · exact fun l e w h => Or.inl ⟨⟨e, rfl⟩, h⟩
  · rintro l e w rfl
    exact Or.inl ⟨⟨e, rfl⟩, h⟩

/-- **One call keeps the rows in step with the history.** -/
theorem run_ends (call : AuthCall) (h : Kept past users) :
    alone.Ends i (fun _ r w => Kept ((call, r) :: past) w) call.run l users := by
  -- a call that fails leaves the rows as they are, one that returns has turned one row
  cases call with
  | register registerDto =>
    refine .bind _ (register_ends h) ?_ ?_
    · rintro l ⟨user, tokens⟩ w (⟨⟨e, he⟩, -⟩ | ⟨user, tokens, users', he, h, hopens, salt, rfl⟩)
      · exact nomatch he
      · obtain ⟨rfl, rfl⟩ := Prod.mk.inj (Except.ok.inj he)
        exact h.turned rfl (fun t ht => Option.some.inj ht ▸ hopens)
          (Or.inr ⟨_, salt, rfl, rfl⟩)
    · rintro l e w (⟨-, h⟩ | ⟨user, tokens, users', he, -⟩)
      · exact h.still rfl
      · exact nomatch he
  | login user =>
    refine .bind _ (issue_ends user id) ?_ ?_
    · rintro l tokens w ⟨tokens', hopens, ⟨⟨e, he⟩, -⟩ | ⟨he, salt, rfl⟩⟩
      · exact nomatch he
      · obtain rfl := Except.ok.inj he
        exact h.turned rfl (fun t ht => Option.some.inj ht ▸ hopens)
          (Or.inr ⟨_, salt, rfl, rfl⟩)
    · rintro l e w ⟨tokens, -, ⟨-, rfl⟩ | ⟨he, -⟩⟩
      · exact h.still rfl
      · exact nomatch he
  | refreshTokens userId token =>
    refine .bind _ refreshTokens_ends ?_ ?_
    · rintro l tokens w (⟨⟨e, he⟩, -⟩ | ⟨user, -, -, -, tokens', hopens,
        ⟨⟨e, he⟩, -⟩ | ⟨he, salt, rfl⟩⟩)
      · exact nomatch he
      · exact nomatch he
      · obtain rfl := Except.ok.inj he
        exact h.turned rfl (fun t ht => Option.some.inj ht ▸ hopens)
          (Or.inr ⟨_, salt, rfl, rfl⟩)
    · rintro l e w (⟨-, rfl⟩ | ⟨user, -, -, -, tokens', -, ⟨-, rfl⟩ | ⟨he, -⟩⟩)
      · exact h.still rfl
      · exact h.still rfl
      · exact nomatch he
  | logout userId =>
    refine .bind (fun _ r w => (∃ e, r = .error e) ∧ w = users ∨
        r = .ok () ∧ w = users.setRefreshToken userId none)
      (call_ends (fun c => Or.inr ⟨rfl, rfl⟩) fun _ m => Or.inl ⟨⟨_, rfl⟩, rfl⟩) ?_ ?_
    · rintro l _ w (⟨⟨e, he⟩, -⟩ | ⟨-, rfl⟩)
      · exact nomatch he
      · exact h.turned rfl nofun (Or.inl rfl)
    · rintro l e w (⟨-, rfl⟩ | ⟨he, -⟩)
      · exact h.still rfl
      · exact nomatch he

/-- **After any history the rows hold what they should.** -/
theorem Reached.kept (h : Reached past users) : Kept past users := by
  induction h with
  | start h =>
    exact ⟨fun user hu => Or.inl (h user hu), fun _ hmem => absurd hmem List.not_mem_nil⟩
  | call _ hplay ih => exact (run_ends _ ih).of_play (fun _ => rfl) hplay

omit [ProcessEnv] [JwtService] in
/-- **A token stands against a stored hash if it begins as the user's tokens do.** -/
theorem Kept.compare {user : User} {stored : String} (h : Kept past users) (hu : user ∈ users)
    (hstored : user.refreshToken = some stored) :
    stored ≠ "" ∧ (Bcrypt.compare t stored = true ↔ Opens user.id t) := by
  rcases h.hashed user hu with hnone | ⟨t', salt, ht', hhash⟩
  · rw [hnone] at hstored
    exact nomatch hstored
  · obtain ⟨record, hmem, hturns⟩ := issued_of_latest ht'
    have hopens : (utf8 t').take 72 = tokenPrefix user.id :=
      h.opens record hmem user.id t' hturns
    obtain rfl := Option.some.inj (hhash.symm.trans hstored)
    refine ⟨Bcrypt.hash_ne _ _ _, ?_⟩
    rw [Bcrypt.compare_hash, decide_eq_true_eq, hopens, Opens]

/-! ### What is accepted -/

/-- A call can return. -/
def Returns {α : Type} (p : Async Auth α) (users : UserTable) : Prop :=
  ∃ cs a users', alone.play 0 p cs [] users = some ([], .ok a, users')

omit [ProcessEnv] in
theorem Returns.ret {α : Type} {a : α} : Returns (.ret a) users := ⟨[], a, users, rfl⟩

omit [ProcessEnv] in
/-- A call that does not fail is answered, and the run goes on. -/
theorem play_await {α : Type} {o : AuthOp} {v : o.Val} {w : UserTable} {c : AuthChoice}
    {cs : List AuthChoice} {k : Except AuthErr o.Val → Async Auth α} (hc : c.fault = none)
    (ho : users.perform c o = (w, .ok v)) :
    alone.play 0 (.await o k) (c :: cs) [] users = alone.play 0 (k (.ok v)) cs [] w := by
  have hcan : alone.Can users o c := trivial
  have hperform : users.exec o c = some (w, .ok v) := by rw [UserTable.exec, hc, ho]
  have hexec : accounts.exec users 0 o c = some (w, .ok v, []) :=
    congrArg (Option.map fun r : UserTable × Except AuthErr o.Val => (r.1, r.2, ([] : List Empty)))
      hperform
  rw [Solo.play, if_pos hcan, hexec]
  rfl

omit [ProcessEnv] in
theorem Returns.await {α : Type} {o : AuthOp} {v : o.Val} {w : UserTable}
    {k : Except AuthErr o.Val → Async Auth α}
    (ho : users.perform {} o = (w, .ok v)) (h : Returns (k (.ok v)) w) :
    Returns (.await o k) users := by
  obtain ⟨cs, a, users', hplay⟩ := h
  exact ⟨{} :: cs, a, users', (play_await rfl ho).trans hplay⟩

omit [ProcessEnv] in
theorem Returns.call {α : Type} {o : AuthOp} {v : o.Val} {w : UserTable} {f : o.Val → Async Auth α}
    (ho : users.perform {} o = (w, .ok v)) (h : Returns (f v) w) :
    Returns ((authCall o).bind f) users := .await ho h

/-- A token that stands against the stored hash is accepted, if nothing fails. -/
theorem returns_refreshTokens {user : User} {stored : String} (hu : user ∈ users)
    (hstored : user.refreshToken = some stored) (hne : stored ≠ "")
    (ht : Bcrypt.compare t stored = true) : Returns (AuthService.refreshTokens user.id t) users := by
  have hfound : users.find? (UserWhere.selects { id := some user.id }) = some user := by
    refine Table.find?_eq_some hu (by simp [UserWhere.selects]) fun x hx hsel => ?_
    simp only [UserWhere.selects, meets_some, meets_none, Bool.and_true] at hsel
    exact Table.eq_of_pk hx hu hsel.symm
  have htruthy : truthy user.refreshToken = some stored := by rw [hstored, truthy_some hne]
  have hfind : users.perform {} (.userFindOne { id := some user.id }) = (users, .ok (some user)) := by
    rw [UserTable.perform, hfound]
  have hcompare : users.perform {} (.compare t stored) = (users, .ok true) := by
    rw [UserTable.perform, ht]
  refine .call hfind ?_
  simp only [htruthy]
  refine .call hcompare ?_
  exact .await rfl (.await rfl (.await rfl (.await rfl .ret)))

end Rotation

section

variable [Bcrypt] [JwtService] [ProcessEnv] {users : UserTable} {past : List AuthRecord}

/-- The service can issue new tokens for a token presented. -/
def Issues (users : UserTable) (u : Uuid) (t : String) : Prop :=
  ∃ cs tokens users',
    alone.play 0 (AuthService.refreshTokens u t) cs [] users = some ([], .ok tokens, users')

/-- **After any history, a refresh is confined to the token issued last** exactly if the user's row
holds no hash, or it is that token that is presented, or one whose first 72 bytes are not those of
the user's tokens. -/
theorem refreshTokens_rotates (h : Reached past users) (u : Uuid) (t : String) :
    (Issues users u t → latestToken u past = some t) ↔
      (∀ user ∈ users, user.id = u → user.refreshToken = none) ∨ latestToken u past = some t ∨
        (utf8 t).take 72 ≠ tokenPrefix u := by
  have hkept := Rotation.Reached.kept h
  constructor
  · intro hlatest
    by_contra hnot
    simp only [not_or, not_forall, ne_eq, not_not] at hnot
    obtain ⟨⟨user, hu, rfl, hne⟩, hother, hprefix⟩ := hnot
    obtain ⟨stored, hstored⟩ := Option.ne_none_iff_exists'.mp hne
    obtain ⟨htext, hcompare⟩ := hkept.compare hu hstored
    exact hother (hlatest
      (Rotation.returns_refreshTokens hu hstored htext (hcompare.mpr hprefix)))
  · rintro hcond ⟨cs, tokens, users', hplay⟩
    rcases Rotation.refreshTokens_ends.of_play (fun _ => rfl) hplay with
      ⟨⟨e, he⟩, -⟩ | ⟨user, hu, rfl, ⟨stored, hstored, hmatch⟩, -⟩
    · exact nomatch he
    · have hprefix := (hkept.compare hu hstored).2.mp hmatch
      rcases hcond with hnone | hlatest | hother
      · rw [hnone user hu rfl] at hstored
        exact nomatch hstored
      · exact hlatest
      · exact absurd hprefix hother

/-- **Every token ever issued to a user is accepted**, as long as their row holds a hash. -/
theorem issues_superseded (h : Reached past users) {record : AuthRecord} {u : Uuid} {t : String}
    (hrecord : record ∈ past) (hturns : record.turns = some (u, some t)) {user : User}
    (hu : user ∈ users) (hid : user.id = u) (hne : user.refreshToken ≠ none) : Issues users u t := by
  have hkept := Rotation.Reached.kept h
  subst hid
  obtain ⟨stored, hstored⟩ := Option.ne_none_iff_exists'.mp hne
  obtain ⟨htext, hcompare⟩ := hkept.compare hu hstored
  exact Rotation.returns_refreshTokens hu hstored htext
    (hcompare.mpr (hkept.opens record hrecord user.id t hturns))

/-- The calls of a list, one after the other. -/
def playCalls : List (AuthCall × List AuthChoice) → List AuthRecord → UserTable →
    Option (List AuthRecord × UserTable)
  | [], past, users => some (past, users)
  | (call, cs) :: calls, past, users =>
    match alone.play 0 call.run cs [] users with
    | some (_, r, users') => playCalls calls ((call, r) :: past) users'
    | none => none

theorem Reached.of_playCalls : ∀ {calls : List (AuthCall × List AuthChoice)} {past : List AuthRecord}
    {users : UserTable} {out : List AuthRecord × UserTable}, Reached past users →
      playCalls calls past users = some out → Reached out.1 out.2 := by
  intro calls
  induction calls with
  | nil =>
    intro past users out h hout
    obtain rfl := Option.some.inj hout
    exact h
  | cons c calls ih =>
    obtain ⟨call, cs⟩ := c
    intro past users out h hout
    rw [playCalls] at hout
    split at hout
    · next l r users' hplay => exact ih (h.call hplay) hout
    · exact nomatch hout

end

/-! ### A token that is redeemed twice -/

namespace Samples

/-- The text of some bytes, one character each. -/
def latin1 (bytes : List UInt8) : String := String.ofList (bytes.map fun b => Char.ofNat b.toNat)

theorem latin1_injective : Function.Injective latin1 := by
  intro xs ys h
  have hnat : ∀ b : UInt8, (Char.ofNat b.toNat).toNat = b.toNat := fun b => by
    have hvalid : b.toNat.isValidChar := Or.inl (Nat.lt_trans b.toNat_lt (by decide))
    rw [Char.ofNat, dif_pos hvalid]
    rfl
  have hchar : Function.Injective fun b : UInt8 => Char.ofNat b.toNat := fun a b hab =>
    UInt8.toNat_inj.mp (((hnat a).symm.trans (congrArg Char.toNat hab)).trans (hnat b))
  exact List.map_injective_iff.mpr hchar (String.ofList_injective h)

/-- A hash that shows the bytes that count. -/
scoped instance bcrypt : Bcrypt where
  hash data _ _ := "$2b$" ++ latin1 ((utf8 data).take 72)
  compare data encrypted := decide (encrypted = "$2b$" ++ latin1 ((utf8 data).take 72))
  hash_ne data _ _ h := by
    have hlen := congrArg String.length h
    rw [String.length_append] at hlen
    exact absurd hlen (by simp)
  compare_hash data data' _ _ := by
    rw [decide_eq_decide, String.append_right_inj, latin1_injective.eq_iff]
    exact eq_comm

/-- A token that shows when it was made. -/
scoped instance jwtService : JwtService where
  signAsync payload options now :=
    base64url jwtHeader ++ "." ++
      base64url (jwtSubject payload.sub ++ ("\"" ++ (",\"iat\":" ++ toString now ++ "\x7d"))) ++ "." ++
        base64url options.secret
  signAsync_eq _ _ _ := ⟨_, _, rfl⟩

/-- Nothing is set. -/
scoped instance processEnv : ProcessEnv := ⟨fun _ => none⟩

end Samples

namespace Redeemed

open Samples

/-- The id the first user draws. -/
def userId : Uuid := ⟨"3f2b8c1e-9a4d-4e7b-8f60-1c2d3e4f5a6b", by decide +kernel⟩

/-- A call at a time. -/
def drawn (now : ℕ) : AuthChoice := { id := userId, now }

/-- The refresh token issued at registration. -/
def firstToken : String :=
  JwtService.signAsync ⟨userId, "john@example.com", .customer⟩
    ⟨jwtConfig.refreshSecret, jwtConfig.refreshExpiresIn⟩ 1

/-- A user registers, and redeems the token they were given. -/
def calls : List (AuthCall × List AuthChoice) :=
  [(.register ⟨"john@example.com", "password123", "John", "Doe"⟩, List.replicate 7 (drawn 1)),
    (.refreshTokens userId firstToken, List.replicate 6 (drawn 2))]

/-- The row of the user, but for the hash of a refresh token. -/
def john : User :=
  { email := "john@example.com", password := Bcrypt.hash "password123" 12 "", firstName := "John",
    lastName := "Doe", id := userId }

/-- The tokens issued at a time. -/
def tokensAt (now : ℕ) : AuthTokens :=
  ⟨JwtService.signAsync ⟨userId, john.email, john.role⟩ ⟨jwtConfig.secret, jwtConfig.expiresIn⟩ now,
    JwtService.signAsync ⟨userId, john.email, john.role⟩
      ⟨jwtConfig.refreshSecret, jwtConfig.refreshExpiresIn⟩ now⟩

/-- The users while the row holds a hash of a token. -/
def holding (token : String) : UserTable :=
  ⟨[{ john with refreshToken := some (Bcrypt.hash token 12 "") }], List.pairwise_singleton _ _,
    List.pairwise_singleton _ _⟩

theorem register_played :
    alone.play 0 (AuthCall.run (.register ⟨"john@example.com", "password123", "John", "Doe"⟩))
      (List.replicate 7 (drawn 1)) [] .empty =
        some ([], .ok (.registered john (tokensAt 1)), holding firstToken) := rfl

theorem refresh_played :
    alone.play 0 (AuthCall.run (.refreshTokens userId firstToken)) (List.replicate 6 (drawn 2)) []
      (holding firstToken) =
        some ([], .ok (.tokens (tokensAt 2)), holding (tokensAt 2).refreshToken) := by
  have hmatch : (holding firstToken).perform (drawn 2)
      (.compare firstToken (Bcrypt.hash firstToken 12 "")) = (holding firstToken, .ok true) := by
    rw [UserTable.perform, Bcrypt.compare_hash, decide_eq_true rfl]
  refine (Rotation.play_await (o := .userFindOne _)
    (v := some { john with refreshToken := some (Bcrypt.hash firstToken 12 "") }) rfl rfl).trans ?_
  exact (Rotation.play_await (o := .compare _ _) rfl hmatch).trans rfl

/-- What the calls come to. -/
def replies : List AuthRecord :=
  [(.refreshTokens userId firstToken, .ok (.tokens (tokensAt 2))),
    (.register ⟨"john@example.com", "password123", "John", "Doe"⟩,
      .ok (.registered john (tokensAt 1)))]

theorem calls_end :
    playCalls calls [] .empty = some (replies, holding (tokensAt 2).refreshToken) := by
  rw [calls, playCalls, register_played]
  dsimp only
  rw [playCalls, refresh_played]
  rfl

theorem calls_played : (playCalls calls [] .empty).isSome := by
  rw [calls_end]
  rfl

/-- What has been called, and the users after it. -/
def after : List AuthRecord × UserTable := (playCalls calls [] .empty).get calls_played

theorem calls_after : playCalls calls [] .empty = some after := (Option.some_get calls_played).symm

theorem after_eq : after = (replies, holding (tokensAt 2).refreshToken) :=
  Option.some.inj (calls_after.symm.trans calls_end)

theorem latestToken_after : latestToken userId after.1 = some (tokensAt 2).refreshToken := by
  rw [after_eq]
  rfl

theorem after_reached : Reached after.1 after.2 :=
  .of_playCalls (.start fun user hu => absurd hu (Table.notMem_empty user)) calls_after

end Redeemed

open Samples Redeemed

/-- A text that is no token of the user is refused. -/
theorem refreshTokens_rotates_forged : ¬ Issues after.2 userId "forged" := by
  have hlatest : latestToken userId after.1 ≠ some "forged" := by
    rw [latestToken_after]
    decide +kernel
  have hprefix : (utf8 "forged").take 72 ≠ tokenPrefix userId := by decide +kernel
  exact fun h => hlatest ((refreshTokens_rotates after_reached userId "forged").mpr
    (Or.inr (Or.inr hprefix)) h)

/-- **A token is redeemed twice**: after its first redemption another one is the latest, and it is
accepted again. -/
theorem redeemed_twice : ∃ past users, Reached past users ∧
    latestToken userId past ≠ some firstToken ∧ Issues users userId firstToken := by
  have hlatest : latestToken userId after.1 ≠ some firstToken := by
    rw [latestToken_after]
    decide +kernel
  have hrecord : (.register ⟨"john@example.com", "password123", "John", "Doe"⟩,
      .ok (.registered john (tokensAt 1))) ∈ after.1 := by
    rw [after_eq]
    exact List.mem_cons_of_mem _ List.mem_cons_self
  have huser : { john with refreshToken := some (Bcrypt.hash (tokensAt 2).refreshToken 12 "") } ∈
      after.2 := by
    rw [after_eq]
    exact List.mem_cons_self
  exact ⟨after.1, after.2, after_reached, hlatest,
    issues_superseded after_reached hrecord rfl huser rfl (by simp)⟩

end CqrsSaga
