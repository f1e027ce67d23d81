import CqrsSaga.Async.Contract
import CqrsSaga.Auth.Controller
import CqrsSaga.Auth.Rotation

/-!
# Accounts and sessions

Requests to `AuthController`, in any number and interleaved in any way, any of whose queries may
fail.  No row of `users` is ever deleted, and of a row only the hash of a refresh token changes.  So
whoever has registered can log in with what bcrypt sees of their password, and with nothing else;
and a payload signed for a user identifies them for good, logouts included.

## Main definitions

* `User.account`, `UserTable.Stores`, `UserTable.Keeps` — what stays of a row.
* `RegisterDto.Makes` — the users a registration makes.
* `Sessions.Found`, `Sessions.Validated`, `Sessions.Entered`, `Sessions.Identified` — what is found
  of a user.
* `Sessions.Meets`, `Sessions.contract` — what the requests answer.

## Main results

* `login_answers` — **after a registration, a login answers according to the password.**
* `sessions_last` — **whoever has been given tokens is recognised by them from then on.**
* `login_registered` — whoever logs in has given the password of a registration.
-/

namespace CqrsSaga

/-- A row but for its refresh token. -/
def User.account (user : User) : User := { user with refreshToken := none }

theorem User.account_eq {x y : User} : x.account = y.account ↔
    x.toNewUser = y.toNewUser ∧ x.id = y.id ∧ x.role = y.role ∧ x.status = y.status := by
  simp [User.account]

/-- What is shown of a user is shown of the account. -/
theorem User.shown_eq {x y : User} (h : x.account = y.account) : x.shown = y.shown := by
  obtain ⟨hcolumns, hid, hrole, hstatus⟩ := User.account_eq.mp h
  rw [User.shown, User.shown, hcolumns, hid, hrole, hstatus]

theorem User.fullName_eq {x y : User} (h : x.account = y.account) : x.fullName = y.fullName := by
  rw [User.fullName, User.fullName, (User.account_eq.mp h).1]

namespace UserTable

/-- The account is stored. -/
def Stores (users : UserTable) (user : User) : Prop := ∃ row ∈ users, row.account = user.account

/-- No account is lost. -/
def Keeps (users users' : UserTable) : Prop := ∀ user ∈ users, users'.Stores user

variable {users users' users'' : UserTable} {user : User} {id : Uuid}

theorem stores_of_mem (h : user ∈ users) : users.Stores user := ⟨user, h, rfl⟩

theorem Keeps.refl (users : UserTable) : users.Keeps users := fun _ => stores_of_mem

theorem Keeps.stores (h : users.Keeps users') (hu : users.Stores user) : users'.Stores user := by
  obtain ⟨row, hrow, haccount⟩ := hu
  obtain ⟨row', hrow', haccount'⟩ := h row hrow
  exact ⟨row', hrow', haccount'.trans haccount⟩

theorem Keeps.trans (h : users.Keeps users') (h' : users'.Keeps users'') : users.Keeps users'' :=
  fun user hu => h'.stores (h user hu)

/-- Another refresh token is stored. -/
theorem keeps_setRefreshToken (users : UserTable) (id : Uuid) (token : Option String) :
    users.Keeps (users.setRefreshToken id token) := by
  intro user hu
  by_cases hid : user.id = id
  · exact ⟨_, mem_setRefreshToken.mpr (Or.inr ⟨user, hu, hid, rfl⟩), rfl⟩
  · exact ⟨user, mem_setRefreshToken.mpr (Or.inl ⟨hu, hid⟩), rfl⟩

theorem stores_of_mem_setRefreshToken {token : Option String}
    (h : user ∈ users.setRefreshToken id token) : users.Stores user := by
  rcases mem_setRefreshToken.mp h with ⟨hu, -⟩ | ⟨row, hrow, -, rfl⟩
  · exact stores_of_mem hu
  · exact ⟨row, hrow, rfl⟩

/-- **What an insert does**: nothing, or the new user is added. -/
theorem insert_cases (users : UserTable) (id : Uuid) (n : NewUser) :
    (∃ column, users.insert id n = (users, .error (.uniqueViolation column))) ∨
      ∃ users', users.insert id n = (users', .ok { n with id }) ∧
        ∀ x, x ∈ users' ↔ x = { n with id } ∨ x ∈ users := by
  unfold insert
  split
  · exact Or.inl ⟨_, rfl⟩
  · next hfind =>
    split
    · exact Or.inl ⟨_, rfl⟩
    · next users' hsave =>
      refine Or.inr ⟨users', rfl, fun x => ?_⟩
      have hnew : ∀ row ∈ users, row.id ≠ id := by
        intro row hrow hid
        exact hfind (Table.find?_isSome.mpr ⟨row, hrow, decide_eq_true hid⟩)
      rw [Table.mem_save hsave]
      constructor
      · rintro (rfl | ⟨hx, -⟩)
        · exact Or.inl rfl
        · exact Or.inr hx
      · rintro (rfl | hx)
        · exact Or.inl rfl
        · exact Or.inr ⟨hx, hnew x hx⟩

/-- A query that asks for an id or an email selects one account at most. -/
theorem account_unique {q : UserWhere} (hq : q.id ≠ none ∨ q.email ≠ none) {x y : User}
    (hx : users.Stores x) (hy : users.Stores y) (hqx : q.selects x = true)
    (hqy : q.selects y = true) : x.account = y.account := by
  obtain ⟨row, hrow, hrx⟩ := hx
  obtain ⟨row', hrow', hry⟩ := hy
  -- the id and the email belong to the account
  have hsel : ∀ user : User, q.selects user = q.selects user.account := fun _ => rfl
  rw [hsel, ← hrx, ← hsel, UserWhere.selects, Bool.and_eq_true] at hqx
  rw [hsel, ← hry, ← hsel, UserWhere.selects, Bool.and_eq_true] at hqy
  suffices hrows : row = row' by rw [← hrx, ← hry, hrows]
  rcases hq with hq | hq
  · obtain ⟨id, hid⟩ := Option.ne_none_iff_exists'.mp hq
    rw [hid, meets_some] at hqx hqy
    exact Table.eq_of_pk hrow hrow' (hqx.1.symm.trans hqy.1)
  · obtain ⟨email, hemail⟩ := Option.ne_none_iff_exists'.mp hq
    rw [hemail, meets_some] at hqx hqy
    exact Table.eq_of_uk hrow hrow' (congrArg some hqx.2.symm) (congrArg some hqy.2.symm)

end UserTable

section Sessions

variable [Bcrypt] [JwtService] [ProcessEnv]

/-- The registration makes the user. -/
structure RegisterDto.Makes (dto : RegisterDto) (user : User) : Prop where
  email : user.email = dto.email
  password : ∃ salt, user.password = Bcrypt.hash dto.password 12 salt
  firstName : user.firstName = dto.firstName
  lastName : user.lastName = dto.lastName
  role : user.role = .customer
  status : user.status = .active

/-- The tokens are signed for the user. -/
def AuthTokens.For (tokens : AuthTokens) (user : User) : Prop :=
  ∃ now now', tokens =
    ⟨JwtService.signAsync ⟨user.id, user.email, user.role⟩ ⟨jwtConfig.secret, jwtConfig.expiresIn⟩
      now, JwtService.signAsync ⟨user.id, user.email, user.role⟩
      ⟨jwtConfig.refreshSecret, jwtConfig.refreshExpiresIn⟩ now'⟩

namespace Sessions

/-! ### What the requests answer -/

/-- The database has failed. -/
def Fails {α : Type} (r : Except AuthErr α) : Prop := ∃ m, r = .error (.injected m)

/-- The database has failed, or the program returns. -/
def Tries {α : Type} (G : α → UserTable → Prop) (r : Except AuthErr α) (users : UserTable) : Prop :=
  Fails r ∨ Contract.Returns (M := accounts) G r users

/-- What a query finds, if these were the users before. -/
inductive Found (W : UserTable) (q : UserWhere) : Except AuthErr (Option User) → UserTable → Prop
  | failed {users : UserTable} (m : String) : Found W q (.error (.injected m)) users
  | nobody {users : UserTable} (h : ∀ x, W.Stores x → q.selects x = false) :
    Found W q (.ok none) users
  | somebody {users : UserTable} {user : User} (hs : users.Stores user)
    (hq : q.selects user = true) : Found W q (.ok (some user)) users

/-- Who is let in by an email and a password. -/
inductive Validated (W : UserTable) (email password : String) :
    Except AuthErr User → UserTable → Prop
  | failed {users : UserTable} (m : String) :
    Validated W email password (.error (.injected m)) users
  | granted {users : UserTable} {user : User} (hs : users.Stores user) (he : user.email = email)
    (hp : Bcrypt.compare password user.password = true) (ha : user.status = .active) :
    Validated W email password (.ok user) users
  | inactive {users : UserTable} {user : User} (hs : users.Stores user) (he : user.email = email)
    (ha : user.status ≠ .active) :
    Validated W email password (.error (.unauthorized "Account is not active")) users
  | unknown {users : UserTable} (h : ∀ x, W.Stores x → x.email ≠ email) :
    Validated W email password (.error (.unauthorized "Invalid credentials")) users
  | refused {users : UserTable} {user : User} (hs : users.Stores user) (he : user.email = email)
    (hp : Bcrypt.compare password user.password = false) :
    Validated W email password (.error (.unauthorized "Invalid credentials")) users

/-- What the guard of a login makes of an email and a password: an empty one is refused at once. -/
def Entered (W : UserTable) (email password : String) (r : Except AuthErr User)
    (users : UserTable) : Prop :=
  if email = "" ∨ password = "" then r = .error (.unauthorized "Unauthorized")
  else Validated W email password r users

/-- Whom a payload identifies. -/
inductive Identified (W : UserTable) (id : Uuid) : Except AuthErr User → UserTable → Prop
  | failed {users : UserTable} (m : String) : Identified W id (.error (.injected m)) users
  | granted {users : UserTable} {user : User} (hs : users.Stores user) (hid : user.id = id)
    (ha : user.status = .active) : Identified W id (.ok user) users
  | inactive {users : UserTable} {user : User} (hs : users.Stores user) (hid : user.id = id)
    (ha : user.status ≠ .active) :
    Identified W id (.error (.unauthorized "User account is not active")) users
  | unknown {users : UserTable} (h : ∀ x, W.Stores x → x.id ≠ id) :
    Identified W id (.error (.unauthorized "User not found")) users

/-- A guard lets nobody in, or it lets a user in who is answered so. -/
def Guarded (guard : Except AuthErr User → UserTable → Prop)
    (answer : User → AuthAnswer → Prop) (r : Except AuthErr AuthAnswer) (users : UserTable) :
    Prop :=
  Fails r ∨ (∃ e, r = .error e ∧ guard (.error e) users) ∨
    ∃ user a, r = .ok a ∧ guard (.ok user) users ∧ answer user a

/-- **What a request answers** that was started with these users, with the users there are when it
has ended. -/
def Meets (W : UserTable) : AuthRequest → Except AuthErr AuthAnswer → UserTable → Prop
  | .register dto, r, users => Contract.Yields (M := accounts) (fun a (users : UserTable) =>
      ∃ (user : User) (tokens : AuthTokens), users.Stores user ∧ dto.Makes user ∧ tokens.For user ∧
        a = .session (AuthController.response user tokens)) r users
  | .login email password, r, users => Guarded (Entered W email password)
      (fun user a => ∃ tokens : AuthTokens, tokens.For user ∧
        a = .session (AuthController.response user tokens)) r users
  | .logout payload, r, users => Guarded (Identified W payload.sub)
      (fun _ a => a = .message "Logout successful") r users
  | .getProfile payload, r, users => Guarded (Identified W payload.sub)
      (fun user a => a = .profile ⟨user.shown, user.fullName⟩) r users
  | .refreshTokens _ _, r, users =>
    Contract.Yields (M := accounts) (fun a _ => ∃ tokens, a = .tokens tokens) r users

/-- Every user was there in the beginning, or has been registered. -/
def Registered (w₀ users : UserTable) (l : List AuthRequest) : Prop :=
  ∀ user ∈ users, w₀.Stores user ∨ ∃ dto : RegisterDto, .register dto ∈ l ∧ dto.Makes user

/-- What is inserted comes from a registration. -/
def Inserts (l : List AuthRequest) (o : AuthOp) : Prop :=
  ∀ n, o = .userInsert n → ∃ dto : RegisterDto, .register dto ∈ l ∧
    ∀ id, dto.Makes { n with id }

variable {W w₀ users users' : UserTable} {l : List AuthRequest} {t : AuthRequest}

omit [JwtService] [ProcessEnv] in
theorem Registered.later (h : Registered w₀ users l)
    (hnew : ∀ user ∈ users', users.Stores user) : Registered w₀ users' l := by
  intro user hu
  obtain ⟨row, hrow, haccount⟩ := hnew user hu
  rcases h row hrow with hold | ⟨dto, hdto, hmakes⟩
  · obtain ⟨row₀, hrow₀, haccount₀⟩ := hold
    exact Or.inl ⟨row₀, hrow₀, haccount₀.trans haccount⟩
  · refine Or.inr ⟨dto, hdto, ?_⟩
    -- what a registration makes is the account
    have hcolumns : ∀ x : User, dto.Makes x ↔ dto.Makes x.account :=
      fun _ => ⟨fun h => ⟨h.1, h.2, h.3, h.4, h.5, h.6⟩, fun h => ⟨h.1, h.2, h.3, h.4, h.5, h.6⟩⟩
    rw [hcolumns, ← haccount, ← hcolumns]
    exact hmakes

omit [ProcessEnv] in
/-- **What every call of the service keeps.** -/
theorem exec_keeps {o : AuthOp} {c : AuthChoice} {r : Except AuthErr o.Val}
    (hI : Registered w₀ users l) (hA : Inserts l o) (he : users.exec o c = some (users', r)) :
    users.Keeps users' ∧ Registered w₀ users' l := by
  have hsame : users.Keeps users ∧ Registered w₀ users l := ⟨.refl users, hI⟩
  unfold UserTable.exec at he
  split at he
  · have he := congrArg Prod.fst (Option.some.inj he)
    dsimp only at he
    subst he
    cases o with
    | userInsert n =>
      rcases users.insert_cases c.id n with ⟨column, hinsert⟩ | ⟨users', hinsert, hmem⟩
      · rw [UserTable.perform, hinsert]
        exact hsame
      · rw [UserTable.perform, hinsert]
        refine ⟨fun user hu => UserTable.stores_of_mem ((hmem user).mpr (Or.inr hu)), ?_⟩
        intro user hu
        rcases (hmem user).mp hu with rfl | hu
        · obtain ⟨dto, hdto, hmakes⟩ := hA n rfl
          exact Or.inr ⟨dto, hdto, hmakes c.id⟩
        · exact hI user hu
    | userUpdate id token =>
      refine ⟨users.keeps_setRefreshToken id token, hI.later fun user hu => ?_⟩
      exact UserTable.stores_of_mem_setRefreshToken hu
    | userFindOne q => exact hsame
    | hash data rounds => exact hsame
    | compare data encrypted => exact hsame
    | signAsync payload options => exact hsame
  · split at he
    · obtain ⟨rfl, -⟩ := Prod.mk.inj (Option.some.inj he)
      exact hsame
    · cases he

/-- What the requests may rely on, and what they answer. -/
def contract (w₀ : UserTable) : Contract authEndpoints where
  Before := UserTable.Keeps
  Inv := Registered w₀
  Asserts _ l o := Inserts l o
  Can _ _ _ _ := True
  Meets := Meets
  refl := UserTable.Keeps.refl
  trans := UserTable.Keeps.trans
  start := by
    intro users l t h user hu
    refine (h user hu).imp_right fun hmade => ?_
    obtain ⟨dto, hdto, hmakes⟩ := hmade
    exact ⟨dto, List.mem_append_left _ hdto, hmakes⟩
  tick := by
    intro users l d
    cases d
  step := by
    intro users l i o c users' r ts hI hA _ he
    obtain ⟨⟨w, r'⟩, hexec, heq⟩ := Option.map_eq_some_iff.mp he
    obtain ⟨rfl, rfl, rfl⟩ : w = users' ∧ r' = r ∧ [] = ts := by simpa using heq
    obtain ⟨hkeeps, hregistered⟩ := exec_keeps hI hA hexec
    exact ⟨hkeeps, (List.append_nil l).symm ▸ hregistered⟩

/-! ### One call of the database or of a library -/

variable {F : UserTable → Prop} {user : User}

theorem lasts_stores (user : User) : (contract w₀).Lasts fun users => users.Stores user :=
  fun _ _ _ hk _ h => hk.stores h

/-- One call, in any world it may be performed in. -/
theorem call_serves {o : AuthOp} {Q : Except AuthErr o.Val → UserTable → Prop}
    (hF : (contract w₀).Lasts F) (hQ : ∀ r, (contract w₀).Lasts (Q r))
    (hA : ∀ l, t ∈ l → Inserts l o)
    (hok : ∀ (users : UserTable) c, W.Keeps users → F users → F (users.perform c o).1 →
      Q (users.perform c o).2 (users.perform c o).1)
    (herr : ∀ (users : UserTable) m, o.isQuery = true → F users → Q (.error (.injected m)) users) :
    (contract w₀).Serves W t F (authCall o) Q := by
  refine .call hF hQ (fun users l ht _ _ => hA l ht) fun users i c users' r ts hW hf hf' _ he => ?_
  obtain ⟨⟨w, r'⟩, hexec, heq⟩ := Option.map_eq_some_iff.mp he
  obtain ⟨rfl, rfl, -⟩ : w = users' ∧ r' = r ∧ [] = ts := by simpa using heq
  unfold UserTable.exec at hexec
  split at hexec
  · have hq := hok users c hW hf
    rw [Option.some.inj hexec] at hq
    exact hq hf'
  · next m _ =>
    split at hexec
    · next hquery =>
      obtain ⟨rfl, rfl⟩ := Prod.mk.inj (Option.some.inj hexec)
      exact herr users m hquery hf
    · cases hexec

omit [JwtService] [ProcessEnv] in
/-- A call that inserts nothing. -/
theorem inserts_other {o : AuthOp} (ho : ∀ n, o ≠ .userInsert n) : Inserts l o :=
  fun n h => absurd h (ho n)

/-- A call of a library: it returns. -/
theorem library_serves {o : AuthOp} {R : o.Val → Prop} (hF : (contract w₀).Lasts F)
    (ho : o.isQuery = false)
    (hok : ∀ (users : UserTable) c, ∃ v, users.perform c o = (users, .ok v) ∧ R v) :
    (contract w₀).Serves W t F (authCall o) (Contract.Returns fun v users => R v ∧ F users) := by
  refine call_serves hF (fun r => .ex fun v => (Contract.Lasts.const _).and
    ((Contract.Lasts.const _).and hF)) (fun l _ => inserts_other fun n h => ?_)
    (fun users c _ hf _ => ?_) fun users m h => ?_
  · rw [h] at ho
    cases ho
  · obtain ⟨v, hv, hr⟩ := hok users c
    rw [hv]
    exact ⟨v, rfl, hr, hf⟩
  · rw [ho] at h
    cases h

/-- Once a program has failed or returned, it goes on in the second case only. -/
theorem tries_next {α β : Type} {p : Async Auth α} {f : α → Async Auth β}
    {G : α → UserTable → Prop} {Q : Except AuthErr β → UserTable → Prop}
    (hp : (contract w₀).Serves W t F p (Tries G)) (hf : ∀ a, (contract w₀).Serves W t (G a) (f a) Q)
    (hfails : ∀ r users, Fails r → Q r users) : (contract w₀).Serves W t F (p.bind f) Q := by
  refine .bind _ hp (fun a => (hf a).pre fun users _ h => ?_) fun e => ?_
  · rcases h with ⟨m, hm⟩ | ⟨b, hb, hg⟩
    · cases hm
    · exact Except.ok.inj hb ▸ hg
  · refine .assuming (A := ∃ m, e = .injected m) (fun users h => ?_) fun h => ?_
    · rcases h with ⟨m, hm⟩ | ⟨b, hb, -⟩
      · exact ⟨m, Except.error.inj hm⟩
      · cases hb
    · obtain ⟨m, rfl⟩ := h
      exact .pre (F := fun _ => True) (fun _ _ _ => trivial)
        (.throw (.const _) fun users _ _ => hfails _ users ⟨m, rfl⟩)

theorem tries_lasts {α : Type} {G : α → UserTable → Prop} (hG : ∀ a, (contract w₀).Lasts (G a))
    (r : Except AuthErr α) : (contract w₀).Lasts (Tries G r) :=
  .or (.const _) (.ex fun a => (Contract.Lasts.const _).and (hG a))

theorem found_lasts (q : UserWhere) (r : Except AuthErr (Option User)) :
    (contract w₀).Lasts (Found W q r) := by
  intro users users' l hk _ h
  cases h with
  | failed m => exact .failed m
  | nobody h => exact .nobody h
  | somebody hs hq => exact .somebody (hk.stores hs) hq

/-- **What a query for one user finds.** -/
theorem findOne_serves (q : UserWhere) : (contract w₀).Serves W t (fun _ => True)
    (userRepository.findOne q) (Found W q) := by
  refine call_serves (.const _) (found_lasts q) (fun l _ => inserts_other fun n h => by cases h)
    (fun users c hW _ _ => ?_) fun users m _ _ => .failed m
  rw [UserTable.perform]
  cases hfind : users.find? q.selects with
  | some user =>
    exact .somebody (UserTable.stores_of_mem (Table.mem_of_find? hfind)) (Table.find?_some hfind)
  | none =>
    refine .nobody fun x hx => ?_
    obtain ⟨row, hrow, haccount⟩ := hW.stores hx
    have hsel : ∀ user : User, q.selects user = q.selects user.account := fun _ => rfl
    rw [hsel, ← haccount, ← hsel]
    exact Table.find?_eq_none.mp hfind row hrow

/-- A user that is known to be stored is found. -/
theorem findOne_stored (hF : (contract w₀).Lasts F) (user : User)
    (hstored : ∀ users, F users → users.Stores user) :
    (contract w₀).Serves W t F (userRepository.findOne { id := some user.id })
      (Tries fun found users => (∃ row, found = some row ∧ row.account = user.account) ∧
        F users) := by
  refine call_serves hF (tries_lasts fun _ => (Contract.Lasts.const _).and hF)
    (fun l _ => inserts_other fun n h => by cases h) (fun users c _ hf _ => ?_)
    fun users m _ _ => Or.inl ⟨m, rfl⟩
  obtain ⟨row, hrow, haccount⟩ := hstored users hf
  have hid : row.id = user.id := (User.account_eq.mp haccount).2.1
  have hfind : users.find? (UserWhere.selects { id := some user.id }) = some row := by
    refine Table.find?_eq_some hrow ?_ fun x hx hsel => ?_
    · simp [UserWhere.selects, meets, hid]
    · refine Table.eq_of_pk hx hrow ?_
      simp only [UserWhere.selects, meets_some, meets_none, Bool.and_true] at hsel
      exact hsel.symm.trans hid.symm
  exact Or.inr ⟨some row, congrArg Except.ok hfind, ⟨row, rfl, haccount⟩, hf⟩

/-! ### The guards -/

theorem validated_lasts (email password : String) (r : Except AuthErr User) :
    (contract w₀).Lasts (Validated W email password r) := by
  intro users users' l hk _ h
  cases h with
  | failed m => exact .failed m
  | granted hs he hp ha => exact .granted (hk.stores hs) he hp ha
  | inactive hs he ha => exact .inactive (hk.stores hs) he ha
  | unknown h => exact .unknown h
  | refused hs he hp => exact .refused (hk.stores hs) he hp

omit [JwtService] [ProcessEnv] in
/-- Where both are given, the strategy is asked. -/
theorem entered_eq {email password : String} (h : ¬(email = "" ∨ password = "")) :
    Entered W email password = Validated W email password := by
  funext r users
  rw [Entered, if_neg h]

theorem entered_lasts (email password : String) (r : Except AuthErr User) :
    (contract w₀).Lasts (Entered W email password r) := by
  by_cases hempty : email = "" ∨ password = ""
  · intro users users' l _ _ h
    rw [Entered, if_pos hempty] at h ⊢
    exact h
  · rw [entered_eq hempty]
    exact validated_lasts email password r

omit [JwtService] [ProcessEnv] in
/-- Whoever is let in has been validated. -/
theorem Entered.validated {email password : String} {users : UserTable} {user : User}
    (h : Entered W email password (.ok user) users) :
    Validated W email password (.ok user) users := by
  rw [Entered] at h
  split at h
  · cases h
  · exact h

theorem identified_lasts (id : Uuid) (r : Except AuthErr User) :
    (contract w₀).Lasts (Identified W id r) := by
  intro users users' l hk _ h
  cases h with
  | failed m => exact .failed m
  | granted hs hid ha => exact .granted (hk.stores hs) hid ha
  | inactive hs hid ha => exact .inactive (hk.stores hs) hid ha
  | unknown h => exact .unknown h

omit [Bcrypt] [JwtService] [ProcessEnv] in
theorem selects_email {email : String} {x : User} :
    UserWhere.selects { email := some email } x = true ↔ x.email = email := by
  simp [UserWhere.selects, meets, eq_comm]

omit [Bcrypt] [JwtService] [ProcessEnv] in
theorem selects_id {id : Uuid} {x : User} :
    UserWhere.selects { id := some id } x = true ↔ x.id = id := by
  simp [UserWhere.selects, meets, eq_comm]

/-- What the guard of a login makes of an answer of `validateUser`. -/
def letIn : Except AuthErr (Option User) → Except AuthErr User
  | .ok (some user) => .ok user
  | .ok none => .error (.unauthorized "Invalid credentials")
  | .error e => .error e

theorem validateUser_serves (email password : String) : (contract w₀).Serves W t (fun _ => True)
    (AuthService.validateUser email password)
    fun r users => Validated W email password (letIn r) users := by
  have hlasts : ∀ r : Except AuthErr (Option User),
      (contract w₀).Lasts fun users => Validated W email password (letIn r) users :=
    fun r => validated_lasts email password (letIn r)
  refine .bind _ (findOne_serves { email := some email }) (fun found => ?_) fun e => ?_
  · cases found with
    | none =>
      refine .ret (found_lasts _ _) fun users _ h => ?_
      cases h with
      | nobody h =>
        refine .unknown fun x hx hemail => ?_
        have hnot := h x hx
        rw [selects_email.mpr hemail] at hnot
        cases hnot
    | some user =>
      -- the password is compared with the one of the user that was found
      refine .pre (F := fun users : UserTable => users.Stores user ∧ user.email = email)
        (fun users _ h => ?_) ?_
      · cases h with
        | somebody hs hq => exact ⟨hs, selects_email.mp hq⟩
      · have hF : (contract w₀).Lasts fun users => users.Stores user ∧ user.email = email :=
          (lasts_stores user).and (.const _)
        have hcompare : (contract w₀).Serves W t _ (bcrypt.compare password user.password)
            (Contract.Returns fun b (users : UserTable) =>
              b = Bcrypt.compare password user.password ∧ users.Stores user ∧ user.email = email) :=
          library_serves hF rfl fun users c => ⟨_, rfl, rfl⟩
        refine .next hcompare fun b => ?_
        refine .assuming (A := b = Bcrypt.compare password user.password)
          (fun users h => h.1) fun hb => .pre (fun users _ h => h.2) ?_
        dsimp only
        split
        · next hfalse => exact .ret hF fun users _ h => .refused h.1 h.2 (hb.symm.trans hfalse)
        · next htrue =>
          rw [Bool.not_eq_false] at htrue
          split
          · next hstatus => exact .throw hF fun users _ h => .inactive h.1 h.2 hstatus
          · next hstatus =>
            rw [ne_eq, not_not] at hstatus
            exact .ret hF fun users _ h => .granted h.1 h.2 (hb.symm.trans htrue) hstatus
  · refine .throw (found_lasts _ _) fun users _ h => ?_
    cases h with
    | failed m => exact .failed m

/-- The strategy of a login. -/
theorem local_serves (email password : String) : (contract w₀).Serves W t (fun _ => True)
    (LocalStrategy.validate email password) (Validated W email password) := by
  refine .bind _ (validateUser_serves email password) (fun found => ?_) fun e => ?_
  · cases found with
    | none => exact .throw (validated_lasts email password _) fun _ _ h => h
    | some user => exact .ret (validated_lasts email password _) fun _ _ h => h
  · exact .throw (validated_lasts email password _) fun _ _ h => h

/-- **The guard of a login.** -/
theorem guard_serves (email password : String) : (contract w₀).Serves W t (fun _ => True)
    (LocalAuthGuard.canActivate email password) (Entered W email password) := by
  rw [LocalAuthGuard.canActivate]
  split
  · next hempty => exact .throw (.const _) fun users _ _ => by rw [Entered, if_pos hempty]
  · next hempty =>
    rw [entered_eq hempty]
    exact local_serves email password

/-- **The guard of a logout and a profile.** -/
theorem jwt_serves (payload : JwtPayload) : (contract w₀).Serves W t (fun _ => True)
    (JwtStrategy.validate payload) (Identified W payload.sub) := by
  refine .bind _ (findOne_serves { id := some payload.sub }) (fun found => ?_) fun e => ?_
  · cases found with
    | none =>
      refine .throw (found_lasts _ _) fun users _ h => ?_
      cases h with
      | nobody h =>
        refine .unknown fun x hx hid => ?_
        have hnot := h x hx
        rw [selects_id.mpr hid] at hnot
        cases hnot
    | some user =>
      dsimp only
      split
      · next hstatus =>
        refine .throw (found_lasts _ _) fun users _ h => ?_
        cases h with
        | somebody hs hq => exact .inactive hs (selects_id.mp hq) hstatus
      · next hstatus =>
        rw [ne_eq, not_not] at hstatus
        refine .ret (found_lasts _ _) fun users _ h => ?_
        cases h with
        | somebody hs hq => exact .granted hs (selects_id.mp hq) hstatus
  · refine .throw (found_lasts _ _) fun users _ h => ?_
    cases h with
    | failed m => exact .failed m

/-! ### The endpoints -/

theorem hash_serves (hF : (contract w₀).Lasts F) (data : String) (saltRounds : ℕ) :
    (contract w₀).Serves W t F (bcrypt.hash data saltRounds)
      (Contract.Returns fun hashed (users : UserTable) =>
        (∃ salt, hashed = Bcrypt.hash data saltRounds salt) ∧ F users) :=
  library_serves hF rfl fun _ c => ⟨_, rfl, c.salt, rfl⟩

theorem signAsync_serves (hF : (contract w₀).Lasts F) (payload : JwtPayload)
    (options : JwtSignOptions) :
    (contract w₀).Serves W t F (jwtService.signAsync payload options)
      (Contract.Returns fun token (users : UserTable) =>
        (∃ now, token = JwtService.signAsync payload options now) ∧ F users) :=
  library_serves hF rfl fun _ c => ⟨_, rfl, c.now, rfl⟩

theorem generateTokens_serves (hF : (contract w₀).Lasts F) (user : User) :
    (contract w₀).Serves W t F (AuthService.generateTokens user)
      (Contract.Returns fun tokens users => tokens.For user ∧ F users) := by
  refine .next (signAsync_serves hF _ _) fun accessToken => ?_
  have hG := (Contract.Lasts.const (C := contract w₀) (∃ now, accessToken =
    JwtService.signAsync ⟨user.id, user.email, user.role⟩
      ⟨jwtConfig.secret, jwtConfig.expiresIn⟩ now)).and hF
  refine .next (signAsync_serves hG _ _) fun refreshToken => ?_
  refine .ret ((Contract.Lasts.const _).and hG) fun users _ h => ?_
  obtain ⟨⟨now', rfl⟩, ⟨now, rfl⟩, hf⟩ := h
  exact ⟨_, rfl, ⟨now, now', rfl⟩, hf⟩

theorem update_serves (hF : (contract w₀).Lasts F) (id : Uuid) (token : Option String) :
    (contract w₀).Serves W t F (userRepository.update id token) (Tries fun _ users => F users) := by
  refine call_serves hF (tries_lasts fun _ => hF) (fun l _ => inserts_other fun n h => by cases h)
    (fun users c _ _ hf' => ?_) fun users m _ _ => Or.inl ⟨m, rfl⟩
  exact Or.inr ⟨(), rfl, hf'⟩

/-- **Tokens are made for a user and answered**, unless the database fails. -/
theorem issue_serves {α : Type} (hF : (contract w₀).Lasts F) (user : User) (f : AuthTokens → α) :
    (contract w₀).Serves W t F
      ((AuthService.generateTokens user).bind fun tokens =>
        (AuthService.updateRefreshToken user.id tokens.refreshToken).bind fun _ => .ret (f tokens))
      (Tries fun a users => (∃ tokens : AuthTokens, tokens.For user ∧ a = f tokens) ∧ F users) := by
  refine .next (generateTokens_serves hF user) fun tokens => ?_
  have hG : (contract w₀).Lasts fun users => tokens.For user ∧ F users :=
    (Contract.Lasts.const _).and hF
  have hupdate : (contract w₀).Serves W t (fun users => tokens.For user ∧ F users)
      (AuthService.updateRefreshToken user.id tokens.refreshToken)
      (Tries fun _ users => tokens.For user ∧ F users) := by
    refine .next (hash_serves hG tokens.refreshToken 12) fun hashed => ?_
    exact .pre (fun users _ h => h.2) (update_serves hG user.id (some hashed))
  refine tries_next hupdate (fun _ => ?_) fun r users h => Or.inl h
  exact .ret hG fun users _ h => Or.inr ⟨_, rfl, ⟨tokens, h.1, rfl⟩, h.2⟩

/-- The user that is inserted is made by the registration. -/
theorem insert_serves {dto : RegisterDto} {n : NewUser} (hn : ∀ id, dto.Makes { n with id }) :
    (contract w₀).Serves W (.register dto) (fun _ => True) (userRepository.insert n)
      (Contract.Yields fun user (users : UserTable) => users.Stores user ∧ dto.Makes user) := by
  refine call_serves (.const _) (.yields fun user => (lasts_stores user).and (.const _))
    (fun l hl n' h => ?_) (fun users c _ _ _ => ?_) fun users m _ _ user h => by cases h
  · cases h
    exact ⟨dto, hl, hn⟩
  · intro user hr
    rcases users.insert_cases c.id n with ⟨column, hinsert⟩ | ⟨users', hinsert, hmem⟩
    · rw [UserTable.perform, hinsert] at hr
      cases hr
    · rw [UserTable.perform, hinsert] at hr ⊢
      obtain rfl := Except.ok.inj hr
      exact ⟨UserTable.stores_of_mem ((hmem _).mpr (Or.inl rfl)), hn c.id⟩

/-- A registration made the user, whom the tokens are for. -/
def Made (dto : RegisterDto) (user : User) (tokens : AuthTokens) (users : UserTable) : Prop :=
  users.Stores user ∧ dto.Makes user ∧ tokens.For user

theorem made_lasts (dto : RegisterDto) (user : User) (tokens : AuthTokens) :
    (contract w₀).Lasts (Made dto user tokens) :=
  (lasts_stores user).and (.const _)

/-- **What a registration answers.** -/
theorem register_serves (dto : RegisterDto) :
    (contract w₀).Serves W (.register dto) (fun _ => True) (AuthService.register dto)
      (Contract.Yields fun a users => Made dto a.1 a.2 users) := by
  refine .bind _ (findOne_serves { email := some dto.email }) (fun found => ?_) fun e =>
    .throws (found_lasts _ _)
  dsimp only
  split
  · exact .throws (found_lasts _ _)
  · refine .next (hash_serves (found_lasts _ _) dto.password 12) fun hashedPassword => ?_
    refine .assuming (fun users h => h.1) fun hhash => ?_
    obtain ⟨salt, rfl⟩ := hhash
    refine .pre (F := fun _ => True) (fun _ _ _ => trivial) ?_
    refine .andYields (insert_serves fun id => ⟨rfl, ⟨salt, rfl⟩, rfl, rfl, rfl, rfl⟩)
      fun savedUser => ?_
    have hF : (contract w₀).Lasts fun users : UserTable =>
        users.Stores savedUser ∧ dto.Makes savedUser := (lasts_stores savedUser).and (.const _)
    refine (issue_serves hF savedUser fun tokens => (savedUser, tokens)).post ?_
    rintro r users - (⟨m, rfl⟩ | ⟨a, rfl, ⟨tokens, hfor, rfl⟩, hs, hmakes⟩) b hb
    · cases hb
    · obtain rfl := Except.ok.inj hb
      exact ⟨hs, hmakes, hfor⟩

/-- What a program returns is passed on in another form. -/
theorem map_serves {α β : Type} {p : Async Auth α} {f : α → β} {G : α → UserTable → Prop}
    {H : β → UserTable → Prop} (hG : ∀ a, (contract w₀).Lasts (G a))
    (hp : (contract w₀).Serves W t F p (Tries G)) (h : ∀ a users, G a users → H (f a) users) :
    (contract w₀).Serves W t F (p.bind fun a => .ret (f a)) (Tries H) :=
  tries_next hp (fun a => .ret (hG a) fun users _ hg => Or.inr ⟨f a, rfl, h a users hg⟩)
    fun _ _ hr => hr.elim (fun m hm => Or.inl ⟨m, hm⟩)

/-- **A guarded request.** -/
theorem guarded_serves {p : Async Auth User} {f : User → Async Auth AuthAnswer}
    {guard : Except AuthErr User → UserTable → Prop} {answer : User → AuthAnswer → Prop}
    (hguard : ∀ r, (contract w₀).Lasts (guard r))
    (hp : (contract w₀).Serves W t (fun _ => True) p guard)
    (hf : ∀ user, (contract w₀).Serves W t (guard (.ok user)) (f user)
      (Tries fun a users => answer user a ∧ guard (.ok user) users)) :
    (contract w₀).Serves W t (fun _ => True) (p.bind f) (Guarded guard answer) := by
  refine .bind _ hp (fun user => (hf user).post ?_) fun e => ?_
  · rintro r users - (hfails | ⟨a, rfl, ha, hg⟩)
    · exact Or.inl hfails
    · exact Or.inr (Or.inr ⟨user, a, rfl, hg, ha⟩)
  · exact .throw (hguard _) fun users _ hg => Or.inr (Or.inl ⟨e, rfl, hg⟩)

/-- A login that has passed its guard. -/
theorem login_serves (hF : (contract w₀).Lasts F) (user : User) : (contract w₀).Serves W t F
    (AuthAnswer.session <$> AuthController.login user)
    (Tries fun a users => (∃ tokens : AuthTokens, tokens.For user ∧
      a = .session (AuthController.response user tokens)) ∧ F users) := by
  have hissue : (contract w₀).Serves W t F (AuthService.login user)
      (Tries fun a users => (∃ tokens : AuthTokens, tokens.For user ∧ a = tokens) ∧ F users) :=
    issue_serves hF user id
  have hlogin : (contract w₀).Serves W t F (AuthController.login user)
      (Tries fun a users => (∃ tokens : AuthTokens, tokens.For user ∧
        a = AuthController.response user tokens) ∧ F users) := by
    refine map_serves (fun _ => (Contract.Lasts.const _).and hF) hissue fun a users h => ?_
    obtain ⟨⟨tokens, hfor, rfl⟩, hf⟩ := h
    exact ⟨⟨_, hfor, rfl⟩, hf⟩
  refine map_serves (fun _ => (Contract.Lasts.const _).and hF) hlogin fun a users h => ?_
  obtain ⟨⟨tokens, hfor, rfl⟩, hf⟩ := h
  exact ⟨⟨tokens, hfor, rfl⟩, hf⟩

/-- A logout that has passed its guard. -/
theorem logout_serves (hF : (contract w₀).Lasts F) (user : User) : (contract w₀).Serves W t F
    (AuthAnswer.message <$> AuthController.logout user)
    (Tries fun a users => a = .message "Logout successful" ∧ F users) := by
  have hlogout : (contract w₀).Serves W t F (AuthController.logout user)
      (Tries fun a users => a = "Logout successful" ∧ F users) :=
    map_serves (fun _ => hF) (update_serves hF user.id none) fun _ users h => ⟨rfl, h⟩
  refine map_serves (fun _ => (Contract.Lasts.const _).and hF) hlogout fun a users h => ?_
  exact ⟨congrArg AuthAnswer.message h.1, h.2⟩

/-- A profile that has passed its guard: the user is still there. -/
theorem getProfile_serves (hF : (contract w₀).Lasts F) (user : User)
    (hstored : ∀ users, F users → users.Stores user) : (contract w₀).Serves W t F
    (AuthAnswer.profile <$> AuthController.getProfile user)
    (Tries fun a users => a = .profile ⟨user.shown, user.fullName⟩ ∧ F users) := by
  have hcurrent : (contract w₀).Serves W t F (AuthService.getCurrentUser user.id)
      (Tries fun row users => row.account = user.account ∧ F users) := by
    refine tries_next (findOne_stored hF user hstored) (fun found => ?_) fun _ _ hr =>
      hr.elim fun m hm => Or.inl ⟨m, hm⟩
    cases found with
    | none =>
      refine .never fun users h => ?_
      obtain ⟨⟨row, hrow, -⟩, -⟩ := h
      cases hrow
    | some row =>
      refine .ret ((Contract.Lasts.const _).and hF) fun users _ h => ?_
      obtain ⟨⟨row', hrow, haccount⟩, hf⟩ := h
      obtain rfl := Option.some.inj hrow
      exact Or.inr ⟨row, rfl, haccount, hf⟩
  have hprofile : (contract w₀).Serves W t F (AuthController.getProfile user)
      (Tries fun a users => a = ⟨user.shown, user.fullName⟩ ∧ F users) := by
    refine map_serves (fun _ => (Contract.Lasts.const _).and hF) hcurrent fun row users h => ?_
    rw [User.shown_eq h.1, User.fullName_eq h.1]
    exact ⟨rfl, h.2⟩
  refine map_serves (fun _ => (Contract.Lasts.const _).and hF) hprofile fun a users h => ?_
  exact ⟨congrArg AuthAnswer.profile h.1, h.2⟩

omit [Bcrypt] [JwtService] in
/-- A refresh inserts nobody. -/
theorem refreshTokens_inserts (userId : Uuid) (token : String) :
    (AuthService.refreshTokens userId token).Only fun o : AuthOp => ∀ n, o ≠ .userInsert n := by
  have hcall : ∀ o : AuthOp, (∀ n, o ≠ .userInsert n) →
      (authCall o).Only fun o : AuthOp => ∀ n, o ≠ .userInsert n := fun o ho => .perform ho
  refine .bind (hcall _ fun n h => by cases h) fun user => ?_
  split
  · exact trivial
  · split
    · exact trivial
    · refine .bind (hcall _ fun n h => by cases h) fun refreshTokenMatches => ?_
      split
      · exact trivial
      · refine .bind ?_ fun tokens => .bind ?_ fun _ => trivial
        · refine .bind (hcall _ fun n h => by cases h) fun accessToken => ?_
          exact .bind (hcall _ fun n h => by cases h) fun refreshToken => trivial
        · exact .bind (hcall _ fun n h => by cases h) fun hashed => hcall _ fun n h => by cases h

/-- **Every request does what it is to do.** -/
theorem request_serves (W : UserTable) (t : AuthRequest) :
    (contract w₀).Serves W t (fun _ => True) t.run (Meets W t) := by
  cases t with
  | register dto =>
    have hregister : (contract w₀).Serves W (.register dto) (fun _ => True)
        (AuthController.register dto)
        (Contract.Yields fun a users => ∃ (user : User) (tokens : AuthTokens),
          Made dto user tokens users ∧ a = AuthController.response user tokens) :=
      .andYields (register_serves dto) fun a => .ret (made_lasts dto a.1 a.2) fun users _ h b hb =>
        ⟨a.1, a.2, h, (Except.ok.inj hb).symm⟩
    refine .andYields hregister fun a => ?_
    refine .ret (.ex fun user => .ex fun tokens => (made_lasts dto user tokens).and (.const _))
      fun users _ h b hb => ?_
    obtain ⟨user, tokens, ⟨hs, hmakes, hfor⟩, rfl⟩ := h
    exact ⟨user, tokens, hs, hmakes, hfor, (Except.ok.inj hb).symm⟩
  | login email password =>
    refine guarded_serves (entered_lasts email password) (guard_serves email password)
      fun user => ?_
    exact login_serves (entered_lasts email password _) user
  | logout payload =>
    refine guarded_serves (identified_lasts payload.sub) (jwt_serves payload) fun user => ?_
    exact logout_serves (identified_lasts payload.sub _) user
  | getProfile payload =>
    refine guarded_serves (identified_lasts payload.sub) (jwt_serves payload) fun user => ?_
    refine getProfile_serves (identified_lasts payload.sub _) user fun users h => ?_
    cases h with
    | granted hs _ _ => exact hs
  | refreshTokens userId token =>
    have hrefresh : (contract w₀).Serves W (.refreshTokens userId token) (fun _ => True)
        (AuthService.refreshTokens userId token) fun _ _ => True :=
      .keeps (.const _) (fun _ l o ho => inserts_other ho) (refreshTokens_inserts userId token)
    refine .bind _ hrefresh (fun tokens => ?_) fun _ => .throws (.const _)
    exact .ret (.const _) fun _ _ _ a ha => ⟨tokens, (Except.ok.inj ha).symm⟩

/-- **The contract is kept in all runs.** -/
theorem sound (w₀ : UserTable) : (contract w₀).protocol.Sound (fun w => w = w₀)
    fun _ _ => True :=
  (contract w₀).sound (fun _ h _ hu => Or.inl (UserTable.stores_of_mem (h ▸ hu)))
    (fun _ _ _ _ _ _ _ _ => trivial) request_serves

/-! ### Runs -/

/-- The activity `i` has been the request `t`, and has answered `r`. -/
def Answered (p : Pool authEndpoints) (i : ℕ) (t : AuthRequest) (r : Except AuthErr AuthAnswer) :
    Prop :=
  p.tags[i]? = some t ∧ p.result? i = some r

/-- Any users, and any steps. -/
abbrev Reached (p : Pool authEndpoints) : Prop :=
  Pool.Reachable (fun _ => True) (fun _ _ => True) p

variable {p p' : Pool authEndpoints} {i j : ℕ} {r : Except AuthErr AuthAnswer}

theorem Answered.meets (hp : Reached p) (h : Answered p i t r) : ∃ W, Meets W t r p.world := by
  obtain ⟨w₀, -, hrun⟩ := hp
  exact Contract.ended (sound w₀) ⟨w₀, rfl, hrun⟩ h.1 h.2

/-- What a later request has answered. -/
theorem Answered.meets_since (hp : Reached p) (hrun : Pool.Runs (fun _ _ => True) p p')
    (hlater : p.acts.length ≤ j) (h : Answered p' j t r) :
    ∃ W, UserTable.Keeps p.world W ∧ UserTable.Keeps p.world p'.world ∧ Meets W t r p'.world := by
  obtain ⟨w₀, -, hreach⟩ := hp
  obtain ⟨W, hW, hmeets⟩ := Contract.since (sound w₀) ⟨w₀, rfl, hreach⟩ hrun hlater h.1 h.2
  exact ⟨W, hW, Contract.runs_before (sound w₀) ⟨w₀, rfl, hreach⟩ hrun, hmeets⟩

/-- Whoever is answered a session is stored, and active. -/
theorem session_stored (hp : Reached p) {session : AuthResponseDto}
    (h : Answered p i t (.ok (.session session))) : ∃ user tokens,
      UserTable.Stores p.world user ∧ user.status = .active ∧ AuthTokens.For tokens user ∧
        session = AuthController.response user tokens := by
  obtain ⟨W, hmeets⟩ := h.meets hp
  cases t with
  | register dto =>
    obtain ⟨user, tokens, hs, hmakes, hfor, ha⟩ := hmeets _ rfl
    exact ⟨user, tokens, hs, hmakes.status, hfor, AuthAnswer.session.inj ha⟩
  | login email password =>
    rcases hmeets with ⟨m, hm⟩ | ⟨e, he, -⟩ | ⟨user, a, ha, hguard, tokens, hfor, rfl⟩
    · cases hm
    · cases he
    · cases hguard.validated with
      | granted hs _ _ hactive =>
        exact ⟨user, tokens, hs, hactive, hfor, AuthAnswer.session.inj (Except.ok.inj ha)⟩
  | logout payload =>
    rcases hmeets with ⟨m, hm⟩ | ⟨e, he, -⟩ | ⟨user, a, ha, -, rfl⟩
    · cases hm
    · cases he
    · cases ha
  | getProfile payload =>
    rcases hmeets with ⟨m, hm⟩ | ⟨e, he, -⟩ | ⟨user, a, ha, -, rfl⟩
    · cases hm
    · cases he
    · cases ha
  | refreshTokens userId token =>
    obtain ⟨tokens, ha⟩ := hmeets _ rfl
    cases ha

omit [JwtService] [ProcessEnv] in
/-- What bcrypt says of a password of a user that was registered. -/
theorem compare_made {dto : RegisterDto} {user x : User} {password : String}
    (hmakes : dto.Makes user) (haccount : x.account = user.account) :
    Bcrypt.compare password x.password =
      decide ((utf8 password).take 72 = (utf8 dto.password).take 72) := by
  obtain ⟨salt, hsalt⟩ := hmakes.password
  have hcolumns : x.password = user.password :=
    congrArg NewUser.password (User.account_eq.mp haccount).1
  rw [hcolumns, hsalt, Bcrypt.compare_hash]

/-- **After a registration, a login answers according to the password**: any number of requests,
interleaved in any way with queries that may fail.  Once a registration has been answered, every
later login with its email gets a session of the same user if the password agrees with the one
registered in what bcrypt sees of it, and is refused as it should be if not, unless the database
fails; an empty email or password is refused before the database is asked. -/
theorem login_answers (hp : Reached p) (hrun : Pool.Runs (fun _ _ => True) p p')
    {dto : RegisterDto} {session : AuthResponseDto} {password : String}
    (hi : Answered p i (.register dto) (.ok (.session session))) (hlater : p.acts.length ≤ j)
    (hj : Answered p' j (.login dto.email password) r) :
    session.user = ⟨session.user.id, dto.email, dto.firstName, dto.lastName, .customer, .active⟩ ∧
      (Fails r ∨
        if dto.email = "" ∨ password = "" then r = .error (.unauthorized "Unauthorized")
        else if (utf8 password).take 72 = (utf8 dto.password).take 72 then
          ∃ session' : AuthResponseDto, r = .ok (.session session') ∧ session'.user = session.user
        else r = .error (.unauthorized "Invalid credentials")) := by
  obtain ⟨W₀, hmade⟩ := hi.meets hp
  obtain ⟨user, tokens, hs, hmakes, -, ha⟩ := hmade _ rfl
  obtain rfl := AuthAnswer.session.inj ha
  obtain ⟨W, hW, hkeeps, hmeets⟩ := hj.meets_since hp hrun hlater
  -- whoever is found under the email is the user that was registered
  have hsame : ∀ x : User, UserTable.Stores p'.world x → x.email = dto.email →
      x.account = user.account := by
    intro x hx hemail
    refine UserTable.account_unique (q := { email := some dto.email }) (Or.inr ?_) hx
      (hkeeps.stores hs) (selects_email.mpr hemail) (selects_email.mpr hmakes.email)
    exact Option.some_ne_none dto.email
  constructor
  · show user.shown = ⟨user.id, dto.email, dto.firstName, dto.lastName, .customer, .active⟩
    rw [User.shown, hmakes.email, hmakes.firstName, hmakes.lastName, hmakes.role, hmakes.status]
  · by_cases hempty : dto.email = "" ∨ password = ""
    · rw [if_pos hempty]
      rcases hmeets with hfails | ⟨e, rfl, hguard⟩ | ⟨x, a, rfl, hguard, -⟩
      · exact Or.inl hfails
      · rw [Entered, if_pos hempty] at hguard
        exact Or.inr (congrArg Except.error (Except.error.inj hguard))
      · rw [Entered, if_pos hempty] at hguard
        cases hguard
    · rw [if_neg hempty]
      rcases hmeets with hfails | ⟨e, rfl, hguard⟩ | ⟨x, a, rfl, hguard, tokens', -, rfl⟩
      · exact Or.inl hfails
      · rw [entered_eq hempty] at hguard
        cases hguard with
        | failed m => exact Or.inl ⟨m, rfl⟩
        | inactive hx hemail hstatus =>
          have hactive := (User.account_eq.mp (hsame _ hx hemail)).2.2.2.trans hmakes.status
          exact absurd hactive hstatus
        | unknown hnobody => exact absurd hmakes.email (hnobody user (hW.stores hs))
        | refused hx hemail hcompare =>
          rw [compare_made hmakes (hsame _ hx hemail), decide_eq_false_iff_not] at hcompare
          rw [if_neg hcompare]
          exact Or.inr rfl
      · cases hguard.validated with
        | granted hx hemail hcompare _ =>
          rw [compare_made hmakes (hsame _ hx hemail), decide_eq_true_iff] at hcompare
          rw [if_pos hcompare]
          exact Or.inr ⟨_, rfl, User.shown_eq (hsame x hx hemail)⟩

/-- **Whoever has been given tokens is recognised by them from then on**, whatever the requests in
between, logouts of the same user included: the access token is signed for the user, and a later
profile or logout with a payload for them is answered, unless the database fails. -/
theorem sessions_last (hp : Reached p) (hrun : Pool.Runs (fun _ _ => True) p p')
    {session : AuthResponseDto} (hi : Answered p i t (.ok (.session session))) :
    (∃ now, session.accessToken = JwtService.signAsync
      ⟨session.user.id, session.user.email, session.user.role⟩
        ⟨jwtConfig.secret, jwtConfig.expiresIn⟩ now) ∧
      ∀ j payload r, p.acts.length ≤ j → payload.sub = session.user.id →
        (Answered p' j (.getProfile payload) r → Fails r ∨ r = .ok (.profile
          ⟨session.user, session.user.firstName ++ " " ++ session.user.lastName⟩)) ∧
        (Answered p' j (.logout payload) r → Fails r ∨ r = .ok (.message "Logout successful")) := by
  obtain ⟨user, tokens, hs, hactive, ⟨now, now', htokens⟩, rfl⟩ := session_stored hp hi
  refine ⟨⟨now, by rw [htokens]; rfl⟩, fun j payload r hlater hsub => ?_⟩
  have hguard : ∀ {W : UserTable} {g : Except AuthErr User}, UserTable.Keeps p.world W →
      UserTable.Keeps p.world p'.world → Identified W payload.sub g p'.world →
        Fails g ∨ ∃ x, g = .ok x ∧ x.account = user.account := by
    intro W g hW hkeeps h
    have hsame : ∀ x : User, UserTable.Stores p'.world x → x.id = payload.sub →
        x.account = user.account := by
      intro x hx hid
      exact UserTable.account_unique (q := { id := some payload.sub })
        (Or.inl (Option.some_ne_none _)) hx (hkeeps.stores hs) (selects_id.mpr hid)
        (selects_id.mpr hsub.symm)
    cases h with
    | failed m => exact Or.inl ⟨m, rfl⟩
    | granted hx hid _ => exact Or.inr ⟨_, rfl, hsame _ hx hid⟩
    | inactive hx hid hstatus =>
      exact absurd ((User.account_eq.mp (hsame _ hx hid)).2.2.2.trans hactive) hstatus
    | unknown hnobody => exact absurd hsub.symm (hnobody user (hW.stores hs))
  constructor
  · intro hj
    obtain ⟨W, hW, hkeeps, hmeets⟩ := hj.meets_since hp hrun hlater
    rcases hmeets with hfails | ⟨e, rfl, hidentified⟩ | ⟨x, a, rfl, hidentified, rfl⟩
    · exact Or.inl hfails
    · rcases hguard hW hkeeps hidentified with ⟨m, hm⟩ | ⟨x, hx, -⟩
      · exact Or.inl ⟨m, congrArg Except.error (Except.error.inj hm)⟩
      · cases hx
    · rcases hguard hW hkeeps hidentified with ⟨m, hm⟩ | ⟨y, hy, haccount⟩
      · cases hm
      · obtain rfl := Except.ok.inj hy
        rw [User.shown_eq haccount, User.fullName_eq haccount]
        exact Or.inr rfl
  · intro hj
    obtain ⟨W, hW, hkeeps, hmeets⟩ := hj.meets_since hp hrun hlater
    rcases hmeets with hfails | ⟨e, rfl, hidentified⟩ | ⟨x, a, rfl, -, rfl⟩
    · exact Or.inl hfails
    · rcases hguard hW hkeeps hidentified with ⟨m, hm⟩ | ⟨x, hx, -⟩
      · exact Or.inl ⟨m, congrArg Except.error (Except.error.inj hm)⟩
      · cases hx
    · exact Or.inr rfl

/-- **Whoever logs in has given the password of a registration**, as far as bcrypt sees it, or that
of a user who was there in the beginning. -/
theorem login_registered {w₀ : UserTable}
    (hp : Pool.Reachable (fun w => w = w₀) (fun _ _ => True) p) {email password : String}
    {session : AuthResponseDto}
    (h : Answered p i (.login email password) (.ok (.session session))) :
    session.user.email = email ∧
      ((∃ user ∈ w₀, user.shown = session.user ∧
        Bcrypt.compare password user.password = true) ∨
      ∃ dto : RegisterDto, .register dto ∈ p.tags ∧ dto.email = email ∧
        (utf8 password).take 72 = (utf8 dto.password).take 72 ∧
        session.user =
          ⟨session.user.id, email, dto.firstName, dto.lastName, .customer, .active⟩) := by
  have hreg : Registered w₀ p.world p.tags := Contract.inv (sound w₀) hp
  obtain ⟨W, hmeets⟩ := Contract.ended (sound w₀) hp h.1 h.2
  rcases hmeets with ⟨m, hm⟩ | ⟨e, he, -⟩ | ⟨user, a, ha, hguard, tokens, -, rfl⟩
  · cases hm
  · cases he
  · obtain rfl := AuthAnswer.session.inj (Except.ok.inj ha)
    cases hguard.validated with
    | granted hs hemail hcompare hactive =>
      obtain ⟨row, hrow, haccount⟩ := hs
      refine ⟨hemail, ?_⟩
      rcases hreg row hrow with ⟨row₀, hrow₀, hold⟩ | ⟨dto, hdto, hmakes⟩
      · have hsame := hold.trans haccount
        refine Or.inl ⟨row₀, hrow₀, User.shown_eq hsame, ?_⟩
        rw [(User.account_eq.mp hsame).1]
        exact hcompare
      · rw [compare_made hmakes haccount.symm, decide_eq_true_iff] at hcompare
        have hcolumns := (User.account_eq.mp haccount).1
        refine Or.inr ⟨dto, hdto, ?_, hcompare, ?_⟩
        · rw [← hmakes.email, hcolumns]
          exact hemail
        · show user.shown = ⟨user.id, email, dto.firstName, dto.lastName, .customer, .active⟩
          rw [← User.shown_eq haccount, User.shown, hmakes.firstName, hmakes.lastName, hmakes.role,
            hmakes.status, hcolumns, hemail, (User.account_eq.mp haccount).2.1]

end Sessions

end Sessions

/-! ### A user registers, logs in, logs out and looks at their profile -/

namespace Sessions

open Samples

/-- The user that is registered. -/
def jane : RegisterDto := ⟨"jane@example.com", "password456", "Jane", "Doe"⟩

/-- The id the user draws. -/
def janeId : Uuid := ⟨"9b1d7c52-8e3f-4a60-b7d4-2f5e6a7b8c9d", by decide +kernel⟩

/-- The payload of a token of the user. -/
def janePayload : JwtPayload := ⟨janeId, jane.email, .customer⟩

/-- The registration. -/
def registering : List (Action authEndpoints) :=
  .start (.register jane) :: List.replicate 7 (.run 0 { id := janeId })

/-- A login, a logout and a look at the profile, one query of which fails at first. -/
def returning : List (Action authEndpoints) :=
  .start (.login jane.email jane.password) :: .start (.login jane.email "password") ::
    .start (.logout janePayload) :: .start (.getProfile janePayload) ::
    List.replicate 6 (.run 1 {}) ++ List.replicate 2 (.run 2 {}) ++ List.replicate 2 (.run 3 {}) ++
    List.replicate 2 (.run 4 {})

theorem registering_played :
    (Pool.play (fun _ _ => True) ⟨(.empty : UserTable), []⟩ registering).isSome := by decide +kernel

/-- The pool after the registration. -/
def joined : Pool authEndpoints :=
  (Pool.play (fun _ _ => True) ⟨(.empty : UserTable), []⟩ registering).get registering_played

theorem returning_played :
    (Pool.play (fun _ _ => True) joined returning).isSome := by decide +kernel

/-- The pool after all requests. -/
def returned : Pool authEndpoints :=
  (Pool.play (fun _ _ => True) joined returning).get returning_played

/-- What the user is answered. -/
def janeSession : AuthResponseDto where
  accessToken := JwtService.signAsync janePayload ⟨jwtConfig.secret, jwtConfig.expiresIn⟩ 0
  refreshToken :=
    JwtService.signAsync janePayload ⟨jwtConfig.refreshSecret, jwtConfig.refreshExpiresIn⟩ 0
  user := ⟨janeId, jane.email, jane.firstName, jane.lastName, .customer, .active⟩

/-- The profile the user is shown. -/
def janeProfile : AuthProfile := ⟨janeSession.user, "Jane" ++ " " ++ "Doe"⟩

theorem joined_reached : Reached joined := Pool.reachable_of_play trivial registering_played

theorem joined_runs : Pool.Runs (fun _ _ => True) joined returned :=
  Pool.runs_of_play _ _ _ (Option.some_get returning_played).symm

theorem joined_answered : Answered joined 0 (.register jane) (.ok (.session janeSession)) :=
  ⟨rfl, rfl⟩

theorem returned_answered : Answered returned 1 (.login jane.email jane.password)
    (.ok (.session janeSession)) ∧
      Answered returned 2 (.login jane.email "password")
        (.error (.unauthorized "Invalid credentials")) ∧
      Answered returned 4 (.getProfile janePayload) (.ok (.profile janeProfile)) :=
  ⟨⟨rfl, rfl⟩, ⟨rfl, rfl⟩, rfl, rfl⟩

theorem login_answers_refused :
    janeSession.user = ⟨janeId, jane.email, jane.firstName, jane.lastName, .customer, .active⟩ ∧
      (Fails (.error (.unauthorized "Invalid credentials") : Except AuthErr AuthAnswer) ∨
        if jane.email = "" ∨ "password" = "" then
          (.error (.unauthorized "Invalid credentials") : Except AuthErr AuthAnswer) =
            .error (.unauthorized "Unauthorized")
        else if (utf8 "password").take 72 = (utf8 jane.password).take 72 then
          ∃ session' : AuthResponseDto,
            Except.error (AuthErr.unauthorized "Invalid credentials") =
              Except.ok (AuthAnswer.session session') ∧ session'.user = janeSession.user
        else (.error (.unauthorized "Invalid credentials") : Except AuthErr AuthAnswer) =
          .error (.unauthorized "Invalid credentials")) :=
  login_answers joined_reached joined_runs joined_answered (by decide) returned_answered.2.1

theorem sessions_last_profile : ∃ now, janeSession.accessToken =
    JwtService.signAsync janePayload ⟨jwtConfig.secret, jwtConfig.expiresIn⟩ now ∧
      (Fails (.ok (.profile janeProfile) : Except AuthErr AuthAnswer) ∨
        (.ok (.profile janeProfile) : Except AuthErr AuthAnswer) =
          .ok (.profile ⟨janeSession.user, "Jane" ++ " " ++ "Doe"⟩)) := by
  obtain ⟨⟨now, hnow⟩, h⟩ := sessions_last joined_reached joined_runs joined_answered
  have hprofile := (h 4 janePayload _ (by decide) rfl).1 returned_answered.2.2
  exact ⟨now, hnow, hprofile⟩

theorem login_registered_jane : janeSession.user.email = jane.email ∧
    ((∃ user ∈ (.empty : UserTable), user.shown = janeSession.user ∧
      Bcrypt.compare jane.password user.password = true) ∨
    ∃ dto : RegisterDto, .register dto ∈ returned.tags ∧ dto.email = jane.email ∧
      (utf8 jane.password).take 72 = (utf8 dto.password).take 72 ∧
      janeSession.user =
        ⟨janeSession.user.id, jane.email, dto.firstName, dto.lastName, .customer, .active⟩) :=
  login_registered (Pool.Reachable.runs ⟨_, rfl, Pool.runs_of_play _ _ _
    (Option.some_get registering_played).symm⟩ joined_runs) returned_answered.1

end Sessions

end CqrsSaga
