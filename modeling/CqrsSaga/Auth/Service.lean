import CqrsSaga.App.Entities
import CqrsSaga.Async.Pool
import CqrsSaga.Codec.Base64Url

/-!
# Registration, login and refresh tokens

The `users` table, what bcrypt and jsonwebtoken compute, and `AuthService` over them.  A user's row
holds a hash of one refresh token, or none; the table has a unique index on `email`.

The two libraries are parameters, with the behaviour they document: bcrypt takes 72 bytes of what it
hashes, and a token consists of a header, a payload and a signature.

## Main definitions

* `Uuid`, `User`, `UserTable` — the rows.
* `Bcrypt`, `JwtService`, `ProcessEnv` — what comes from outside.
* `AuthOp`, `Auth`, `accounts` — the awaited calls, and the machine they run on.
* `AuthService.register`, `login`, `logout`, `refreshTokens`, `validateUser`, `getCurrentUser` — the
  service.

## Main results

* `UserTable.mem_setRefreshToken` — the rows after an `update`.
-/

namespace CqrsSaga

/-! ### Users -/

/-- The text form of a UUID: 36 characters, dashes at four places and hexadecimal digits at the
others. -/
def isUuid (s : String) : Bool :=
  s.length == 36 && s.toList.zipIdx.all fun x =>
    if x.2 ∈ [8, 13, 18, 23] then x.1 == '-'
    else x.1.isDigit || decide (x.1 ∈ ['a', 'b', 'c', 'd', 'e', 'f'])

/-- A UUID, as its text. -/
structure Uuid where
  text : String
  valid : isUuid text = true
  deriving DecidableEq

theorem Uuid.length_text (u : Uuid) : u.text.length = 36 := by
  have h := u.valid
  rw [isUuid, Bool.and_eq_true, beq_iff_eq] at h
  exact h.1

/-- The UUID without a bit set. -/
def Uuid.zero : Uuid := ⟨"00000000-0000-0000-0000-000000000000", by decide +kernel⟩

/-- What a user may do. -/
inductive UserRole
  | admin | customer | merchant
  deriving DecidableEq, Repr

/-- Whether an account may be used. -/
inductive UserStatus
  | active | inactive | suspended
  deriving DecidableEq, Repr

/-- The columns of a user that registration fills in. -/
structure NewUser where
  email : String
  password : String
  firstName : String
  lastName : String
  deriving DecidableEq

/-- A row of `users`. -/
structure User extends NewUser where
  id : Uuid
  role : UserRole := .customer
  status : UserStatus := .active
  refreshToken : Option String := none
  deriving DecidableEq

/-- `get fullName()`. -/
def User.fullName (user : User) : String := user.firstName ++ " " ++ user.lastName

/-- The table `users`; emails are unique. -/
abbrev UserTable := Table User.id fun user => some user.email

/-- The conditions of a query on users. -/
structure UserWhere where
  id : Option Uuid := none
  email : Option String := none

/-- The users a query selects. -/
def UserWhere.selects (q : UserWhere) (user : User) : Bool :=
  meets q.id user.id && meets q.email user.email

/-- `update(id, { refreshToken })`. -/
def UserTable.setRefreshToken (users : UserTable) (id : Uuid) (refreshToken : Option String) :
    UserTable :=
  match users.find? fun user => decide (user.id = id) with
  | none => users
  | some user => (users.save { user with refreshToken }).getD users

/-- **The rows after an `update`**: the one with this id has the new value, and the others are as
they were. -/
theorem UserTable.mem_setRefreshToken {users : UserTable} {id : Uuid} {token : Option String}
    {x : User} : x ∈ users.setRefreshToken id token ↔
      x ∈ users ∧ x.id ≠ id ∨
        ∃ user ∈ users, user.id = id ∧ x = { user with refreshToken := token } := by
  unfold setRefreshToken
  split
  · next h =>
    have hne := Table.find?_eq_none.mp h
    simp only [decide_eq_false_iff_not] at hne
    constructor
    · exact fun hx => Or.inl ⟨hx, hne x hx⟩
    · rintro (⟨hx, -⟩ | ⟨user, hu, hid, -⟩)
      · exact hx
      · exact absurd hid (hne user hu)
  · next user h =>
    have hu := Table.mem_of_find? h
    have hid : user.id = id := by simpa using Table.find?_some h
    -- the email is kept, so the index is
    obtain ⟨users', hsave⟩ : ∃ t, users.save { user with refreshToken := token } = some t :=
      Table.save_isSome_of_uk_eq hu rfl rfl
    rw [hsave, Option.getD_some, Table.mem_save hsave]
    constructor
    · rintro (rfl | ⟨hx, hne⟩)
      · exact Or.inr ⟨user, hu, hid, rfl⟩
      · exact Or.inl ⟨hx, fun h => hne (h.trans hid.symm)⟩
    · rintro (⟨hx, hne⟩ | ⟨user', hu', hid', rfl⟩)
      · exact Or.inr ⟨hx, fun h => hne (h.trans hid)⟩
      · rw [Table.eq_of_pk hu' hu (hid'.trans hid.symm)]
        exact Or.inl rfl

/-! ### Outside the application -/

/-- bcrypt.  A hash names its salt and its cost, so it can be compared with. -/
class Bcrypt where
  /-- `bcrypt.hash(data, rounds)`, with the salt drawn. -/
  hash : (data : String) → (rounds : ℕ) → (salt : String) → String
  /-- `bcrypt.compare(data, encrypted)`. -/
  compare : (data encrypted : String) → Bool
  hash_ne : ∀ data rounds salt, hash data rounds salt ≠ ""
  /-- Only the first 72 bytes count. -/
  compare_hash : ∀ data data' rounds salt, compare data (hash data' rounds salt) =
    decide ((utf8 data).take 72 = (utf8 data').take 72)

/-- Whom a token is about. -/
structure JwtPayload where
  sub : Uuid
  email : String
  role : UserRole

/-- With what a token is signed, and for how long. -/
structure JwtSignOptions where
  secret : String
  expiresIn : String

/-- The header of a token signed with a secret. -/
def jwtHeader : String := "\x7b\"alg\":\"HS256\",\"typ\":\"JWT\"\x7d"

/-- The beginning of a payload, up to the end of its `sub`. -/
def jwtSubject (sub : Uuid) : String := "\x7b\"sub\":\"" ++ sub.text

/-- jsonwebtoken. -/
class JwtService where
  /-- `signAsync(payload, options)`, at a time. -/
  signAsync : JwtPayload → JwtSignOptions → (now : ℕ) → String
  /-- A token is its header, its payload and its signature; the payload is JSON, with the fields in
  the order they were given, `sub` first. -/
  signAsync_eq : ∀ payload options now, ∃ fields signature,
    signAsync payload options now = base64url jwtHeader ++ "." ++
      base64url (jwtSubject payload.sub ++ ("\"" ++ fields)) ++ "." ++ signature

/-- `process.env`. -/
class ProcessEnv where
  get : String → Option String

/-- The secrets and lifetimes of the two kinds of tokens. -/
structure JwtConfig where
  secret : String
  expiresIn : String
  refreshSecret : String
  refreshExpiresIn : String

/-- `registerAs('jwt', …)`. -/
def jwtConfig [ProcessEnv] : JwtConfig where
  secret := (truthy (ProcessEnv.get "JWT_SECRET")).getD "your-super-secret-jwt-key"
  expiresIn := (truthy (ProcessEnv.get "JWT_EXPIRES_IN")).getD "24h"
  refreshSecret := (truthy (ProcessEnv.get "JWT_REFRESH_SECRET")).getD "your-refresh-secret-key"
  refreshExpiresIn := (truthy (ProcessEnv.get "JWT_REFRESH_EXPIRES_IN")).getD "7d"

/-! ### The awaited calls -/

/-- What `AuthService` throws. -/
inductive AuthErr
  /-- A database operation failed. -/
  | injected (message : String)
  /-- An insert collided with a unique index. -/
  | uniqueViolation (column : String)
  /-- `ConflictException`. -/
  | conflict (message : String)
  /-- `UnauthorizedException`. -/
  | unauthorized (message : String)
  deriving DecidableEq, Repr

/-- What `AuthService` awaits. -/
inductive AuthOp
  /-- `userRepository.findOne`. -/
  | userFindOne (q : UserWhere)
  /-- `userRepository.save` of a created entity. -/
  | userInsert (user : NewUser)
  /-- `userRepository.update(id, { refreshToken })`. -/
  | userUpdate (id : Uuid) (refreshToken : Option String)
  /-- `bcrypt.hash`. -/
  | hash (data : String) (saltRounds : ℕ)
  /-- `bcrypt.compare`. -/
  | compare (data encrypted : String)
  /-- `jwtService.signAsync`. -/
  | signAsync (payload : JwtPayload) (options : JwtSignOptions)

/-- What a successful call answers. -/
def AuthOp.Val : AuthOp → Type
  | .userFindOne _ => Option User
  | .userInsert _ => User
  | .userUpdate _ _ => Unit
  | .hash _ _ => String
  | .compare _ _ => Bool
  | .signAsync _ _ => String

/-- The calls that go to the database. -/
def AuthOp.isQuery : AuthOp → Bool
  | .userFindOne _ => true
  | .userInsert _ => true
  | .userUpdate _ _ => true
  | _ => false

/-- The calls of `AuthService`. -/
abbrev Auth : Interface where
  Op := AuthOp
  Val := AuthOp.Val
  Err := AuthErr

/-- What one call leaves to chance. -/
structure AuthChoice where
  /-- Whether it fails. -/
  fault : Option String := none
  /-- The id it draws. -/
  id : Uuid := .zero
  /-- The salt it draws. -/
  salt : String := ""
  /-- The time it is made at. -/
  now : ℕ := 0

namespace UserTable

/-- Insert a user; the columns that registration leaves out take their defaults. -/
def insert (users : UserTable) (id : Uuid) (n : NewUser) : UserTable × Except AuthErr User :=
  if (users.find? fun user => decide (user.id = id)).isSome then
    (users, .error (.uniqueViolation "id"))
  else
    match users.save { n with id } with
    | none => (users, .error (.uniqueViolation "email"))
    | some users' => (users', .ok { n with id })

variable [Bcrypt] [JwtService]

/-- A call that does not fail to be carried out. -/
def perform (users : UserTable) (c : AuthChoice) :
    (o : AuthOp) → UserTable × Except AuthErr o.Val
  | .userFindOne q => (users, .ok (users.find? q.selects))
  | .userInsert n => users.insert c.id n
  | .userUpdate id refreshToken => (users.setRefreshToken id refreshToken, .ok ())
  | .hash data rounds => (users, .ok (Bcrypt.hash data rounds c.salt))
  | .compare data encrypted => (users, .ok (Bcrypt.compare data encrypted))
  | .signAsync payload options => (users, .ok (JwtService.signAsync payload options c.now))

/-- A call; a query may fail, and leaves the table as it was then. -/
def exec (users : UserTable) (o : AuthOp) (c : AuthChoice) :
    Option (UserTable × Except AuthErr o.Val) :=
  match c.fault with
  | none => some (users.perform c o)
  | some m => if o.isQuery then some (users, .error (.injected m)) else none

end UserTable

/-- **The machine `AuthService` runs on.** -/
abbrev accounts [Bcrypt] [JwtService] : Machine Auth where
  World := UserTable
  Choice := AuthChoice
  Task := Empty
  Tick := Empty
  exec := fun users _ o c => (users.exec o c).map fun r => (r.1, r.2, [])
  elapse := fun users _ => users

/-! ### The service -/

/-- Await a call. -/
abbrev authCall (o : AuthOp) : Async Auth o.Val := Async.perform (S := Auth) o

namespace userRepository

/-- `findOne({ where })`: a user who meets the conditions, if there is one. -/
def findOne (q : UserWhere) : Async Auth (Option User) := authCall (.userFindOne q)

/-- `save` of an entity made by `create`. -/
def insert (user : NewUser) : Async Auth User := authCall (.userInsert user)

/-- `update(id, { refreshToken })`. -/
def update (id : Uuid) (refreshToken : Option String) : Async Auth Unit :=
  authCall (.userUpdate id refreshToken)

end userRepository

namespace bcrypt

/-- `hash(data, saltRounds)`. -/
def hash (data : String) (saltRounds : ℕ) : Async Auth String := authCall (.hash data saltRounds)

/-- `compare(data, encrypted)`. -/
def compare (data encrypted : String) : Async Auth Bool := authCall (.compare data encrypted)

end bcrypt

namespace jwtService

/-- `signAsync(payload, options)`. -/
def signAsync (payload : JwtPayload) (options : JwtSignOptions) : Async Auth String :=
  authCall (.signAsync payload options)

end jwtService

/-- The body of a registration. -/
structure RegisterDto where
  email : String
  password : String
  firstName : String
  lastName : String

/-- The tokens a session is given. -/
structure AuthTokens where
  accessToken : String
  refreshToken : String
  deriving DecidableEq

namespace AuthService

/-- The user with these credentials. -/
def validateUser (email password : String) : Async Auth (Option User) := do
  let user ← userRepository.findOne { email := some email }
  match user with
  | none => return none
  | some user => do
    let passwordMatches ← bcrypt.compare password user.password
    if passwordMatches = false then
      return none
    else if user.status ≠ .active then
      .throw (.unauthorized "Account is not active")
    else
      return some user

/-- The tokens of a user: one for access, and one to refresh them with. -/
def generateTokens [ProcessEnv] (user : User) : Async Auth AuthTokens := do
  let payload : JwtPayload := ⟨user.id, user.email, user.role⟩
  -- started together; neither touches anything the other sees
  let accessToken ← jwtService.signAsync payload ⟨jwtConfig.secret, jwtConfig.expiresIn⟩
  let refreshToken ←
    jwtService.signAsync payload ⟨jwtConfig.refreshSecret, jwtConfig.refreshExpiresIn⟩
  return ⟨accessToken, refreshToken⟩

/-- Store the hash of a refresh token. -/
def updateRefreshToken (userId : Uuid) (refreshToken : String) : Async Auth Unit := do
  let hashedRefreshToken ← bcrypt.hash refreshToken 12
  userRepository.update userId (some hashedRefreshToken)

/-- Register a user under an email nobody has, and give them tokens. -/
def register [ProcessEnv] (registerDto : RegisterDto) : Async Auth (User × AuthTokens) := do
  let existingUser ← userRepository.findOne { email := some registerDto.email }
  if existingUser.isSome then
    .throw (.conflict "Email already exists")
  else
    let saltRounds := 12
    let hashedPassword ← bcrypt.hash registerDto.password saltRounds
    let savedUser ← userRepository.insert
      ⟨registerDto.email, hashedPassword, registerDto.firstName, registerDto.lastName⟩
    let tokens ← generateTokens savedUser
    updateRefreshToken savedUser.id tokens.refreshToken
    return (savedUser, tokens)

/-- Give a user tokens. -/
def login [ProcessEnv] (user : User) : Async Auth AuthTokens := do
  let tokens ← generateTokens user
  updateRefreshToken user.id tokens.refreshToken
  return tokens

/-- Forget the refresh token of a user. -/
def logout (userId : Uuid) : Async Auth Unit := userRepository.update userId none

/-- Give a user new tokens for the refresh token that is stored of them. -/
def refreshTokens [ProcessEnv] (userId : Uuid) (refreshToken : String) : Async Auth AuthTokens := do
  let user ← userRepository.findOne { id := some userId }
  match user with
  | none => .throw (.unauthorized "Access denied")
  | some user =>
    match truthy user.refreshToken with
    | none => .throw (.unauthorized "Access denied")
    | some stored => do
      let refreshTokenMatches ← bcrypt.compare refreshToken stored
      if refreshTokenMatches = false then
        .throw (.unauthorized "Access denied")
      else
        let tokens ← generateTokens user
        updateRefreshToken user.id tokens.refreshToken
        return tokens

/-- The user with an id. -/
def getCurrentUser (userId : Uuid) : Async Auth User := do
  let user ← userRepository.findOne { id := some userId }
  match user with
  | none => .throw (.unauthorized "User not found")
  | some user => return user

end AuthService

end CqrsSaga
