import CqrsSaga.Auth.Service

/-!
# The endpoints of the users

`AuthController`, and the strategies its guards go by.  A login is guarded by the credentials it
comes with, and passport-local refuses it before the strategy is asked when one of them is missing
or empty.  A logout and a profile are guarded by a token, of which passport-jwt has taken the
payload when the strategy is asked.  What is modelled of a request is what passport takes from it.

## Main definitions

* `LocalStrategy.validate`, `JwtStrategy.validate` — who makes a request.
* `LocalAuthGuard.canActivate` — what passport-local asks for first.
* `AuthController.register`, `login`, `logout`, `getProfile` — the endpoints.
* `AuthRequest`, `AuthRequest.run`, `authEndpoints` — the requests, and the system of them.
-/

namespace CqrsSaga

/-- What a user is shown of their account. -/
structure AuthUser where
  id : Uuid
  email : String
  firstName : String
  lastName : String
  role : UserRole
  status : UserStatus
  deriving DecidableEq

/-- The answer to a registration or a login. -/
structure AuthResponseDto where
  accessToken : String
  refreshToken : String
  user : AuthUser
  deriving DecidableEq

/-- A profile: the row without its secrets, and the full name. -/
structure AuthProfile extends AuthUser where
  fullName : String
  deriving DecidableEq

/-- The account as it is shown. -/
def User.shown (user : User) : AuthUser :=
  ⟨user.id, user.email, user.firstName, user.lastName, user.role, user.status⟩

/-- `passport-local`. -/
def LocalStrategy.validate (email password : String) : Async Auth User := do
  let user ← AuthService.validateUser email password
  match user with
  | none => .throw (.unauthorized "Invalid credentials")
  | some user => return user

/-- The guard of a login: passport-local fails the request when it finds no email or no password,
an empty one included, and what `AuthGuard` makes of this is an `UnauthorizedException` without a
text of its own. -/
def LocalAuthGuard.canActivate (email password : String) : Async Auth User :=
  if email = "" ∨ password = "" then .throw (.unauthorized "Unauthorized")
  else LocalStrategy.validate email password

/-- `passport-jwt`. -/
def JwtStrategy.validate (payload : JwtPayload) : Async Auth User := do
  let user ← userRepository.findOne { id := some payload.sub }
  match user with
  | none => .throw (.unauthorized "User not found")
  | some user =>
    if user.status ≠ .active then
      .throw (.unauthorized "User account is not active")
    else
      return user

namespace AuthController

/-- The answer to a registration or a login. -/
def response (user : User) (tokens : AuthTokens) : AuthResponseDto :=
  ⟨tokens.accessToken, tokens.refreshToken, user.shown⟩

/-- `POST /auth/register`. -/
def register [ProcessEnv] (registerDto : RegisterDto) : Async Auth AuthResponseDto := do
  let result ← AuthService.register registerDto
  return response result.1 result.2

/-- `POST /auth/login`, by the user the guard has found. -/
def login [ProcessEnv] (user : User) : Async Auth AuthResponseDto := do
  let tokens ← AuthService.login user
  return response user tokens

/-- `POST /auth/logout`. -/
def logout (user : User) : Async Auth String := do
  AuthService.logout user.id
  return "Logout successful"

/-- `GET /auth/profile`. -/
def getProfile (user : User) : Async Auth AuthProfile := do
  let user ← AuthService.getCurrentUser user.id
  return ⟨user.shown, user.fullName⟩

end AuthController

/-- A request, with what its guard takes from it; no endpoint leads to `AuthService.refreshTokens`,
which is called on its own. -/
inductive AuthRequest
  | register (registerDto : RegisterDto)
  | login (email password : String)
  | logout (payload : JwtPayload)
  | getProfile (payload : JwtPayload)
  | refreshTokens (userId : Uuid) (refreshToken : String)

/-- What is answered. -/
inductive AuthAnswer
  | session (response : AuthResponseDto)
  | message (message : String)
  | profile (profile : AuthProfile)
  | tokens (tokens : AuthTokens)
  deriving DecidableEq

/-- The guard of a request, and the method it guards. -/
def AuthRequest.run [ProcessEnv] : AuthRequest → Async Auth AuthAnswer
  | register registerDto => .session <$> AuthController.register registerDto
  | login email password => do
    let user ← LocalAuthGuard.canActivate email password
    .session <$> AuthController.login user
  | logout payload => do
    let user ← JwtStrategy.validate payload
    .message <$> AuthController.logout user
  | getProfile payload => do
    let user ← JwtStrategy.validate payload
    .profile <$> AuthController.getProfile user
  | refreshTokens userId refreshToken => .tokens <$> AuthService.refreshTokens userId refreshToken

/-- Requests, as many as there may be. -/
abbrev authEndpoints [Bcrypt] [JwtService] [ProcessEnv] : System accounts where
  Tag := AuthRequest
  Res := AuthAnswer
  body := AuthRequest.run
  spawned := Empty.elim

end CqrsSaga
