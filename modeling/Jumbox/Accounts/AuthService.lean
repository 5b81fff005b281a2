import Jumbox.Accounts.Users
import Jumbox.Security.Passwords

/-!
# `AuthService`

The methods of `application/auth_service.py`, except `get_current_user`, which is
`HMACTokenService.getCurrentUser`. `register` and `login` are built from the pieces
between their database accesses, so that the interleaving model can run the same
pieces one at a time. The identifier and the salt that a registration draws are
arguments.
-/

namespace Jumbox

structure AuthResult where
  accessToken : Str
  tokenType : Str := "bearer".toList
deriving DecidableEq

/-- `ConflictError` is raised by `register` alone. -/
inductive AuthError where
  | conflictError (message : Str)
  | other (e : Error)
deriving DecidableEq

structure AuthService where
  passwordHasher : PBKDF2PasswordHasher
  tokenService : HMACTokenService
  pbkdf2 : Pbkdf2
  digits : Decimal.Digits
  json : Json

/-- The arguments of `register`, and what it draws. -/
structure UserRegistration where
  email : Str
  password : Str
  displayName : Option Str := none
  id : Uuid
  salt : Bytes
deriving DecidableEq

namespace AuthService

/-- `_to_auth_user` -/
def toAuthUser (user : User) : AuthenticatedUser where
  userId := user.id
  email := user.email
  isAdmin := user.isAdmin

variable (service : AuthService)

/-- `create_access_token`, and what the caller makes of it. -/
def issue (now : ℤ) (user : User) : Except AuthError AuthResult :=
  match service.tokenService.createAccessToken service.json now (toAuthUser user) with
  | .error e => .error (.other e)
  | .ok accessToken => .ok { accessToken }

/-! ## `register` -/

def checkEmail (users : UserTable) (email : Str) : Except AuthError Unit :=
  match users.getByEmail email with
  | some _ => .error (.conflictError "A user with this email already exists".toList)
  | none => .ok ()

def newUser (r : UserRegistration) (passwordHash : Str) : User where
  email := r.email
  passwordHash
  displayName := r.displayName
  id := r.id

/-- Hashes the password and inserts the row. -/
def addUser (users : UserTable) (r : UserRegistration) : Except AuthError (User × UserTable) :=
  match service.passwordHasher.hashPassword service.pbkdf2 r.salt r.password with
  | .error e => .error (.other e)
  | .ok passwordHash =>
      match users.add (newUser r passwordHash) with
      | .error e => .error (.other e)
      | .ok users => .ok (newUser r passwordHash, users)

def register (users : UserTable) (now : ℤ) (r : UserRegistration) :
    Except AuthError AuthResult × UserTable :=
  match checkEmail users r.email with
  | .error e => (.error e, users)
  | .ok () =>
      match service.addUser users r with
      | .error e => (.error e, users)
      -- the row is committed before the token is made
      | .ok (user, users) => (service.issue now user, users)

/-! ## `login` -/

def invalidCredentials : AuthError :=
  .other ⟨.authenticationError, "Invalid email or password".toList⟩

/-- What follows the look-up of the user. -/
def verify (user : Option User) (password : Str) : Except AuthError User :=
  match user with
  | none => .error invalidCredentials
  | some user =>
      match service.passwordHasher.verifyPassword service.pbkdf2 service.digits password
          user.passwordHash with
      | .error e => .error (.other e)
      | .ok true => .ok user
      | .ok false => .error invalidCredentials

def login (users : UserTable) (now : ℤ) (email password : Str) : Except AuthError AuthResult :=
  match service.verify (users.getByEmail email) password with
  | .error e => .error e
  | .ok user => service.issue now user

def requireUser (users : UserTable) (userId : Uuid) : Except Error User :=
  match users.getById userId with
  | none => .error ⟨.notFoundError, "User not found".toList⟩
  | some user => .ok user

/-! ## What the pieces do -/

variable {service}

theorem checkEmail_eq_ok {users : UserTable} {email : Str} :
    checkEmail users email = .ok () ↔ users.getByEmail email = none := by
  unfold checkEmail
  cases users.getByEmail email with
  | none => simp
  | some user => simp

theorem addUser_eq_ok {users users' : UserTable} {r : UserRegistration} {user : User}
    (h : service.addUser users r = .ok (user, users')) :
    ∃ passwordHash,
      service.passwordHasher.hashPassword service.pbkdf2 r.salt r.password = .ok passwordHash ∧
      user = newUser r passwordHash ∧ users.add user = .ok users' := by
  unfold addUser at h
  split at h
  · cases h
  · rename_i passwordHash hhash
    split at h
    · cases h
    · rename_i users'' hadd
      cases h
      exact ⟨passwordHash, hhash, rfl, hadd⟩

theorem issue_eq_ok {now : ℤ} {user : User} {result : AuthResult}
    (h : service.issue now user = .ok result) :
    service.tokenService.createAccessToken service.json now (toAuthUser user) =
      .ok result.accessToken := by
  unfold issue at h
  split at h
  · cases h
  · rename_i token htoken
    cases h
    exact htoken

theorem verify_eq_ok {user : Option User} {password : Str} {v : User} :
    service.verify user password = .ok v ↔
      user = some v ∧ service.passwordHasher.verifyPassword service.pbkdf2 service.digits password
        v.passwordHash = .ok true := by
  unfold verify
  cases user with
  | none => simp
  | some u =>
      dsimp only
      constructor
      · intro h
        split at h
        · cases h
        · rename_i hverify
          cases h
          exact ⟨rfl, hverify⟩
        · cases h
      · rintro ⟨⟨rfl⟩, hverify⟩
        rw [hverify]

/-- The password decides, together with the salt and the number of iterations that
the stored hash was made with. -/
theorem verify_newUser {r : UserRegistration} {passwordHash : Str}
    (hhash : service.passwordHasher.hashPassword service.pbkdf2 r.salt r.password =
      .ok passwordHash) (password : Str) :
    service.verify (some (newUser r passwordHash)) password = .ok (newUser r passwordHash) ↔
      service.pbkdf2 password.encodeUtf8 r.salt service.passwordHasher.iterations =
        service.pbkdf2 r.password.encodeUtf8 r.salt service.passwordHasher.iterations := by
  obtain ⟨digest, -, hdigest, -, -⟩ := PBKDF2PasswordHasher.hashPassword_eq_ok.mp hhash
  have hverify := PBKDF2PasswordHasher.verifyPassword_hash hdigest hhash service.passwordHasher
    service.digits password
  rw [verify_eq_ok]
  simp only [newUser, true_and, hverify, hdigest]
  cases service.pbkdf2 password.encodeUtf8 r.salt service.passwordHasher.iterations with
  | ok candidate => simp
  | error e =>
      dsimp only
      split
      · simp
      · simp

end AuthService

end Jumbox
