import Jumbox.Accounts.AuthService
import Jumbox.Library.Transition

/-!
# Serial runs of the account service

An address belongs to the registration that was the first to use it. Later ones are
refused, and no call changes a row, so whether a login succeeds is decided by that
registration and the password alone.
-/

namespace Jumbox

namespace AuthService

inductive Call where
  | register (r : UserRegistration)
  | login (email password : Str)
  | requireUser (userId : Uuid)

structure Event where
  now : ℤ
  call : Call

variable (service : AuthService)

/-- The table that a call leaves. -/
def exec (users : UserTable) (e : Event) : UserTable :=
  match e.call with
  | .register r => (service.register users e.now r).2
  | .login _ _ => users
  | .requireUser _ => users

/-- `uuid4` returns an identifier that no user has. -/
def Taken (users : UserTable) (e : Event) : Prop :=
  match e.call with
  | .register r => ∀ m ∈ users.table.rows, m.id ≠ r.id
  | _ => True

instance (users : UserTable) (e : Event) : Decidable (Taken users e) := by
  unfold Taken
  split
  · infer_instance
  · infer_instance

def system : System UserTable Event where
  step users e := if Taken users e then some (service.exec users e) else none

/-- The row a registration makes, if its password can be hashed. -/
def userOf (r : UserRegistration) : Option User :=
  match service.passwordHasher.hashPassword service.pbkdf2 r.salt r.password with
  | .error _ => none
  | .ok passwordHash => some (newUser r passwordHash)

/-- The call registers the address, and the password can be hashed. -/
def registration (email : Str) (e : Event) : Option UserRegistration :=
  match e.call with
  | .register r => if r.email = email ∧ (service.userOf r).isSome then some r else none
  | _ => none

/-- The registration the address belongs to. -/
def firstRegistration (email : Str) (ls : List Event) : Option UserRegistration :=
  ls.findSome? (service.registration email)

/-! ## What a call leaves -/

variable {service}

theorem userOf_eq_some {r : UserRegistration} {user : User} :
    service.userOf r = some user ↔ ∃ passwordHash,
      service.passwordHasher.hashPassword service.pbkdf2 r.salt r.password = .ok passwordHash ∧
      user = newUser r passwordHash := by
  unfold userOf
  cases service.passwordHasher.hashPassword service.pbkdf2 r.salt r.password with
  | error e => simp
  | ok passwordHash => simp [eq_comm]

/-- A registration with a free address inserts its row, or cannot hash its password. -/
theorem addUser_of_free {users : UserTable} {r : UserRegistration}
    (hid : ∀ m ∈ users.table.rows, m.id ≠ r.id) (hfree : users.getByEmail r.email = none) :
    (service.userOf r = none ∧ ∃ e, service.addUser users r = .error e) ∨
      ∃ user users', service.userOf r = some user ∧ users.add user = .ok users' ∧
        service.addUser users r = .ok (user, users') := by
  unfold userOf addUser
  cases service.passwordHasher.hashPassword service.pbkdf2 r.salt r.password with
  | error e => exact .inl ⟨rfl, _, rfl⟩
  | ok passwordHash =>
      have hadmits : users.Admits (newUser r passwordHash) := fun m hm =>
        ⟨hid m hm, UserTable.getByEmail_eq_none.mp hfree m hm⟩
      obtain ⟨users', hadd, -⟩ := UserTable.add_of_admits hadmits
      refine .inr ⟨_, users', rfl, hadd, ?_⟩
      dsimp only
      rw [hadd]

theorem register_of_used {users : UserTable} {r : UserRegistration} {user : User} (now : ℤ)
    (hused : users.getByEmail r.email = some user) :
    service.register users now r =
      (.error (.conflictError "A user with this email already exists".toList), users) := by
  rw [register, checkEmail, hused]

/-- A call gives the address to its registration, if nobody has it yet. -/
theorem getByEmail_exec {users : UserTable} {e : Event} (htaken : Taken users e) (email : Str) :
    (service.exec users e).getByEmail email =
      (users.getByEmail email).or ((service.registration email e).bind service.userOf) := by
  obtain ⟨now, call⟩ := e
  cases call with
  | login email' password => exact (Option.or_none).symm
  | requireUser userId => exact (Option.or_none).symm
  | register r =>
      show (service.register users now r).2.getByEmail email =
        (users.getByEmail email).or ((if r.email = email ∧ (service.userOf r).isSome then some r
          else none).bind service.userOf)
      cases hfree : users.getByEmail r.email with
      | some user =>
          rw [register_of_used now hfree]
          by_cases hemail : r.email = email
          · rw [← hemail, hfree, Option.some_or]
          · rw [if_neg fun h => hemail h.1, Option.bind_none, Option.or_none]
      | none =>
          have hcheck : checkEmail users r.email = .ok () := checkEmail_eq_ok.mpr hfree
          rcases @addUser_of_free service users r htaken hfree with
            ⟨hnone, e, hadd⟩ | ⟨user, users', hsome, hinsert, hadd⟩
          · rw [register, hcheck, hadd, hnone, if_neg (by simp), Option.bind_none, Option.or_none]
          · obtain ⟨passwordHash, -, rfl⟩ := userOf_eq_some.mp hsome
            rw [register, hcheck, hadd]
            show users'.getByEmail email = _
            rw [UserTable.getByEmail_add hinsert]
            by_cases hemail : r.email = email
            · rw [if_pos (show (newUser r passwordHash).email = email from hemail),
                if_pos ⟨hemail, by rw [hsome]; rfl⟩, ← hemail, hfree, Option.none_or,
                Option.bind_some, hsome]
            · rw [if_neg (show (newUser r passwordHash).email ≠ email from hemail),
                if_neg fun h => hemail h.1, Option.bind_none, Option.or_none]

theorem system_step {users users' : UserTable} {e : Event}
    (h : (system service).step users e = some users') :
    Taken users e ∧ users' = service.exec users e := by
  by_cases htaken : Taken users e
  · exact ⟨htaken, (Option.some.inj ((if_pos htaken).symm.trans h)).symm⟩
  · cases (if_neg htaken).symm.trans h

theorem getByEmail_of_run {users users' : UserTable} {ls : List Event}
    (hrun : (system service).run users ls = some users') (email : Str) :
    users'.getByEmail email =
      (users.getByEmail email).or ((service.firstRegistration email ls).bind service.userOf) := by
  induction ls generalizing users with
  | nil =>
      cases hrun
      exact (Option.or_none).symm
  | cons e ls ih =>
      obtain ⟨t, hstep, hrun⟩ := System.run_cons_eq_some.mp hrun
      obtain ⟨htaken, rfl⟩ := system_step hstep
      rw [ih hrun, getByEmail_exec htaken, Option.or_assoc, firstRegistration, firstRegistration,
        List.findSome?_cons]
      cases hreg : service.registration email e with
      | none => rw [Option.bind_none, Option.none_or]
      | some r =>
          -- a call that counts as a registration has made its row
          have hsome : (service.userOf r).isSome = true := by
            obtain ⟨now, call⟩ := e
            cases call with
            | register r' =>
                dsimp only [registration] at hreg
                split at hreg
                · rename_i hmade
                  obtain rfl := Option.some.inj hreg
                  exact hmade.2
                · cases hreg
            | login email' password => cases hreg
            | requireUser userId => cases hreg
          obtain ⟨user, huser⟩ := Option.isSome_iff_exists.mp hsome
          rw [Option.bind_some, huser, Option.some_or]

theorem firstRegistration_eq_some {email : Str} {ls : List Event} {r : UserRegistration}
    (h : service.firstRegistration email ls = some r) :
    r.email = email ∧ ∃ user, service.userOf r = some user := by
  obtain ⟨e, -, hreg⟩ := List.exists_of_findSome?_eq_some h
  obtain ⟨now, call⟩ := e
  cases call with
  | register r' =>
      dsimp only [registration] at hreg
      split at hreg
      · rename_i hmade
        obtain rfl := Option.some.inj hreg
        exact ⟨hmade.1, Option.isSome_iff_exists.mp hmade.2⟩
      · cases hreg
  | login email' password => cases hreg
  | requireUser userId => cases hreg

/-! ## Whose address it is -/

/-- After any run, an address nobody has registered cannot log in. One that has been
registered logs in as the user of its first registration, with the password of that
registration or one of the same digest, and cannot be registered again. -/
theorem login_decided_by_first_registration (service : AuthService) {ls : List Event}
    {users : UserTable} (hrun : (system service).run .empty ls = some users) (email : Str) :
    (service.firstRegistration email ls = none → ∀ now password,
      service.login users now email password = .error invalidCredentials) ∧
    ∀ r, service.firstRegistration email ls = some r →
      (∀ now r', r'.email = email → service.register users now r' =
        (.error (.conflictError "A user with this email already exists".toList), users)) ∧
      ∃ user, user.id = r.id ∧ user.email = email ∧ user.isAdmin = false ∧ ∀ now password,
        if service.pbkdf2 password.encodeUtf8 r.salt service.passwordHasher.iterations =
            service.pbkdf2 r.password.encodeUtf8 r.salt service.passwordHasher.iterations then
          service.login users now email password = service.issue now user
        else ∃ e, service.login users now email password = .error e := by
  have hget : users.getByEmail email =
      (service.firstRegistration email ls).bind service.userOf := by
    rw [getByEmail_of_run hrun]
    exact Option.none_or
  constructor
  · intro hnone now password
    rw [login, hget, hnone, Option.bind_none, verify]
  · intro r hr
    obtain ⟨hemail, user, huser⟩ := firstRegistration_eq_some hr
    rw [hr, Option.bind_some, huser] at hget
    obtain ⟨passwordHash, hhash, rfl⟩ := userOf_eq_some.mp huser
    refine ⟨?_, newUser r passwordHash, rfl, hemail, rfl, ?_⟩
    · intro now r' hsame
      exact register_of_used now (hsame ▸ hget)
    · intro now password
      have hverify := verify_newUser hhash password
      split
      · rename_i hsame
        rw [login, hget, hverify.mpr hsame]
      · rename_i hdiffer
        rw [login, hget]
        cases hv : service.verify (some (newUser r passwordHash)) password with
        | error e => exact ⟨e, rfl⟩
        | ok v =>
            obtain ⟨⟨rfl⟩, -⟩ := verify_eq_ok.mp hv
            exact absurd (hverify.mp hv) hdiffer

namespace Sample

def auth : AuthService where
  passwordHasher := ⟨2⟩
  tokenService := HMACTokenService.sampleService
  pbkdf2 := PBKDF2PasswordHasher.Sample.pbkdf2
  digits := .asciiOnly
  json := ⟨fun _ => [], fun _ => .error ⟨.valueError, "Expecting value".toList⟩⟩

def email : Str := "ana@example.com".toList

def first : UserRegistration where
  email := email
  password := PBKDF2PasswordHasher.Sample.right
  id := Uuid.ofNat 1
  salt := PBKDF2PasswordHasher.Sample.salt

/-- The same address with another password. -/
def second : UserRegistration where
  email := email
  password := PBKDF2PasswordHasher.Sample.wrong
  id := Uuid.ofNat 2
  salt := PBKDF2PasswordHasher.Sample.salt

end Sample

/-- The second registration of an address does not get to its account. -/
theorem login_decided_by_first_registration_twice :
    ∃ users, (system Sample.auth).run .empty
        [⟨0, .register Sample.first⟩, ⟨1, .register Sample.second⟩] = some users ∧
      (∃ user, user.id = Uuid.ofNat 1 ∧
        Sample.auth.login users 2 Sample.email Sample.first.password =
          Sample.auth.issue 2 user) ∧
      ∃ e, Sample.auth.login users 2 Sample.email Sample.second.password = .error e := by
  have hruns : ((system Sample.auth).run .empty
      [⟨0, .register Sample.first⟩, ⟨1, .register Sample.second⟩]).isSome = true := by
    decide +kernel
  obtain ⟨users, hrun⟩ := Option.isSome_iff_exists.mp hruns
  have hfirst : Sample.auth.firstRegistration Sample.email
      [⟨0, .register Sample.first⟩, ⟨1, .register Sample.second⟩] = some Sample.first := by
    decide +kernel
  obtain ⟨-, user, hid, -, -, hlogin⟩ :=
    (login_decided_by_first_registration Sample.auth hrun Sample.email).2 _ hfirst
  have hdigests : Sample.auth.pbkdf2 Sample.second.password.encodeUtf8 Sample.first.salt
        Sample.auth.passwordHasher.iterations ≠
      Sample.auth.pbkdf2 Sample.first.password.encodeUtf8 Sample.first.salt
        Sample.auth.passwordHasher.iterations := by
    decide +kernel
  have hright := hlogin 2 Sample.first.password
  have hwrong := hlogin 2 Sample.second.password
  rw [if_pos rfl] at hright
  rw [if_neg hdigests] at hwrong
  exact ⟨users, hrun, ⟨user, hid, hright⟩, hwrong⟩

end AuthService

end Jumbox
