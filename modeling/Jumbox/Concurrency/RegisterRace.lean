import Jumbox.Accounts.Run

/-!
# Registrations and logins side by side

Calls of `register` and `login`, cut where they use the database. Two registrations
may both find an address free before either of them inserts its row; the unique
column decides between them. No call writes a row a second time, so all tokens
handed out for one address are for one user.
-/

namespace Jumbox

namespace RegisterRace

open AuthService

inductive Call where
  | register (r : UserRegistration)
  | login (email password : Str)

def Call.email : Call → Str
  | .register r => r.email
  | .login email _ => email

/-- How far a call has got. -/
inductive Phase where
  | waiting
  /-- `register` has found the address free. -/
  | checked
  /-- The row is committed, or the password is right; what is left is the token. -/
  | known (user : User)
  /-- A token, unless making one has failed. -/
  | answered (user : User) (answer : Except AuthError AuthResult)
  | raised (e : AuthError)

namespace Phase

/-- The user a call has arrived at. -/
def user : Phase → Option User
  | known user => some user
  | answered user _ => some user
  | _ => none

def answer : Phase → Option (Except AuthError AuthResult)
  | answered _ answer => some answer
  | raised e => some (.error e)
  | _ => none

end Phase

structure State (ι : Type) where
  users : UserTable
  phase : ι → Phase

inductive Step (ι : Type) where
  /-- `get_by_email`, and what the call makes of it. -/
  | read (i : ι)
  /-- The insert of `register`, with its commit. -/
  | insert (i : ι)
  | issue (i : ι) (now : ℤ)

variable {ι : Type} [DecidableEq ι]

def State.setPhase (s : State ι) (i : ι) (phase : Phase) : State ι :=
  { s with phase := Function.update s.phase i phase }

def system (service : AuthService) (calls : ι → Call) : System (State ι) (Step ι) where
  step s
    | .read i =>
        match s.phase i, calls i with
        | .waiting, .register r =>
            match checkEmail s.users r.email with
            | .error e => some (s.setPhase i (.raised e))
            | .ok () => some (s.setPhase i .checked)
        | .waiting, .login email password =>
            match service.verify (s.users.getByEmail email) password with
            | .error e => some (s.setPhase i (.raised e))
            | .ok user => some (s.setPhase i (.known user))
        | _, _ => none
    | .insert i =>
        match s.phase i, calls i with
        | .checked, .register r =>
            match service.addUser s.users r with
            | .error e => some (s.setPhase i (.raised e))
            | .ok (user, users) => some { s.setPhase i (.known user) with users }
        | _, _ => none
    | .issue i now =>
        match s.phase i with
        | .known user => some (s.setPhase i (.answered user (service.issue now user)))
        | _ => none

/-- No call has started. -/
def start (users : UserTable) : State ι := ⟨users, fun _ => .waiting⟩

/-! ## The steps one by one -/

section Steps

variable {service : AuthService} {calls : ι → Call} {s s' : State ι}

@[simp] theorem setPhase_users (i : ι) (phase : Phase) : (s.setPhase i phase).users = s.users := rfl

theorem setPhase_phase (i j : ι) (phase : Phase) :
    (s.setPhase i phase).phase j = if j = i then phase else s.phase j :=
  Function.update_apply ..

theorem read_cases {i : ι} (h : (system service calls).step s (.read i) = some s') :
    s.phase i = .waiting ∧
      ((∃ phase, phase.user = none ∧ s' = s.setPhase i phase) ∨
        ∃ email password user, calls i = .login email password ∧
          service.verify (s.users.getByEmail email) password = .ok user ∧
          s' = s.setPhase i (.known user)) := by
  simp only [system] at h
  split at h
  · rename_i hwaiting hcall
    split at h
    · cases h
      exact ⟨hwaiting, .inl ⟨_, rfl, rfl⟩⟩
    · cases h
      exact ⟨hwaiting, .inl ⟨_, rfl, rfl⟩⟩
  · rename_i hwaiting hcall
    split at h
    · cases h
      exact ⟨hwaiting, .inl ⟨_, rfl, rfl⟩⟩
    · rename_i user hverify
      cases h
      exact ⟨hwaiting, .inr ⟨_, _, user, hcall, hverify, rfl⟩⟩
  · cases h

theorem insert_cases {i : ι} (h : (system service calls).step s (.insert i) = some s') :
    s.phase i = .checked ∧ ∃ r, calls i = .register r ∧
      ((∃ e, service.addUser s.users r = .error e ∧ s' = s.setPhase i (.raised e)) ∨
        ∃ user users, service.addUser s.users r = .ok (user, users) ∧
          s' = { s.setPhase i (.known user) with users }) := by
  simp only [system] at h
  split at h
  · rename_i r hchecked hcall
    refine ⟨hchecked, r, hcall, ?_⟩
    split at h
    · rename_i e hadd
      cases h
      exact .inl ⟨e, hadd, rfl⟩
    · rename_i user users hadd
      cases h
      exact .inr ⟨user, users, hadd, rfl⟩
  · cases h

theorem issue_cases {i : ι} {now : ℤ}
    (h : (system service calls).step s (.issue i now) = some s') :
    ∃ user, s.phase i = .known user ∧
      s' = s.setPhase i (.answered user (service.issue now user)) := by
  simp only [system] at h
  split at h
  · rename_i user hknown
    cases h
    exact ⟨user, hknown, rfl⟩
  · cases h

/-! ## A call that is alone -/

/-- What the call does without the others. -/
def serial (service : AuthService) (users : UserTable) (now : ℤ) :
    Call → Except AuthError AuthResult × UserTable
  | .register r => service.register users now r
  | .login email password => (service.login users now email password, users)

/-- The steps of one call, taken in a row, are the method of the service. -/
theorem run_alone (service : AuthService) (calls : ι → Call) {s : State ι} {i : ι} (now : ℤ)
    (hwaiting : s.phase i = .waiting) :
    ∃ ls s', (system service calls).run s ls = some s' ∧
      s'.users = (serial service s.users now (calls i)).2 ∧
      (s'.phase i).answer = some (serial service s.users now (calls i)).1 ∧
      ∀ j, j ≠ i → s'.phase j = s.phase j := by
  have hself : ∀ (t : State ι) phase, (t.setPhase i phase).phase i = phase := by
    intro t phase
    rw [setPhase_phase, if_pos rfl]
  have hother : ∀ (t : State ι) phase, ∀ j, j ≠ i → (t.setPhase i phase).phase j = t.phase j := by
    intro t phase j hj
    rw [setPhase_phase, if_neg hj]
  cases hcall : calls i with
  | login email password =>
      cases hverify : service.verify (s.users.getByEmail email) password with
      | error e =>
          refine ⟨[.read i], s.setPhase i (.raised e), ?_, ?_, ?_, hother s _⟩
          · simp [System.run, system, hwaiting, hcall, hverify]
          · simp [serial]
          · simp [serial, login, hverify, hself, Phase.answer]
      | ok user =>
          refine ⟨[.read i, .issue i now],
            (s.setPhase i (.known user)).setPhase i (.answered user (service.issue now user)),
            ?_, ?_, ?_, ?_⟩
          · simp [System.run, system, hwaiting, hcall, hverify, hself]
          · simp [serial]
          · simp [serial, login, hverify, hself, Phase.answer]
          · intro j hj
            rw [hother _ _ j hj, hother _ _ j hj]
  | register r =>
      cases hcheck : checkEmail s.users r.email with
      | error e =>
          refine ⟨[.read i], s.setPhase i (.raised e), ?_, ?_, ?_, hother s _⟩
          · simp [System.run, system, hwaiting, hcall, hcheck]
          · simp [serial, register, hcheck]
          · simp [serial, register, hcheck, hself, Phase.answer]
      | ok =>
          cases hadd : service.addUser s.users r with
          | error e =>
              refine ⟨[.read i, .insert i], (s.setPhase i .checked).setPhase i (.raised e),
                ?_, ?_, ?_, ?_⟩
              · simp [System.run, system, hwaiting, hcall, hcheck, hself, hadd]
              · simp [serial, register, hcheck, hadd]
              · simp [serial, register, hcheck, hadd, hself, Phase.answer]
              · intro j hj
                rw [hother _ _ j hj, hother _ _ j hj]
          | ok p =>
              obtain ⟨user, users⟩ := p
              refine ⟨[.read i, .insert i, .issue i now],
                State.setPhase { (s.setPhase i .checked).setPhase i (.known user) with users } i
                  (.answered user (service.issue now user)), ?_, ?_, ?_, ?_⟩
              · simp [System.run, system, hwaiting, hcall, hcheck, hself, hadd]
              · simp [serial, register, hcheck, hadd]
              · simp [serial, register, hcheck, hadd, hself, Phase.answer]
              · intro j hj
                rw [hother _ _ j hj]
                show ((s.setPhase i .checked).setPhase i (.known user)).phase j = s.phase j
                rw [hother _ _ j hj, hother _ _ j hj]

/-! ## The invariant -/

/-- The call is a registration of the address that has inserted its row. -/
def Registered (calls : ι → Call) (s : State ι) (email : Str) (i : ι) (r : UserRegistration)
    (user : User) : Prop :=
  calls i = .register r ∧ r.email = email ∧ (s.phase i).user = some user

structure Inv (service : AuthService) (calls : ι → Call) (users₀ : UserTable) (s : State ι) :
    Prop where
  /-- Rows stay as they are. -/
  kept : ∀ email user, users₀.getByEmail email = some user → s.users.getByEmail email = some user
  /-- Whoever has arrived at a user has arrived at the row of the address. -/
  row : ∀ i user, (s.phase i).user = some user → s.users.getByEmail (calls i).email = some user
  made : ∀ email i r user, Registered calls s email i r user → users₀.getByEmail email = none ∧
    ∃ passwordHash, user = newUser r passwordHash ∧
      service.passwordHasher.hashPassword service.pbkdf2 r.salt r.password = .ok passwordHash
  once : ∀ email i j r r' user user', Registered calls s email i r user →
    Registered calls s email j r' user' → i = j
  origin : ∀ email user, s.users.getByEmail email = some user →
    users₀.getByEmail email = some user ∨ ∃ i r, Registered calls s email i r user
  verified : ∀ i email password user, calls i = .login email password →
    (s.phase i).user = some user → service.verify (some user) password = .ok user

variable {users₀ : UserTable}

omit [DecidableEq ι] in
theorem Inv.start : Inv service calls users₀ (start users₀ : State ι) where
  kept := fun _ _ h => h
  row := fun _ _ h => nomatch h
  made := fun _ _ _ _ h => nomatch h.2.2
  once := fun _ _ _ _ _ _ _ h => nomatch h.2.2
  origin := fun _ _ h => .inl h
  verified := fun _ _ _ _ _ h => nomatch h

omit [DecidableEq ι] in
/-- What the invariant says depends on the table and the users arrived at. -/
theorem Inv.congr (h : Inv service calls users₀ s) (husers : s'.users = s.users)
    (hphase : ∀ j, (s'.phase j).user = (s.phase j).user) : Inv service calls users₀ s' := by
  have hregistered : ∀ email i r user,
      Registered calls s' email i r user ↔ Registered calls s email i r user := by
    intro email i r user
    rw [Registered, Registered, hphase]
  refine ⟨?_, ?_, ?_, ?_, ?_, ?_⟩
  · rw [husers]
    exact h.kept
  · intro i user huser
    rw [husers]
    exact h.row i user (hphase i ▸ huser)
  · intro email i r user hreg
    exact h.made email i r user ((hregistered ..).mp hreg)
  · intro email i j r r' user user' hreg hreg'
    exact h.once email i j r r' user user' ((hregistered ..).mp hreg) ((hregistered ..).mp hreg')
  · intro email user huser
    rw [husers] at huser
    rcases h.origin email user huser with hold | ⟨i, r, hreg⟩
    · exact .inl hold
    · exact .inr ⟨i, r, (hregistered ..).mpr hreg⟩
  · intro i email password user hcall huser
    exact h.verified i email password user hcall (hphase i ▸ huser)

/-- A login that has found the password right. -/
theorem Inv.login (h : Inv service calls users₀ s) {i : ι} {email password : Str} {user : User}
    (hwaiting : s.phase i = .waiting) (hcall : calls i = .login email password)
    (hverify : service.verify (s.users.getByEmail email) password = .ok user) :
    Inv service calls users₀ (s.setPhase i (.known user)) := by
  have hget : s.users.getByEmail email = some user := (verify_eq_ok.mp hverify).1
  have hother : ∀ j, j ≠ i → ((s.setPhase i (.known user)).phase j).user = (s.phase j).user := by
    intro j hj
    rw [setPhase_phase, if_neg hj]
  have hself : ∀ v, ((s.setPhase i (.known user)).phase i).user = some v → v = user := by
    intro v hv
    rw [setPhase_phase, if_pos rfl] at hv
    exact (Option.some.inj hv).symm
  have hregistered : ∀ email j r v,
      Registered calls (s.setPhase i (.known user)) email j r v ↔
        Registered calls s email j r v := by
    intro email' j r v
    by_cases hj : j = i
    · subst hj
      rw [Registered, Registered, hcall]
      simp
    · rw [Registered, Registered, hother j hj]
  refine ⟨h.kept, ?_, ?_, ?_, ?_, ?_⟩
  · intro j v hv
    by_cases hj : j = i
    · subst hj
      rw [hself v hv, hcall]
      exact hget
    · exact h.row j v (hother j hj ▸ hv)
  · intro email' j r v hreg
    exact h.made email' j r v ((hregistered ..).mp hreg)
  · intro email' j k r r' v v' hreg hreg'
    exact h.once email' j k r r' v v' ((hregistered ..).mp hreg) ((hregistered ..).mp hreg')
  · intro email' v hv
    rcases h.origin email' v hv with hold | ⟨j, r, hreg⟩
    · exact .inl hold
    · exact .inr ⟨j, r, (hregistered ..).mpr hreg⟩
  · intro j email' password' v hcall' hv
    by_cases hj : j = i
    · subst hj
      obtain ⟨rfl, rfl⟩ := Call.login.inj (hcall.symm.trans hcall')
      rw [hself v hv, ← hget]
      exact hverify
    · exact h.verified j email' password' v hcall' (hother j hj ▸ hv)

/-- A registration whose row the table has taken. -/
theorem Inv.insert (h : Inv service calls users₀ s) {i : ι} {r : UserRegistration} {user : User}
    {users : UserTable} (hchecked : s.phase i = .checked) (hcall : calls i = .register r)
    (hadd : service.addUser s.users r = .ok (user, users)) :
    Inv service calls users₀ { s.setPhase i (.known user) with users } := by
  obtain ⟨passwordHash, hhash, rfl, hinsert⟩ := addUser_eq_ok hadd
  have hget : ∀ email, users.getByEmail email =
      if r.email = email then some (newUser r passwordHash) else s.users.getByEmail email :=
    UserTable.getByEmail_add hinsert
  have hfree : s.users.getByEmail r.email = none :=
    UserTable.getByEmail_eq_none.mpr fun m hm => ((UserTable.add_eq_ok hinsert).1 m hm).2
  set t : State ι := { s.setPhase i (.known (newUser r passwordHash)) with users } with ht
  have hother : ∀ j, j ≠ i → t.phase j = s.phase j := by
    intro j hj
    exact Function.update_of_ne hj _ _
  have hself : t.phase i = .known (newUser r passwordHash) := Function.update_self ..
  -- nobody else has registered the address: it was free up to now
  have hregistered : ∀ email j r' v, Registered calls t email j r' v →
      (j = i ∧ r' = r ∧ v = newUser r passwordHash ∧ email = r.email) ∨
        Registered calls s email j r' v ∧ email ≠ r.email := by
    intro email j r' v ⟨hcall', hemail, hv⟩
    by_cases hj : j = i
    · subst hj
      obtain rfl := Call.register.inj (hcall.symm.trans hcall')
      rw [hself] at hv
      exact .inl ⟨rfl, rfl, (Option.some.inj hv).symm, hemail.symm⟩
    · rw [hother j hj] at hv
      refine .inr ⟨⟨hcall', hemail, hv⟩, ?_⟩
      rintro rfl
      have hrow := h.row j v hv
      rw [hcall', Call.email, hemail, hfree] at hrow
      cases hrow
  have hkept : ∀ email v, s.users.getByEmail email = some v → users.getByEmail email = some v := by
    intro email v hv
    rw [hget, if_neg]
    · exact hv
    · rintro rfl
      rw [hfree] at hv
      cases hv
  refine ⟨fun email v hv => hkept email v (h.kept email v hv), ?_, ?_, ?_, ?_, ?_⟩
  · intro j v hv
    by_cases hj : j = i
    · subst hj
      rw [hself] at hv
      obtain rfl := Option.some.inj hv
      show users.getByEmail _ = _
      rw [hget, hcall, Call.email, if_pos rfl]
    · rw [hother j hj] at hv
      exact hkept _ v (h.row j v hv)
  · intro email j r' v hreg
    rcases hregistered email j r' v hreg with ⟨rfl, rfl, rfl, rfl⟩ | ⟨hold, -⟩
    · refine ⟨?_, passwordHash, rfl, hhash⟩
      cases hnone : users₀.getByEmail r'.email with
      | none => rfl
      | some w =>
          rw [h.kept _ _ hnone] at hfree
          cases hfree
    · exact h.made email j r' v hold
  · intro email j k r₁ r₂ v w hreg hreg'
    rcases hregistered email j r₁ v hreg with ⟨rfl, -, -, rfl⟩ | ⟨hold, hne⟩
    · rcases hregistered _ k r₂ w hreg' with ⟨rfl, -, -, -⟩ | ⟨-, hne⟩
      · rfl
      · exact absurd rfl hne
    · rcases hregistered _ k r₂ w hreg' with ⟨rfl, -, -, hsame⟩ | ⟨hold', -⟩
      · exact absurd hsame hne
      · exact h.once email j k r₁ r₂ v w hold hold'
  · intro email v hv
    have hv : users.getByEmail email = some v := hv
    rw [hget] at hv
    split at hv
    · rename_i hemail
      refine .inr ⟨i, r, hcall, hemail, ?_⟩
      rw [hself]
      exact hv
    · rename_i hemail
      rcases h.origin email v hv with hold | ⟨j, r', hcall', hemail', hv'⟩
      · exact .inl hold
      · refine .inr ⟨j, r', hcall', hemail', ?_⟩
        rw [hother j]
        · exact hv'
        · rintro rfl
          rw [hchecked] at hv'
          cases hv'
  · intro j email password v hcall' hv
    by_cases hj : j = i
    · subst hj
      cases hcall.symm.trans hcall'
    · rw [hother j hj] at hv
      exact h.verified j email password v hcall' hv

theorem Inv.step {l : Step ι} (h : Inv service calls users₀ s)
    (hstep : (system service calls).step s l = some s') : Inv service calls users₀ s' := by
  cases l with
  | read i =>
      obtain ⟨hwaiting, ⟨phase, hnone, rfl⟩ | ⟨email, password, user, hcall, hverify, rfl⟩⟩ :=
        read_cases hstep
      · refine h.congr rfl ?_
        intro j
        rw [setPhase_phase]
        split
        · rename_i hj
          rw [hnone, hj, hwaiting]
          rfl
        · rfl
      · exact h.login hwaiting hcall hverify
  | insert i =>
      obtain ⟨hchecked, r, hcall, ⟨e, -, rfl⟩ | ⟨user, users, hadd, rfl⟩⟩ := insert_cases hstep
      · refine h.congr rfl ?_
        intro j
        rw [setPhase_phase]
        split
        · rename_i hj
          rw [hj, hchecked]
          rfl
        · rfl
      · exact h.insert hchecked hcall hadd
  | issue i now =>
      obtain ⟨user, hknown, rfl⟩ := issue_cases hstep
      refine h.congr rfl ?_
      intro j
      rw [setPhase_phase]
      split
      · rename_i hj
        rw [hj, hknown]
        rfl
      · rfl

theorem getByEmail_step {l : Step ι} {email : Str} {user : User}
    (hget : s.users.getByEmail email = some user)
    (hstep : (system service calls).step s l = some s') :
    s'.users.getByEmail email = some user := by
  cases l with
  | read i =>
      obtain ⟨-, ⟨phase, -, rfl⟩ | ⟨email', password, v, -, -, rfl⟩⟩ := read_cases hstep
      · exact hget
      · exact hget
  | insert i =>
      obtain ⟨-, r, -, ⟨e, -, rfl⟩ | ⟨v, users, hadd, rfl⟩⟩ := insert_cases hstep
      · exact hget
      · obtain ⟨passwordHash, -, -, hinsert⟩ := addUser_eq_ok hadd
        show users.getByEmail email = some user
        rw [UserTable.getByEmail_add hinsert, if_neg]
        · exact hget
        · rintro rfl
          obtain ⟨hmem, hemail⟩ := UserTable.getByEmail_eq_some.mp hget
          exact ((UserTable.add_eq_ok hinsert).1 _ hmem).2 hemail
  | issue i now =>
      obtain ⟨v, -, rfl⟩ := issue_cases hstep
      exact hget

/-- A call that has arrived at a user keeps it. -/
theorem user_step {l : Step ι} {j : ι} {user : User} (huser : (s.phase j).user = some user)
    (hstep : (system service calls).step s l = some s') : (s'.phase j).user = some user := by
  have hset : ∀ i phase, ((s.phase i).user = none ∨ phase.user = (s.phase i).user) →
      ((s.setPhase i phase).phase j).user = some user := by
    intro i phase hphase
    rw [setPhase_phase]
    split
    · rename_i hj
      rw [hj] at huser
      rcases hphase with hnone | hsame
      · rw [hnone] at huser
        cases huser
      · rw [hsame, huser]
    · exact huser
  cases l with
  | read i =>
      obtain ⟨hwaiting, ⟨phase, -, rfl⟩ | ⟨email, password, v, -, -, rfl⟩⟩ := read_cases hstep
      · exact hset i phase (.inl (hwaiting ▸ rfl))
      · exact hset i _ (.inl (hwaiting ▸ rfl))
  | insert i =>
      obtain ⟨hchecked, r, -, ⟨e, -, rfl⟩ | ⟨v, users, -, rfl⟩⟩ := insert_cases hstep
      · exact hset i _ (.inl (hchecked ▸ rfl))
      · exact hset i (.known v) (.inl (hchecked ▸ rfl))
  | issue i now =>
      obtain ⟨v, hknown, rfl⟩ := issue_cases hstep
      exact hset i _ (.inr (hknown ▸ rfl))

/-- Tokens are made at such instants. -/
def Step.At (clock : ι → ℤ → Prop) : Step ι → Prop
  | .issue i now => clock i now
  | _ => True

/-- Every answer is a token of the user arrived at, made at such an instant. -/
def Issued (service : AuthService) (clock : ι → ℤ → Prop) (s : State ι) : Prop :=
  ∀ i user answer, s.phase i = .answered user answer →
    ∃ now, clock i now ∧ answer = service.issue now user

theorem Issued.step {clock : ι → ℤ → Prop} {l : Step ι} (h : Issued service clock s)
    (hl : l.At clock) (hstep : (system service calls).step s l = some s') :
    Issued service clock s' := by
  intro j user answer hanswered
  cases l with
  | read i =>
      obtain ⟨-, ⟨phase, hnone, rfl⟩ | ⟨email, password, v, -, -, rfl⟩⟩ := read_cases hstep
      · rw [setPhase_phase] at hanswered
        split at hanswered
        · rw [hanswered] at hnone
          cases hnone
        · exact h j user answer hanswered
      · rw [setPhase_phase] at hanswered
        split at hanswered
        · cases hanswered
        · exact h j user answer hanswered
  | insert i =>
      obtain ⟨-, r, -, ⟨e, -, rfl⟩ | ⟨v, users, -, rfl⟩⟩ := insert_cases hstep
      · rw [setPhase_phase] at hanswered
        split at hanswered
        · cases hanswered
        · exact h j user answer hanswered
      · change (s.setPhase i (.known v)).phase j = _ at hanswered
        rw [setPhase_phase] at hanswered
        split at hanswered
        · cases hanswered
        · exact h j user answer hanswered
  | issue i now =>
      obtain ⟨v, -, rfl⟩ := issue_cases hstep
      rw [setPhase_phase] at hanswered
      split at hanswered
      · rename_i hj
        obtain ⟨rfl, rfl⟩ := Phase.answered.inj hanswered
        exact ⟨now, hj ▸ hl, rfl⟩
      · exact h j user answer hanswered

theorem issued_of_run {clock : ι → ℤ → Prop} {ls : List (Step ι)} (hls : ∀ l ∈ ls, l.At clock)
    (hrun : (system service calls).run (start users₀) ls = some s) : Issued service clock s := by
  refine System.holds_of_run (P := Issued service clock) (K := Step.At clock)
    (fun _ _ _ h hl hstep => h.step hl hstep) ?_ hls hrun
  intro i user answer h
  cases h

theorem inv_of_run {ls : List (Step ι)}
    (hrun : (system service calls).run (start users₀) ls = some s) :
    Inv service calls users₀ s :=
  System.holds_of_run (P := Inv service calls users₀) (K := fun _ => True)
    (fun _ _ _ h _ hstep => h.step hstep) Inv.start (fun _ _ => trivial) hrun

end Steps

/-- In every interleaving of any number of registrations and logins, all calls for
one address that get past their checks get to one user: the row of the address,
which then stays as it is. At most one registration has made that row, and none if
there was one at the start. A login gets there with the password of the row, or one
of the same digest, and each answer is a token of that user. -/
theorem one_user_per_address (service : AuthService) (calls : ι → Call) {users₀ : UserTable}
    {s s' : State ι} {ls : List (Step ι)}
    (hreach : (system service calls).Reachable (· = start users₀) s)
    (hrun : (system service calls).run s ls = some s') {i : ι} {user : User}
    (huser : (s.phase i).user = some user) :
    s'.users.getByEmail (calls i).email = some user ∧
      (∀ j v, (calls j).email = (calls i).email → (s'.phase j).user = some v → v = user) ∧
      (∀ r, calls i = .register r → user.id = r.id ∧ users₀.getByEmail r.email = none ∧
        ∀ j r', calls j = .register r' → r'.email = r.email →
          (s'.phase j).user.isSome → j = i) ∧
      (∀ email password, calls i = .login email password →
        users₀.getByEmail email = some user ∧
            service.verify (some user) password = .ok user ∨
          ∃ j r, Registered calls s email j r user ∧
            service.pbkdf2 password.encodeUtf8 r.salt service.passwordHasher.iterations =
              service.pbkdf2 r.password.encodeUtf8 r.salt service.passwordHasher.iterations) ∧
      ∀ answer, s.phase i = .answered user answer → ∃ now, answer = service.issue now user := by
  have hinv : Inv service calls users₀ s :=
    hreach.invariant (fun _ h => h ▸ Inv.start) fun _ _ _ => Inv.step
  have hinv' : Inv service calls users₀ s' :=
    (hreach.run hrun).invariant (fun _ h => h ▸ Inv.start) fun _ _ _ => Inv.step
  have hissued : Issued service (fun _ _ => True) s :=
    hreach.invariant (fun t h i u a ha => by rw [h] at ha; cases ha) fun _ l _ h hstep =>
      h.step (by cases l <;> trivial) hstep
  have hrow : s'.users.getByEmail (calls i).email = some user :=
    System.holds_of_run (K := fun _ => True)
      (fun _ _ _ hget _ hstep => getByEmail_step hget hstep) (hinv.row i user huser)
      (fun _ _ => trivial) hrun
  refine ⟨hrow, ?_, ?_, ?_, ?_⟩
  · intro j v hemail hv
    have hsame := hinv'.row j v hv
    rw [hemail, hrow] at hsame
    exact (Option.some.inj hsame).symm
  · intro r hcall
    obtain ⟨hfree, passwordHash, rfl, -⟩ := hinv.made r.email i r user ⟨hcall, rfl, huser⟩
    refine ⟨rfl, hfree, ?_⟩
    intro j r' hcall' hemail hsome
    obtain ⟨v, hv⟩ := Option.isSome_iff_exists.mp hsome
    have hkept : (s'.phase i).user = some (newUser r passwordHash) :=
      System.holds_of_run (K := fun _ => True) (fun _ _ _ h _ hstep => user_step h hstep) huser
        (fun _ _ => trivial) hrun
    exact hinv'.once r.email j i r' r v _ ⟨hcall', hemail, hv⟩ ⟨hcall, rfl, hkept⟩
  · intro email password hcall
    have hverify := hinv.verified i email password user hcall huser
    have hget : s.users.getByEmail email = some user := by
      have := hinv.row i user huser
      rwa [hcall] at this
    rcases hinv.origin email user hget with hold | ⟨j, r, hreg⟩
    · exact .inl ⟨hold, hverify⟩
    · obtain ⟨-, passwordHash, rfl, hhash⟩ := hinv.made email j r user hreg
      exact .inr ⟨j, r, hreg, (verify_newUser hhash password).mp hverify⟩
  · intro answer h
    obtain ⟨now, -, hissue⟩ := hissued i user answer h
    exact ⟨now, hissue⟩

/-- Two registrations of one address, and a login with the first one's password. -/
def race : Fin 3 → Call
  | 0 => .register AuthService.Sample.first
  | 1 => .register AuthService.Sample.second
  | 2 => .login AuthService.Sample.email AuthService.Sample.first.password

/-- Both have found the address free when the first inserts its row. -/
def raceStart : List (Step (Fin 3)) := [.read 0, .read 1, .insert 0]

def raceEnd : List (Step (Fin 3)) := [.insert 1, .issue 0 0, .read 2, .issue 2 1]

/-- The second registration gets nowhere, and the login gets to the first one's row. -/
theorem one_user_per_address_race :
    ∃ s s' user, (system AuthService.Sample.auth race).run (start .empty) raceStart = some s ∧
      (system AuthService.Sample.auth race).run s raceEnd = some s' ∧
      user.id = Uuid.ofNat 1 ∧ s'.users.getByEmail AuthService.Sample.email = some user ∧
      (s'.phase 1).user = none ∧ (s'.phase 2).user = some user := by
  have hruns : ((system AuthService.Sample.auth race).run (start .empty) raceStart).any
      (fun s => (s.phase 0).user.isSome &&
        ((system AuthService.Sample.auth race).run s raceEnd).any fun s' =>
          (s'.phase 2).user.isSome) = true := by
    decide +kernel
  obtain ⟨s, hs, hrest⟩ := (Option.any_eq_true _ _).mp hruns
  obtain ⟨hfirst, hrest⟩ := Bool.and_eq_true_iff.mp hrest
  obtain ⟨s', hs', hlogin⟩ := (Option.any_eq_true _ _).mp hrest
  obtain ⟨user, huser⟩ := Option.isSome_iff_exists.mp hfirst
  obtain ⟨v, hv⟩ := Option.isSome_iff_exists.mp hlogin
  obtain ⟨hrow, hsame, hmade, -, -⟩ := one_user_per_address AuthService.Sample.auth race
    (System.Reachable.run (.start rfl) hs) hs' huser
  obtain ⟨hid, -, honly⟩ := hmade _ rfl
  obtain rfl := hsame 2 v rfl hv
  refine ⟨s, s', v, hs, hs', hid, hrow, ?_, hv⟩
  cases hsecond : (s'.phase 1).user with
  | none => rfl
  | some w => exact absurd (honly 1 _ rfl rfl (hsecond ▸ rfl)) (by decide)

end RegisterRace

end Jumbox
