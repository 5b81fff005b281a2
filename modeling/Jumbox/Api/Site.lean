import Jumbox.Accounts.Run
import Jumbox.Api.Sessions
import Jumbox.Security.PayloadText
import Jumbox.Sessions.Visitors

/-!
# The site

The accounts and the sessions behind one set of routes: users register and log in,
anybody sends requests with any token, background tasks burn what has been downloaded,
and the cleanup task sweeps and goes on when a sweep has raised. The state keeps a log
of the tokens that were handed out, with the user each was made for. The routes of the
transfers and their uploads, which write to the same directory, are not part of it.
-/

namespace Jumbox

namespace Api

/-! ## The routes of the accounts -/

structure TokenResponse where
  accessToken : Str
  tokenType : Str := "bearer".toList
deriving DecidableEq

def toTokenResponse (result : AuthResult) : TokenResponse where
  accessToken := result.accessToken
  tokenType := result.tokenType

def register (service : AuthService) (users : UserTable) (now : ℤ) (r : UserRegistration) :
    Except HTTPException TokenResponse × UserTable :=
  match service.register users now r with
  | (.ok result, users) => (.ok (toTokenResponse result), users)
  | (.error (.conflictError message), users) => (.error ⟨409, message, none⟩, users)
  | (.error (.other _), users) => (.error internalServerError, users)

def login (service : AuthService) (users : UserTable) (now : ℤ) (email password : Str) :
    Except HTTPException TokenResponse :=
  match service.login users now email password with
  | .ok result => .ok (toTokenResponse result)
  | .error (.other e) => .error (raised [(.authenticationError, 401)] e)
  | .error (.conflictError _) => .error internalServerError

end Api

/-! ## The system -/

structure Site where
  deployment : Deployment
  service : AuthService
  json_eq : service.json = Payload.pythonJson

namespace Site

open Api (HTTPException TokenResponse)
open SessionService (Live Untouched)

def server (site : Site) : Api.Server where
  deployment := site.deployment
  tokens := site.service.tokenService
  json := site.service.json

structure State where
  sessions : SessionService.State
  users : UserTable
  /-- The tokens handed out, each with the user it was made for. -/
  issued : List (Str × Uuid)
  /-- The background tasks that have not run yet. -/
  burns : List Uuid

inductive Action where
  | register (r : UserRegistration)
  | login (email password : Str)
  | request (credentials : Option Str) (r : Api.Request)
  | burn (sessionId : Uuid) (unlinkFails : Path → Bool)
  /-- `cleanup_all`, with the names that `iterdir` yields. -/
  | cleanup (entries : List Str) (unlinkFails : Path → Bool)

/-- What happens, and when: every clock reading is a `datetime`. -/
structure Event where
  now : ℤ
  action : Action
  onClock : OnClock now

/-- What the log gains by an answer. -/
def logged (reply : Except HTTPException TokenResponse) (userId : Uuid) : List (Str × Uuid) :=
  match reply with
  | .error _ => []
  | .ok response => [(response.accessToken, userId)]

section System

variable (site : Site)

/-- The call behind a request, and the identifier it draws. -/
def callOf (now : ℤ) (credentials : Option Str) (r : Api.Request) : Option SessionService.Call :=
  r.callOf site.server now credentials

def drawn (now : ℤ) (credentials : Option Str) (r : Api.Request) : Option Uuid :=
  (site.callOf now credentials r).bind SessionService.Call.newId

def step (s : State) (e : Event) : Option State :=
  match e.action with
  | .register r =>
      -- `uuid4` returns an identifier that no user has
      if ∀ m ∈ s.users.table.rows, m.id ≠ r.id then
        let (reply, users) := Api.register site.service s.users e.now r
        some { s with users, issued := logged reply r.id ++ s.issued }
      else none
  | .login email password =>
      let reply := Api.login site.service s.users e.now email password
      let issued := (s.users.getByEmail email).elim [] fun user => logged reply user.id
      some { s with issued := issued ++ s.issued }
  | .request credentials r =>
      let newId := site.drawn e.now credentials r
      if ∀ id ∈ newId, id ∉ s.sessions.uuids then
        let (world, burn) := Api.handle site.server s.sessions.world e.now credentials r
        some
          { s with
            sessions := ⟨world, newId.toList ++ s.sessions.uuids⟩
            burns := burn.toList ++ s.burns }
      else none
  | .burn sessionId unlinkFails =>
      if sessionId ∈ s.burns then
        let (_, world) := SessionService.burnSession s.sessions.world sessionId unlinkFails
        some { s with sessions := { s.sessions with world }, burns := s.burns.erase sessionId }
      else none
  | .cleanup entries unlinkFails =>
      -- `_periodic_cleanup` swallows what is raised
      let (_, world) := CleanupService.cleanupAll s.sessions.world e.now
        (some site.deployment.tempDir) entries unlinkFails
      some { s with sessions := { s.sessions with world } }

def system : System State Event := ⟨site.step⟩

/-- A new installation. -/
def Initial (s : State) : Prop :=
  SessionService.Initial s.sessions ∧ s.users = .empty ∧ s.issued = [] ∧ s.burns = []

abbrev Reachable (s : State) : Prop := site.system.Reachable Initial s

/-! ## What a step does -/

variable {site}

/-- A user who is in the table or is no admin. -/
def Known (users : UserTable) (user : User) : Prop :=
  userToModel user ∈ users.table.rows ∨ user.isAdmin = false

/-- The entry of the log is for a token that has just been made. -/
def Made (site : Site) (s : State) (now : ℤ) (entry : Str × Uuid) : Prop :=
  ∃ user result, Known s.users user ∧ site.service.issue now user = .ok result ∧
    entry = (result.accessToken, user.id)

/-- The entry is for a user who has just been registered, or one who has given the right
password. -/
def Identified (site : Site) (s : State) (action : Action) (entry : Str × Uuid) : Prop :=
  (∀ m ∈ s.users.table.rows, m.id ≠ entry.2) ∨
    ∃ email password user, action = .login email password ∧
      s.users.getByEmail email = some user ∧
      site.service.verify (some user) password = .ok user ∧ entry.2 = user.id

inductive Effect (site : Site) (s : State) (e : Event) : State → Prop where
  /-- A registration or a login. -/
  | account {users : UserTable} {entries : List (Str × Uuid)}
      (kept : ∀ m ∈ s.users.table.rows, m ∈ users.table.rows)
      (rows : ∀ m ∈ users.table.rows, m ∈ s.users.table.rows ∨ m.isAdmin = false)
      (made : ∀ entry ∈ entries, Made site s e.now entry)
      (identified : ∀ entry ∈ entries, Identified site s e.action entry) :
      Effect site s e { s with users, issued := entries ++ s.issued }
  /-- A request that gets no further than the routes. -/
  | refused {burn : Option Uuid}
      (asked : ∀ sid ∈ burn, ∃ m ∈ s.sessions.world.db.sessions.rows, m.id = sid ∧
        m.burnAfterDownload = true) :
      Effect site s e { s with burns := burn.toList ++ s.burns }
  | called {credentials : Option Str} {r : Api.Request} {call : SessionService.Call}
      {burn : Option Uuid} (action : e.action = .request credentials r)
      (call_eq : site.callOf e.now credentials r = some call)
      (taken : SessionService.Taken site.deployment s.sessions ⟨e.now, call⟩)
      (asked : ∀ sid ∈ burn, ∃ m ∈ s.sessions.world.db.sessions.rows, m.id = sid ∧
        m.burnAfterDownload = true) :
      Effect site s e
        { s with
          sessions := ⟨(SessionService.exec site.deployment s.sessions.world ⟨e.now, call⟩).2,
            call.newId.toList ++ s.sessions.uuids⟩
          burns := burn.toList ++ s.burns }
  | burned {sid : Uuid} {unlinkFails : Path → Bool} (mem : sid ∈ s.burns) :
      Effect site s e
        { s with
          sessions := { s.sessions with
            world := (SessionService.burnSession s.sessions.world sid unlinkFails).2 }
          burns := s.burns.erase sid }
  | swept {unlinkFails : Path → Bool}
      (ok : (CleanupService.cleanupExpiredSessions s.sessions.world e.now none
        unlinkFails).1.isOk = true) :
      Effect site s e
        { s with sessions := { s.sessions with
            world := (CleanupService.cleanupExpiredSessions s.sessions.world e.now none
              unlinkFails).2 } }
  /-- A sweep that has met a file it cannot remove. -/
  | stopped {fs : Files} (stopped : SessionService.Stopped s.sessions.world e.now fs) :
      Effect site s e
        { s with sessions := { s.sessions with world := s.sessions.world.withFiles fs } }

theorem register_users (service : AuthService) (users : UserTable) (now : ℤ)
    (r : UserRegistration) :
    (Api.register service users now r).2 = (service.register users now r).2 := by
  unfold Api.register
  split
  · rename_i heq
    rw [heq]
  · rename_i heq
    rw [heq]
  · rename_i heq
    rw [heq]

/-- A registration adds a user who is no admin, if any, and answers with that user's
token, if with any. -/
theorem register_effect (site : Site) (s : State) (now : ℤ) (r : UserRegistration) :
    (∀ m ∈ s.users.table.rows, m ∈ (Api.register site.service s.users now r).2.table.rows) ∧
    (∀ m ∈ (Api.register site.service s.users now r).2.table.rows,
      m ∈ s.users.table.rows ∨ m.isAdmin = false) ∧
    ∀ entry ∈ logged (Api.register site.service s.users now r).1 r.id, Made site s now entry := by
  unfold Api.register AuthService.register
  cases AuthService.checkEmail s.users r.email with
  | error e =>
      cases e with
      | conflictError message => exact ⟨fun m hm => hm, fun m hm => .inl hm, nofun⟩
      | other e => exact ⟨fun m hm => hm, fun m hm => .inl hm, nofun⟩
  | ok u =>
      dsimp only
      cases hadd : site.service.addUser s.users r with
      | error e =>
          cases e with
          | conflictError message => exact ⟨fun m hm => hm, fun m hm => .inl hm, nofun⟩
          | other e => exact ⟨fun m hm => hm, fun m hm => .inl hm, nofun⟩
      | ok added =>
          obtain ⟨user, users⟩ := added
          obtain ⟨passwordHash, -, rfl, hinsert⟩ := AuthService.addUser_eq_ok hadd
          obtain ⟨-, hrows⟩ := UserTable.add_eq_ok hinsert
          have hkept : ∀ m ∈ s.users.table.rows, m ∈ users.table.rows := by
            intro m hm
            rw [hrows]
            exact List.mem_append_left _ hm
          have hplain : ∀ m ∈ users.table.rows, m ∈ s.users.table.rows ∨ m.isAdmin = false := by
            intro m hm
            rw [hrows] at hm
            rcases List.mem_append.mp hm with hm | hm
            · exact .inl hm
            · rw [List.mem_singleton.mp hm]
              exact .inr rfl
          dsimp only
          cases hissue : site.service.issue now (AuthService.newUser r passwordHash) with
          | error e =>
              cases e with
              | conflictError message => exact ⟨hkept, hplain, nofun⟩
              | other e => exact ⟨hkept, hplain, nofun⟩
          | ok result =>
              refine ⟨hkept, hplain, fun entry hentry => ?_⟩
              rw [List.mem_singleton.mp hentry]
              exact ⟨_, result, .inr rfl, hissue, rfl⟩

theorem login_effect (site : Site) (s : State) (now : ℤ) (email password : Str) :
    ∀ entry ∈ (s.users.getByEmail email).elim [] fun user =>
        logged (Api.login site.service s.users now email password) user.id,
      Made site s now entry ∧ Identified site s (.login email password) entry := by
  cases hget : s.users.getByEmail email with
  | none => nofun
  | some user =>
      rw [Option.elim_some]
      unfold Api.login AuthService.login
      rw [hget]
      cases hverify : site.service.verify (some user) password with
      | error e =>
          cases e with
          | conflictError message => nofun
          | other e => nofun
      | ok v =>
          obtain ⟨⟨rfl⟩, -⟩ := AuthService.verify_eq_ok.mp hverify
          dsimp only
          cases hissue : site.service.issue now user with
          | error e =>
              cases e with
              | conflictError message => nofun
              | other e => nofun
          | ok result =>
              intro entry hentry
              rw [List.mem_singleton.mp hentry]
              exact ⟨⟨user, result, .inl (UserTable.getByEmail_eq_some.mp hget).1, hissue, rfl⟩,
                .inr ⟨email, password, user, rfl, hget, hverify, rfl⟩⟩

theorem snd_of_logged {reply : Except HTTPException TokenResponse} {userId : Uuid}
    {entry : Str × Uuid} (h : entry ∈ logged reply userId) : entry.2 = userId := by
  cases reply with
  | error e => cases h
  | ok response => rw [List.mem_singleton.mp h]

theorem callOf_not_sweep {now : ℤ} {credentials : Option Str} {r : Api.Request}
    {call : SessionService.Call} (h : site.callOf now credentials r = some call) :
    call.isSweep = false := by
  rcases Api.callOf_cases h with ⟨code, rfl⟩ | ⟨code, itemId, rfl⟩ |
    ⟨user, -, ⟨_, _, _, _, rfl⟩ | hby⟩
  · rfl
  · rfl
  · rfl
  · cases call with
    | cleanupExpiredSessions deadline unlinkFails => cases hby
    | _ => rfl

theorem effect_of_step {s s' : State} {e : Event}
    (hs : SessionService.Sound site.deployment s.sessions) (h : site.step s e = some s') :
    Effect site s e s' := by
  obtain ⟨now, action, onClock⟩ := e
  cases action with
  | register r =>
      simp only [step] at h
      split at h
      · rename_i hfresh
        cases h
        obtain ⟨hkept, hrows, hmade⟩ := register_effect site s now r
        refine .account hkept hrows hmade fun entry hentry => .inl ?_
        rw [snd_of_logged hentry]
        exact hfresh
      · cases h
  | login email password =>
      cases h
      have hlogin := login_effect site s now email password
      exact .account (fun m hm => hm) (fun m hm => .inl hm) (fun entry h => (hlogin entry h).1)
        fun entry h => (hlogin entry h).2
  | request credentials r =>
      simp only [step] at h
      split at h
      · rename_i hfresh
        cases h
        have hworld := Api.handle_world site.server s.sessions.world now credentials r
        cases hcall : site.callOf now credentials r with
        | none =>
            rw [show r.callOf site.server now credentials = none from hcall] at hworld
            rw [hworld, drawn, hcall]
            exact .refused fun sid hsid => Api.handle_burn hsid
        | some call =>
            rw [show r.callOf site.server now credentials = some call from hcall] at hworld
            rw [drawn, hcall] at hfresh ⊢
            rw [hworld]
            refine .called rfl hcall ⟨hfresh, fun hsweep => ?_⟩ fun sid hsid => Api.handle_burn hsid
            exact absurd hsweep (by rw [callOf_not_sweep hcall]; exact Bool.false_ne_true)
      · cases h
  | burn sid unlinkFails =>
      simp only [step] at h
      split at h
      · rename_i hmem
        cases h
        exact .burned hmem
      · cases h
  | cleanup entries unlinkFails =>
      obtain rfl : _ = s' := Option.some.inj h
      show Effect _ _ _ { s with sessions := { s.sessions with
        world := (CleanupService.cleanupAll s.sessions.world now (some site.deployment.tempDir)
          entries unlinkFails).2 } }
      rw [SessionService.cleanupAll_snd hs]
      rcases hres : CleanupService.cleanupExpiredSessions s.sessions.world now none unlinkFails with
        ⟨err | n, w⟩
      · obtain ⟨fs, rfl, hstopped⟩ := SessionService.stopped_of_error hres
        exact .stopped hstopped
      · have hok : (CleanupService.cleanupExpiredSessions s.sessions.world now none
            unlinkFails).1.isOk = true := by
          rw [hres]
          rfl
        have hswept : Effect site s ⟨now, .cleanup entries unlinkFails, onClock⟩ _ := .swept hok
        rw [hres] at hswept
        exact hswept

/-! ## The sessions are the session service's -/

/-- What a step does to the sessions, if anything, is a call of the session service, or
a sweep that was stopped. -/
theorem Effect.sessions {s s' : State} {e : Event} (h : Effect site s e s') :
    s'.sessions = s.sessions ∨
      (∃ call, (SessionService.system site.deployment).step s.sessions ⟨e.now, call⟩ =
        some s'.sessions) ∨
      ∃ fs, SessionService.Stopped s.sessions.world e.now fs ∧
        s'.sessions = { s.sessions with world := s.sessions.world.withFiles fs } := by
  cases h with
  | account kept rows made identified => exact .inl rfl
  | refused asked => exact .inl rfl
  | called action call_eq taken asked =>
      exact .inr (.inl ⟨_, SessionService.system_step.mpr ⟨taken, rfl⟩⟩)
  | @burned sid unlinkFails mem =>
      exact .inr (.inl ⟨.burnSession sid unlinkFails,
        SessionService.system_step.mpr ⟨⟨nofun, nofun⟩, rfl⟩⟩)
  | @swept unlinkFails ok =>
      refine .inr (.inl ⟨.cleanupExpiredSessions none unlinkFails,
        SessionService.system_step.mpr ⟨⟨nofun, fun _ => ?_⟩, rfl⟩⟩)
      simp only [SessionService.exec, SessionService.respond]
      cases hres : (CleanupService.cleanupExpiredSessions s.sessions.world e.now none
          unlinkFails).1 with
      | error err =>
          rw [hres] at ok
          cases ok
      | ok n => rfl
  | stopped hstopped => exact .inr (.inr ⟨_, hstopped, rfl⟩)

theorem Effect.sound {s s' : State} {e : Event}
    (hs : SessionService.Sound site.deployment s.sessions) (h : Effect site s e s') :
    SessionService.Sound site.deployment s'.sessions := by
  rcases h.sessions with hsame | ⟨call, hstep⟩ | ⟨fs, hstopped, hsame⟩
  · exact hsame.symm ▸ hs
  · exact hs.step hstep
  · exact hsame.symm ▸ hs.stopped hstopped

/-! ## The invariant -/

/-- The session is there or was, and asked to be burned. -/
def Burns (sessions : SessionService.State) (sid : Uuid) : Prop :=
  sid ∈ sessions.uuids ∧ ∀ m ∈ sessions.world.db.sessions.rows, m.id = sid →
    m.burnAfterDownload = true

theorem Burns.step {sessions sessions' : SessionService.State} {e : SessionService.Event}
    {sid : Uuid} (h : Burns sessions sid)
    (hstep : (SessionService.system site.deployment).step sessions e = some sessions') :
    Burns sessions' sid := by
  obtain ⟨htaken, rfl⟩ := SessionService.system_step.mp hstep
  refine ⟨List.mem_append_right _ h.1, fun r hr hid => ?_⟩
  rcases (SessionService.exec_effect htaken).sessions_same r hr with
    ⟨m, hm, hsame⟩ | ⟨_, _, _, _, hcall⟩
  · rw [← hsame.burnAfterDownload]
    exact h.2 m hm (hsame.id.trans hid)
  · exact absurd (hid ▸ h.1) (htaken.1 r.id (by rw [hcall]; rfl))

structure Inv (site : Site) (s : State) : Prop where
  sessions : SessionService.Sound site.deployment s.sessions
  plain : ∀ m ∈ s.users.table.rows, m.isAdmin = false
  issued : ∀ entry ∈ s.issued, ∀ now user,
    Api.getCurrentUser site.server now (some entry.1) = .ok user →
      user.userId = entry.2 ∧ user.isAdmin = false
  burns : ∀ sid ∈ s.burns, Burns s.sessions sid

theorem Inv.initial {s : State} (h : Initial s) : Inv site s := by
  obtain ⟨hsessions, husers, hissued, hburns⟩ := h
  refine ⟨.of_reachable (.start hsessions), ?_, ?_, ?_⟩
  · rw [husers]
    nofun
  · rw [hissued]
    nofun
  · rw [hburns]
    nofun

/-- A token that is accepted names the user it was made for. -/
theorem Made.named {s : State} {now : ℤ} {entry : Str × Uuid} (hclock : OnClock now)
    (hplain : ∀ m ∈ s.users.table.rows, m.isAdmin = false) (h : Made site s now entry) {t : ℤ}
    {user : AuthenticatedUser}
    (huser : Api.getCurrentUser site.server t (some entry.1) = .ok user) :
    user.userId = entry.2 ∧ user.isAdmin = false := by
  obtain ⟨u, result, hknown, hissue, rfl⟩ := h
  have hcreate := AuthService.issue_eq_ok hissue
  rw [site.json_eq] at hcreate
  have haccepted : site.service.tokenService.getCurrentUser Payload.pythonJson t
      result.accessToken = .ok user := by
    unfold Api.getCurrentUser Api.getCurrentToken at huser
    dsimp only [server] at huser
    rw [site.json_eq] at huser
    split at huser
    · cases huser
    · rename_i heq
      rw [heq, Except.ok.inj huser]
  obtain rfl := HMACTokenService.user_of_create hclock hcreate haccepted
  refine ⟨rfl, ?_⟩
  rcases hknown with hmem | hno
  · exact hplain _ hmem
  · exact hno

/-- A task is new with a step, because a session asks for it, or is an old one. -/
theorem Effect.burns {s s' : State} {e : Event} (hinv : Inv site s) (h : Effect site s e s') :
    ∀ sid ∈ s'.burns, Burns s.sessions sid := by
  have hissued := hinv.sessions.issued
  have hasked : ∀ {burn : Option Uuid},
      (∀ sid ∈ burn, ∃ m ∈ s.sessions.world.db.sessions.rows, m.id = sid ∧
        m.burnAfterDownload = true) →
      ∀ sid ∈ burn.toList ++ s.burns, Burns s.sessions sid := by
    intro burn hburn sid hsid
    rcases List.mem_append.mp hsid with hsid | hsid
    · obtain ⟨m, hm, rfl, hflag⟩ := hburn sid (Option.mem_toList.mp hsid)
      refine ⟨hissued.sessions m hm, fun r hr hid => ?_⟩
      rw [Table.eq_of_mem hr hm hid]
      exact hflag
    · exact hinv.burns sid hsid
  cases h with
  | account kept rows made identified => exact hinv.burns
  | refused asked => exact hasked asked
  | called action call_eq taken asked => exact hasked asked
  | burned mem => exact fun sid hsid => hinv.burns sid (List.mem_of_mem_erase hsid)
  | swept ok => exact hinv.burns
  | stopped hstopped => exact hinv.burns

theorem Inv.step {s s' : State} {e : Event} (h : Inv site s) (hstep : site.step s e = some s') :
    Inv site s' := by
  have heff := effect_of_step h.sessions hstep
  have hburns := heff.burns h
  constructor
  · exact heff.sound h.sessions
  · cases heff with
    | account kept rows made identified =>
        intro m hm
        rcases rows m hm with hold | hno
        · exact h.plain m hold
        · exact hno
    | refused asked => exact h.plain
    | called action call_eq taken asked => exact h.plain
    | burned mem => exact h.plain
    | swept ok => exact h.plain
    | stopped hstopped => exact h.plain
  · cases heff with
    | account kept rows made identified =>
        intro entry hentry now user huser
        rcases List.mem_append.mp hentry with hnew | hold
        · exact (made entry hnew).named e.onClock h.plain huser
        · exact h.issued entry hold now user huser
    | refused asked => exact h.issued
    | called action call_eq taken asked => exact h.issued
    | burned mem => exact h.issued
    | swept ok => exact h.issued
    | stopped hstopped => exact h.issued
  · intro sid hsid
    rcases heff.sessions with hsame | ⟨call, hcall⟩ | ⟨fs, -, hsame⟩
    · rw [hsame]
      exact hburns sid hsid
    · exact (hburns sid hsid).step hcall
    · rw [hsame]
      exact hburns sid hsid

theorem inv_of_reachable {s : State} (h : site.Reachable s) : Inv site s :=
  System.Reachable.invariant (I := Inv site) (fun _ => Inv.initial) (fun _ _ _ => Inv.step) h

/-! ## Sessions whose owner is away -/

/-- The token of a request, where it is accepted, was handed out, and to somebody else
than the owner. -/
def Elsewhere (site : Site) (ownerId : Uuid) (s : State) (e : Event) : Prop :=
  ∀ credentials r user, e.action = .request credentials r →
    Api.getCurrentUser site.server e.now credentials = .ok user →
      ∃ token userId, credentials = some token ∧ (token, userId) ∈ s.issued ∧ userId ≠ ownerId

theorem step_untouched {s s' : State} {e : Event} (hinv : Inv site s)
    {m : TransferSessionModel} (hm : m ∈ s.sessions.world.db.sessions.rows)
    (hburn : m.burnAfterDownload = false) (hlive : Live e.now m)
    (helsewhere : Elsewhere site m.ownerId s e) (h : Effect site s e s') :
    Untouched site.deployment m.id s.sessions.world s'.sessions.world := by
  have hissued := hinv.sessions.issued
  cases h with
  | account kept rows made identified => exact .refl _ _ _
  | refused asked => exact .refl _ _ _
  | @called credentials r call burn action call_eq taken asked =>
      rcases Api.callOf_cases call_eq with ⟨code, rfl⟩ | ⟨code, itemId, rfl⟩ | ⟨user, huser, hcall⟩
      · exact SessionService.getSessionByCode_untouched hm hlive _ code
      · exact SessionService.getSessionItem_untouched hm hlive _ code itemId
      · obtain ⟨token, userId, rfl, hhanded, hother⟩ := helsewhere _ _ user action huser
        obtain ⟨hname, hplain⟩ := hinv.issued _ hhanded _ user huser
        rcases hcall with ⟨secs, burn, id, draws, rfl⟩ | hby
        · refine SessionService.createSession_untouched _ _ _ _ _ _ ?_ draws
          rintro rfl
          exact taken.1 _ rfl (hissued.sessions m hm)
        · refine (SessionService.exec_effect taken).untouched hissued taken.1 hby hplain ?_
          intro r hr hid
          rw [Table.eq_of_mem hr hm hid, hname]
          exact hother.symm
  | @burned sid unlinkFails mem =>
      refine SessionService.burnSession_untouched _ _ ?_ unlinkFails
      rintro rfl
      rw [(hinv.burns _ mem).2 m hm rfl] at hburn
      cases hburn
  | swept ok => exact SessionService.sweep_untouched hinv.sessions.placed hm hlive.ahead ok
  | stopped hstopped => exact hstopped.untouched hinv.sessions.placed hm hlive.ahead

/-- Nobody acts as the owner. A token that is accepted was handed out, and if it had been
before the state `s₀`, to somebody else; and no login gives the owner's password. -/
structure Stranger (site : Site) (ownerId : Uuid) (s₀ s : State) (e : Event) : Prop where
  tokens : ∀ credentials r user, e.action = .request credentials r →
    Api.getCurrentUser site.server e.now credentials = .ok user →
      ∃ token userId, credentials = some token ∧ (token, userId) ∈ s.issued ∧
        ((token, userId) ∈ s₀.issued → userId ≠ ownerId)
  passwords : ∀ email password user, e.action = .login email password →
    s.users.getByEmail email = some user → user.id = ownerId →
      site.service.verify (some user) password ≠ .ok user

/-- While strangers act, the owner keeps the account and is handed no token. -/
structure Away (ownerId : Uuid) (s₀ s : State) : Prop where
  registered : ∃ m ∈ s.users.table.rows, m.id = ownerId
  issued : ∀ entry ∈ s.issued, entry ∈ s₀.issued ∨ entry.2 ≠ ownerId

theorem Away.step {ownerId : Uuid} {s₀ s s' : State} {e : Event} (h : Away ownerId s₀ s)
    (hstranger : Stranger site ownerId s₀ s e) (heff : Effect site s e s') :
    Away ownerId s₀ s' := by
  cases heff with
  | account kept rows made identified =>
      obtain ⟨m, hm, hid⟩ := h.registered
      refine ⟨⟨m, kept m hm, hid⟩, fun entry hentry => ?_⟩
      rcases List.mem_append.mp hentry with hnew | hold
      · right
        rcases identified entry hnew with hfresh |
          ⟨email, password, user, haction, hget, hverify, hname⟩
        · exact fun heq => hfresh m hm (hid.trans heq.symm)
        · exact fun heq =>
            hstranger.passwords email password user haction hget (hname.symm.trans heq) hverify
      · exact h.issued entry hold
  | refused asked => exact ⟨h.registered, h.issued⟩
  | called action call_eq taken asked => exact ⟨h.registered, h.issued⟩
  | burned mem => exact ⟨h.registered, h.issued⟩
  | swept ok => exact ⟨h.registered, h.issued⟩
  | stopped hstopped => exact ⟨h.registered, h.issued⟩

theorem Away.elsewhere {ownerId : Uuid} {s₀ s : State} {e : Event} (h : Away ownerId s₀ s)
    (hstranger : Stranger site ownerId s₀ s e) : Elsewhere site ownerId s e := by
  intro credentials r user haction huser
  obtain ⟨token, userId, rfl, hissued, hother⟩ := hstranger.tokens credentials r user haction huser
  refine ⟨token, userId, rfl, hissued, ?_⟩
  rcases h.issued _ hissued with hold | hne
  · exact hother hold
  · exact hne

/-- Whatever strangers do with the routes, with accounts of their own, with codes they
know or with none: a session that stays live and is not to be burned is left as it is,
with its row, its items and its files. They are strangers as long as they have none of
the owner's tokens, do not log in with the owner's password and forge nothing. -/
theorem untouched_by_strangers (site : Site) {s s' : State} (hs : site.Reachable s)
    {m : TransferSessionModel} (hm : m ∈ s.sessions.world.db.sessions.rows)
    (hburn : m.burnAfterDownload = false) (howner : ∃ u ∈ s.users.table.rows, u.id = m.ownerId)
    {ls : List Event}
    (hstrangers : site.system.Guarded
      (fun t e => Live e.now m ∧ Stranger site m.ownerId s t e) s ls)
    (hrun : site.system.run s ls = some s') :
    Untouched site.deployment m.id s.sessions.world s'.sessions.world := by
  have halways : site.system.Always (fun t => Inv site t ∧ Away m.ownerId s t ∧
      Untouched site.deployment m.id s.sessions.world t.sessions.world) s ls := by
    refine System.always_of_guarded ?_
      ⟨inv_of_reachable hs, ⟨howner, fun entry h => .inl h⟩, .refl _ _ _⟩ hstrangers
    rintro t e t' ⟨hinv, haway, huntouched⟩ ⟨hlive, hstranger⟩ hstep
    have heff := effect_of_step hinv.sessions hstep
    have hmem := (huntouched.session m rfl).mpr hm
    exact ⟨hinv.step hstep, haway.step hstranger heff, huntouched.trans
      (step_untouched hinv hmem hburn hlive (haway.elsewhere hstranger) heff)⟩
  exact (halways.last hrun).2.2

end System

namespace Sample

def site : Site where
  deployment := .default
  service := { AuthService.Sample.auth with json := Payload.pythonJson }
  json_eq := rfl

/-- The site is set up in November 2023. -/
def opening : ℤ := 1700000000000000

theorem onClock_opening : OnClock opening := ⟨by decide, by decide⟩

def at_ (action : Action) : Event := ⟨opening, action, onClock_opening⟩

def userOf (r : UserRegistration) : AuthenticatedUser :=
  AuthService.toAuthUser (AuthService.newUser r [])

def owner : UserRegistration := AuthService.Sample.first

def guest : UserRegistration where
  email := "guest@example.com".toList
  password := PBKDF2PasswordHasher.Sample.wrong
  id := Uuid.ofNat 2
  salt := PBKDF2PasswordHasher.Sample.salt

/-- The token that a user gets at the opening. -/
theorem exists_token (user : AuthenticatedUser) : ∃ token,
    site.service.tokenService.createAccessToken Payload.pythonJson opening user = .ok token ∧
      Api.getCurrentUser site.server opening (some token) = .ok user := by
  obtain ⟨token, hcreate⟩ : ∃ token,
      site.service.tokenService.createAccessToken Payload.pythonJson opening user = .ok token :=
    HMACTokenService.createAccessToken_isOk user
      (show addSeconds opening _ = .ok 1700003600000000 by decide)
  refine ⟨token, hcreate, Api.getCurrentUser_of_token ?_⟩
  have hexp : fromTimestamp (timestamp (opening +
      60 * site.service.tokenService.expiresMinutes * 1000000)) = .ok 1700003600000000 := by
    decide +kernel
  exact (HMACTokenService.getCurrentUser_of_create onClock_opening hcreate hexp opening).trans
    (if_neg (by decide))

def sessionId : Uuid := Uuid.ofNat 7

def itemId : Uuid := Uuid.ofNat 8

def creation : Api.Request :=
  .createSession ⟨3600, false, by decide⟩ sessionId fun _ => SessionService.Sample.draw 0

def upload : Api.Request :=
  .uploadSessionItem sessionId ⟨some "notes.txt".toList, some 2, .ofBytes [1, 2]⟩ itemId

/-- What a request of the owner leaves. -/
def after (w : World) (r : Api.Request) : World :=
  match r.call (userOf owner) with
  | none => w
  | some call => (SessionService.exec site.deployment w ⟨opening, call⟩).2

def start : State := ⟨⟨World.initial .sqlite, []⟩, .empty, [], []⟩

/-- The owner has an account. -/
def registered : State where
  sessions := start.sessions
  users := (Api.register site.service .empty opening owner).2
  issued := logged (Api.register site.service .empty opening owner).1 owner.id ++ []
  burns := []

theorem step_registered : site.system.step start (at_ (.register owner)) = some registered := by
  have hfresh : ∀ m ∈ start.users.table.rows, m.id ≠ owner.id := nofun
  simp only [system, step, at_]
  rw [if_pos hfresh]
  rfl

/-- A request of the owner that is no look-up by code. -/
theorem step_request {s : State} {token : Str} {r : Api.Request} {call : SessionService.Call}
    {id : Uuid} (h : Api.getCurrentUser site.server opening (some token) = .ok (userOf owner))
    (hprivate : r.publicCall = none) (hcall : r.call (userOf owner) = some call)
    (hnew : call.newId = some id) (hfresh : id ∉ s.sessions.uuids)
    (hburn : ∀ w credentials, (Api.handle site.server w opening credentials r).2 = none) :
    site.system.step s (at_ (.request (some token) r)) =
      some { s with sessions := ⟨after s.sessions.world r, id :: s.sessions.uuids⟩ } := by
  have hdrawn : site.drawn opening (some token) r = some id := by
    rw [drawn, callOf, Api.Request.callOf, hprivate]
    dsimp only
    rw [h]
    dsimp only
    rw [hcall, Option.bind_some, hnew]
  have hhandle : Api.handle site.server s.sessions.world opening (some token) r =
      (after s.sessions.world r, none) :=
    Prod.ext (Api.handle_of_user h hprivate) (hburn _ _)
  have hids : ∀ i ∈ (some id : Option Uuid), i ∉ s.sessions.uuids := by
    rintro i ⟨⟩
    exact hfresh
  simp only [system, step, at_, hdrawn, hhandle]
  rw [if_pos hids]
  rfl

/-- And a session with a file. -/
def shared : State where
  sessions := ⟨after (after start.sessions.world creation) upload, [itemId, sessionId]⟩
  users := registered.users
  issued := registered.issued
  burns := []

theorem reachable_shared : site.Reachable shared := by
  obtain ⟨token, -, htoken⟩ := exists_token (userOf owner)
  have hstart : site.Reachable start := .start ⟨⟨.sqlite, rfl⟩, rfl, rfl, rfl⟩
  have hcreation : site.system.step registered (at_ (.request (some token) creation)) = some _ :=
    step_request htoken rfl rfl rfl nofun fun _ _ => rfl
  have hupload : site.system.step _ (at_ (.request (some token) upload)) = some shared :=
    step_request (s := { registered with
      sessions := ⟨after start.sessions.world creation, [sessionId]⟩ }) htoken rfl rfl rfl
      (by decide) fun _ _ => rfl
  exact ((hstart.step _ step_registered).step _ hcreation).step _ hupload

theorem exists_user : ∃ u ∈ shared.users.table.rows, u.id = (userOf owner).userId := by
  have husers : ∃ u ∈ (site.service.register .empty opening owner).2.table.rows,
      u.id = (userOf owner).userId := by
    decide +kernel
  rw [← register_users] at husers
  exact husers

theorem exists_session : ∃ m ∈ shared.sessions.world.db.sessions.rows, m.id = sessionId ∧
    m.ownerId = (userOf owner).userId ∧ m.burnAfterDownload = false ∧
    m.expiresAt.any (· ≤ opening) = false ∧ m.status ≠ .expired := by
  decide +kernel

/-- Where the file is. -/
def stored : Path :=
  site.deployment.uploadsDir ++ [sessionId.str, itemId.str ++ "_notes.txt".toList]

theorem file_stored : (shared.sessions.world.files stored).map File.data = some [1, 2] := by
  decide +kernel

/-- A guest registers, tries to delete the session with a token of their own, and downloads
the file with its code; then there is a sweep. -/
def intrusion (token : Str) : List Event :=
  [at_ (.register guest),
    at_ (.request (some token) (.deleteSession sessionId fun _ => false)),
    at_ (.request none (.downloadSessionItem ⟨SessionService.Sample.code, by decide⟩ itemId)),
    at_ (.cleanup [] fun _ => false)]

/-- What the registration of the guest is answered. -/
theorem register_guest {token : Str} (h : site.service.tokenService.createAccessToken
      Payload.pythonJson opening (userOf guest) = .ok token) :
    (Api.register site.service shared.users opening guest).1 = .ok { accessToken := token } := by
  have hcheck : AuthService.checkEmail shared.users guest.email = .ok () := by decide +kernel
  have hisOk : (site.service.addUser shared.users guest).isOk = true := by decide +kernel
  unfold Api.register AuthService.register
  rw [hcheck]
  dsimp only
  cases hadd : site.service.addUser shared.users guest with
  | error e =>
      rw [hadd] at hisOk
      cases hisOk
  | ok added =>
      obtain ⟨user, users⟩ := added
      obtain ⟨passwordHash, -, rfl, -⟩ := AuthService.addUser_eq_ok hadd
      have hissue : site.service.issue opening (AuthService.newUser guest passwordHash) =
          .ok { accessToken := token } := by
        have huser : AuthService.toAuthUser (AuthService.newUser guest passwordHash) =
            userOf guest := rfl
        rw [AuthService.issue, huser, site.json_eq, h]
      dsimp only
      rw [hissue]
      rfl

theorem fresh_guest : ∀ m ∈ shared.users.table.rows, m.id ≠ guest.id := by
  have hfresh : ∀ m ∈ (site.service.register .empty opening owner).2.table.rows,
      m.id ≠ guest.id := by
    decide +kernel
  rw [← register_users] at hfresh
  exact hfresh

/-- A request that draws no identifier is always answered. -/
theorem exists_request {s : State} {credentials : Option Str} {r : Api.Request}
    (h : site.drawn opening credentials r = none) :
    ∃ s', site.system.step s (at_ (.request credentials r)) = some s' := by
  simp only [system, step, at_, h]
  exact ⟨_, if_pos nofun⟩

theorem runs_intrusion {token : Str}
    (h : Api.getCurrentUser site.server opening (some token) = .ok (userOf guest)) :
    ∃ s', site.system.run shared (intrusion token) = some s' := by
  have hdelete : site.drawn opening (some token) (.deleteSession sessionId fun _ => false) =
      none := by
    simp only [drawn, callOf, Api.Request.callOf, Api.Request.publicCall, h]
    rfl
  obtain ⟨s₁, h₁⟩ : ∃ s₁, site.system.step shared (at_ (.register guest)) = some s₁ := by
    simp only [system, step, at_]
    exact ⟨_, if_pos fresh_guest⟩
  obtain ⟨s₂, h₂⟩ := exists_request (s := s₁) hdelete
  have hdownload : site.drawn opening none
      (.downloadSessionItem ⟨SessionService.Sample.code, by decide⟩ itemId) = none := rfl
  obtain ⟨s₃, h₃⟩ := exists_request (s := s₂) hdownload
  obtain ⟨s₄, h₄⟩ : ∃ s₄, site.system.step s₃ (at_ (.cleanup [] fun _ => false)) = some s₄ :=
    ⟨_, rfl⟩
  refine ⟨s₄, System.run_cons_eq_some.mpr ⟨s₁, h₁, System.run_cons_eq_some.mpr ⟨s₂, h₂, ?_⟩⟩⟩
  exact System.run_cons_eq_some.mpr ⟨s₃, h₃, System.run_cons_eq_some.mpr ⟨s₄, h₄, rfl⟩⟩

theorem strangers {token : Str} (hcreate : site.service.tokenService.createAccessToken
      Payload.pythonJson opening (userOf guest) = .ok token) {m : TransferSessionModel}
    (howner : m.ownerId = (userOf owner).userId) (hlive : Live opening m) :
    site.system.Guarded (fun t e => Live e.now m ∧ Stranger site m.ownerId shared t e) shared
      (intrusion token) := by
  intro s₁ h₁
  have hissued : (token, guest.id) ∈ s₁.issued := by
    simp only [system, step, at_] at h₁
    rw [if_pos fresh_guest] at h₁
    obtain rfl := Option.some.inj h₁
    refine List.mem_append_left _ ?_
    rw [register_guest hcreate]
    exact List.mem_singleton.mpr rfl
  refine ⟨⟨hlive, ⟨nofun, nofun⟩⟩, fun s₂ _ => ⟨⟨hlive, ⟨?_, nofun⟩⟩, fun s₃ _ =>
    ⟨⟨hlive, ⟨?_, nofun⟩⟩, fun s₄ _ => ⟨⟨hlive, ⟨nofun, nofun⟩⟩, trivial⟩⟩⟩⟩
  · rintro credentials r user haction -
    cases haction
    refine ⟨token, guest.id, rfl, hissued, fun _ => ?_⟩
    rw [howner]
    decide
  · rintro credentials r user haction huser
    cases haction
    cases huser

end Sample

/-- The file of the session is there when the guest has come and gone. -/
theorem untouched_by_strangers_shared :
    ∃ token s', Api.getCurrentUser Sample.site.server Sample.opening (some token) =
        .ok (Sample.userOf Sample.guest) ∧
      Sample.site.system.run Sample.shared (Sample.intrusion token) = some s' ∧
      Untouched .default Sample.sessionId Sample.shared.sessions.world s'.sessions.world ∧
      (s'.sessions.world.files Sample.stored).map File.data = some [1, 2] := by
  obtain ⟨m, hm, hid, howner, hburn, hahead, hstatus⟩ := Sample.exists_session
  obtain ⟨token, hcreate, haccepted⟩ := Sample.exists_token (Sample.userOf Sample.guest)
  obtain ⟨s', hrun⟩ := Sample.runs_intrusion haccepted
  have huntouched := untouched_by_strangers Sample.site Sample.reachable_shared hm hburn
    (howner ▸ Sample.exists_user) (Sample.strangers hcreate howner ⟨hahead, hstatus⟩) hrun
  rw [hid] at huntouched
  refine ⟨token, s', haccepted, hrun, huntouched, ?_⟩
  rw [huntouched.stored Sample.stored ⟨[Sample.itemId.str ++ "_notes.txt".toList], by decide⟩]
  exact Sample.file_stored

end Site

end Jumbox
