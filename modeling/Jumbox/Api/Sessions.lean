import Jumbox.Api.Routes
import Jumbox.Security.RateLimiter
import Jumbox.Sessions.Download
import Jumbox.Sessions.Isolation

/-!
# The other routes of the sessions

What `Api.Routes` leaves of `api/routes/sessions.py`, except the QR code, which is a
look-up by code with a picture for an answer. The bounds on a payload or a path are
fields of its type: what violates them is answered by the framework, and no handler
runs.
-/

namespace Jumbox

namespace Api

/-! ## Requests -/

structure CreateSessionRequest where
  expiresInSeconds : ℕ := 1800
  burnAfterDownload : Bool := false
  le_week : expiresInSeconds ≤ 604800

structure InitResumableItemRequest where
  originalName : Str
  totalSizeBytes : ℕ
  expectedSha256 : Option Str := none

/-- A `session_code` in a path. -/
abbrev SessionCode := { sessionCode : Str // RateLimiter.AdmittedCode sessionCode }

/-- A part of a form with a file. -/
structure UploadFile where
  filename : Option Str
  size : Option ℕ
  content : UploadStream

/-! ## Answers -/

structure CreateSessionResponse where
  sessionId : Uuid
  sessionCode : Str
  status : SessionStatus
  expiresAt : Option Datetime
  burnAfterDownload : Bool

structure SessionDetailResponse where
  sessionId : Uuid
  sessionCode : Str
  status : SessionStatus
  expiresAt : Option Datetime
  burnAfterDownload : Bool
  downloadCount : ℤ
  totalSizeBytes : ℤ
  items : List TransferItemResponse
  createdAt : ℤ

/-- `_to_detail_response` -/
def toDetailResponse (session : TransferSession) : SessionDetailResponse where
  sessionId := session.id
  sessionCode := session.sessionCode
  status := session.status
  expiresAt := session.expiresAt
  burnAfterDownload := session.burnAfterDownload
  downloadCount := session.downloadCount
  totalSizeBytes := session.totalSizeBytes
  items := session.items.map toItemResponse
  createdAt := session.createdAt

structure SessionSummaryResponse where
  sessionId : Uuid
  sessionCode : Str
  status : SessionStatus
  expiresAt : Option Datetime
  burnAfterDownload : Bool
  downloadCount : ℤ
  totalSizeBytes : ℤ
  itemCount : ℕ
  createdAt : ℤ

def toSummaryResponse (session : TransferSession) : SessionSummaryResponse where
  sessionId := session.id
  sessionCode := session.sessionCode
  status := session.status
  expiresAt := session.expiresAt
  burnAfterDownload := session.burnAfterDownload
  downloadCount := session.downloadCount
  totalSizeBytes := session.totalSizeBytes
  itemCount := session.items.length
  createdAt := session.createdAt

/-! ## Handlers -/

section Handlers

variable (server : Server) (w : World) (now : ℤ) (credentials : Option Str)

/-- No exception of the service is caught. -/
def createSession (payload : CreateSessionRequest) (id : Uuid) (draws : ℕ → Fin 9000 × Fin 9000) :
    Reply CreateSessionResponse :=
  withCurrentUser server w now credentials fun user =>
    match SessionService.createSession w now user payload.expiresInSeconds
        payload.burnAfterDownload id draws with
    | (.ok session, w) =>
        (.ok
          { sessionId := session.id
            sessionCode := session.sessionCode
            status := session.status
            expiresAt := session.expiresAt
            burnAfterDownload := session.burnAfterDownload }, w)
    | (.error _, w) => (.error internalServerError, w)

/-- `file.filename or "file"` -/
def filenameOf (file : UploadFile) : Str :=
  let filename := file.filename.getD []
  if filename = [] then "file".toList else filename

def uploadSessionItem (sessionId : Uuid) (file : UploadFile) (itemId : Uuid) :
    Reply TransferItemResponse :=
  withCurrentUser server w now credentials fun user =>
    match SessionService.uploadItem server.deployment w now sessionId user (filenameOf file)
        file.content (file.size.getD 0 : ℕ) itemId with
    | (.ok item, w) => (.ok (toItemResponse item), w)
    | (.error e, w) =>
        (.error (raised [(.sessionNotFoundError, 404), (.permissionDeniedError, 403),
          (.sessionExpiredError, 410)] e), w)

def listMySessions : Reply (List SessionSummaryResponse) :=
  withCurrentUser server w now credentials fun user =>
    match SessionService.listMySessions w user 50 with
    | (.ok sessions, w) => (.ok (sessions.map toSummaryResponse), w)
    | (.error _, w) => (.error internalServerError, w)

def sessionNotFound : HTTPException := ⟨404, "Session not found".toList, none⟩

def getSession (sessionCode : SessionCode) : Reply SessionDetailResponse :=
  match SessionService.getSessionByCode w now sessionCode with
  | (.ok none, w) => (.error sessionNotFound, w)
  | (.ok (some session), w) => (.ok (toDetailResponse session), w)
  | (.error _, w) => (.error internalServerError, w)

def deleteSession (sessionId : Uuid) (unlinkFails : Path → Bool) : Reply Unit :=
  withCurrentUser server w now credentials fun user =>
    match SessionService.deleteSession server.deployment w sessionId user unlinkFails with
    | (.ok (), w) => (.ok (), w)
    | (.error e, w) =>
        (.error (raised [(.sessionNotFoundError, 404), (.permissionDeniedError, 403)] e), w)

/-- The second component of an answer is the session that a background task burns. -/
def downloadSessionItem (sessionCode : SessionCode) (itemId : Uuid) :
    Reply (FileResponse × Option Uuid) :=
  match SessionService.downloadSessionItem w now sessionCode itemId with
  | (.ok answer, w) => (.ok answer, w)
  | (.error e, w) => (.error ⟨e.statusCode, e.detail, none⟩, w)

end Handlers

/-! ## All of them -/

/-- A request to one of the routes, with what its handler draws. -/
inductive Request where
  | createSession (payload : CreateSessionRequest) (id : Uuid) (draws : ℕ → Fin 9000 × Fin 9000)
  | uploadSessionItem (sessionId : Uuid) (file : UploadFile) (itemId : Uuid)
  | initResumableItem (sessionId : Uuid) (payload : InitResumableItemRequest) (itemId : Uuid)
  | getItemOffset (sessionId itemId : Uuid)
  | uploadItemChunk (sessionId itemId : Uuid) (uploadOffset : UploadOffset) (chunkData : Bytes)
  | listMySessions
  | getSession (sessionCode : SessionCode)
  | deleteSession (sessionId : Uuid) (unlinkFails : Path → Bool)
  | downloadSessionItem (sessionCode : SessionCode) (itemId : Uuid)

/-- What a request leaves, and the session that has to be burned once it is answered. -/
def handle (server : Server) (w : World) (now : ℤ) (credentials : Option Str) :
    Request → World × Option Uuid
  | .createSession payload id draws =>
      ((createSession server w now credentials payload id draws).2, none)
  | .uploadSessionItem sessionId file itemId =>
      ((uploadSessionItem server w now credentials sessionId file itemId).2, none)
  | .initResumableItem sessionId payload itemId =>
      ((initResumableItem server w now credentials sessionId payload.originalName
        payload.totalSizeBytes payload.expectedSha256 itemId).2, none)
  | .getItemOffset sessionId itemId =>
      ((getItemOffset server w now credentials sessionId itemId).2, none)
  | .uploadItemChunk sessionId itemId uploadOffset chunkData =>
      ((uploadItemChunk server w now credentials sessionId itemId uploadOffset chunkData).2, none)
  | .listMySessions => ((listMySessions server w now credentials).2, none)
  | .getSession sessionCode => ((getSession w now sessionCode).2, none)
  | .deleteSession sessionId unlinkFails =>
      ((deleteSession server w now credentials sessionId unlinkFails).2, none)
  | .downloadSessionItem sessionCode itemId =>
      match downloadSessionItem w now sessionCode itemId with
      | (.ok (_, burn), w) => (w, burn)
      | (.error _, w) => (w, none)

/-! ## The call behind a request -/

open SessionService (Call exec)

/-- What a request asks of the service on behalf of its user. -/
def Request.call (user : AuthenticatedUser) : Request → Option Call
  | .createSession payload id draws =>
      some (.createSession user payload.expiresInSeconds payload.burnAfterDownload id draws)
  | .uploadSessionItem sessionId file itemId =>
      some (.uploadItem sessionId user (filenameOf file) file.content (file.size.getD 0 : ℕ) itemId)
  | .initResumableItem sessionId payload itemId =>
      some (.initResumableItem sessionId user payload.originalName payload.totalSizeBytes
        payload.expectedSha256 itemId)
  | .getItemOffset sessionId itemId => some (.getItemOffset sessionId itemId user)
  | .uploadItemChunk sessionId itemId (.value offset) chunkData =>
      some (.appendItemChunk ⟨sessionId, itemId, user, chunkData, offset⟩)
  | .uploadItemChunk _ _ _ _ => none
  | .listMySessions => some (.listMySessions user 50)
  | .getSession _ => none
  | .deleteSession sessionId unlinkFails => some (.deleteSession sessionId user unlinkFails)
  | .downloadSessionItem _ _ => none

/-- What a request asks of the service whoever sends it. -/
def Request.publicCall : Request → Option Call
  | .getSession sessionCode => some (.getSessionByCode sessionCode)
  | .downloadSessionItem sessionCode itemId => some (.getSessionItem sessionCode itemId)
  | _ => none

/-- The call that a request leads to. -/
def Request.callOf (server : Server) (now : ℤ) (credentials : Option Str) (r : Request) :
    Option Call :=
  match r.publicCall with
  | some call => some call
  | none =>
      match getCurrentUser server now credentials with
      | .error _ => none
      | .ok user => r.call user

/-- A request leads to a look-up by code, or to a call that its user makes. -/
theorem callOf_cases {server : Server} {now : ℤ} {credentials : Option Str} {r : Request}
    {call : Call} (h : r.callOf server now credentials = some call) :
    (∃ code, call = .getSessionByCode code) ∨ (∃ code itemId, call = .getSessionItem code itemId) ∨
    ∃ user, getCurrentUser server now credentials = .ok user ∧
      ((∃ secs burn id draws, call = .createSession user secs burn id draws) ∨ call.By user) := by
  unfold Request.callOf at h
  cases hpublic : r.publicCall with
  | some lookUp =>
      rw [hpublic] at h
      cases h
      unfold Request.publicCall at hpublic
      split at hpublic
      · cases hpublic
        exact .inl ⟨_, rfl⟩
      · cases hpublic
        exact .inr (.inl ⟨_, _, rfl⟩)
      · cases hpublic
  | none =>
      rw [hpublic] at h
      cases huser : getCurrentUser server now credentials with
      | error e =>
          rw [huser] at h
          cases h
      | ok user =>
          rw [huser] at h
          refine .inr (.inr ⟨user, rfl, ?_⟩)
          dsimp only at h
          unfold Request.call at h
          split at h
          · cases h
            exact .inl ⟨_, _, _, _, rfl⟩
          · cases h
            exact .inr rfl
          · cases h
            exact .inr rfl
          · cases h
            exact .inr rfl
          · cases h
            exact .inr rfl
          · cases h
          · cases h
            exact .inr rfl
          · cases h
          · cases h
            exact .inr rfl
          · cases h

/-! ## What a request leaves -/

section Leaves

variable {server : Server} {w : World} {now : ℤ} {credentials : Option Str}
  {user : AuthenticatedUser}

section SignedIn

variable (huser : getCurrentUser server now credentials = .ok user)

include huser

theorem createSession_world (payload : CreateSessionRequest) (id : Uuid)
    (draws : ℕ → Fin 9000 × Fin 9000) :
    (createSession server w now credentials payload id draws).2 =
      (SessionService.createSession w now user payload.expiresInSeconds payload.burnAfterDownload
        id draws).2 := by
  rw [createSession, withCurrentUser_of_ok huser]
  split
  · rename_i heq
    rw [heq]
  · rename_i heq
    rw [heq]

theorem uploadSessionItem_world (sessionId : Uuid) (file : UploadFile) (itemId : Uuid) :
    (uploadSessionItem server w now credentials sessionId file itemId).2 =
      (SessionService.uploadItem server.deployment w now sessionId user (filenameOf file)
        file.content (file.size.getD 0 : ℕ) itemId).2 := by
  rw [uploadSessionItem, withCurrentUser_of_ok huser]
  split
  · rename_i heq
    rw [heq]
  · rename_i heq
    rw [heq]

theorem initResumableItem_world (sessionId : Uuid) (payload : InitResumableItemRequest)
    (itemId : Uuid) :
    (initResumableItem server w now credentials sessionId payload.originalName
      payload.totalSizeBytes payload.expectedSha256 itemId).2 =
      (SessionService.initResumableItem server.deployment w now sessionId user
        payload.originalName payload.totalSizeBytes payload.expectedSha256 itemId).2 := by
  rw [initResumableItem, withCurrentUser_of_ok huser]
  split
  · rename_i heq
    rw [heq]
  · rename_i heq
    rw [heq]

theorem getItemOffset_world (sessionId itemId : Uuid) :
    (getItemOffset server w now credentials sessionId itemId).2 =
      (SessionService.getItemOffset server.deployment w sessionId itemId user).2 := by
  rw [getItemOffset, withCurrentUser_of_ok huser]
  split
  · rename_i heq
    rw [heq]
  · rename_i heq
    rw [heq]

/-- Asking for the offset after a conflict changes nothing. -/
theorem uploadItemChunk_world (sessionId itemId : Uuid) (offset : ℤ) (chunkData : Bytes) :
    (uploadItemChunk server w now credentials sessionId itemId (.value offset) chunkData).2 =
      (SessionService.appendItemChunk server.deployment w now
        ⟨sessionId, itemId, user, chunkData, offset⟩).2 := by
  rw [uploadItemChunk, withCurrentUser_of_ok huser]
  dsimp only
  split
  · rename_i heq
    rw [heq]
  · rename_i heq
    rw [heq]
  · rename_i e w' heq
    rw [heq]
    split
    · obtain ⟨e', he'⟩ := onValueError_eq server w' sessionId itemId user e.message
      rw [he']
    · rfl

theorem deleteSession_world (sessionId : Uuid) (unlinkFails : Path → Bool) :
    (deleteSession server w now credentials sessionId unlinkFails).2 =
      (SessionService.deleteSession server.deployment w sessionId user unlinkFails).2 := by
  rw [deleteSession, withCurrentUser_of_ok huser]
  split
  · rename_i heq
    rw [heq]
  · rename_i heq
    rw [heq]

end SignedIn

theorem getSession_world (sessionCode : SessionCode) :
    (getSession w now sessionCode).2 = (SessionService.getSessionByCode w now sessionCode).2 := by
  unfold getSession
  split
  · rename_i heq
    rw [heq]
  · rename_i heq
    rw [heq]
  · rename_i heq
    rw [heq]

theorem downloadSessionItem_world (sessionCode : SessionCode) (itemId : Uuid) :
    (downloadSessionItem w now sessionCode itemId).2 =
      (SessionService.getSessionItem w now sessionCode itemId).2 := by
  unfold downloadSessionItem SessionService.downloadSessionItem
  generalize SessionService.getSessionItem w now sessionCode itemId = o
  obtain ⟨reply, w'⟩ := o
  cases reply with
  | error e => rfl
  | ok found =>
      cases found with
      | none => rfl
      | some found =>
          dsimp only
          cases SessionService.serveItem w'.files found.2 with
          | error e => rfl
          | ok response => rfl

theorem handle_downloadSessionItem (sessionCode : SessionCode) (itemId : Uuid) :
    (handle server w now credentials (.downloadSessionItem sessionCode itemId)).1 =
      (downloadSessionItem w now sessionCode itemId).2 := by
  rw [handle]
  split
  · rename_i heq
    rw [heq]
  · rename_i heq
    rw [heq]

/-- Without a user no request does anything, except for the two public ones. -/
theorem handle_of_error {e : HTTPException} (h : getCurrentUser server now credentials = .error e)
    {r : Request} (hprivate : r.publicCall = none) :
    (handle server w now credentials r).1 = w := by
  cases r with
  | getSession sessionCode => cases hprivate
  | downloadSessionItem sessionCode itemId => cases hprivate
  | createSession => exact congrArg Prod.snd (withCurrentUser_of_error h w _)
  | uploadSessionItem => exact congrArg Prod.snd (withCurrentUser_of_error h w _)
  | initResumableItem => exact congrArg Prod.snd (withCurrentUser_of_error h w _)
  | getItemOffset => exact congrArg Prod.snd (withCurrentUser_of_error h w _)
  | uploadItemChunk => exact congrArg Prod.snd (withCurrentUser_of_error h w _)
  | listMySessions => exact congrArg Prod.snd (withCurrentUser_of_error h w _)
  | deleteSession => exact congrArg Prod.snd (withCurrentUser_of_error h w _)

/-- A request of a user leaves what its call leaves. -/
theorem handle_of_user (huser : getCurrentUser server now credentials = .ok user) {r : Request}
    (hprivate : r.publicCall = none) :
    (handle server w now credentials r).1 =
      match r.call user with
      | none => w
      | some call => (exec server.deployment w ⟨now, call⟩).2 := by
  cases r with
  | getSession sessionCode => cases hprivate
  | downloadSessionItem sessionCode itemId => cases hprivate
  | createSession payload id draws => exact createSession_world huser payload id draws
  | uploadSessionItem sessionId file itemId =>
      exact uploadSessionItem_world huser sessionId file itemId
  | initResumableItem sessionId payload itemId =>
      exact initResumableItem_world huser sessionId payload itemId
  | getItemOffset sessionId itemId => exact getItemOffset_world huser sessionId itemId
  | uploadItemChunk sessionId itemId uploadOffset chunkData =>
      cases uploadOffset with
      | missing => exact congrArg Prod.snd (withCurrentUser_of_ok huser w _)
      | invalid => exact congrArg Prod.snd (withCurrentUser_of_ok huser w _)
      | value offset => exact uploadItemChunk_world huser sessionId itemId offset chunkData
  | listMySessions => exact congrArg Prod.snd (withCurrentUser_of_ok huser w _)
  | deleteSession sessionId unlinkFails => exact deleteSession_world huser sessionId unlinkFails

/-- A request leaves what its call leaves, and nothing happens where it leads to none. -/
theorem handle_world (server : Server) (w : World) (now : ℤ) (credentials : Option Str)
    (r : Request) :
    (handle server w now credentials r).1 =
      match r.callOf server now credentials with
      | none => w
      | some call => (exec server.deployment w ⟨now, call⟩).2 := by
  cases hpublic : r.publicCall with
  | some call =>
      rw [Request.callOf, hpublic]
      cases r with
      | getSession sessionCode =>
          cases hpublic
          exact getSession_world sessionCode
      | downloadSessionItem sessionCode itemId =>
          cases hpublic
          exact (handle_downloadSessionItem sessionCode itemId).trans
            (downloadSessionItem_world sessionCode itemId)
      | createSession => cases hpublic
      | uploadSessionItem => cases hpublic
      | initResumableItem => cases hpublic
      | getItemOffset => cases hpublic
      | uploadItemChunk => cases hpublic
      | listMySessions => cases hpublic
      | deleteSession => cases hpublic
  | none =>
      cases huser : getCurrentUser server now credentials with
      | error e => rw [handle_of_error huser hpublic, Request.callOf, hpublic, huser]
      | ok user => rw [handle_of_user huser hpublic, Request.callOf, hpublic, huser]

/-- Only a download of a burn-after-download session asks for its burn. -/
theorem handle_burn {r : Request} {sid : Uuid}
    (h : (handle server w now credentials r).2 = some sid) :
    ∃ m ∈ w.db.sessions.rows, m.id = sid ∧ m.burnAfterDownload = true := by
  cases r with
  | downloadSessionItem sessionCode itemId =>
      rw [handle, downloadSessionItem] at h
      unfold SessionService.downloadSessionItem at h
      rcases SessionService.getSessionItem_cases w now sessionCode itemId with
        heq | ⟨m, -, heq⟩ | ⟨m, i, hm, -, -, -, heq⟩
      · rw [heq] at h
        cases h
      · rw [heq] at h
        cases h
      · rw [heq] at h
        dsimp only at h
        cases hserve : SessionService.serveItem w.files i with
        | error e =>
            rw [hserve] at h
            cases h
        | ok response =>
            rw [hserve] at h
            dsimp only at h
            split at h
            · rename_i hburn
              cases h
              exact ⟨m, hm.mem, rfl, hburn⟩
            · cases h
  | createSession => cases h
  | uploadSessionItem => cases h
  | initResumableItem => cases h
  | getItemOffset => cases h
  | uploadItemChunk => cases h
  | listMySessions => cases h
  | getSession => cases h
  | deleteSession => cases h

/-! ## What a look-up answers -/

/-- The answer shows the session: its code, and all its items. -/
structure Details (w : World) (m : TransferSessionModel) (r : SessionDetailResponse) : Prop where
  sessionId : r.sessionId = m.id
  sessionCode : r.sessionCode = m.sessionCode
  burnAfterDownload : r.burnAfterDownload = m.burnAfterDownload
  items : r.items = (w.db.itemsOf m.id).map toItemResponse

theorem getSession_of_getByCode {sessionCode : SessionCode} {m : TransferSessionModel}
    (h : w.db.getByCode sessionCode = some (w.db.sessionToDomain m)) :
    ∃ r, (getSession w now sessionCode).1 = .ok r ∧ Details w m r := by
  unfold getSession SessionService.getSessionByCode
  rw [h]
  dsimp only
  by_cases hexpired : isExpired now (w.db.sessionToDomain m).expiresAt
  · rw [if_pos hexpired]
    exact ⟨_, rfl, rfl, rfl, rfl, rfl⟩
  · rw [if_neg hexpired]
    exact ⟨_, rfl, rfl, rfl, rfl, rfl⟩

theorem getSession_ok {sessionCode : SessionCode} {r : SessionDetailResponse}
    (h : (getSession w now sessionCode).1 = .ok r) :
    ∃ m ∈ w.db.sessions.rows, m.sessionCode = (Str.strip sessionCode).upper ∧ Details w m r := by
  cases hget : w.db.getByCode sessionCode with
  | none =>
      unfold getSession SessionService.getSessionByCode at h
      rw [hget] at h
      cases h
  | some s =>
      obtain ⟨m, hm, hcode, rfl⟩ := Db.getByCode_eq_some hget
      obtain ⟨r', hr', hdetails⟩ := @getSession_of_getByCode w now _ m hget
      obtain rfl : r = r' := Except.ok.inj (h.symm.trans hr')
      exact ⟨m, hm, hcode, hdetails⟩

end Leaves

end Api

end Jumbox
