import Jumbox.Security.TokenService
import Jumbox.Sessions.Methods

/-!
# The routes of a resumable upload

The three handlers of `api/routes/sessions.py` that a resumable upload goes
through, behind the bearer token check of `api/dependencies.py`. A request is
its parts as the framework hands them over, an answer is the response model or
the exception that becomes the response.
-/

namespace Jumbox

namespace Api

/-- `uploadOffset` is the header of that name. -/
structure HTTPException where
  statusCode : ℕ
  detail : Str
  uploadOffset : Option ℕ := none
deriving DecidableEq

/-- The answer to an exception that no handler catches. -/
def internalServerError : HTTPException := ⟨500, "Internal Server Error".toList, none⟩

abbrev Reply (α : Type) := Except HTTPException α × World

/-- `except ... as exc: raise HTTPException(..., detail=str(exc))` for the listed
classes. -/
def raised (handlers : List (ErrorKind × ℕ)) (e : Error) : HTTPException :=
  match handlers.lookup e.kind with
  | some statusCode => ⟨statusCode, e.message, none⟩
  | none => internalServerError

/-- What the handlers depend on. -/
structure Server where
  deployment : Deployment
  tokens : HMACTokenService
  json : Json

/-! ## Dependencies -/

/-- `credentials` is the token of the `Authorization: Bearer` header, if the
request has one. -/
def getCurrentToken (credentials : Option Str) : Except HTTPException Str :=
  match credentials with
  | none => .error ⟨401, "Not authenticated".toList, none⟩
  | some credentials => .ok credentials

def getCurrentUser (server : Server) (now : ℤ) (credentials : Option Str) :
    Except HTTPException AuthenticatedUser :=
  match getCurrentToken credentials with
  | .error e => .error e
  | .ok token =>
      match server.tokens.getCurrentUser server.json now token with
      | .error e => .error (raised [(.authenticationError, 401)] e)
      | .ok user => .ok user

/-- A handler runs once its user is known. -/
def withCurrentUser {α : Type} (server : Server) (w : World) (now : ℤ) (credentials : Option Str)
    (handler : AuthenticatedUser → Reply α) : Reply α :=
  match getCurrentUser server now credentials with
  | .error e => (.error e, w)
  | .ok user => handler user

/-! ## Handlers -/

structure TransferItemResponse where
  itemId : Uuid
  sessionId : Uuid
  originalName : Str
  sizeBytes : ℤ
  checksumSha256 : Option Str
  status : ItemStatus
  errorMessage : Option Str

/-- `_to_item_response` -/
def toItemResponse (item : TransferItem) : TransferItemResponse where
  itemId := item.id
  sessionId := item.sessionId
  originalName := item.originalName
  sizeBytes := item.sizeBytes
  checksumSha256 := item.checksumSha256
  status := item.status
  errorMessage := item.errorMessage

/-- The payload has been validated, so its size is not negative. -/
def initResumableItem (server : Server) (w : World) (now : ℤ) (credentials : Option Str)
    (sessionId : Uuid) (originalName : Str) (totalSizeBytes : ℕ) (expectedSha256 : Option Str)
    (itemId : Uuid) : Reply TransferItemResponse :=
  withCurrentUser server w now credentials fun user =>
    match SessionService.initResumableItem server.deployment w now sessionId user originalName
        totalSizeBytes expectedSha256 itemId with
    | (.ok item, w) => (.ok (toItemResponse item), w)
    | (.error e, w) =>
        (.error (raised [(.sessionNotFoundError, 404), (.permissionDeniedError, 403),
          (.sessionExpiredError, 410)] e), w)

structure OffsetResponse where
  itemId : Uuid
  bytesReceived : ℕ
  totalSizeBytes : ℤ
  status : ItemStatus

def getItemOffset (server : Server) (w : World) (now : ℤ) (credentials : Option Str)
    (sessionId itemId : Uuid) : Reply OffsetResponse :=
  withCurrentUser server w now credentials fun user =>
    match SessionService.getItemOffset server.deployment w sessionId itemId user with
    | (.ok (item, offset), w) => (.ok ⟨item.id, offset, item.sizeBytes, item.status⟩, w)
    | (.error e, w) =>
        (.error (raised [(.sessionNotFoundError, 404), (.itemNotFoundError, 404),
          (.permissionDeniedError, 403)] e), w)

/-- The header `Upload-Offset` as `int` reads it. -/
inductive UploadOffset where
  | missing
  | invalid
  | value (offset : ℤ)

structure ChunkUploadResponse where
  itemId : Uuid
  bytesReceived : ℕ
  totalSizeBytes : ℤ
  completed : Bool
  checksumSha256 : Option Str
  status : ItemStatus

/-- The `except ValueError` clause of `upload_item_chunk`. -/
def onValueError (server : Server) (w : World) (sessionId itemId : Uuid) (user : AuthenticatedUser)
    (message : Str) : Reply ChunkUploadResponse :=
  if "Offset mismatch".toList <:+: message then
    match SessionService.getItemOffset server.deployment w sessionId itemId user with
    | (.ok (_, currentOffset), w) => (.error ⟨409, message, some currentOffset⟩, w)
    | (.error _, w) => (.error internalServerError, w)
  -- a checksum mismatch and all else are answered alike
  else (.error ⟨400, message, none⟩, w)

def uploadItemChunk (server : Server) (w : World) (now : ℤ) (credentials : Option Str)
    (sessionId itemId : Uuid) (uploadOffset : UploadOffset) (chunkData : Bytes) :
    Reply ChunkUploadResponse :=
  withCurrentUser server w now credentials fun user =>
    match uploadOffset with
    | .missing => (.error ⟨400, "Missing Upload-Offset header".toList, none⟩, w)
    | .invalid => (.error ⟨400, "Invalid Upload-Offset header".toList, none⟩, w)
    | .value offset =>
        match SessionService.appendItemChunk server.deployment w now
            ⟨sessionId, itemId, user, chunkData, offset⟩ with
        | (.ok (some item, newOffset, completed), w) =>
            (.ok
              { itemId := item.id
                bytesReceived := newOffset
                totalSizeBytes := item.sizeBytes
                completed
                checksumSha256 := if completed then item.checksumSha256 else none
                status := item.status }, w)
        -- the item has been deleted meanwhile, and `None` has no attributes
        | (.ok (none, _, _), w) => (.error internalServerError, w)
        | (.error e, w) =>
            if e.kind = .valueError then onValueError server w sessionId itemId user e.message
            else
              (.error (raised [(.sessionNotFoundError, 404), (.itemNotFoundError, 404),
                (.permissionDeniedError, 403), (.sessionExpiredError, 410)] e), w)

/-! ## What the handlers do -/

/-- Without a token nothing is looked at. -/
theorem withCurrentUser_none {α : Type} (server : Server) (w : World) (now : ℤ)
    (handler : AuthenticatedUser → Reply α) :
    withCurrentUser server w now none handler =
      (.error ⟨401, "Not authenticated".toList, none⟩, w) := rfl

theorem getCurrentUser_of_token {server : Server} {now : ℤ} {token : Str} {user : AuthenticatedUser}
    (h : server.tokens.getCurrentUser server.json now token = .ok user) :
    getCurrentUser server now (some token) = .ok user := by
  simp only [getCurrentUser, getCurrentToken, h]

/-- A token that is not accepted leaves everything as it is. -/
theorem withCurrentUser_of_error {α : Type} {server : Server} {now : ℤ} {credentials : Option Str}
    {e : HTTPException} (h : getCurrentUser server now credentials = .error e) (w : World)
    (handler : AuthenticatedUser → Reply α) :
    withCurrentUser server w now credentials handler = (.error e, w) := by
  rw [withCurrentUser, h]

theorem withCurrentUser_of_ok {α : Type} {server : Server} {now : ℤ} {credentials : Option Str}
    {user : AuthenticatedUser} (h : getCurrentUser server now credentials = .ok user) (w : World)
    (handler : AuthenticatedUser → Reply α) :
    withCurrentUser server w now credentials handler = handler user := by
  rw [withCurrentUser, h]

/-- An error is an error in whatever clause it ends up, and asking for the offset
once more changes nothing. -/
theorem onValueError_eq (server : Server) (w : World) (sessionId itemId : Uuid)
    (user : AuthenticatedUser) (message : Str) :
    ∃ e, onValueError server w sessionId itemId user message = (.error e, w) := by
  unfold onValueError
  split
  · rcases SessionService.getItemOffset_cases server.deployment w sessionId itemId user with
      ⟨e, heq⟩ | ⟨_, _, -, -, -, -, -, -, heq⟩
    · rw [heq]
      exact ⟨_, rfl⟩
    · rw [heq]
      exact ⟨_, rfl⟩
  · exact ⟨_, rfl⟩

end Api

end Jumbox
