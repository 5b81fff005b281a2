import Jumbox.Store.World

/-!
# `SessionService`

Every method of `application/sessions_service.py`, in the order of its effects.
Identifiers drawn by `uuid4` and share codes drawn by `secrets` are arguments.
The methods that commit several transactions are built from one definition a
transaction, so that the interleaving models can run the same transactions one
at a time. The chunk storage is configured, as the API configures it.
-/

namespace Jumbox

namespace SessionService

/-! ## Sessions -/

/-- `f"{n:04d}"` -/
def pad4 (n : ℕ) : Str :=
  let digits := Nat.toDigits 10 n
  List.replicate (4 - digits.length) '0' ++ digits

/-- `TransferCodeGenerator.generate_session_code` on the two values drawn. -/
def generateSessionCode (draw : Fin 9000 × Fin 9000) : Str :=
  pad4 (draw.1 + 1000) ++ '-' :: pad4 (draw.2 + 1000)

/-- The retry loop of `create_session`: a code in use is drawn again, `n` times. -/
def drawSessionCode (db : Db) (draws : ℕ → Fin 9000 × Fin 9000) : ℕ → ℕ → Str → Str
  | 0, _, code => code
  | n + 1, k, code =>
      match db.getByCode code with
      | none => code
      | some _ => drawSessionCode db draws n (k + 1) (generateSessionCode (draws k))

def createSession (w : World) (now : ℤ) (owner : AuthenticatedUser) (expiresInSeconds : ℤ)
    (burnAfterDownload : Bool) (id : Uuid) (draws : ℕ → Fin 9000 × Fin 9000) :
    Outcome TransferSession :=
  let expiresAt : Except Error (Option ℤ) :=
    if 0 < expiresInSeconds then (addSeconds now expiresInSeconds).map some else .ok none
  match expiresAt with
  | .error e => (.error e, w)
  | .ok expiresAt =>
      let session : TransferSession :=
        { ownerId := owner.userId
          sessionCode := drawSessionCode w.db draws 5 1 (generateSessionCode (draws 0))
          id
          expiresAt := expiresAt.map (⟨·, true⟩)
          burnAfterDownload
          createdAt := now
          status_ := .pending }
      match w.db.add session with
      | .error e => (.error e, w)
      | .ok db => (.ok session, w.withDb db)

/-- `session.status = EXPIRED`, save and commit. -/
def expire (w : World) (session : TransferSession) : World :=
  w.withDb (w.db.save { session with status_ := .expired })

/-- `try: await storage.delete(item.stored_name or item.storage_path)`, for an
item that has a storage path. -/
def tryDelete (unlinkFails : Path → Bool) (fs : Files) (item : TransferItem) : Files :=
  match item.storagePath with
  | none => fs
  | some path =>
      let name := item.storedName.getD []
      let argument := if name = [] then path.text else name
      match LocalFileStorage.delete unlinkFails fs (.text argument) with
      | .error _ => fs
      | .ok fs => fs

/-- The committed write of `burn_session`. -/
def burned (session : TransferSession) : TransferSession :=
  { session.recordDownload with status_ := .expired }

def burnSession (w : World) (sessionId : Uuid) (unlinkFails : Path → Bool) : Outcome Unit :=
  match w.db.getById sessionId with
  | none => (.ok (), w)
  | some session =>
      let w := w.withDb (w.db.save (burned session))
      (.ok (), w.withFiles (session.items.foldl (tryDelete unlinkFails) w.files))

def tryDeletePart (d : Deployment) (unlinkFails : Path → Bool) (sessionId : Uuid) (fs : Files)
    (item : TransferItem) : Files :=
  match ChunkStorage.deletePart d unlinkFails fs sessionId item.id with
  | .error _ => fs
  | .ok fs => fs

def deleteSession (d : Deployment) (w : World) (sessionId : Uuid) (owner : AuthenticatedUser)
    (unlinkFails : Path → Bool) : Outcome Unit :=
  match w.db.getById sessionId with
  | none => (.error (.sessionNotFound sessionId), w)
  | some session =>
      if session.ownerId ≠ owner.userId ∧ owner.isAdmin = false then
        (.error (.permissionDenied "Cannot delete a session you do not own"), w)
      else
        let fs := session.items.foldl (fun fs item =>
          tryDeletePart d unlinkFails sessionId (tryDelete unlinkFails fs item) item) w.files
        (.ok (), (w.withFiles fs).withDb (w.db.deleteById sessionId))

/-- The checks that open `upload_item`, `init_resumable_item` and
`append_item_chunk`. -/
def openForUpload (w : World) (now : ℤ) (sessionId : Uuid) (owner : AuthenticatedUser) :
    Outcome TransferSession :=
  match w.db.getById sessionId with
  | none => (.error (.sessionNotFound sessionId), w)
  | some session =>
      if session.ownerId ≠ owner.userId ∧ owner.isAdmin = false then
        (.error (.permissionDenied "Cannot upload to a session you do not own"), w)
      else if isExpired now session.expiresAt then (.error .sessionExpired, expire w session)
      else (.ok session, w)

/-! ## One-shot upload -/

/-- `f"{item_id}_{safe_filename}"` -/
def storedNameOf (itemId : Uuid) (safeFilename : Str) : Str := itemId.str ++ '_' :: safeFilename

/-- The item a fresh upload adds. -/
def newItem (d : Deployment) (now : ℤ) (sessionId itemId : Uuid) (originalName : Str)
    (sizeBytes : ℤ) (checksumSha256 : Option Str) (status : ItemStatus) : TransferItem :=
  { id := itemId
    sessionId
    originalName
    storedName := some (storedNameOf itemId (sanitizeFilename d originalName))
    sizeBytes
    checksumSha256
    status
    createdAt := now }

/-- `mark_completed` and the size written with it. -/
def completed (item : TransferItem) (checksumSha256 : Str) (path : Path) (storedName : Str)
    (sizeBytes : ℕ) : TransferItem :=
  { item.markCompleted checksumSha256 path (some storedName) with sizeBytes }

/-- The second half of both closing transactions: save the status the session
derives from its items. -/
def saveSessionStatus (db : Db) (sessionId : Uuid) : Db :=
  match db.getById sessionId with
  | none => db
  | some session => db.save session

/-- The closing transaction of `upload_item`. -/
def closeUpload (db : Db) (sessionId itemId : Uuid) (stored : StoredFile) (storedName : Str) :
    Except Error TransferItem × Db :=
  match db.getItemById itemId with
  | none => (.error (.itemNotFound itemId), db)
  | some item =>
      let item := completed item stored.sha256 stored.path storedName stored.sizeBytes
      (.ok item, saveSessionStatus (db.saveItem item) sessionId)

/-- The transaction of the `except` clause. -/
def failUpload (db : Db) (itemId : Uuid) (e : Error) : Db :=
  match db.getItemById itemId with
  | none => db
  | some item => db.saveItem (item.markFailed e.message)

def uploadItem (d : Deployment) (w : World) (now : ℤ) (sessionId : Uuid)
    (owner : AuthenticatedUser) (filename : Str) (content : UploadStream) (sizeBytes : ℤ)
    (itemId : Uuid) : Outcome TransferItem :=
  let safeFilename := sanitizeFilename d filename
  let destFilename := sessionId.str ++ '/' :: storedNameOf itemId safeFilename
  match openForUpload w now sessionId owner with
  | (.error e, w) => (.error e, w)
  | (.ok _, w) =>
      let w := w.withDb (w.db.addItem
        (newItem d now sessionId itemId filename sizeBytes none .uploading))
      match LocalFileStorage.saveUpload d w.files now destFilename content with
      | (.error e, fs) => (.error e, (w.withFiles fs).withDb (failUpload w.db itemId e))
      | (.ok stored, fs) =>
          match closeUpload w.db sessionId itemId stored (storedNameOf itemId safeFilename) with
          | (.error e, db) => (.error e, (w.withFiles fs).withDb (failUpload db itemId e))
          | (.ok item, db) => (.ok item, (w.withFiles fs).withDb db)

/-! ## Lookups -/

def getSessionByCode (w : World) (now : ℤ) (sessionCode : Str) :
    Outcome (Option TransferSession) :=
  match w.db.getByCode sessionCode with
  | none => (.ok none, w)
  | some session =>
      if isExpired now session.expiresAt then
        (.ok (some { session with status_ := .expired }), expire w session)
      else (.ok (some session), w)

def getSessionById (w : World) (sessionId : Uuid) : Outcome (Option TransferSession) :=
  (.ok (w.db.getById sessionId), w)

def getSessionItem (w : World) (now : ℤ) (sessionCode : Str) (itemId : Uuid) :
    Outcome (Option (TransferSession × TransferItem)) :=
  match w.db.getByCode sessionCode with
  | none => (.ok none, w)
  | some session =>
      if isExpired now session.expiresAt ∨ session.status = .expired then
        (.ok none, expire w session)
      else (.ok ((session.items.find? (·.id = itemId)).map (session, ·)), w)

def listMySessions (w : World) (owner : AuthenticatedUser) (limit : ℕ) :
    Outcome (List TransferSession) :=
  (.ok (w.db.listForOwner owner.userId limit), w)

/-! ## Resumable upload -/

def initResumableItem (d : Deployment) (w : World) (now : ℤ) (sessionId : Uuid)
    (owner : AuthenticatedUser) (originalName : Str) (totalSizeBytes : ℤ)
    (expectedSha256 : Option Str) (itemId : Uuid) : Outcome TransferItem :=
  match openForUpload w now sessionId owner with
  | (.error e, w) => (.error e, w)
  | (.ok _, w) =>
      let item := newItem d now sessionId itemId originalName totalSizeBytes expectedSha256 .queued
      (.ok item, w.withDb (w.db.addItem item))

/-- `item is None or item.session_id != session_id` -/
def findItem (w : World) (sessionId itemId : Uuid) : Except Error TransferItem :=
  match w.db.getItemById itemId with
  | none => .error (.itemNotFound itemId)
  | some item => if item.sessionId ≠ sessionId then .error (.itemNotFound itemId) else .ok item

def getItemOffset (d : Deployment) (w : World) (sessionId itemId : Uuid)
    (owner : AuthenticatedUser) : Outcome (TransferItem × ℕ) :=
  match w.db.getById sessionId with
  | none => (.error (.sessionNotFound sessionId), w)
  | some session =>
      if session.ownerId ≠ owner.userId ∧ owner.isAdmin = false then
        (.error (.permissionDenied "Cannot inspect a session you do not own"), w)
      else
        match findItem w sessionId itemId with
        | .error e => (.error e, w)
        | .ok item => (.ok (item, ChunkStorage.getOffset d w.files sessionId itemId), w)

/-- The arguments of `append_item_chunk`. -/
structure ChunkRequest where
  sessionId : Uuid
  itemId : Uuid
  owner : AuthenticatedUser
  chunkData : Bytes
  offset : ℤ
deriving DecidableEq

/-- The opening transaction of `append_item_chunk`. -/
def openChunk (w : World) (now : ℤ) (c : ChunkRequest) : Outcome TransferItem :=
  match openForUpload w now c.sessionId c.owner with
  | (.error e, w) => (.error e, w)
  | (.ok _, w) => (findItem w c.sessionId c.itemId, w)

/-- `new_offset >= item.size_bytes and item.size_bytes > 0` -/
def reachesEnd (item : TransferItem) (newOffset : ℕ) : Bool :=
  item.sizeBytes ≤ newOffset ∧ 0 < item.sizeBytes

/-- The closing transaction of a finished upload. -/
def closeChunk (db : Db) (sessionId itemId : Uuid) (computedSha : Str) (path : Path)
    (storedName : Str) (finalSize : ℕ) : Option TransferItem × Db :=
  match db.getItemById itemId with
  | none => (none, saveSessionStatus db sessionId)
  | some item =>
      let item := completed item computedSha path storedName finalSize
      (some item, saveSessionStatus (db.saveItem item) sessionId)

/-- The closing transaction of a chunk that leaves bytes to send. -/
def continueChunk (db : Db) (itemId : Uuid) : Option TransferItem × Db :=
  match db.getItemById itemId with
  | none => (none, db)
  | some item => (some item.markUploading, db.saveItem item.markUploading)

/-- What follows the append: finish the item, or mark it as uploading. -/
def afterAppend (d : Deployment) (w : World) (c : ChunkRequest) (item : TransferItem)
    (newOffset : ℕ) : Outcome (Option TransferItem × ℕ × Bool) :=
  if reachesEnd item newOffset then
    let safeName := sanitizeFilename d item.originalName
    match ChunkStorage.finalizeChunkUpload d w.files c.sessionId c.itemId safeName
        item.checksumSha256 with
    | (.error e, fs) => (.error e, w.withFiles fs)
    | (.ok (computedSha, path, finalSize), fs) =>
        let (item, db) := closeChunk w.db c.sessionId c.itemId computedSha path
          (storedNameOf c.itemId safeName) finalSize
        (.ok (item, newOffset, true), (w.withFiles fs).withDb db)
  else
    let (item, db) := continueChunk w.db c.itemId
    (.ok (item, newOffset, false), w.withDb db)

def appendItemChunk (d : Deployment) (w : World) (now : ℤ) (c : ChunkRequest) :
    Outcome (Option TransferItem × ℕ × Bool) :=
  match openChunk w now c with
  | (.error e, w) => (.error e, w)
  | (.ok item, w) =>
      match ChunkStorage.appendChunk d w.files now c.sessionId c.itemId c.chunkData c.offset with
      | (.error e, fs) => (.error e, w.withFiles fs)
      | (.ok newOffset, fs) => afterAppend d (w.withFiles fs) c item newOffset

end SessionService

end Jumbox
