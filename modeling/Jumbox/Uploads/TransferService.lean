import Mathlib.Algebra.Ring.Nat
import Jumbox.Store.World

/-!
# `TransferService`

The lookup and the writing methods of `application/transfers_service.py`. The
random draws of the code generator, the identifier drawn by `uuid4`, and the
error with which the database rejects a row for a reason that is not in these
tables (a foreign key, the length of a column), if it does, are arguments.
-/

namespace Jumbox

namespace TransferService

def defaultUploadName : Str := "upload.bin".toList

def base32Alphabet : Str := "ABCDEFGHIJKLMNOPQRSTUVWXYZ234567".toList

/-- The loop of `TransferCodeGenerator.generate`; the remainders come least
significant first and are reversed in the end. -/
def generateLoop : ℕ → ℕ → Str → Str
  | 0, _, reversed => reversed
  | n + 1, value, reversed =>
      generateLoop n (value / 32) (base32Alphabet.getD (value % 32) 'A' :: reversed)

/-- `generate` on the value that `secrets.randbelow(32 ** 6)` returns. -/
def generate (value : Fin (32 ^ 6)) : Str := generateLoop 6 value []

/-- The loop of `_create_unique_transfer_code` from draw `k`. A code that the
same owner uses already is returned as well. -/
def createUniqueTransferCode (db : Db) (ownerId : Uuid) (draws : ℕ → Fin (32 ^ 6)) :
    ℕ → ℕ → Except Error Str
  | 0, _ => .error ⟨.runtimeError, "Unable to generate a unique transfer code".toList⟩
  | n + 1, k =>
      let code := generate (draws k)
      match db.getTransferByCode code with
      | none => .ok code
      | some existing =>
          if existing.ownerId = ownerId then .ok code
          else createUniqueTransferCode db ownerId draws n (k + 1)

def buildExpiry (now : ℤ) : Option ℤ → Except Error (Option ℤ)
  | none => .ok none
  | some expiresInSeconds => (addSeconds now expiresInSeconds).map some

/-- `original_name.replace(" ", "_")` -/
def safeName (originalName : Str) : Str := Str.replace ' ' '_' originalName

def buildStoredName (ownerId : Uuid) (originalName : Str) : Str :=
  ownerId.str ++ '_' :: safeName originalName

structure UploadTransferResult where
  transferId : Uuid
  transferCode : Str
  downloadUrl : Str
  expiresAt : Option ℤ
  sha256 : Str
  sizeBytes : ℤ
  originalName : Str
deriving DecidableEq

def downloadUrl (transferCode : Str) : Str :=
  "/api/v1/transfers/".toList ++ transferCode ++ "/download".toList

/-- What a row is made of besides its file and its name. -/
structure Registration where
  owner : AuthenticatedUser
  expiresInSeconds : Option ℤ
  folderId : Option Uuid
  transferId : Uuid
  draws : ℕ → Fin (32 ^ 6)
  rejection : Option Error := none

/-- The transfer as it is built before its transaction. -/
def newTransfer (now : ℤ) (r : Registration) (originalName : Str) (storagePath : Path)
    (sizeBytes : ℤ) (checksumSha256 : Str) : Transfer :=
  { ownerId := r.owner.userId
    folderId := r.folderId
    originalName
    storedName := buildStoredName r.owner.userId originalName
    storagePath := some storagePath
    sizeBytes
    checksumSha256 := some checksumSha256
    status := .processing
    sha256Verified := true
    id := r.transferId
    createdAt := now }

/-- The transaction that both methods end with. -/
def register (db : Db) (now : ℤ) (r : Registration) (originalName : Str) (storagePath : Path)
    (sizeBytes : ℤ) (checksumSha256 : Str) : Except Error (UploadTransferResult × Db) :=
  match createUniqueTransferCode db r.owner.userId r.draws 20 0 with
  | .error e => .error e
  | .ok code =>
      match buildExpiry now r.expiresInSeconds with
      | .error e => .error e
      | .ok expiresAt =>
          let transfer := newTransfer now r originalName storagePath sizeBytes checksumSha256
          let transfer := transfer.markReady code (expiresAt.map (⟨·, true⟩))
          let transfer := transfer.setChecksum checksumSha256
          match r.rejection with
          | some e => .error e
          | none =>
              match db.addTransfer transfer with
              | .error e => .error e
              | .ok db =>
                  .ok (⟨transfer.id, code, downloadUrl code, expiresAt, checksumSha256, sizeBytes,
                    originalName⟩, db)

def registerCompletedFile (w : World) (now : ℤ) (r : Registration) (originalName : Str)
    (storedPath : Path) (sizeBytes : ℤ) (checksumSha256 : Str) : Outcome UploadTransferResult :=
  match register w.db now r originalName storedPath sizeBytes checksumSha256 with
  | .error e => (.error e, w)
  | .ok (result, db) => (.ok result, w.withDb db)

/-- `uploaded_file.filename or DEFAULT_UPLOAD_NAME` -/
def uploadName (filename : Option Str) : Str :=
  if filename.getD [] = [] then defaultUploadName else filename.getD []

def uploadFile (d : Deployment) (w : World) (now : ℤ) (filename : Option Str)
    (content : UploadStream) (r : Registration) : Outcome UploadTransferResult :=
  let originalName := uploadName filename
  let storedName := buildStoredName r.owner.userId originalName
  match LocalFileStorage.saveUpload d w.files now storedName content with
  | (.error e, fs) => (.error e, w.withFiles fs)
  | (.ok stored, fs) =>
      match register w.db now r originalName stored.path stored.sizeBytes stored.sha256 with
      | .error e => (.error e, w.withFiles fs)
      | .ok (result, db) => (.ok result, (w.withFiles fs).withDb db)

def resolveTransfer (w : World) (transferCode : Str) : Except Error Transfer :=
  match w.db.getTransferByCode transferCode with
  | none => .error ⟨.notFoundError, "Transfer not found".toList⟩
  | some transfer => .ok transfer

def markDownloaded (w : World) (now : ℤ) (transferCode : Str) : Outcome Transfer :=
  match w.db.getTransferByCode transferCode with
  | none => (.error ⟨.notFoundError, "Transfer not found".toList⟩, w)
  | some transfer =>
      let transfer := transfer.markDownloaded now
      (.ok transfer, w.withDb (w.db.saveTransfer transfer))

end TransferService

end Jumbox
