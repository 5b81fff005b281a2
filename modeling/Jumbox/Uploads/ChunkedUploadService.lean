import Jumbox.Uploads.Cache
import Jumbox.Uploads.TransferService

/-!
# `ChunkedUploadService`

Upload sessions live in the cache; their bytes in one temporary file for each
owner and original name. A destination that is a directory is one the code did
not mean: `shutil.move` then moves into it, and reading it back fails.
-/

namespace Jumbox

namespace ChunkedUploadService

open TransferService (Registration UploadTransferResult buildExpiry registerCompletedFile safeName)

variable (d : Deployment)

structure UploadSessionResult where
  sessionId : Uuid
  status : UploadSessionStatus
  receivedBytes : ℤ
  totalSizeBytes : ℤ
  expiresAt : Option ℤ
deriving DecidableEq

structure ChunkUploadResult where
  sessionId : Uuid
  status : UploadSessionStatus
  receivedBytes : ℤ
  totalSizeBytes : ℤ
  completed : Bool
  transferCode : Option Str := none
  downloadUrl : Option Str := none
deriving DecidableEq

/-- `temp_root / f"{owner.user_id}_{original_name}.part"` -/
def tempPath (ownerId : Uuid) (originalName : Str) : Path :=
  d.tempDir.join (ownerId.str ++ '_' :: (originalName ++ ".part".toList))

/-- `uploads_root / original_name.replace(" ", "_")` -/
def finalPath (originalName : Str) : Path := d.uploadsDir.join (safeName originalName)

def createSession (w : World) (now : ℤ) (owner : AuthenticatedUser) (originalName : Str)
    (totalSizeBytes : ℤ) (expiresInSeconds : Option ℤ) (folderId : Option Uuid) (id : Uuid) :
    Outcome UploadSessionResult :=
  match buildExpiry now expiresInSeconds with
  | .error e => (.error e, w)
  | .ok expiresAt =>
      let session : UploadSession :=
        { ownerId := owner.userId
          folderId
          originalName
          totalSizeBytes
          tempPath := tempPath d owner.userId originalName
          expiresAt
          id }
      (.ok ⟨session.id, session.status, session.receivedBytes, session.totalSizeBytes, expiresAt⟩,
        w.withCache (w.cache.save now session))

/-- The checks that open `append_chunk`. -/
def openSession (w : World) (now : ℤ) (owner : AuthenticatedUser) (sessionId : Uuid) :
    Except Error UploadSession :=
  match w.cache.get now sessionId with
  | none => .error ⟨.notFoundError, "Upload session not found".toList⟩
  | some session =>
      if session.ownerId ≠ owner.userId then
        .error ⟨.notFoundError, "Upload session not found".toList⟩
      else if session.status ≠ .active then
        .error ⟨.notFoundError, "Upload session is no longer active".toList⟩
      else .ok session

/-- The variables of the loop in `write_chunks`. -/
structure WriteLoop where
  target : Bytes := []
  sizeWritten : ℕ
deriving DecidableEq

def writeLoop (v : WriteLoop) : List Bytes → WriteLoop
  | [] => v
  | data :: rest =>
      if data = [] then v else writeLoop ⟨v.target ++ data, v.sizeWritten + data.length⟩ rest

/-- One run of `write_chunks` on what the stream has left. -/
def writeChunks (fs : Files) (now : ℤ) (tempPath : Path) (blocks : List Bytes) (sizeWritten : ℕ) :
    ℕ × Files :=
  let v := writeLoop { sizeWritten } blocks
  (v.sizeWritten, fs.append tempPath now v.target)

/-- `write_chunks` runs twice; the second time the stream is at its end. -/
def appendToTempFile (fs : Files) (now : ℤ) (tempPath : Path) (chunk : UploadStream) :
    Except Error ℕ × Files :=
  let (sizeWritten, fs) := writeChunks fs now tempPath chunk.blocks 0
  match chunk.failure with
  | some message => (.error ⟨.osError, message⟩, fs)
  | none =>
      let (sizeWritten, fs) := writeChunks fs now tempPath [] sizeWritten
      (.ok sizeWritten, fs)

/-- The upload directory and what is above it. -/
def isDirectory (p : Path) : Bool := p.isPrefixOf d.uploadsDir

/-- `shutil.move(src, dst)`. -/
def move (fs : Files) (src dst : Path) : Except Error Files :=
  let missing : Error := ⟨.fileNotFoundError, "No such file or directory".toList⟩
  if isDirectory d dst then
    let realDst := dst ++ [src.getLastD []]
    if (fs realDst).isSome then
      .error ⟨.osError, "Destination path '".toList ++ Path.text realDst ++
        "' already exists".toList⟩
    else (fs.move src realDst).elim (.error missing) .ok
  else (fs.move src dst).elim (.error missing) .ok

def finalizeTempFile (fs : Files) (tempPath : Path) (originalName : Str) :
    Except Error (Path × Files) :=
  let finalPath := finalPath d originalName
  (move d fs tempPath finalPath).map (finalPath, ·)

/-- `_checksum`; the read loop is the one `ChunkStorage` has. -/
def checksum (fs : Files) (filePath : Path) : Except Error Str :=
  if isDirectory d filePath then
    .error ⟨.isADirectoryError, "Is a directory: ".toList ++ Path.text filePath⟩
  else
    match fs filePath with
    | none => .error ⟨.fileNotFoundError, "No such file or directory".toList⟩
    | some f => .ok (hexdigest (ChunkStorage.hashLoop 1048576 f.data.length f.data []))

/-- What a completing call draws and the database answers. -/
structure Draws where
  transferId : Uuid
  codes : ℕ → Fin (32 ^ 6)
  rejection : Option Error := none

/-- What is registered for a completed session. -/
def registration (now : ℤ) (owner : AuthenticatedUser) (session : UploadSession) (draws : Draws) :
    Registration where
  owner
  -- `int((expires_at - now).total_seconds())` cuts towards zero
  expiresInSeconds := session.expiresAt.map fun t => (t - now).tdiv 1000000
  folderId := session.folderId
  transferId := draws.transferId
  draws := draws.codes
  rejection := draws.rejection

/-- The branch of `append_chunk` for a session that has received all it was to. -/
def completeSession (w : World) (now : ℤ) (owner : AuthenticatedUser) (session : UploadSession)
    (draws : Draws) : Outcome ChunkUploadResult :=
  let session := session.markCompleted
  match finalizeTempFile d w.files session.tempPath session.originalName with
  | .error e => (.error e, w)
  | .ok (finalPath, fs) =>
      let w := w.withFiles fs
      match checksum d w.files finalPath with
      | .error e => (.error e, w)
      | .ok checksum =>
          match registerCompletedFile w now (registration now owner session draws)
              session.originalName finalPath session.receivedBytes checksum with
          | (.error e, w) => (.error e, w)
          | (.ok result, w) =>
              (.ok ⟨session.id, session.status, session.receivedBytes, session.totalSizeBytes, true,
                  some result.transferCode, some result.downloadUrl⟩,
                w.withCache (w.cache.delete session.id))

def appendChunk (w : World) (now : ℤ) (owner : AuthenticatedUser) (sessionId : Uuid)
    (chunk : UploadStream) (draws : Draws) : Outcome ChunkUploadResult :=
  match openSession w now owner sessionId with
  | .error e => (.error e, w)
  | .ok session =>
      match appendToTempFile w.files now session.tempPath chunk with
      | (.error e, fs) => (.error e, w.withFiles fs)
      | (.ok bytesWritten, fs) =>
          let w := w.withFiles fs
          let session := session.advance bytesWritten
          if session.totalSizeBytes ≤ session.receivedBytes then
            completeSession d w now owner session draws
          else
            (.ok ⟨session.id, session.status, session.receivedBytes, session.totalSizeBytes, false,
                none, none⟩,
              w.withCache (w.cache.save now session))

end ChunkedUploadService

end Jumbox
