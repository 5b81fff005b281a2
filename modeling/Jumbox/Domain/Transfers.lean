import Jumbox.Domain.Basic

/-!
# Single transfers and chunked upload sessions

`domain/transfers.py` and `domain/uploads.py`. `updated_at` and `version_number` are
not read by what is modelled, so they are left out; `search_text` is read by the
search alone, which takes it as a parameter.
-/

namespace Jumbox

inductive TransferStatus where
  | uploading
  | processing
  | ready
  | downloaded
  | expired
  | failed
deriving DecidableEq

structure Transfer where
  ownerId : Uuid
  originalName : Str
  storedName : Str
  sizeBytes : ℤ
  id : Uuid
  checksumSha256 : Option Str := none
  transferCode : Option Str := none
  status : TransferStatus := .uploading
  expiresAt : Option Datetime := none
  downloadedAt : Option ℤ := none
  folderId : Option Uuid := none
  storagePath : Option Path := none
  sha256Verified : Bool := false
  createdAt : ℤ
deriving DecidableEq

namespace Transfer

def markReady (t : Transfer) (transferCode : Str) (expiresAt : Option Datetime) : Transfer :=
  { t with transferCode := some transferCode, expiresAt := expiresAt, status := .ready }

def markDownloaded (t : Transfer) (now : ℤ) : Transfer :=
  { t with status := .downloaded, downloadedAt := some now }

def setChecksum (t : Transfer) (checksumSha256 : Str) : Transfer :=
  { t with checksumSha256 := some checksumSha256, sha256Verified := true }

end Transfer

inductive UploadSessionStatus where
  | active
  | completed
  | expired
  | failed
deriving DecidableEq

structure UploadSession where
  ownerId : Uuid
  originalName : Str
  totalSizeBytes : ℤ
  tempPath : Path
  id : Uuid
  folderId : Option Uuid := none
  receivedBytes : ℤ := 0
  status : UploadSessionStatus := .active
  /-- Always carries its time zone: the cache stores the ISO text. -/
  expiresAt : Option ℤ := none
deriving DecidableEq

namespace UploadSession

def advance (s : UploadSession) (bytesWritten : ℕ) : UploadSession :=
  { s with receivedBytes := s.receivedBytes + bytesWritten }

def markCompleted (s : UploadSession) : UploadSession := { s with status := .completed }

end UploadSession

end Jumbox
