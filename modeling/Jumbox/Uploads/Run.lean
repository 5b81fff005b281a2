import Jumbox.Library.Transition
import Jumbox.Uploads.Methods

/-!
# Serial runs of the upload services

The calls of `TransferService`, `ChunkedUploadService` and the sweep of expired
transfers, each at its own clock reading. The run state adds to the world the
identifiers drawn so far and a log of the `append_chunk` calls that have reached
their temporary file. Names are free of path separators.
-/

namespace Jumbox

namespace Uploads

open TransferService (Registration UploadTransferResult)
open ChunkedUploadService (UploadSessionResult ChunkUploadResult Draws openSession)

inductive Call where
  | uploadFile (filename : Option Str) (content : UploadStream) (registration : Registration)
  | createSession (owner : AuthenticatedUser) (originalName : Str) (totalSizeBytes : ℤ)
      (expiresInSeconds : Option ℤ) (folderId : Option Uuid) (id : Uuid)
  | appendChunk (owner : AuthenticatedUser) (sessionId : Uuid) (chunk : UploadStream)
      (draws : Draws)
  | markDownloaded (transferCode : Str)
  | cleanupExpiredTransfers (deadline : Option ℤ) (unlinkFails : Path → Bool)

structure Event where
  now : ℤ
  call : Call

inductive Response where
  | transfer (r : UploadTransferResult)
  | session (r : UploadSessionResult)
  | chunk (r : ChunkUploadResult)
  | downloaded (t : Transfer)
  | count (n : ℕ)

def respond {α : Type} (f : α → Response) (o : Outcome α) : Except Error Response × World :=
  (o.1.map f, o.2)

def exec (d : Deployment) (w : World) (e : Event) : Except Error Response × World :=
  match e.call with
  | .uploadFile filename content r =>
      respond .transfer (TransferService.uploadFile d w e.now filename content r)
  | .createSession owner name total expiresIn folderId id =>
      respond .session
        (ChunkedUploadService.createSession d w e.now owner name total expiresIn folderId id)
  | .appendChunk owner sid chunk draws =>
      respond .chunk (ChunkedUploadService.appendChunk d w e.now owner sid chunk draws)
  | .markDownloaded code => respond .downloaded (TransferService.markDownloaded w e.now code)
  | .cleanupExpiredTransfers deadline unlinkFails =>
      respond .count (CleanupService.cleanupExpiredTransfers w e.now deadline unlinkFails)

/-- The identifier a call draws, if it gets that far. -/
def Call.newId : Call → Option Uuid
  | .uploadFile _ _ r => some r.transferId
  | .createSession _ _ _ _ _ id => some id
  | .appendChunk _ _ _ draws => some draws.transferId
  | _ => none

/-- The file name a call brings. -/
def Call.name : Call → Option Str
  | .uploadFile filename _ _ => filename
  | .createSession _ name _ _ _ _ => some name
  | _ => none

/-- An `append_chunk` call that has opened its temporary file. -/
structure ChunkRecord where
  sessionId : Uuid
  tempPath : Path
  data : Bytes
  /-- It has returned, and not raised. -/
  returned : Bool
  /-- It has moved the temporary file away. -/
  moved : Bool
deriving DecidableEq

structure State where
  world : World
  uuids : List Uuid
  log : List ChunkRecord

/-- What a call adds to the log. -/
def record (d : Deployment) (w : World) (e : Event) : List ChunkRecord :=
  match e.call with
  | .appendChunk owner sid chunk draws =>
      match openSession w e.now owner sid with
      | .error _ => []
      | .ok session =>
          let (result, w') := ChunkedUploadService.appendChunk d w e.now owner sid chunk draws
          [⟨sid, session.tempPath, chunk.content, result.isOk, (w'.files session.tempPath).isNone⟩]
  | _ => []

/-- A call that can be taken: its identifier is new, its name has no separator. -/
def Taken (s : State) (e : Event) : Prop :=
  (∀ id ∈ e.call.newId, id ∉ s.uuids) ∧ ∀ name ∈ e.call.name, '/' ∉ name

instance (s : State) (e : Event) : Decidable (Taken s e) := inferInstanceAs (Decidable (_ ∧ _))

def system (d : Deployment) : System State Event where
  step s e :=
    if Taken s e then
      some ⟨(exec d s.world e).2, e.call.newId.toList ++ s.uuids, s.log ++ record d s.world e⟩
    else none

/-- A new installation. -/
def start (backend : Backend) : State := ⟨World.initial backend, [], []⟩

theorem system_step {d : Deployment} {s s' : State} {e : Event} :
    (system d).step s e = some s' ↔
      Taken s e ∧ s' = ⟨(exec d s.world e).2, e.call.newId.toList ++ s.uuids,
        s.log ++ record d s.world e⟩ := by
  simp only [system]
  split
  · rename_i h
    simp only [h, true_and, Option.some.injEq, eq_comm (b := s')]
  · rename_i h
    simp [h]

/-! ## A run to evaluate -/

namespace Sample

def owner : AuthenticatedUser := ⟨Uuid.ofNat 100, "owner@example.org".toList, false⟩

def name : Str := "a.txt".toList

/-- The transfer codes drawn for a transfer. -/
def codes (n : ℕ) : ℕ → Fin (32 ^ 6) := fun _ => Fin.ofNat _ n

/-- A session of `total` bytes. -/
def create (id : ℕ) (total : ℤ) : Event :=
  ⟨0, .createSession owner name total none none (Uuid.ofNat id)⟩

def append (id transferId : ℕ) (data : Bytes) : Event :=
  ⟨1, .appendChunk owner (Uuid.ofNat id) (.ofBytes data)
    ⟨Uuid.ofNat transferId, codes transferId, none⟩⟩

def upload (transferId : ℕ) (data : Bytes) : Event :=
  ⟨1, .uploadFile (some name) (.ofBytes data)
    ⟨owner, none, none, Uuid.ofNat transferId, codes transferId, none⟩⟩

def run (ls : List Event) : Option State := (system .default).run (start .sqlite) ls

end Sample

end Uploads

end Jumbox
