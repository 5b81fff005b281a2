import Jumbox.Uploads.Mixing

/-!
# Folders

`FolderService`, and serial runs of it beside the upload services. A folder names
its parent and a transfer its folder by an identifier from the request, and no
call looks up whose folder that is. Where foreign keys are enforced the folder
has to exist.
-/

namespace Jumbox

structure Folder where
  ownerId : Uuid
  name : Str
  id : Uuid
  parentId : Option Uuid := none
  createdAt : ℤ
deriving DecidableEq

/-- A row of `folders`. -/
structure FolderModel where
  id : Uuid
  ownerId : Uuid
  parentId : Option Uuid
  name : Str
  createdAt : ℤ
deriving DecidableEq

abbrev FolderTable := Table FolderModel.id

namespace FolderTable

def folderToDomain (m : FolderModel) : Folder where
  ownerId := m.ownerId
  name := m.name
  id := m.id
  parentId := m.parentId
  createdAt := m.createdAt

def folderToModel (f : Folder) : FolderModel where
  id := f.id
  ownerId := f.ownerId
  parentId := f.parentId
  name := f.name
  createdAt := f.createdAt

/-- The foreign key to this table is violated, and the backend looks. -/
def dangles (folders : FolderTable) (backend : Backend) (folderId : Option Uuid) : Bool :=
  backend = .postgresql ∧ ∃ id ∈ folderId, folders.get? id = none

def foreignKeyError (constraint : String) : Error :=
  ⟨.integrityError, "violates foreign key constraint ".toList ++ constraint.toList⟩

/-- `SQLAlchemyFolderRepository.add`. `rejection` is what else the database has
against the row. -/
def add (folders : FolderTable) (backend : Backend) (f : Folder) (rejection : Option Error) :
    Except Error FolderTable :=
  if folders.dangles backend f.parentId then .error (foreignKeyError "folders_parent_id_fkey")
  else
    match rejection with
    | some e => .error e
    | none => .ok (folders.put (folderToModel f))

/-- `SQLAlchemyFolderRepository.list_for_owner`, oldest first. -/
def listForOwner (folders : FolderTable) (ownerId : Uuid) : List Folder :=
  ((folders.rows.filter (·.ownerId = ownerId)).insertionSort
    fun a b => a.createdAt ≤ b.createdAt).map folderToDomain

end FolderTable

namespace FolderService

structure CreateFolderResult where
  folderId : Uuid
  name : Str
  parentId : Option Uuid
deriving DecidableEq

def createFolder (folders : FolderTable) (backend : Backend) (now : ℤ) (owner : AuthenticatedUser)
    (name : Str) (parentId : Option Uuid) (id : Uuid) (rejection : Option Error) :
    Except Error (CreateFolderResult × FolderTable) :=
  let folder : Folder := { ownerId := owner.userId, name, parentId, id, createdAt := now }
  (folders.add backend folder rejection).map (⟨folder.id, folder.name, folder.parentId⟩, ·)

def listFolders (folders : FolderTable) (owner : AuthenticatedUser) : List Folder :=
  folders.listForOwner owner.userId

end FolderService

namespace Folders

open ChunkedUploadService
open TransferService (Registration accepts register registerCompletedFile)

inductive Call where
  | createFolder (owner : AuthenticatedUser) (name : Str) (parentId : Option Uuid) (id : Uuid)
      (rejection : Option Error)
  | listFolders (owner : AuthenticatedUser)
  | uploads (call : Uploads.Call)

structure Event where
  now : ℤ
  call : Call

structure State where
  world : World
  folders : FolderTable
  uuids : List Uuid

/-- What the database has against a transfer in `folderId`. -/
def rejected (s : State) (folderId : Option Uuid) (rejection : Option Error) : Option Error :=
  if s.folders.dangles s.world.db.backend folderId then
    some (FolderTable.foreignKeyError "transfers_folder_id_fkey")
  else rejection

/-- The owner and the folder of the transfer that the call is to register. -/
def brought (w : World) (now : ℤ) : Uploads.Call → Option (Uuid × Option Uuid)
  | .uploadFile _ _ r => some (r.owner.userId, r.folderId)
  | .appendChunk owner sid _ _ =>
      match openSession w now owner sid with
      | .error _ => none
      | .ok session => some (owner.userId, session.folderId)
  | _ => none

/-- The call, with the foreign key of the transfer it is to register checked. -/
def constrained (s : State) (now : ℤ) (call : Uploads.Call) : Uploads.Call :=
  let folderId := ((brought s.world now call).map (·.2)).getD none
  match call with
  | .uploadFile filename content r =>
      .uploadFile filename content { r with rejection := rejected s folderId r.rejection }
  | .appendChunk owner sid chunk draws =>
      .appendChunk owner sid chunk { draws with rejection := rejected s folderId draws.rejection }
  | call => call

/-- The identifier a call draws, if it gets that far. -/
def Call.newId : Call → Option Uuid
  | .createFolder _ _ _ id _ => some id
  | .listFolders _ => none
  | .uploads call => call.newId

/-- What a call leaves of the tables and the files. -/
def exec (d : Deployment) (s : State) (e : Event) : World × FolderTable :=
  match e.call with
  | .createFolder owner name parentId id rejection =>
      match FolderService.createFolder s.folders s.world.db.backend e.now owner name parentId id
          rejection with
      | .error _ => (s.world, s.folders)
      | .ok (_, folders) => (s.world, folders)
  | .listFolders _ => (s.world, s.folders)
  | .uploads call => ((Uploads.exec d s.world ⟨e.now, constrained s e.now call⟩).2, s.folders)

/-- The identifier that the call draws is new, and not the one the request names. -/
def Fresh (s : State) (e : Event) : Prop :=
  (∀ id ∈ e.call.newId, id ∉ s.uuids) ∧
    match e.call with
    | .createFolder _ _ parentId id _ => parentId ≠ some id
    | _ => True

instance (s : State) (e : Event) : Decidable (Fresh s e) :=
  match h : e.call with
  | .createFolder _ _ parentId id _ => decidable_of_iff
      ((∀ id ∈ e.call.newId, id ∉ s.uuids) ∧ parentId ≠ some id) (by simp [Fresh, h])
  | .listFolders _ => decidable_of_iff (∀ id ∈ e.call.newId, id ∉ s.uuids) (by simp [Fresh, h])
  | .uploads _ => decidable_of_iff (∀ id ∈ e.call.newId, id ∉ s.uuids) (by simp [Fresh, h])

def system (d : Deployment) : System State Event where
  step s e :=
    if Fresh s e then
      some ⟨(exec d s e).1, (exec d s e).2, e.call.newId.toList ++ s.uuids⟩
    else none

/-- A new installation. -/
def start (backend : Backend) : State := ⟨World.initial backend, .empty, []⟩

/-- The folder, if one is named, is there and is the owner's. -/
def OwnFolder (folders : FolderTable) (ownerId : Uuid) (folderId : Option Uuid) : Prop :=
  ∀ id ∈ folderId, ∃ f ∈ folders.rows, f.id = id ∧ f.ownerId = ownerId

instance (folders : FolderTable) (ownerId : Uuid) (folderId : Option Uuid) :
    Decidable (OwnFolder folders ownerId folderId) := inferInstanceAs (Decidable (∀ _ ∈ _, _))

/-- Folders never cross owners. -/
structure OwnFolders (s : State) : Prop where
  parents : ∀ f ∈ s.folders.rows, OwnFolder s.folders f.ownerId f.parentId
  transfers : ∀ m ∈ s.world.db.transfers.rows, OwnFolder s.folders m.ownerId m.folderId

/-- The condition under which `append_chunk` registers a transfer. -/
def Completes (d : Deployment) (w : World) (now : ℤ) (owner : AuthenticatedUser)
    (session : UploadSession) (chunk : UploadStream) (draws : Draws) : Prop :=
  chunk.failure = none ∧
    (counted session chunk).totalSizeBytes ≤ (counted session chunk).receivedBytes ∧
    isDirectory d (finalPath d (counted session chunk).originalName) = false ∧
    accepts w.db now (registration now owner (counted session chunk).markCompleted draws) = true

instance (d : Deployment) (w : World) (now : ℤ) (owner : AuthenticatedUser)
    (session : UploadSession) (chunk : UploadStream) (draws : Draws) :
    Decidable (Completes d w now owner session chunk draws) :=
  inferInstanceAs (Decidable (_ ∧ _ ∧ _ ∧ _))

/-- The owner and the folder of the row that the call adds, if it adds one. -/
def registering (d : Deployment) (w : World) (now : ℤ) (call : Uploads.Call) :
    Option (Uuid × Option Uuid) :=
  match call with
  | .uploadFile _ content r =>
      if content.failure = none ∧ accepts w.db now r = true then brought w now call else none
  | .appendChunk owner sid chunk draws =>
      match openSession w now owner sid with
      | .error _ => none
      | .ok session =>
          if Completes d w now owner session chunk draws then brought w now call else none
  | _ => none

/-- A folder is created inside a folder of its owner or none, a transfer is
registered in a folder of its owner or none, or the database takes no row. -/
def Scoped (d : Deployment) (s : State) (e : Event) : Prop :=
  match e.call with
  | .createFolder owner _ parentId _ rejection =>
      rejection = none → s.folders.dangles s.world.db.backend parentId = false →
        OwnFolder s.folders owner.userId parentId
  | .listFolders _ => True
  | .uploads call => ∀ r ∈ registering d s.world e.now (constrained s e.now call),
      OwnFolder s.folders r.1 r.2

/-! ## What the upload calls add -/

/-- The same transfer in the same folder. -/
structure Kept (m m' : TransferModel) : Prop where
  id : m.id = m'.id
  ownerId : m.ownerId = m'.ownerId
  folderId : m.folderId = m'.folderId

theorem Kept.refl (m : TransferModel) : Kept m m := ⟨rfl, rfl, rfl⟩

/-- The rows of one table are those of another, or the one that is added. -/
def Adds (rows rows' : List TransferModel) (id ownerId : Uuid) (folderId : Option Uuid) : Prop :=
  ∀ m' ∈ rows', (∃ m ∈ rows, Kept m m') ∨
    (m'.id = id ∧ m'.ownerId = ownerId ∧ m'.folderId = folderId)

theorem Adds.refl (rows : List TransferModel) (id ownerId : Uuid) (folderId : Option Uuid) :
    Adds rows rows id ownerId folderId := fun m' hm' => .inl ⟨m', hm', .refl m'⟩

theorem register_adds {db db' : Db} {now : ℤ} {r : Registration} {name : Str} {p : Path} {size : ℤ}
    {sha : Str} {result : TransferService.UploadTransferResult}
    (h : register db now r name p size sha = .ok (result, db')) :
    Adds db.transfers.rows db'.transfers.rows r.transferId r.owner.userId r.folderId := by
  unfold register at h
  split at h
  · cases h
  · split at h
    · cases h
    · simp only at h
      split at h
      · cases h
      · split at h
        · cases h
        · rename_i hadd
          cases h
          unfold Db.addTransfer at hadd
          split at hadd
          · cases hadd
          · cases hadd
            intro m' hm'
            rcases Table.mem_put.mp hm' with rfl | ⟨hm', -⟩
            · exact .inr ⟨rfl, rfl, rfl⟩
            · exact .inl ⟨m', hm', .refl m'⟩

theorem registerCompletedFile_adds {w w' : World} {now : ℤ} {r : Registration} {name : Str}
    {p : Path} {size : ℤ} {sha : Str} {result : Except Error TransferService.UploadTransferResult}
    (h : registerCompletedFile w now r name p size sha = (result, w')) :
    Adds w.db.transfers.rows w'.db.transfers.rows r.transferId r.owner.userId r.folderId := by
  unfold registerCompletedFile at h
  split at h
  · cases h
    exact Adds.refl _ _ _ _
  · rename_i hregister
    cases h
    exact register_adds hregister

theorem completeSession_adds (d : Deployment) (w : World) (now : ℤ) (owner : AuthenticatedUser)
    (session : UploadSession) (draws : Draws) :
    Adds w.db.transfers.rows (completeSession d w now owner session draws).2.db.transfers.rows
      draws.transferId owner.userId session.folderId := by
  unfold completeSession
  simp only
  split
  · exact Adds.refl _ _ _ _
  · split
    · exact Adds.refl _ _ _ _
    · split
      · rename_i hregister
        exact registerCompletedFile_adds hregister
      · rename_i hregister
        exact registerCompletedFile_adds hregister

theorem appendChunk_adds {d : Deployment} {w : World} {now : ℤ} {owner : AuthenticatedUser}
    {sid : Uuid} {session : UploadSession} (hopen : openSession w now owner sid = .ok session)
    (chunk : UploadStream) (draws : Draws) :
    Adds w.db.transfers.rows (appendChunk d w now owner sid chunk draws).2.db.transfers.rows
      draws.transferId owner.userId session.folderId := by
  unfold appendChunk
  rw [hopen]
  simp only
  split
  · exact Adds.refl _ _ _ _
  · split
    · exact completeSession_adds _ _ _ _ _ _
    · exact Adds.refl _ _ _ _

theorem uploadFile_adds (d : Deployment) (w : World) (now : ℤ) (filename : Option Str)
    (content : UploadStream) (r : Registration) :
    Adds w.db.transfers.rows
      (TransferService.uploadFile d w now filename content r).2.db.transfers.rows
      r.transferId r.owner.userId r.folderId := by
  unfold TransferService.uploadFile
  simp only
  split
  · exact Adds.refl _ _ _ _
  · split
    · exact Adds.refl _ _ _ _
    · rename_i hregister
      exact register_adds hregister

/-- Marking a transfer as downloaded leaves it in its folder. -/
theorem markDownloaded_kept {w : World} {now : ℤ} {code : Str} {m' : TransferModel}
    (h : m' ∈ (TransferService.markDownloaded w now code).2.db.transfers.rows) :
    ∃ m ∈ w.db.transfers.rows, Kept m m' := by
  unfold TransferService.markDownloaded at h
  split at h
  · exact ⟨m', h, .refl m'⟩
  · rename_i t hget
    obtain ⟨m, hm, rfl⟩ := Option.map_eq_some_iff.mp hget
    rcases Table.mem_put.mp h with rfl | ⟨hm', -⟩
    · exact ⟨m, List.mem_of_find?_eq_some hm, rfl, rfl, rfl⟩
    · exact ⟨m', hm', .refl m'⟩

section Steps

variable {d : Deployment} {w : World} {now : ℤ} {call : Uploads.Call}

/-- A row is one that was there, or the one that the call is to register. -/
theorem exec_rows {m' : TransferModel}
    (h : m' ∈ (Uploads.exec d w ⟨now, call⟩).2.db.transfers.rows) :
    (∃ m ∈ w.db.transfers.rows, Kept m m') ∨
      (call.newId = some m'.id ∧ brought w now call = some (m'.ownerId, m'.folderId)) := by
  cases call with
  | uploadFile filename content r =>
      rcases uploadFile_adds d w now filename content r m' h with hkept | ⟨hid, howner, hfolder⟩
      · exact .inl hkept
      · exact .inr ⟨congrArg some hid.symm, by rw [brought, howner, hfolder]⟩
  | createSession owner name total expiresIn folderId id =>
      left
      refine ⟨m', ?_, .refl m'⟩
      change m' ∈ (createSession d w now owner name total expiresIn folderId id).2.db.transfers.rows at h
      unfold createSession at h
      split at h
      · exact h
      · exact h
  | appendChunk owner sid chunk draws =>
      change m' ∈ (appendChunk d w now owner sid chunk draws).2.db.transfers.rows at h
      cases hopen : openSession w now owner sid with
      | error e =>
          left
          rw [appendChunk, hopen] at h
          exact ⟨m', h, .refl m'⟩
      | ok session =>
          rcases appendChunk_adds hopen chunk draws m' h with hkept | ⟨hid, howner, hfolder⟩
          · exact .inl hkept
          · exact .inr ⟨congrArg some hid.symm, by simp only [brought, hopen, howner, hfolder]⟩
  | markDownloaded code => exact .inl (markDownloaded_kept h)
  | cleanupExpiredTransfers deadline unlinkFails =>
      exact .inl ⟨m', Uploads.mem_cleanupExpiredTransfers h, .refl m'⟩

/-- Where the transaction does not go through, `upload_file` adds no row. -/
theorem uploadFile_db {filename : Option Str} {content : UploadStream} {r : Registration}
    (h : ¬ (content.failure = none ∧ accepts w.db now r = true)) :
    (TransferService.uploadFile d w now filename content r).2.db = w.db := by
  unfold TransferService.uploadFile
  simp only [LocalFileStorage.saveUpload_eq]
  cases hfailure : content.failure with
  | some message => rfl
  | none =>
      have hrefused : accepts w.db now r = false := by
        by_contra haccepted
        exact h ⟨hfailure, eq_true_of_ne_false haccepted⟩
      obtain ⟨e, he⟩ := TransferService.register_of_not_accepts hrefused
        (TransferService.uploadName filename)
        (d.uploadsDir.join (TransferService.buildStoredName r.owner.userId
          (TransferService.uploadName filename)))
        content.content.length (hexdigest content.content)
      simp only [he]
      rfl

theorem appendChunk_completes {owner : AuthenticatedUser} {sid : Uuid} {session : UploadSession}
    (hopen : openSession w now owner sid = .ok session) (chunk : UploadStream) (draws : Draws) :
    (¬ Completes d w now owner session chunk draws ∧
        (appendChunk d w now owner sid chunk draws).2.db = w.db) ∨
      (Completes d w now owner session chunk draws ∧ ∃ m, m.id = draws.transferId ∧
        (appendChunk d w now owner sid chunk draws).2.db.transfers = w.db.transfers.put m) := by
  rcases appendChunk_cases d w now owner sid chunk draws with ⟨e, hfail, -⟩ | ⟨_, hopen', hcases⟩
  · rw [hopen] at hfail
    cases hfail
  · rw [hopen] at hopen'
    cases hopen'
    rcases hcases with ⟨hfailure, e, heq⟩ | ⟨-, hmore, r, heq⟩ | ⟨hfailure, hlast, t, -, hcompletion⟩
    · rw [heq]
      exact .inl ⟨fun h => hfailure h.1, rfl⟩
    · rw [heq]
      exact .inl ⟨fun h => absurd h.2.1 (not_le.mpr hmore), rfl⟩
    · generalize appendChunk d w now owner sid chunk draws = o at hcompletion
      cases hcompletion with
      | stuck e hdir =>
          refine .inl ⟨fun h => ?_, rfl⟩
          rw [h.2.2.1] at hdir
          cases hdir
      | misplaced e x hdir _ =>
          refine .inl ⟨fun h => ?_, rfl⟩
          rw [h.2.2.1] at hdir
          cases hdir
      | unregistered e _ hrefused =>
          refine .inl ⟨fun h => ?_, rfl⟩
          rw [World.withFiles_db, h.2.2.2] at hrefused
          cases hrefused
      | completed r m hdir haccepted hid _ =>
          exact .inr ⟨⟨hfailure, hlast, hdir, haccepted⟩, m, hid, rfl⟩

/-- A call that registers no transfer adds no row. -/
theorem exec_kept (hnone : registering d w now call = none) {m' : TransferModel}
    (h : m' ∈ (Uploads.exec d w ⟨now, call⟩).2.db.transfers.rows) :
    ∃ m ∈ w.db.transfers.rows, Kept m m' := by
  rcases exec_rows h with hkept | ⟨hid, hbrought⟩
  · exact hkept
  refine ⟨m', ?_, .refl m'⟩
  cases call with
  | uploadFile filename content r =>
      have hrefused : ¬ (content.failure = none ∧ accepts w.db now r = true) := by
        intro haccepted
        rw [registering, if_pos haccepted, hbrought] at hnone
        cases hnone
      rw [← uploadFile_db hrefused]
      exact h
  | appendChunk owner sid chunk draws =>
      cases hopen : openSession w now owner sid with
      | error e =>
          simp only [brought, hopen] at hbrought
          cases hbrought
      | ok session =>
          rcases appendChunk_completes (d := d) hopen chunk draws with ⟨-, hdb⟩ | ⟨hcompletes, -⟩
          · rw [← hdb]
            exact h
          · simp only [registering, hopen] at hnone
            rw [if_pos hcompletes, hbrought] at hnone
            cases hnone
  | createSession owner name total expiresIn folderId id => cases hbrought
  | markDownloaded code => cases hbrought
  | cleanupExpiredTransfers deadline unlinkFails => cases hbrought

/-- A call that registers a transfer adds its row. -/
theorem exec_added {r : Uuid × Option Uuid} (hsome : registering d w now call = some r) :
    brought w now call = some r ∧
      ∃ m' ∈ (Uploads.exec d w ⟨now, call⟩).2.db.transfers.rows, call.newId = some m'.id := by
  cases call with
  | uploadFile filename content reg =>
      rw [registering] at hsome
      split at hsome
      · rename_i haccepted
        refine ⟨hsome, ?_⟩
        rcases TransferService.uploadFile_cases d w now filename content reg with
          ⟨e, hrefused, -⟩ | ⟨result, m, hid, -, heq⟩
        · rcases hrefused with hfailure | hrefused
          · exact absurd haccepted.1 hfailure
          · rw [haccepted.2] at hrefused
            cases hrefused
        · refine ⟨m, ?_, congrArg some hid.symm⟩
          change m ∈ (TransferService.uploadFile d w now filename content reg).2.db.transfers.rows
          rw [heq]
          exact Table.mem_put.mpr (.inl rfl)
      · cases hsome
  | appendChunk owner sid chunk draws =>
      cases hopen : openSession w now owner sid with
      | error e =>
          simp only [registering, hopen] at hsome
          cases hsome
      | ok session =>
          simp only [registering, hopen] at hsome
          rcases appendChunk_completes (d := d) hopen chunk draws with ⟨hnot, -⟩ | ⟨hcompletes, m, hid, heq⟩
          · rw [if_neg hnot] at hsome
            cases hsome
          · rw [if_pos hcompletes] at hsome
            refine ⟨hsome, m, ?_, congrArg some hid.symm⟩
            change m ∈ (appendChunk d w now owner sid chunk draws).2.db.transfers.rows
            rw [heq]
            exact Table.mem_put.mpr (.inl rfl)
  | createSession owner name total expiresIn folderId id => cases hsome
  | markDownloaded code => cases hsome
  | cleanupExpiredTransfers deadline unlinkFails => cases hsome

end Steps

/-! ## Runs -/

/-- Every row's identifier has been drawn. -/
structure Issued (s : State) : Prop where
  folders : ∀ f ∈ s.folders.rows, f.id ∈ s.uuids
  transfers : ∀ m ∈ s.world.db.transfers.rows, m.id ∈ s.uuids

section Runs

variable {d : Deployment} {s s' : State} {e : Event}

theorem system_step (h : (system d).step s e = some s') :
    Fresh s e ∧ s' = ⟨(exec d s e).1, (exec d s e).2, e.call.newId.toList ++ s.uuids⟩ := by
  simp only [system] at h
  split at h
  · rename_i hfresh
    cases h
    exact ⟨hfresh, rfl⟩
  · cases h

theorem newId_constrained (s : State) (now : ℤ) (call : Uploads.Call) :
    (constrained s now call).newId = call.newId := by
  cases call <;> rfl

/-- What `create_folder` does: nothing, or it adds its row. -/
theorem createFolder_cases (folders : FolderTable) (backend : Backend) (now : ℤ)
    (owner : AuthenticatedUser) (name : Str) (parentId : Option Uuid) (id : Uuid)
    (rejection : Option Error) :
    (¬ (rejection = none ∧ folders.dangles backend parentId = false) ∧ ∃ e,
      FolderService.createFolder folders backend now owner name parentId id rejection = .error e) ∨
    ((rejection = none ∧ folders.dangles backend parentId = false) ∧ ∃ r,
      FolderService.createFolder folders backend now owner name parentId id rejection =
        .ok (r, folders.put ⟨id, owner.userId, parentId, name, now⟩)) := by
  unfold FolderService.createFolder FolderTable.add
  simp only
  cases folders.dangles backend parentId with
  | true => exact .inl ⟨fun h => (by cases h.2), _, rfl⟩
  | false =>
      cases rejection with
      | some e => exact .inl ⟨fun h => (by cases h.1), _, rfl⟩
      | none => exact .inr ⟨⟨rfl, rfl⟩, _, rfl⟩

theorem Issued.step (h : Issued s) (hstep : (system d).step s e = some s') : Issued s' := by
  obtain ⟨-, rfl⟩ := system_step hstep
  have hold : ∀ id ∈ s.uuids, id ∈ e.call.newId.toList ++ s.uuids :=
    fun id hid => List.mem_append_right _ hid
  obtain ⟨now, call⟩ := e
  cases call with
  | createFolder owner name parentId id rejection =>
      simp only [exec]
      rcases createFolder_cases s.folders s.world.db.backend now owner name parentId id rejection with
        ⟨-, e, heq⟩ | ⟨-, r, heq⟩
      · rw [heq]
        exact ⟨fun f hf => hold _ (h.folders f hf), fun m hm => hold _ (h.transfers m hm)⟩
      · rw [heq]
        refine ⟨fun f hf => ?_, fun m hm => hold _ (h.transfers m hm)⟩
        rcases Table.mem_put.mp hf with rfl | ⟨hf, -⟩
        · exact List.mem_append_left _ (Option.mem_toList.mpr rfl)
        · exact hold _ (h.folders f hf)
  | listFolders owner =>
      exact ⟨fun f hf => hold _ (h.folders f hf), fun m hm => hold _ (h.transfers m hm)⟩
  | uploads call =>
      refine ⟨fun f hf => hold _ (h.folders f hf), fun m' hm' => ?_⟩
      rcases exec_rows hm' with ⟨m, hm, hkept⟩ | ⟨hid, -⟩
      · exact hold _ (hkept.id ▸ h.transfers m hm)
      · apply List.mem_append_left
        rw [newId_constrained] at hid
        exact Option.mem_toList.mpr hid

theorem OwnFolder.mono {folders folders' : FolderTable} (hsub : ∀ f ∈ folders.rows, f ∈ folders'.rows)
    {ownerId : Uuid} {folderId : Option Uuid} (h : OwnFolder folders ownerId folderId) :
    OwnFolder folders' ownerId folderId := by
  intro id hid
  obtain ⟨f, hf, hfid, howner⟩ := h id hid
  exact ⟨f, hsub f hf, hfid, howner⟩

/-- Where folders do not cross owners, creating one keeps it so exactly if it is
put in a folder of its owner. -/
theorem createFolder_own_iff (h : OwnFolders s) {now : ℤ} {owner : AuthenticatedUser} {name : Str}
    {parentId : Option Uuid} {id : Uuid} (hnew : ∀ f ∈ s.folders.rows, f.id ≠ id)
    (hparent : parentId ≠ some id) {uuids : List Uuid} :
    OwnFolders ⟨s.world, s.folders.put ⟨id, owner.userId, parentId, name, now⟩, uuids⟩ ↔
      OwnFolder s.folders owner.userId parentId := by
  have hsub : ∀ f ∈ s.folders.rows,
      f ∈ (s.folders.put ⟨id, owner.userId, parentId, name, now⟩).rows :=
    fun f hf => Table.mem_put.mpr (.inr ⟨hf, hnew f hf⟩)
  constructor
  · intro h'
    have hown := h'.parents _ (Table.mem_put.mpr (.inl rfl))
    intro p hp
    obtain ⟨f, hf, hfid, howner⟩ := hown p hp
    rcases Table.mem_put.mp hf with rfl | ⟨hf, -⟩
    · exact absurd (hp.trans (congrArg some hfid.symm)) hparent
    · exact ⟨f, hf, hfid, howner⟩
  · intro hown
    constructor
    · intro f hf
      rcases Table.mem_put.mp hf with rfl | ⟨hf, -⟩
      · exact hown.mono hsub
      · exact (h.parents f hf).mono hsub
    · intro m hm
      exact (h.transfers m hm).mono hsub

theorem Kept.ownFolder {m m' : TransferModel} (h : Kept m m') {folders : FolderTable}
    (hown : OwnFolder folders m.ownerId m.folderId) :
    OwnFolder folders m'.ownerId m'.folderId := by
  rw [← h.ownerId, ← h.folderId]
  exact hown

/-- The same for a transfer that is registered. -/
theorem uploads_own_iff (h : OwnFolders s) {now : ℤ} {call : Uploads.Call}
    (hnew : ∀ id ∈ call.newId, ∀ m ∈ s.world.db.transfers.rows, m.id ≠ id) {uuids : List Uuid} :
    OwnFolders ⟨(Uploads.exec d s.world ⟨now, call⟩).2, s.folders, uuids⟩ ↔
      ∀ r ∈ registering d s.world now call, OwnFolder s.folders r.1 r.2 := by
  constructor
  · intro h' r hr
    obtain ⟨hbrought, m', hm', hid⟩ := exec_added hr
    rcases exec_rows hm' with ⟨m, hm, hkept⟩ | ⟨-, hbrought'⟩
    · exact absurd hkept.id (hnew _ hid m hm)
    · cases hbrought.symm.trans hbrought'
      exact h'.transfers m' hm'
  · intro hscoped
    refine ⟨h.parents, fun m' hm' => ?_⟩
    cases hregistering : registering d s.world now call with
    | none =>
        obtain ⟨m, hm, hkept⟩ := exec_kept hregistering hm'
        exact hkept.ownFolder (h.transfers m hm)
    | some r =>
        rcases exec_rows hm' with ⟨m, hm, hkept⟩ | ⟨-, hbrought⟩
        · exact hkept.ownFolder (h.transfers m hm)
        · cases (exec_added hregistering).1.symm.trans hbrought
          exact hscoped _ hregistering

/-- A step keeps folders with their owners exactly if it is scoped. -/
theorem ownFolders_step_iff (hissued : Issued s) (h : OwnFolders s)
    (hstep : (system d).step s e = some s') : OwnFolders s' ↔ Scoped d s e := by
  obtain ⟨⟨hfresh, hnamed⟩, rfl⟩ := system_step hstep
  obtain ⟨now, call⟩ := e
  cases call with
  | createFolder owner name parentId id rejection =>
      have hnew : ∀ f ∈ s.folders.rows, f.id ≠ id := by
        rintro f hf rfl
        exact hfresh f.id rfl (hissued.folders f hf)
      simp only [exec, Scoped]
      rcases createFolder_cases s.folders s.world.db.backend now owner name parentId id rejection with
        ⟨hrefused, e, heq⟩ | ⟨⟨hrejection, hdangles⟩, r, heq⟩
      · rw [heq]
        exact iff_of_true ⟨h.parents, h.transfers⟩ fun hr hd => absurd ⟨hr, hd⟩ hrefused
      · rw [heq]
        refine (createFolder_own_iff h hnew hnamed).trans ?_
        exact ⟨fun hown _ _ => hown, fun hown => hown hrejection hdangles⟩
  | listFolders owner => exact iff_of_true ⟨h.parents, h.transfers⟩ trivial
  | uploads call =>
      apply uploads_own_iff h
      intro id hid m hm heq
      rw [newId_constrained] at hid
      exact hfresh id hid (heq ▸ hissued.transfers m hm)

end Runs

/-- In a serial run folders stay with their owners exactly if every step is
scoped. -/
theorem folders_own_iff {d : Deployment} {backend : Backend} {ls : List Event} :
    (system d).Always OwnFolders (start backend) ls ↔
      (system d).Guarded (Scoped d) (start backend) ls := by
  apply System.always_iff_guarded (J := Issued)
  · intro s e s' hissued hstep
    exact hissued.step hstep
  · intro s e s' hissued h hstep
    exact ownFolders_step_iff hissued h hstep
  · exact ⟨fun _ hf => absurd hf List.not_mem_nil, fun _ hm => absurd hm List.not_mem_nil⟩
  · exact ⟨fun _ hf => absurd hf List.not_mem_nil, fun _ hm => absurd hm List.not_mem_nil⟩

/-! ## A folder inside another user's -/

namespace Sample

open Uploads.Sample (owner)

def stranger : AuthenticatedUser := ⟨Uuid.ofNat 101, "stranger@example.org".toList, false⟩

/-- The second user names the first one's folder as the parent. -/
def nested : List Event := [
  ⟨0, .createFolder owner "private".toList none (Uuid.ofNat 1) none⟩,
  ⟨0, .createFolder stranger "inside".toList (some (Uuid.ofNat 1)) (Uuid.ofNat 2) none⟩]

theorem runs_nested : ((system .default).run (start .postgresql) nested).isSome = true := by
  decide +kernel

def last : State := ((system .default).run (start .postgresql) nested).get runs_nested

theorem last_crosses : ∃ f ∈ last.folders.rows, ¬ OwnFolder last.folders f.ownerId f.parentId := by
  decide +kernel

end Sample

theorem folder_crosses_owners :
    ¬ ∀ (d : Deployment) (backend : Backend) (ls : List Event),
        (system d).Always OwnFolders (start backend) ls := by
  intro h
  have hlast : OwnFolders Sample.last :=
    (h .default .postgresql Sample.nested).last (Option.some_get Sample.runs_nested).symm
  obtain ⟨f, hf, hcross⟩ := Sample.last_crosses
  exact hcross (hlast.parents f hf)

end Folders

end Jumbox
