import Jumbox.Domain.Sessions
import Jumbox.Domain.Transfers
import Jumbox.Library.Table
import Mathlib.Data.List.Sort

/-!
# The database

The tables of `infrastructure/db/models.py` for sessions, items and transfers,
and the queries of their repositories, on the committed state: no modelled
function raises between its first write and its commit, so a rolled-back write
is one that was never made. The two backends differ in two ways the code can
see: SQLite does not enforce foreign keys, so deleting a session leaves its item
rows behind, and it returns naive timestamps.
-/

namespace Jumbox

inductive Backend where
  | sqlite
  | postgresql
deriving DecidableEq

/-- A row of `transfer_sessions`. -/
structure TransferSessionModel where
  id : Uuid
  ownerId : Uuid
  sessionCode : Str
  status : SessionStatus := .pending
  expiresAt : Option ℤ
  burnAfterDownload : Bool := false
  downloadCount : ℤ := 0
  createdAt : ℤ
deriving DecidableEq

/-- A row of `transfers`. -/
structure TransferModel where
  id : Uuid
  ownerId : Uuid
  folderId : Option Uuid
  originalName : Str
  storedName : Str
  /-- `storage_path or ""`: the column is not nullable. -/
  storagePath : Option Path
  sizeBytes : ℤ
  checksumSha256 : Option Str
  transferCode : Option Str
  status : TransferStatus := .uploading
  expiresAt : Option ℤ
  downloadedAt : Option ℤ
  sha256Verified : Bool := false
  createdAt : ℤ
deriving DecidableEq

structure Db where
  backend : Backend
  sessions : Table TransferSessionModel.id
  items : Table TransferItem.id
  transfers : Table TransferModel.id

namespace Db

def empty (backend : Backend) : Db := ⟨backend, .empty, .empty, .empty⟩

/-- The rows the relationship `items` loads, oldest first. -/
def itemsOf (db : Db) (sessionId : Uuid) : List TransferItem :=
  (db.items.rows.filter (·.sessionId = sessionId)).insertionSort fun a b => a.createdAt ≤ b.createdAt

@[simp] theorem mem_itemsOf {db : Db} {sessionId : Uuid} {i : TransferItem} :
    i ∈ db.itemsOf sessionId ↔ i ∈ db.items.rows ∧ i.sessionId = sessionId := by
  simp [itemsOf]

/-- A `timestamptz` column as the driver returns it. -/
def loadTimestamp (db : Db) (t : ℤ) : Datetime := ⟨t, db.backend = .postgresql⟩

def sessionToDomain (db : Db) (m : TransferSessionModel) : TransferSession where
  id := m.id
  ownerId := m.ownerId
  sessionCode := m.sessionCode
  expiresAt := m.expiresAt.map db.loadTimestamp
  burnAfterDownload := m.burnAfterDownload
  downloadCount := m.downloadCount
  items := db.itemsOf m.id
  createdAt := m.createdAt
  status_ := m.status

/-- `session_to_model`: the status column receives the derived status. -/
def sessionToModel (s : TransferSession) : TransferSessionModel where
  id := s.id
  ownerId := s.ownerId
  sessionCode := s.sessionCode
  status := s.status
  expiresAt := s.expiresAt.map Datetime.micros
  burnAfterDownload := s.burnAfterDownload
  downloadCount := s.downloadCount
  createdAt := s.createdAt

/-! ## `SQLAlchemySessionRepository` -/

/-- Insert; the unique constraint on the share code may reject it. -/
def add (db : Db) (s : TransferSession) : Except Error Db :=
  if db.sessions.rows.any (·.sessionCode = s.sessionCode) then
    .error ⟨.integrityError, "UNIQUE constraint failed: transfer_sessions.session_code".toList⟩
  else .ok { db with sessions := db.sessions.put (sessionToModel s) }

/-- Merge of a session whose row the same transaction has loaded. -/
def save (db : Db) (s : TransferSession) : Db :=
  { db with sessions := db.sessions.put (sessionToModel s) }

/-- `ON DELETE CASCADE` reaches the items where foreign keys are enforced. -/
def deleteById (db : Db) (sessionId : Uuid) : Db :=
  { db with
    sessions := db.sessions.eraseWhere (·.id = sessionId)
    items := match db.backend with
      | .sqlite => db.items
      | .postgresql => db.items.eraseWhere (·.sessionId = sessionId) }

def getById (db : Db) (sessionId : Uuid) : Option TransferSession :=
  (db.sessions.get? sessionId).map db.sessionToDomain

def getByCode (db : Db) (sessionCode : Str) : Option TransferSession :=
  let cleanCode := (Str.strip sessionCode).upper
  (db.sessions.rows.find? (·.sessionCode = cleanCode)).map db.sessionToDomain

/-- Newest first. -/
def listForOwner (db : Db) (ownerId : Uuid) (limit : ℕ) : List TransferSession :=
  (((db.sessions.rows.filter (·.ownerId = ownerId)).insertionSort
    fun a b => b.createdAt ≤ a.createdAt).take limit).map db.sessionToDomain

def addItem (db : Db) (i : TransferItem) : Db := { db with items := db.items.put i }

def saveItem (db : Db) (i : TransferItem) : Db := { db with items := db.items.put i }

def getItemById (db : Db) (itemId : Uuid) : Option TransferItem := db.items.get? itemId

/-- Earliest expiry first. -/
def listExpiredBefore (db : Db) (deadline : ℤ) : List TransferSession :=
  ((db.sessions.rows.filter fun m => m.expiresAt.any (· ≤ deadline)).insertionSort
    fun a b => a.expiresAt.getD 0 ≤ b.expiresAt.getD 0).map db.sessionToDomain

/-- The status column of one session rewritten. -/
def putStatus (db : Db) (m : TransferSessionModel) (status : SessionStatus) : Db :=
  { db with sessions := db.sessions.put { m with status } }

/-! ## `SQLAlchemyTransferRepository` -/

def transferToDomain (db : Db) (m : TransferModel) : Transfer where
  id := m.id
  ownerId := m.ownerId
  folderId := m.folderId
  originalName := m.originalName
  storedName := m.storedName
  storagePath := m.storagePath
  sizeBytes := m.sizeBytes
  checksumSha256 := m.checksumSha256
  transferCode := m.transferCode
  status := m.status
  expiresAt := m.expiresAt.map db.loadTimestamp
  downloadedAt := m.downloadedAt
  sha256Verified := m.sha256Verified
  createdAt := m.createdAt

def transferToModel (t : Transfer) : TransferModel where
  id := t.id
  ownerId := t.ownerId
  folderId := t.folderId
  originalName := t.originalName
  storedName := t.storedName
  storagePath := t.storagePath
  sizeBytes := t.sizeBytes
  checksumSha256 := t.checksumSha256
  transferCode := t.transferCode
  status := t.status
  expiresAt := t.expiresAt.map Datetime.micros
  downloadedAt := t.downloadedAt
  sha256Verified := t.sha256Verified
  createdAt := t.createdAt

/-- Insert; the unique constraint on the transfer code may reject it. -/
def addTransfer (db : Db) (t : Transfer) : Except Error Db :=
  if t.transferCode.isSome ∧ db.transfers.rows.any (·.transferCode = t.transferCode) then
    .error ⟨.integrityError, "UNIQUE constraint failed: transfers.transfer_code".toList⟩
  else .ok { db with transfers := db.transfers.put (transferToModel t) }

def saveTransfer (db : Db) (t : Transfer) : Db :=
  { db with transfers := db.transfers.put (transferToModel t) }

def deleteTransferById (db : Db) (transferId : Uuid) : Db :=
  { db with transfers := db.transfers.eraseWhere (·.id = transferId) }

def getTransferByCode (db : Db) (transferCode : Str) : Option Transfer :=
  (db.transfers.rows.find? (·.transferCode = some transferCode)).map db.transferToDomain

/-- Earliest expiry first. -/
def listTransfersExpiredBefore (db : Db) (deadline : ℤ) : List Transfer :=
  ((db.transfers.rows.filter fun m => m.expiresAt.any (· ≤ deadline)).insertionSort
    fun a b => a.expiresAt.getD 0 ≤ b.expiresAt.getD 0).map db.transferToDomain

/-! ## What the queries return -/

theorem getById_eq_some {db : Db} {sessionId : Uuid} {s : TransferSession} :
    db.getById sessionId = some s ↔
      ∃ m ∈ db.sessions.rows, m.id = sessionId ∧ s = db.sessionToDomain m := by
  simp only [getById, Option.map_eq_some_iff, Table.get?_eq_some, and_assoc, eq_comm (b := s)]

theorem getByCode_eq_some {db : Db} {code : Str} {s : TransferSession}
    (h : db.getByCode code = some s) :
    ∃ m ∈ db.sessions.rows, m.sessionCode = (Str.strip code).upper ∧ s = db.sessionToDomain m := by
  obtain ⟨m, hm, rfl⟩ := Option.map_eq_some_iff.mp h
  exact ⟨m, List.mem_of_find?_eq_some hm, by simpa using List.find?_some hm, rfl⟩

theorem getTransferByCode_eq_some {db : Db} {code : Str} {t : Transfer}
    (h : db.getTransferByCode code = some t) :
    ∃ m ∈ db.transfers.rows, m.transferCode = some code ∧ t = db.transferToDomain m := by
  obtain ⟨m, hm, rfl⟩ := Option.map_eq_some_iff.mp h
  exact ⟨m, List.mem_of_find?_eq_some hm, by simpa using List.find?_some hm, rfl⟩

theorem getItemById_eq_some {db : Db} {itemId : Uuid} {i : TransferItem} :
    db.getItemById itemId = some i ↔ i ∈ db.items.rows ∧ i.id = itemId := Table.get?_eq_some

@[simp] theorem isExpired_loadTimestamp (db : Db) (now : ℤ) (t : Option ℤ) :
    isExpired now (t.map db.loadTimestamp) = t.any (· < now) := by
  cases t with
  | none => rfl
  | some t =>
      simp only [Option.map_some, isExpired, loadTimestamp, Option.any_some]
      split <;> rfl

/-- A loaded session writes back the row it came from, up to the status. -/
theorem sessionToModel_sessionToDomain (db : Db) (m : TransferSessionModel) :
    sessionToModel (db.sessionToDomain m) = { m with status := (db.sessionToDomain m).status } := by
  cases m
  simp [sessionToModel, sessionToDomain, Function.comp_def, loadTimestamp]

theorem getById_of_mem {db : Db} {m : TransferSessionModel} (h : m ∈ db.sessions.rows) :
    db.getById m.id = some (db.sessionToDomain m) :=
  getById_eq_some.mpr ⟨m, h, rfl, rfl⟩

/-- Saving a session that was just loaded rewrites its status column only. -/
theorem save_sessionToDomain (db db' : Db) (m : TransferSessionModel) :
    db'.save (db.sessionToDomain m) = db'.putStatus m (db.sessionToDomain m).status := by
  rw [save, putStatus, sessionToModel_sessionToDomain]

@[simp] theorem mem_saveItem {db : Db} {i j : TransferItem} :
    j ∈ (db.saveItem i).items.rows ↔ j = i ∨ (j ∈ db.items.rows ∧ j.id ≠ i.id) := Table.mem_put

theorem mem_deleteById_sessions {db : Db} {sessionId : Uuid} {m : TransferSessionModel} :
    m ∈ (db.deleteById sessionId).sessions.rows ↔ m ∈ db.sessions.rows ∧ m.id ≠ sessionId := by
  simp [deleteById]

theorem mem_of_mem_deleteById {db : Db} {sessionId : Uuid} {i : TransferItem}
    (h : i ∈ (db.deleteById sessionId).items.rows) : i ∈ db.items.rows := by
  unfold deleteById at h
  cases hb : db.backend with
  | sqlite => simpa [hb] using h
  | postgresql =>
      simp only [hb, Table.mem_eraseWhere] at h
      exact h.1

theorem mem_deleteById_of_ne {db : Db} {sessionId : Uuid} {i : TransferItem}
    (h : i ∈ db.items.rows) (hne : i.sessionId ≠ sessionId) :
    i ∈ (db.deleteById sessionId).items.rows := by
  unfold deleteById
  cases hb : db.backend with
  | sqlite => exact h
  | postgresql => simp [h, hne]

end Db

end Jumbox
