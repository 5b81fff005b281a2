import Jumbox.Store.Database

/-!
# What a merge writes

`Session.merge` followed by a flush. Nothing refers to the rows a transaction has
loaded, so the identity map has dropped them and the merge reads the row once
more. If it finds one, the columns that differ from what it found are updated and
the others keep what the row holds by then; if it finds none, a row is inserted.
An update of a row that has gone raises `StaleDataError` and an insert that a
constraint rejects `IntegrityError`; both are `none` here.
-/

namespace Jumbox

/-- One column of a merged row. -/
def mergeColumn {α : Type} [DecidableEq α] (found new current : α) : α :=
  if new = found then current else new

/-- A row nobody has changed since the merge found it becomes the new one. -/
@[simp] theorem mergeColumn_self {α : Type} [DecidableEq α] (found new : α) :
    mergeColumn found new found = new := by
  unfold mergeColumn
  split
  · rename_i h
    exact h.symm
  · rfl

@[simp] theorem mergeColumn_same {α : Type} [DecidableEq α] (found current : α) :
    mergeColumn found found current = current := if_pos rfl

theorem mergeColumn_of_ne {α : Type} [DecidableEq α] {found new : α} (h : new ≠ found)
    (current : α) : mergeColumn found new current = new := if_neg h

namespace Db

def mergeSession (found new current : TransferSessionModel) : TransferSessionModel where
  id := current.id
  ownerId := mergeColumn found.ownerId new.ownerId current.ownerId
  sessionCode := mergeColumn found.sessionCode new.sessionCode current.sessionCode
  status := mergeColumn found.status new.status current.status
  expiresAt := mergeColumn found.expiresAt new.expiresAt current.expiresAt
  burnAfterDownload :=
    mergeColumn found.burnAfterDownload new.burnAfterDownload current.burnAfterDownload
  downloadCount := mergeColumn found.downloadCount new.downloadCount current.downloadCount
  createdAt := mergeColumn found.createdAt new.createdAt current.createdAt

def mergeItem (found new current : TransferItem) : TransferItem where
  id := current.id
  sessionId := mergeColumn found.sessionId new.sessionId current.sessionId
  originalName := mergeColumn found.originalName new.originalName current.originalName
  sizeBytes := mergeColumn found.sizeBytes new.sizeBytes current.sizeBytes
  storedName := mergeColumn found.storedName new.storedName current.storedName
  storagePath := mergeColumn found.storagePath new.storagePath current.storagePath
  checksumSha256 := mergeColumn found.checksumSha256 new.checksumSha256 current.checksumSha256
  status := mergeColumn found.status new.status current.status
  errorMessage := mergeColumn found.errorMessage new.errorMessage current.errorMessage
  createdAt := mergeColumn found.createdAt new.createdAt current.createdAt

/-- An update without changed columns is not sent. -/
def updateSession (db : Db) (found new : TransferSessionModel) : Option Db :=
  if new = found then some db
  else (db.sessions.get? found.id).map fun current =>
    { db with sessions := db.sessions.put (mergeSession found new current) }

/-- A completed item has a new `updated_at`, so that there is a column to write. -/
def updateItem (db : Db) (found new : TransferItem) : Option Db :=
  (db.items.get? found.id).map fun current => db.saveItem (mergeItem found new current)

def insertSession (db : Db) (new : TransferSessionModel) : Option Db :=
  if db.sessions.rows.any fun m => m.id = new.id ∨ m.sessionCode = new.sessionCode then none
  else some { db with sessions := db.sessions.put new }

/-- The foreign key holds where it is enforced. -/
def insertItem (db : Db) (new : TransferItem) : Option Db :=
  if (db.getItemById new.id).isSome ∨
      db.backend = .postgresql ∧ db.sessions.get? new.sessionId = none then none
  else some (db.saveItem new)

/-- The flush of a merge of `new`, which has found `found`. -/
def flushSession (db : Db) (found : Option TransferSessionModel) (new : TransferSessionModel) :
    Option Db :=
  match found with
  | none => db.insertSession new
  | some found => db.updateSession found new

def flushItem (db : Db) (found : Option TransferItem) (new : TransferItem) : Option Db :=
  match found with
  | none => db.insertItem new
  | some found => db.updateItem found new

theorem mergeSession_self {found new : TransferSessionModel} (h : new.id = found.id) :
    mergeSession found new found = new := by
  cases new
  simp only [mergeSession, mergeColumn_self]
  simp only at h
  rw [h]

theorem mergeItem_self {found new : TransferItem} (h : new.id = found.id) :
    mergeItem found new found = new := by
  cases new
  simp only [mergeItem, mergeColumn_self]
  simp only at h
  rw [h]

/-- In a transaction nobody interferes with, merging is saving. -/
theorem flushSession_of_mem {db : Db} {found new : TransferSessionModel}
    (hmem : found ∈ db.sessions.rows) (h : new.id = found.id) :
    db.flushSession (some found) new = some { db with sessions := db.sessions.put new } := by
  show db.updateSession found new = _
  unfold updateSession
  split
  · rename_i heq
    rw [heq, Table.put_of_mem hmem]
  · rw [Table.get?_of_mem hmem, Option.map_some, mergeSession_self h]

theorem flushItem_of_mem {db : Db} {found new : TransferItem}
    (hmem : found ∈ db.items.rows) (h : new.id = found.id) :
    db.flushItem (some found) new = some (db.saveItem new) := by
  show db.updateItem found new = _
  rw [updateItem, Table.get?_of_mem hmem, Option.map_some, mergeItem_self h]

theorem flushItem_sessions {db db' : Db} {found : Option TransferItem} {new : TransferItem}
    (h : db.flushItem found new = some db') : db'.sessions = db.sessions := by
  cases found with
  | none =>
      simp only [flushItem, insertItem] at h
      split at h
      · cases h
      · cases h
        rfl
  | some found =>
      obtain ⟨current, -, rfl⟩ := Option.map_eq_some_iff.mp h
      rfl

/-- The status of `new` is what a flush leaves, but where the merge has found it already:
there the column is left alone. -/
theorem status_of_flushSession {db db' : Db} {found : Option TransferSessionModel}
    {new m : TransferSessionModel} (hfound : ∀ r, found = some r → r.id = new.id)
    (h : db.flushSession found new = some db') (hm : m ∈ db'.sessions.rows)
    (hid : m.id = new.id) :
    (m.status = new.status ∧ ∀ r, found = some r → r.status ≠ new.status) ∨
      ∃ r current, found = some r ∧ r.status = new.status ∧ current ∈ db.sessions.rows ∧
        current.id = new.id ∧ m.status = current.status := by
  cases found with
  | none =>
      simp only [flushSession, insertSession] at h
      split at h
      · cases h
      · cases h
        rw [Table.eq_of_mem_put hm hid]
        exact Or.inl ⟨rfl, nofun⟩
  | some r =>
      have hr : r.id = new.id := hfound r rfl
      simp only [flushSession, updateSession] at h
      split at h
      · rename_i heq
        cases h
        exact Or.inr ⟨r, m, rfl, congrArg TransferSessionModel.status heq.symm, hm, hid, rfl⟩
      · obtain ⟨current, hget, rfl⟩ := Option.map_eq_some_iff.mp h
        obtain ⟨hcurrent, hcid⟩ := Table.get?_eq_some.mp hget
        rw [Table.eq_of_mem_put hm (hid.trans (hr.symm.trans hcid.symm))]
        by_cases hstatus : new.status = r.status
        · refine Or.inr ⟨r, current, rfl, hstatus.symm, hcurrent, hcid.trans hr, ?_⟩
          show mergeColumn r.status new.status current.status = current.status
          rw [hstatus, mergeColumn_same]
        · refine Or.inl ⟨mergeColumn_of_ne hstatus current.status, ?_⟩
          rintro r' ⟨⟩
          exact Ne.symm hstatus

/-- The status of `new` is written where the merge has not found it. -/
theorem exists_status_of_flushSession {db db' : Db} {found : Option TransferSessionModel}
    {new : TransferSessionModel} (hfound : ∀ r, found = some r → r.id = new.id)
    (h : db.flushSession found new = some db')
    (hne : ∀ r, found = some r → r.status ≠ new.status) :
    ∃ m ∈ db'.sessions.rows, m.id = new.id ∧ m.status = new.status := by
  cases found with
  | none =>
      simp only [flushSession, insertSession] at h
      split at h
      · cases h
      · cases h
        exact ⟨new, Table.mem_put.mpr (Or.inl rfl), rfl, rfl⟩
  | some r =>
      have hstatus : new.status ≠ r.status := (hne r rfl).symm
      simp only [flushSession, updateSession] at h
      split at h
      · rename_i heq
        exact absurd (congrArg TransferSessionModel.status heq) hstatus
      · obtain ⟨current, hget, rfl⟩ := Option.map_eq_some_iff.mp h
        refine ⟨_, Table.mem_put.mpr (Or.inl rfl), ?_, mergeColumn_of_ne hstatus current.status⟩
        exact (Table.get?_key hget).trans (hfound r rfl)

end Db

end Jumbox
