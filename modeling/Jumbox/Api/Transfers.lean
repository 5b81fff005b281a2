import Jumbox.Api.Routes
import Jumbox.Uploads.Run

/-!
# The routes of a single transfer

`download_transfer` and `transfer_qr_png` of `api/routes/transfers.py`. Both are
public and find their transfer by its code. What draws the picture (the URL of
the download route and the QR encoder) is a parameter.
-/

namespace Jumbox

namespace Api

open TransferService (resolveTransfer markDownloaded)

/-- `if transfer.expires_at is not None and transfer.expires_at <= datetime.now(UTC)` -/
def pastExpiry (now : ℤ) : Option Datetime → Except Error Bool
  | none => .ok false
  | some expiresAt => expiresAt.leNow now

def transferNotFound (e : Error) : HTTPException := raised [(.notFoundError, 404)] e

def transferExpired : HTTPException := ⟨410, "Transfer has expired".toList, none⟩

def fileNotFound : HTTPException := ⟨404, "File not found on disk".toList, none⟩

/-- `FileResponse` -/
structure ServedFile where
  path : Path
  body : Bytes
  filename : Str
  mediaType : Str
deriving DecidableEq

/-- The end of the handler. An empty path is the working directory: it exists, and
the response fails over it. -/
def serveTransfer (fs : Files) (transfer : Transfer) : Except HTTPException ServedFile :=
  match transfer.storagePath with
  | none => .error internalServerError
  | some path =>
      match fs path with
      | none => .error fileNotFound
      | some f => .ok ⟨path, f.data, transfer.originalName, "application/octet-stream".toList⟩

def downloadTransfer (w : World) (now : ℤ) (transferCode : Str) : Reply ServedFile :=
  match resolveTransfer w transferCode with
  | .error e => (.error (transferNotFound e), w)
  | .ok transfer =>
      match pastExpiry now transfer.expiresAt with
      | .error _ => (.error internalServerError, w)
      | .ok true => (.error transferExpired, w)
      | .ok false =>
          -- committed before the file is looked for
          match markDownloaded w now transferCode with
          | (.error _, w) => (.error internalServerError, w)
          | (.ok _, w) => (serveTransfer w.files transfer, w)

structure QrPng where
  content : Bytes
  mediaType : Str := "image/png".toList
  headers : List (Str × Str) := [("Cache-Control".toList, "no-store".toList)]
deriving DecidableEq

/-- `qrPng` is the picture for a code. -/
def transferQrPng (qrPng : Str → Bytes) (w : World) (now : ℤ) (transferCode : Str) :
    Except HTTPException QrPng :=
  match resolveTransfer w transferCode with
  | .error e => .error (transferNotFound e)
  | .ok transfer =>
      match pastExpiry now transfer.expiresAt with
      | .error _ => .error internalServerError
      | .ok true => .error transferExpired
      | .ok false => .ok { content := qrPng transferCode }

/-! ## How a download ends -/

/-- The row of a transfer that has been marked. -/
def markedDb (db : Db) (transfer : Transfer) (now : ℤ) : Db :=
  db.saveTransfer (transfer.markDownloaded now)

/-- The ends of `download_transfer`. -/
inductive DownloadEnd (w : World) (now : ℤ) (transferCode : Str) : Reply ServedFile → Prop where
  | unknown (e : HTTPException) (missing : w.db.getTransferByCode transferCode = none) :
      DownloadEnd w now transferCode (.error e, w)
  | refused (t : Transfer) (e : HTTPException)
      (found : w.db.getTransferByCode transferCode = some t)
      (past : pastExpiry now t.expiresAt ≠ .ok false) : DownloadEnd w now transferCode (.error e, w)
  | missing (t : Transfer) (e : HTTPException)
      (found : w.db.getTransferByCode transferCode = some t)
      (fresh : pastExpiry now t.expiresAt = .ok false) (gone : t.storagePath.bind w.files = none) :
      DownloadEnd w now transferCode (.error e, w.withDb (markedDb w.db t now))
  | served (t : Transfer) (path : Path) (f : File)
      (found : w.db.getTransferByCode transferCode = some t)
      (fresh : pastExpiry now t.expiresAt = .ok false) (stored : t.storagePath = some path)
      (file : w.files path = some f) :
      DownloadEnd w now transferCode
        (.ok ⟨path, f.data, t.originalName, "application/octet-stream".toList⟩,
          w.withDb (markedDb w.db t now))

theorem downloadTransfer_end (w : World) (now : ℤ) (transferCode : Str) :
    DownloadEnd w now transferCode (downloadTransfer w now transferCode) := by
  unfold downloadTransfer resolveTransfer
  cases hfound : w.db.getTransferByCode transferCode with
  | none => exact .unknown _ hfound
  | some t =>
      dsimp only
      cases hpast : pastExpiry now t.expiresAt with
      | error e =>
          apply DownloadEnd.refused t _ hfound
          rw [hpast]
          exact nofun
      | ok past =>
          cases past with
          | true =>
              apply DownloadEnd.refused t _ hfound
              rw [hpast]
              decide
          | false =>
              unfold markDownloaded
              simp only [hfound, World.withDb_files]
              unfold serveTransfer
              cases hstored : t.storagePath with
              | none =>
                  apply DownloadEnd.missing t _ hfound hpast
                  rw [hstored]
                  rfl
              | some path =>
                  dsimp only
                  cases hfile : w.files path with
                  | none =>
                      apply DownloadEnd.missing t _ hfound hpast
                      rw [hstored]
                      exact hfile
                  | some f => exact .served t path f hfound hpast hstored hfile

/-! ## Refused downloads -/

/-- A download that is refused leaves every row as it is, and one that is answered
has marked the row and serves the file the row names. -/
structure HonestDownload (w : World) (now : ℤ) (transferCode : Str) : Prop where
  refused : ∀ e, (downloadTransfer w now transferCode).1 = .error e →
    (downloadTransfer w now transferCode).2.db.transfers.rows = w.db.transfers.rows
  served : ∀ r, (downloadTransfer w now transferCode).1 = .ok r →
    ∃ m ∈ (downloadTransfer w now transferCode).2.db.transfers.rows,
      m.transferCode = some transferCode ∧ m.status = .downloaded ∧ m.downloadedAt = some now ∧
        m.storagePath = some r.path ∧ (w.files r.path).map File.data = some r.body

/-- A loaded transfer that is marked writes its row back with the two columns set. -/
theorem transferToModel_markDownloaded (db : Db) (m : TransferModel) (now : ℤ) :
    Db.transferToModel ((db.transferToDomain m).markDownloaded now) =
      { m with status := .downloaded, downloadedAt := some now } := by
  cases m
  simp [Db.transferToModel, Db.transferToDomain, Transfer.markDownloaded, Function.comp_def,
    Db.loadTimestamp]

/-- Marking changes nothing exactly if the row was marked at the same instant. -/
theorem markedDb_rows_eq_iff {db : Db} {m : TransferModel} (hm : m ∈ db.transfers.rows) (now : ℤ) :
    (markedDb db (db.transferToDomain m) now).transfers.rows = db.transfers.rows ↔
      m.status = .downloaded ∧ m.downloadedAt = some now := by
  show (db.transfers.put _).rows = _ ↔ _
  rw [Table.rows_put_eq_iff, transferToModel_markDownloaded]
  constructor
  · intro hmem
    have hsame := Table.eq_of_mem hmem hm rfl
    rw [← hsame]
    exact ⟨rfl, rfl⟩
  · rintro ⟨hstatus, hat⟩
    rw [← hstatus, ← hat]
    exact hm

theorem refused_download_changes_nothing_iff (w : World) (now : ℤ) (transferCode : Str) :
    HonestDownload w now transferCode ↔
      ∀ t, w.db.getTransferByCode transferCode = some t →
        pastExpiry now t.expiresAt = .ok false →
          (t.storagePath.bind w.files).isSome = true ∨
            (t.status = .downloaded ∧ t.downloadedAt = some now) := by
  have hend := downloadTransfer_end w now transferCode
  constructor
  · rintro ⟨hrefused, -⟩ t hfound hfresh
    generalize downloadTransfer w now transferCode = reply at hend hrefused
    cases hend with
    | unknown e hmissing => rw [hmissing] at hfound; cases hfound
    | refused t' e hfound' hpast =>
        obtain rfl := Option.some.inj (hfound'.symm.trans hfound)
        exact absurd hfresh hpast
    | missing t' e hfound' _ _ =>
        obtain rfl := Option.some.inj (hfound'.symm.trans hfound)
        obtain ⟨m, hm, -, rfl⟩ := Db.getTransferByCode_eq_some hfound
        exact Or.inr ((markedDb_rows_eq_iff hm now).mp (hrefused e rfl))
    | served t' path f hfound' _ hstored hfile =>
        obtain rfl := Option.some.inj (hfound'.symm.trans hfound)
        apply Or.inl
        rw [hstored, Option.bind_some, hfile]
        rfl
  · intro hsafe
    constructor
    · intro e he
      generalize downloadTransfer w now transferCode = reply at hend he
      cases hend with
      | unknown => rfl
      | refused => rfl
      | missing t e' hfound hfresh hgone =>
          rcases hsafe t hfound hfresh with hfile | hmarked
          · rw [hgone] at hfile
            cases hfile
          · obtain ⟨m, hm, -, rfl⟩ := Db.getTransferByCode_eq_some hfound
            exact (markedDb_rows_eq_iff hm now).mpr hmarked
      | served => cases he
    · intro r hr
      generalize downloadTransfer w now transferCode = reply at hend hr
      cases hend with
      | unknown => cases hr
      | refused => cases hr
      | missing => cases hr
      | served t path f hfound hfresh hstored hfile =>
          cases hr
          obtain ⟨m, hm, hcode, rfl⟩ := Db.getTransferByCode_eq_some hfound
          refine ⟨_, Table.mem_put.mpr (Or.inl rfl), ?_⟩
          rw [transferToModel_markDownloaded]
          exact ⟨hcode, rfl, rfl, hstored, congrArg (Option.map File.data) hfile⟩

namespace Sample

open Uploads.Sample (upload run codes)

theorem runs_shared : (run [upload 11 [1]]).isSome = true := by decide +kernel

def shared : World := ((run [upload 11 [1]]).get runs_shared).world

def sharedCode : Str := TransferService.generate (codes 11 0)

/-- The file has gone. -/
def emptied : World := shared.withFiles fun _ => none

end Sample

/-- Answered 404, and marked as downloaded. -/
theorem refused_download_marks_row :
    ¬ ∀ (w : World) (now : ℤ) (transferCode : Str), HonestDownload w now transferCode := by
  intro h
  have hgone : (downloadTransfer Sample.emptied 2 Sample.sharedCode).1 = .error fileNotFound := by
    decide +kernel
  have hrows := (h Sample.emptied 2 Sample.sharedCode).refused _ hgone
  have hmarked : (downloadTransfer Sample.emptied 2 Sample.sharedCode).2.db.transfers.rows.all
      (·.status = .downloaded) = true := by decide +kernel
  rw [hrows] at hmarked
  exact absurd hmarked (by decide +kernel)

end Api

end Jumbox
