import Jumbox.Api.Transfers
import Jumbox.Sessions.Swept

/-!
# Has it expired

Five places compare an expiry with the clock. The session service reads a naive
value as UTC and asks whether it lies before now; the two clean-up queries leave
the comparison to the database and take the instant itself as well; the two
routes of a transfer compare in Python, with the instant itself, and cannot
compare a naive value.
-/

namespace Jumbox

namespace Api

open CleanupService (Expired mem_listExpiredBefore mem_listTransfersExpiredBefore)

variable {w : World} {now : ℤ} {m : TransferSessionModel} {k : TransferModel} {code : Str}
  {qrPng : Str → Bytes}

/-- All five places come to the verdict `v`, and none raises: the session `m` and the
transfer `k` have expired at `now`, or have not. -/
structure Verdict (qrPng : Str → Bytes) (w : World) (now : ℤ) (m : TransferSessionModel)
    (k : TransferModel) (code : Str) (v : Bool) : Prop where
  session : isExpired now (w.db.sessionToDomain m).expiresAt = v
  sessionQuery : w.db.sessionToDomain m ∈ w.db.listExpiredBefore now ↔ v = true
  transferQuery : w.db.transferToDomain k ∈ w.db.listTransfersExpiredBefore now ↔ v = true
  compared : pastExpiry now (w.db.transferToDomain k).expiresAt = .ok v
  download : (downloadTransfer w now code).1 = .error transferExpired ↔ v = true
  qr : transferQrPng qrPng w now code = .error transferExpired ↔ v = true

/-! ## The places one by one -/

theorem isExpired_session (w : World) (now : ℤ) (m : TransferSessionModel) :
    isExpired now (w.db.sessionToDomain m).expiresAt = m.expiresAt.any (· < now) :=
  Db.isExpired_loadTimestamp w.db now m.expiresAt

theorem listed_iff (hm : m ∈ w.db.sessions.rows) :
    w.db.sessionToDomain m ∈ w.db.listExpiredBefore now ↔ Expired now m.expiresAt = true := by
  rw [mem_listExpiredBefore]
  constructor
  · rintro ⟨m', hm', hexpired, hsame⟩
    have hid : m'.id = m.id := (congrArg TransferSession.id hsame).symm
    rwa [Table.eq_of_mem hm' hm hid] at hexpired
  · intro hexpired
    exact ⟨m, hm, hexpired, rfl⟩

theorem transfer_listed_iff (hk : k ∈ w.db.transfers.rows) :
    w.db.transferToDomain k ∈ w.db.listTransfersExpiredBefore now ↔
      Expired now k.expiresAt = true := by
  rw [mem_listTransfersExpiredBefore]
  constructor
  · rintro ⟨k', hk', hexpired, hsame⟩
    have hid : k'.id = k.id := (congrArg Transfer.id hsame).symm
    rwa [Table.eq_of_mem hk' hk hid] at hexpired
  · intro hexpired
    exact ⟨k, hk, hexpired, rfl⟩

theorem pastExpiry_transfer (w : World) (now : ℤ) (k : TransferModel) :
    pastExpiry now (w.db.transferToDomain k).expiresAt =
      if k.expiresAt = none ∨ w.db.backend = .postgresql then .ok (Expired now k.expiresAt)
      else .error ⟨.typeError, "can't compare offset-naive and offset-aware datetimes".toList⟩ := by
  show pastExpiry now (k.expiresAt.map w.db.loadTimestamp) = _
  cases k.expiresAt with
  | none => rfl
  | some t =>
      show (if decide (w.db.backend = .postgresql) = true then _ else _) = _
      cases w.db.backend with
      -- loaded without its time zone
      | sqlite => rfl
      | postgresql => rfl

theorem serveTransfer_ne_expired (fs : Files) (t : Transfer) :
    serveTransfer fs t ≠ .error transferExpired := by
  unfold serveTransfer
  cases t.storagePath with
  | none => exact fun h => absurd (Except.error.inj h) (by decide)
  | some path =>
      dsimp only
      cases fs path with
      | none => exact fun h => absurd (Except.error.inj h) (by decide)
      | some f => exact nofun

/-- A route that can compare answers 410 exactly if the expiry is over. -/
theorem download_expired_iff (hk : w.db.getTransferByCode code = some (w.db.transferToDomain k))
    {v : Bool} (hpast : pastExpiry now (w.db.transferToDomain k).expiresAt = .ok v) :
    (downloadTransfer w now code).1 = .error transferExpired ↔ v = true := by
  unfold downloadTransfer TransferService.resolveTransfer TransferService.markDownloaded
  rw [hk]
  dsimp only
  rw [hpast]
  cases v with
  | true => exact iff_of_true rfl rfl
  | false => exact iff_of_false (serveTransfer_ne_expired _ _) Bool.false_ne_true

theorem qr_expired_iff (hk : w.db.getTransferByCode code = some (w.db.transferToDomain k))
    {v : Bool} (hpast : pastExpiry now (w.db.transferToDomain k).expiresAt = .ok v) :
    transferQrPng qrPng w now code = .error transferExpired ↔ v = true := by
  unfold transferQrPng TransferService.resolveTransfer
  rw [hk]
  dsimp only
  rw [hpast]
  cases v with
  | true => exact iff_of_true rfl rfl
  | false =>
      refine iff_of_false ?_ Bool.false_ne_true
      exact nofun

/-! ## Together -/

/-- A stored expiry has one verdict everywhere exactly if there is none, or the
database returns it with its time zone and it is not this very instant. -/
theorem verdicts_agree_iff (qrPng : Str → Bytes) (hm : m ∈ w.db.sessions.rows)
    (hk : k ∈ w.db.transfers.rows)
    (hcode : w.db.getTransferByCode code = some (w.db.transferToDomain k))
    (hsame : k.expiresAt = m.expiresAt) :
    (∃ v, Verdict qrPng w now m k code v) ↔
      m.expiresAt = none ∨ (w.db.backend = .postgresql ∧ m.expiresAt ≠ some now) := by
  constructor
  · rintro ⟨v, hv⟩
    cases hexpires : m.expiresAt with
    | none => exact Or.inl rfl
    | some t =>
        apply Or.inr
        have hcompared := hv.compared
        rw [pastExpiry_transfer, hsame, hexpires] at hcompared
        have hbackend : w.db.backend = .postgresql := by
          by_contra hnot
          rw [if_neg (by simp [hnot])] at hcompared
          cases hcompared
        refine ⟨hbackend, ?_⟩
        rintro ⟨⟩
        -- at the instant itself the session service says no and the query says yes
        have hsession := hv.session
        rw [isExpired_session, hexpires] at hsession
        have hquery := (listed_iff hm).symm.trans hv.sessionQuery
        rw [hexpires, ← hsession] at hquery
        simp [Expired] at hquery
  · intro hsafe
    have hcan : k.expiresAt = none ∨ w.db.backend = .postgresql := by
      rw [hsame]
      exact hsafe.imp_right And.left
    have hpast : pastExpiry now (w.db.transferToDomain k).expiresAt =
        .ok (Expired now k.expiresAt) := by rw [pastExpiry_transfer, if_pos hcan]
    refine ⟨Expired now k.expiresAt, ?_, ?_, transfer_listed_iff hk, hpast,
      download_expired_iff hcode hpast, qr_expired_iff hcode hpast⟩
    · rw [isExpired_session, hsame]
      rcases hsafe with hnone | ⟨-, hne⟩
      · rw [hnone]
        rfl
      · cases hexpires : m.expiresAt with
        | none => rfl
        | some t =>
            have hnow : t ≠ now := by
              rintro rfl
              exact hne hexpires
            show decide (t < now) = decide (t ≤ now)
            rw [decide_eq_decide]
            omega
    · rw [listed_iff hm, hsame]

/-! ## A transfer and a session of one minute -/

namespace Sample

open Uploads.Sample (owner name codes)

/-- Both expire at the same instant. -/
def minute (backend : Backend) : World :=
  (SessionService.createSession
    (TransferService.uploadFile .default (World.initial backend) 0 (some name) (.ofBytes [1])
      ⟨owner, some 60, none, Uuid.ofNat 11, codes 11, none⟩).2
    0 owner 60 false (Uuid.ofNat 1) fun _ => SessionService.Sample.draw 0).2

def session : TransferSessionModel where
  id := Uuid.ofNat 1
  ownerId := owner.userId
  sessionCode := SessionService.Sample.code
  expiresAt := some 60000000
  createdAt := 0

theorem session_stored (backend : Backend) : session ∈ (minute backend).db.sessions.rows := by
  cases backend <;> decide +kernel

def transfer : TransferModel where
  id := Uuid.ofNat 11
  ownerId := owner.userId
  folderId := none
  originalName := name
  storedName := TransferService.buildStoredName owner.userId name
  storagePath := some (TransferService.uploadPath .default owner.userId (some name))
  sizeBytes := 1
  checksumSha256 := some (hexdigest [1])
  transferCode := some sharedCode
  status := .ready
  expiresAt := some 60000000
  downloadedAt := none
  sha256Verified := true
  createdAt := 0

theorem transfer_stored (backend : Backend) : transfer ∈ (minute backend).db.transfers.rows := by
  cases backend <;> decide +kernel

theorem transfer_found (backend : Backend) : (minute backend).db.getTransferByCode sharedCode =
    some ((minute backend).db.transferToDomain transfer) := by
  cases backend <;> decide +kernel

end Sample

/-- One second before. -/
theorem verdicts_agree_iff_minute :
    ∃ v, Verdict (fun _ => []) (Sample.minute .postgresql) 59000000 Sample.session Sample.transfer
      Sample.sharedCode v :=
  (verdicts_agree_iff (fun _ => []) (Sample.session_stored .postgresql)
    (Sample.transfer_stored .postgresql) (Sample.transfer_found .postgresql) rfl).mpr
      (Or.inr ⟨by decide +kernel, by decide⟩)

/-- The routes cannot compare what SQLite returns. -/
theorem naive_expiry_raises :
    ¬ ∀ (qrPng : Str → Bytes) (w : World) (now : ℤ) (m : TransferSessionModel) (k : TransferModel)
      (code : Str), m ∈ w.db.sessions.rows → k ∈ w.db.transfers.rows →
        w.db.getTransferByCode code = some (w.db.transferToDomain k) →
          k.expiresAt = m.expiresAt → ∃ v, Verdict qrPng w now m k code v := by
  intro h
  obtain ⟨v, hv⟩ := h (fun _ => []) (Sample.minute .sqlite) 59000000 Sample.session
    Sample.transfer Sample.sharedCode (Sample.session_stored .sqlite)
    (Sample.transfer_stored .sqlite) (Sample.transfer_found .sqlite) rfl
  have hcompared := hv.compared
  rw [pastExpiry_transfer, if_neg (by decide +kernel)] at hcompared
  cases hcompared

end Api

end Jumbox
