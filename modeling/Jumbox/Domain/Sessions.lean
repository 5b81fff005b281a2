import Jumbox.Domain.Basic

/-!
# Transfer sessions

The aggregate of `domain/sessions.py`. `updated_at` is written everywhere and
read nowhere, so it is left out.
-/

namespace Jumbox

inductive SessionStatus where
  | pending
  | inProgress
  | ready
  | expired
  | cancelled
deriving DecidableEq

inductive ItemStatus where
  | queued
  | uploading
  | completed
  | failed
  | cancelled
deriving DecidableEq

structure TransferItem where
  sessionId : Uuid
  originalName : Str
  sizeBytes : ℤ
  id : Uuid
  storedName : Option Str := none
  storagePath : Option Path := none
  checksumSha256 : Option Str := none
  status : ItemStatus := .queued
  errorMessage : Option Str := none
  createdAt : ℤ
deriving DecidableEq

namespace TransferItem

def markUploading (i : TransferItem) : TransferItem := { i with status := .uploading }

def markCompleted (i : TransferItem) (checksumSha256 : Str) (storagePath : Path)
    (storedName : Option Str) : TransferItem :=
  { i with
    status := .completed
    checksumSha256 := some checksumSha256
    storagePath := some storagePath
    -- `if stored_name:`, so an empty name does not replace the old one
    storedName := if storedName.getD [] = [] then i.storedName else storedName }

def markFailed (i : TransferItem) (error : Str) : TransferItem :=
  { i with status := .failed, errorMessage := some error }

end TransferItem

structure TransferSession where
  ownerId : Uuid
  sessionCode : Str
  id : Uuid
  expiresAt : Option Datetime := none
  burnAfterDownload : Bool := false
  downloadCount : ℤ := 0
  items : List TransferItem := []
  createdAt : ℤ
  /-- `_status` -/
  status_ : SessionStatus := .pending
deriving DecidableEq

namespace TransferSession

/-- The property `status`: sticky when expired or cancelled, otherwise derived
from the items. -/
def status (s : TransferSession) : SessionStatus :=
  if s.status_ = .expired ∨ s.status_ = .cancelled then s.status_
  else if s.items = [] then s.status_
  else if s.items.all (·.status = .completed) then .ready
  else if s.items.any fun i => i.status = .uploading ∨ i.status = .completed then .inProgress
  else .pending

/-- The property `total_size_bytes`. -/
def totalSizeBytes (s : TransferSession) : ℤ :=
  s.items.foldl (fun total item => total + item.sizeBytes) 0

def recordDownload (s : TransferSession) : TransferSession :=
  { s with
    downloadCount := s.downloadCount + 1
    status_ := if s.burnAfterDownload then .expired else s.status_ }

theorem status_of_expired {s : TransferSession} (h : s.status_ = .expired) :
    s.status = .expired := by
  simp [status, h]

/-- The statuses that are never derived from the items. -/
theorem status_eq_sticky {s : TransferSession} {st : SessionStatus}
    (hst : st = .expired ∨ st = .cancelled) : s.status = st ↔ s.status_ = st := by
  constructor
  · intro h
    unfold status at h
    split at h
    · exact h
    · split at h
      · exact h
      · rcases hst with rfl | rfl
        · split at h
          · cases h
          · split at h <;> cases h
        · split at h
          · cases h
          · split at h <;> cases h
  · rintro rfl
    exact if_pos hst

/-- A session that is not stored as expired never derives that status. -/
theorem status_eq_expired_iff {s : TransferSession} :
    s.status = .expired ↔ s.status_ = .expired := status_eq_sticky (Or.inl rfl)

/-- Ready means that there are items and all are complete, except where the
status is the stored one of a session without items. -/
theorem status_eq_ready_iff {s : TransferSession} (hne : s.items ≠ []) :
    s.status = .ready ↔ s.status_ ≠ .expired ∧ s.status_ ≠ .cancelled ∧
      ∀ i ∈ s.items, i.status = .completed := by
  unfold status
  by_cases hsticky : s.status_ = .expired ∨ s.status_ = .cancelled
  · rw [if_pos hsticky]
    constructor
    · intro h
      rw [h] at hsticky
      rcases hsticky with hsticky | hsticky <;> cases hsticky
    · rintro ⟨hexp, hcan, -⟩
      exact absurd hsticky (by simp [hexp, hcan])
  · obtain ⟨hexp, hcan⟩ := not_or.mp hsticky
    rw [if_neg hsticky, if_neg hne]
    by_cases hall : s.items.all (·.status = .completed) = true
    · rw [if_pos hall]
      simpa [hexp, hcan] using hall
    · rw [if_neg hall]
      constructor
      · intro h
        split at h <;> cases h
      · rintro ⟨-, -, h⟩
        exact absurd (by simpa using h) hall

end TransferSession

end Jumbox
