import Jumbox.Sessions.Status

/-!
# What an expired session accepts

A session expires in two ways: its date passes, or it is burned and stored as
expired. The methods that write look at the date only; the stored status, which
`get_session_item` also asks for, plays no part in what they accept.
-/

namespace Jumbox

namespace SessionService

/-- The call raises `SessionExpiredError` and leaves the item rows, the part
files and the stored files as they were. -/
structure Refused {α : Type} (w : World) (o : Outcome α) : Prop where
  raised : o.1 = .error .sessionExpired
  items : o.2.db.items = w.db.items
  files : o.2.files = w.files

/-- The date of the session has passed. -/
def Late (m : TransferSessionModel) (now : ℤ) : Prop := m.expiresAt.any (· < now) = true

instance (m : TransferSessionModel) (now : ℤ) : Decidable (Late m now) :=
  inferInstanceAs (Decidable (_ = true))

/-- Errors of another class are not this one. -/
theorem error_ne_expired {α : Type} {e : Error} (h : e.kind ≠ .sessionExpiredError) :
    (.error e : Except Error α) ≠ .error .sessionExpired := by
  intro heq
  exact h (congrArg Error.kind (Except.error.inj heq))

section Calls

variable {d : Deployment} {w : World} {now : ℤ} {sid : Uuid} {owner : AuthenticatedUser}
  {m : TransferSessionModel}

theorem uploadItem_refused_of_late (h : LateFor w now sid owner m) (name : Str)
    (content : UploadStream) (size : ℤ) (iid : Uuid) :
    Refused w (uploadItem d w now sid owner name content size iid) := by
  simp only [uploadItem, openForUpload_of_late h]
  exact ⟨rfl, rfl, rfl⟩

theorem initResumableItem_refused_of_late (h : LateFor w now sid owner m) (name : Str) (total : ℤ)
    (expected : Option Str) (iid : Uuid) :
    Refused w (initResumableItem d w now sid owner name total expected iid) := by
  rw [initResumableItem, openForUpload_of_late h]
  exact ⟨rfl, rfl, rfl⟩

theorem appendItemChunk_refused_of_late {c : ChunkRequest}
    (h : LateFor w now c.sessionId c.owner m) : Refused w (appendItemChunk d w now c) := by
  have hopen : openChunk w now c =
      (.error .sessionExpired, w.withDb (w.db.putStatus m .expired)) := by
    rw [openChunk, openForUpload_of_late h]
  rw [appendItemChunk, hopen]
  exact ⟨rfl, rfl, rfl⟩

theorem uploadItem_not_refused (h : OpenFor w now sid owner m) (name : Str)
    (content : UploadStream) (size : ℤ) (iid : Uuid) :
    ¬ Refused w (uploadItem d w now sid owner name content size iid) := by
  intro hrefused
  have hraised := hrefused.raised
  rw [uploadItem_of_open h] at hraised
  cases hfail : content.failure with
  | some message =>
      rw [hfail] at hraised
      exact error_ne_expired (by rintro ⟨⟩) hraised
  | none =>
      rw [hfail] at hraised
      cases hraised

theorem initResumableItem_not_refused (h : OpenFor w now sid owner m) (name : Str) (total : ℤ)
    (expected : Option Str) (iid : Uuid) :
    ¬ Refused w (initResumableItem d w now sid owner name total expected iid) := by
  intro hrefused
  have hraised := hrefused.raised
  rw [initResumableItem_of_open h] at hraised
  cases hraised

/-- A digest that does not match is another error. -/
theorem checkHash_ne_expired (expected : Option Str) (computed : Str) :
    ChunkStorage.checkHash expected computed ≠ .error .sessionExpired := by
  intro h
  cases expected with
  | none => cases h
  | some e =>
      simp only [ChunkStorage.checkHash] at h
      split at h
      · exact error_ne_expired (by rintro ⟨⟩) h
      · cases h

theorem appendItemChunk_not_refused {c : ChunkRequest} (h : OpenFor w now c.sessionId c.owner m) :
    ¬ Refused w (appendItemChunk d w now c) := by
  intro hrefused
  have hraised := hrefused.raised
  cases hfind : findItem w c.sessionId c.itemId with
  | error e =>
      -- no such item
      simp only [appendItemChunk, openChunk, openForUpload_of_open h, hfind] at hraised
      rw [Except.error.inj hraised] at hfind
      unfold findItem at hfind
      split at hfind
      · exact error_ne_expired (by rintro ⟨⟩) hfind
      · split at hfind
        · exact error_ne_expired (by rintro ⟨⟩) hfind
        · cases hfind
  | ok i =>
      obtain ⟨hi, hid, hsid⟩ := findItem_eq_ok.mp hfind
      by_cases hoff : c.offset = w.files.size (ChunkStorage.partPath d c.sessionId c.itemId)
      · rcases appendItemChunk_accepted ⟨h, hi, hid, hsid, hoff⟩ with
          ⟨-, heq⟩ | ⟨-, err, herr, heq⟩ | ⟨-, -, t, heq⟩
        · rw [heq] at hraised
          cases hraised
        · rw [heq] at hraised
          obtain rfl := Except.error.inj hraised
          exact checkHash_ne_expired _ _ herr
        · rw [heq] at hraised
          cases hraised
      · rw [appendItemChunk_of_open h hi hid hsid, ChunkStorage.checkOffset_eq_error hoff]
          at hraised
        exact error_ne_expired (by rintro ⟨⟩) hraised

end Calls

/-- Whatever the stored status says, each of the three writing methods refuses a
session exactly if its date has passed. -/
theorem writers_refuse_iff_late {w : World} {m : TransferSessionModel}
    (hm : m ∈ w.db.sessions.rows) {owner : AuthenticatedUser}
    (hallow : m.ownerId = owner.userId ∨ owner.isAdmin = true) (d : Deployment) (now : ℤ) :
    (∀ name content size iid,
      Refused w (uploadItem d w now m.id owner name content size iid) ↔ Late m now) ∧
    (∀ name total expected iid,
      Refused w (initResumableItem d w now m.id owner name total expected iid) ↔ Late m now) ∧
    ∀ iid data offset,
      Refused w (appendItemChunk d w now ⟨m.id, iid, owner, data, offset⟩) ↔ Late m now := by
  by_cases hlate : Late m now
  · have h : LateFor w now m.id owner m := ⟨hm, rfl, hallow, hlate⟩
    refine ⟨?_, ?_, ?_⟩
    · intro name content size iid
      exact iff_of_true (uploadItem_refused_of_late h name content size iid) hlate
    · intro name total expected iid
      exact iff_of_true (initResumableItem_refused_of_late h name total expected iid) hlate
    · intro iid data offset
      exact iff_of_true (appendItemChunk_refused_of_late h) hlate
  · have h : OpenFor w now m.id owner m := ⟨hm, rfl, hallow, Bool.eq_false_of_not_eq_true hlate⟩
    refine ⟨?_, ?_, ?_⟩
    · intro name content size iid
      exact iff_of_false (uploadItem_not_refused h name content size iid) hlate
    · intro name total expected iid
      exact iff_of_false (initResumableItem_not_refused h name total expected iid) hlate
    · intro iid data offset
      exact iff_of_false (appendItemChunk_not_refused h) hlate

namespace Sample

/-- A session that is burned before anything is uploaded. -/
def burnedAtOnce : List Event := [create false, ⟨1, .burnSession sessionId fun _ => false⟩]

theorem runs_burnedAtOnce : (run burnedAtOnce).isSome = true := by decide +kernel

end Sample

/-- Once its hour is over. -/
theorem writers_refuse_iff_late_burned :
    ∃ m ∈ ((Sample.run Sample.burnedAtOnce).get Sample.runs_burnedAtOnce).world.db.sessions.rows,
      Refused ((Sample.run Sample.burnedAtOnce).get Sample.runs_burnedAtOnce).world
        (uploadItem .default ((Sample.run Sample.burnedAtOnce).get Sample.runs_burnedAtOnce).world
          3600000001 m.id Sample.owner "notes.txt".toList (.ofBytes [1]) 0 Sample.itemId) := by
  have hrow : ∃ m ∈ ((Sample.run Sample.burnedAtOnce).get
      Sample.runs_burnedAtOnce).world.db.sessions.rows,
        m.ownerId = Sample.owner.userId ∧ Late m 3600000001 := by
    decide +kernel
  obtain ⟨m, hm, howner, hlate⟩ := hrow
  have hrefuse := (writers_refuse_iff_late hm (Or.inl howner) .default 3600000001).1
  exact ⟨m, hm, (hrefuse "notes.txt".toList (.ofBytes [1]) 0 Sample.itemId).mpr hlate⟩

/-- A burned session takes an upload. -/
theorem expired_session_accepts :
    ¬ ∀ (d : Deployment) (s : State), Reachable d s → ∀ m ∈ s.world.db.sessions.rows,
      (s.world.db.sessionToDomain m).status = .expired →
      ∀ owner : AuthenticatedUser, (m.ownerId = owner.userId ∨ owner.isAdmin = true) →
      ∀ now name content size iid,
        Refused s.world (uploadItem d s.world now m.id owner name content size iid) := by
  intro h
  have hrow : ∃ m ∈ ((Sample.run Sample.burnedAtOnce).get
      Sample.runs_burnedAtOnce).world.db.sessions.rows, m.ownerId = Sample.owner.userId ∧
      (((Sample.run Sample.burnedAtOnce).get
        Sample.runs_burnedAtOnce).world.db.sessionToDomain m).status = .expired ∧
      (uploadItem .default ((Sample.run Sample.burnedAtOnce).get Sample.runs_burnedAtOnce).world
        2 m.id Sample.owner "notes.txt".toList (.ofBytes [1]) 0 Sample.itemId).1.isOk = true := by
    decide +kernel
  obtain ⟨m, hm, howner, hstatus, hok⟩ := hrow
  have hrefused := h .default _ (Sample.reachable_run Sample.runs_burnedAtOnce) m hm hstatus
    Sample.owner (Or.inl howner) 2 "notes.txt".toList (.ofBytes [1]) 0 Sample.itemId
  rw [hrefused.raised] at hok
  cases hok

end SessionService

end Jumbox
