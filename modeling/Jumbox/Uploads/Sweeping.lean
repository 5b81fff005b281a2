import Jumbox.Uploads.Retry

/-!
# Sweeps of the temporary directory during an upload

`cleanup_orphaned_temp_files` goes by the age of a file, and the life of an
upload session by its record in the cache. A pause between two chunks that is
longer than the age of the sweep costs the session its file, and the next chunk
starts a new one.
-/

namespace Jumbox

namespace Sweeping

open ChunkedUploadService
open TransferService (accepts)

/-- The uploads of one session, with the clock and the bytes accepted so far. -/
structure State where
  world : World
  clock : ℤ
  accepted : Bytes

inductive Event where
  | append (now : ℤ) (caller : AuthenticatedUser) (chunk : UploadStream) (draws : Draws)
  | sweep (now maxAgeSeconds : ℤ) (entries : List Str) (unlinkFails : Path → Bool)

def Event.now : Event → ℤ
  | .append now _ _ _ => now
  | .sweep now _ _ _ => now

section System

variable (d : Deployment) (sid : Uuid)

/-- What a call leaves; a chunk is accepted when its call returns. -/
def next (s : State) : Event → State
  | .append now caller chunk draws =>
      let o := appendChunk d s.world now caller sid chunk draws
      ⟨o.2, now, if o.1.isOk then s.accepted ++ chunk.content else s.accepted⟩
  | .sweep now maxAgeSeconds entries unlinkFails =>
      ⟨s.world.withFiles (CleanupService.cleanupOrphanedTempFiles (some d.tempDir) entries
        s.world.files now maxAgeSeconds unlinkFails).2, now, s.accepted⟩

/-- Calls come one after the other in time. -/
def system : System State Event where
  step s e := if s.clock ≤ e.now then some (next d sid s e) else none

/-- A session that has just been created. -/
def start (w : World) (now : ℤ) (owner : AuthenticatedUser) (originalName : Str)
    (totalSizeBytes : ℤ) (expiresInSeconds : Option ℤ) (folderId : Option Uuid) : State :=
  ⟨(createSession d w now owner originalName totalSizeBytes expiresInSeconds folderId sid).2, now, []⟩

end System

/-- The record of the session, if it is active and its expiry is still ahead. -/
def inProgress (w : World) (now : ℤ) (sid : Uuid) : Option UploadSession :=
  (w.cache.get now sid).filter fun session =>
    session.status = .active ∧ session.expiresAt.all (now < ·)

/-- As long as the session is in progress its file holds what it has received,
which is what was accepted, and a call that completes it registers all of it. -/
structure Intact (d : Deployment) (sid : Uuid) (s : State) : Prop where
  holds : ∀ session ∈ inProgress s.world s.clock sid,
    s.world.files.bytes session.tempPath = s.accepted ∧
      session.receivedBytes = s.accepted.length
  registers : ∀ now caller chunk draws, s.clock ≤ now → (inProgress s.world now sid).isSome →
    completed (appendChunk d s.world now caller sid chunk draws) = some true →
    registered (appendChunk d s.world now caller sid chunk draws).2 draws.transferId =
      some ⟨s.accepted ++ chunk.content, some (hexdigest (s.accepted ++ chunk.content)),
        (s.accepted ++ chunk.content).length⟩

/-- The temporary file stays where it is: its destination is a directory that has
a file of its name already. -/
def Blocked (d : Deployment) (w : World) (session : UploadSession) : Prop :=
  isDirectory d (finalPath d session.originalName) = true ∧
    (w.files (finalPath d session.originalName ++ [session.tempPath.getLastD []])).isSome = true

instance (d : Deployment) (w : World) (session : UploadSession) :
    Decidable (Blocked d w session) := inferInstanceAs (Decidable (_ ∧ _))

/-- The call that brings a session to its end succeeds. -/
def Finishes (d : Deployment) (w : World) (now : ℤ) (caller : AuthenticatedUser)
    (session : UploadSession) (draws : Draws) : Prop :=
  isDirectory d (finalPath d session.originalName) = false ∧
    accepts w.db now (registration now caller session.markCompleted draws) = true

instance (d : Deployment) (w : World) (now : ℤ) (caller : AuthenticatedUser)
    (session : UploadSession) (draws : Draws) :
    Decidable (Finishes d w now caller session draws) := inferInstanceAs (Decidable (_ ∧ _))

/-- A chunk does no harm: a stream that breaks has brought nothing; and a call that
brings the session to its end succeeds, or leaves the file alone after an empty
chunk, or moves it away before anything was accepted. -/
def Harmless (d : Deployment) (w : World) (now : ℤ) (caller : AuthenticatedUser)
    (session : UploadSession) (chunk : UploadStream) (draws : Draws) (accepted : Bytes) : Prop :=
  (chunk.failure ≠ none → chunk.content = []) ∧
    (chunk.failure = none →
      (counted session chunk).totalSizeBytes ≤ (counted session chunk).receivedBytes →
      Finishes d w now caller (counted session chunk) draws ∨
        (Blocked d w session ∧ chunk.content = []) ∨ (¬ Blocked d w session ∧ accepted = []))

instance (d : Deployment) (w : World) (now : ℤ) (caller : AuthenticatedUser)
    (session : UploadSession) (chunk : UploadStream) (draws : Draws) (accepted : Bytes) :
    Decidable (Harmless d w now caller session chunk draws accepted) :=
  inferInstanceAs (Decidable ((_ → _) ∧ (_ → _ → _)))

/-- A step spares the session in progress: a sweep finds its file too young, or
not at all, unless nothing has been accepted yet. -/
def Spares (d : Deployment) (sid : Uuid) (s : State) : Event → Prop
  | .append now caller chunk draws =>
      ∀ session ∈ inProgress s.world now sid, session.ownerId = caller.userId →
        Harmless d s.world now caller session chunk draws s.accepted
  | .sweep now maxAgeSeconds entries unlinkFails =>
      ∀ session ∈ inProgress s.world now sid, s.accepted = [] ∨
        ¬ (session.tempPath.getLastD [] ∈ entries ∧ CleanupService.Aged unlinkFails now
          maxAgeSeconds s.world.files session.tempPath)

instance (d : Deployment) (sid : Uuid) (s : State) : (e : Event) → Decidable (Spares d sid s e)
  | .append .. => inferInstanceAs (Decidable (∀ session ∈ inProgress _ _ _, _))
  | .sweep .. => inferInstanceAs (Decidable (∀ session ∈ inProgress _ _ _, _))

/-! ## Sessions in progress -/

theorem mem_inProgress {w : World} {now : ℤ} {sid : Uuid} {session : UploadSession} :
    session ∈ inProgress w now sid ↔ w.cache.get now sid = some session ∧
      session.status = .active ∧ session.expiresAt.all (now < ·) = true := by
  rw [Option.mem_def, inProgress, Option.filter_eq_some_iff, decide_eq_true_eq]

theorem live_mono {now now' : ℤ} (h : now ≤ now') {e : CacheEntry}
    (hlive : UploadSessionCache.live now' e = true) : UploadSessionCache.live now e = true := by
  obtain ⟨session, dropAt⟩ := e
  cases dropAt with
  | none => rfl
  | some t => exact decide_eq_true (lt_of_le_of_lt h (of_decide_eq_true hlive))

theorem get_mono {c : UploadSessionCache} {now now' : ℤ} (h : now ≤ now') {sid : Uuid}
    {session : UploadSession} (hget : c.get now' sid = some session) :
    c.get now sid = some session := by
  obtain ⟨e, he, rfl⟩ := Option.map_eq_some_iff.mp hget
  obtain ⟨hentry, hlive⟩ := Option.filter_eq_some_iff.mp he
  exact Option.map_eq_some_iff.mpr ⟨e, Option.filter_eq_some_iff.mpr ⟨hentry, live_mono h hlive⟩, rfl⟩

/-- A session in progress has been in progress since its last call. -/
theorem inProgress_mono {w : World} {now now' : ℤ} (h : now ≤ now') {sid : Uuid}
    {session : UploadSession} (hprog : session ∈ inProgress w now' sid) :
    session ∈ inProgress w now sid := by
  obtain ⟨hget, hactive, hahead⟩ := mem_inProgress.mp hprog
  refine mem_inProgress.mpr ⟨get_mono h hget, hactive, ?_⟩
  cases ht : session.expiresAt with
  | none => rfl
  | some t =>
      rw [ht] at hahead
      exact decide_eq_true (lt_of_le_of_lt h (of_decide_eq_true hahead))

theorem openSession_of_inProgress {w : World} {now : ℤ} {sid : Uuid} {session : UploadSession}
    (hprog : session ∈ inProgress w now sid) {caller : AuthenticatedUser}
    (howner : session.ownerId = caller.userId) : openSession w now caller sid = .ok session := by
  obtain ⟨hget, hactive, -⟩ := mem_inProgress.mp hprog
  simp only [openSession, hget]
  rw [if_neg (not_not.mpr howner), if_neg (not_not.mpr hactive)]

/-- What the records of the session have in common. -/
structure Recorded (d : Deployment) (sid : Uuid) (session : UploadSession) : Prop where
  id : session.id = sid
  temp : InTemp d session.tempPath
  name : '/' ∉ session.originalName

/-- The cache holds no other record for the session. -/
def Known (d : Deployment) (sid : Uuid) (s : State) : Prop :=
  ∀ e, s.world.cache sid = some e → Recorded d sid e.session

theorem Known.of_get {d : Deployment} {sid : Uuid} {s : State} (h : Known d sid s) {now : ℤ}
    {session : UploadSession} (hget : s.world.cache.get now sid = some session) :
    Recorded d sid session := by
  obtain ⟨e, he, rfl⟩ := UploadSessionCache.get_eq_some hget
  exact h e he

/-! ## One call of `append_chunk` -/

section Append

variable {d : Deployment} {w : World} {now : ℤ} {caller : AuthenticatedUser} {sid : Uuid}
  {session : UploadSession} {chunk : UploadStream} {draws : Draws}

/-- Into a directory the file is moved under its own name, if that is free, and
the call fails all the same. -/
theorem completeSession_of_directory (now : ℤ) (caller : AuthenticatedUser) (draws : Draws)
    {f : File} (hf : w.files session.tempPath = some f)
    (hdir : isDirectory d (finalPath d session.originalName) = true) :
    ∃ e, completeSession d w now caller session draws =
      (.error e, if Blocked d w session then w else w.withFiles (movedTo w.files session.tempPath
        (finalPath d session.originalName ++ [session.tempPath.getLastD []]) f)) := by
  have hmove : ∀ p, w.files.move session.tempPath p =
      some (movedTo w.files session.tempPath p f) :=
    fun p => Files.move_eq_some.mpr ⟨f, hf, rfl⟩
  have hpath : session.markCompleted.tempPath = session.tempPath := rfl
  have hname : session.markCompleted.originalName = session.originalName := rfl
  unfold completeSession finalizeTempFile
    move
  simp only [hpath, hname, hmove, hdir, if_true]
  by_cases hblocked : Blocked d w session
  · rw [if_pos hblocked, if_pos hblocked.2]
    exact ⟨_, rfl⟩
  · have hfree : ¬ (w.files (finalPath d session.originalName ++
        [session.tempPath.getLastD []])).isSome = true := fun h => hblocked ⟨hdir, h⟩
    rw [if_neg hblocked, if_neg hfree]
    simp only [Option.elim_some, Except.map, checksum_of_directory hdir]
    exact ⟨_, rfl⟩

theorem appendChunk_of_open (hopen : openSession w now caller sid = .ok session)
    (chunk : UploadStream) (draws : Draws) :
    appendChunk d w now caller sid chunk draws =
      match chunk.failure with
      | some message => (.error ⟨.osError, message⟩, w.withFiles (appended w now session chunk))
      | none =>
          if (counted session chunk).totalSizeBytes ≤ (counted session chunk).receivedBytes then
            completeSession d (w.withFiles (appended w now session chunk)) now
              caller (counted session chunk) draws
          else
            (.ok ⟨session.id, session.status, (counted session chunk).receivedBytes,
                session.totalSizeBytes, false, none, none⟩,
              (w.withFiles (appended w now session chunk)).withCache
                (w.cache.save now (counted session chunk))) := by
  simp only [appendChunk, hopen, appendToTempFile_eq]
  cases chunk.failure with
  | some message => rfl
  | none => rfl

theorem blocked_appended (hrec : Recorded d sid session) :
    Blocked d (w.withFiles (appended w now session chunk)) (counted session chunk) ↔
      Blocked d w session := by
  refine and_congr_right fun hdir => ?_
  have hne := ne_of_isDirectory hdir (session.tempPath.getLastD []) hrec.temp
  have hfile : appended w now session chunk
      (finalPath d session.originalName ++ [session.tempPath.getLastD []]) =
        w.files (finalPath d session.originalName ++ [session.tempPath.getLastD []]) :=
    Files.append_ne hne
  show (appended w now session chunk _).isSome = true ↔ _
  exact iff_of_eq (congrArg (·.isSome = true) hfile)

/-- A call that brings the session to its end and succeeds drops the record. -/
theorem appendChunk_finishes (hopen : openSession w now caller sid = .ok session)
    (hread : chunk.failure = none)
    (hlast : (counted session chunk).totalSizeBytes ≤ (counted session chunk).receivedBytes)
    (hrec : Recorded d sid session)
    (hfinishes : Finishes d w now caller (counted session chunk) draws) :
    ∃ r w', appendChunk d w now caller sid chunk draws = (.ok r, w') ∧
      w'.cache sid = none := by
  obtain ⟨t, ht⟩ := Files.append_self w.files session.tempPath now chunk.content
  obtain ⟨hdir, haccepted⟩ := hfinishes
  have hended := completeSession_completion d
    (w.withFiles (appended w now session chunk)) now caller (counted session chunk) draws ht
  rw [appendChunk_of_open hopen, hread]
  simp only [if_pos hlast]
  generalize completeSession d (w.withFiles (appended w now session chunk)) now
    caller (counted session chunk) draws = o at hended
  cases hended with
  | stuck e htrue => exact absurd (htrue.symm.trans hdir) (by decide)
  | misplaced e x htrue => exact absurd (htrue.symm.trans hdir) (by decide)
  | unregistered e _ hrejected => exact absurd (hrejected.symm.trans haccepted) (by decide)
  | completed r m =>
      refine ⟨_, _, rfl, ?_⟩
      exact hrec.id ▸ Function.update_self ..

/-- One that fails leaves the record, and the file only where it is blocked. -/
theorem appendChunk_not_finishes (hopen : openSession w now caller sid = .ok session)
    (hread : chunk.failure = none)
    (hlast : (counted session chunk).totalSizeBytes ≤ (counted session chunk).receivedBytes)
    (hrec : Recorded d sid session)
    (hnot : ¬ Finishes d w now caller (counted session chunk) draws) :
    ∃ e w', appendChunk d w now caller sid chunk draws = (.error e, w') ∧ w'.cache = w.cache ∧
      w'.files.bytes session.tempPath =
        if Blocked d w session then w.files.bytes session.tempPath ++ chunk.content else [] := by
  obtain ⟨t, ht⟩ := Files.append_self w.files session.tempPath now chunk.content
  have hbytes : (appended w now session chunk).bytes session.tempPath =
      w.files.bytes session.tempPath ++ chunk.content := Files.bytes_append_self _ _ _ _
  rw [appendChunk_of_open hopen, hread]
  simp only [if_pos hlast]
  cases hdir : isDirectory d (finalPath d session.originalName) with
  | true =>
      have hfile : (w.withFiles (appended w now session chunk)).files
          (counted session chunk).tempPath = some _ := ht
      obtain ⟨e, heq⟩ := completeSession_of_directory now caller draws hfile hdir
      rw [heq]
      by_cases hblocked : Blocked d w session
      · rw [if_pos ((blocked_appended hrec).mpr hblocked), if_pos hblocked]
        exact ⟨e, _, rfl, rfl, hbytes⟩
      · rw [if_neg (mt (blocked_appended hrec).mp hblocked), if_neg hblocked]
        refine ⟨e, _, rfl, rfl, Files.bytes_of_none ?_⟩
        have hne := ne_of_isDirectory hdir (session.tempPath.getLastD [])
          hrec.temp
        exact (Function.update_of_ne hne.symm _ _).trans (Files.unlink_self _ _)
  | false =>
      have hblocked : ¬ Blocked d w session := by
        rintro ⟨htrue, -⟩
        exact absurd (htrue.symm.trans hdir) (by decide)
      rw [if_neg hblocked]
      have hended := completeSession_completion d
        (w.withFiles (appended w now session chunk)) now caller (counted session chunk) draws ht
      generalize completeSession d (w.withFiles
        (appended w now session chunk)) now caller (counted session chunk) draws = o at hended
      cases hended with
      | stuck e htrue => exact absurd (htrue.symm.trans hdir) (by decide)
      | misplaced e x htrue => exact absurd (htrue.symm.trans hdir) (by decide)
      | unregistered e hfalse =>
          refine ⟨e, _, rfl, rfl, Files.bytes_of_none ?_⟩
          have hne : session.tempPath ≠ finalPath d session.originalName :=
            hrec.temp.ne_uploads (inUploads_finalPath hrec.name hdir)
          exact (Function.update_of_ne hne _ _).trans (Files.unlink_self _ _)
      | completed r m hfalse haccepted => exact absurd ⟨hfalse, haccepted⟩ hnot

/-- A call leaves the cache, or saves the session, or drops it. -/
theorem appendChunk_cache (d : Deployment) (w : World) (now : ℤ) (caller : AuthenticatedUser)
    (sid : Uuid) (chunk : UploadStream) (draws : Draws) :
    (appendChunk d w now caller sid chunk draws).2.cache = w.cache ∨
      ∃ session, openSession w now caller sid = .ok session ∧
        ((appendChunk d w now caller sid chunk draws).2.cache =
            w.cache.save now (counted session chunk) ∨
          (appendChunk d w now caller sid chunk draws).2.cache = w.cache.delete session.id) := by
  rcases appendChunk_cases d w now caller sid chunk draws with
    ⟨e, -, heq⟩ | ⟨session, hopen, ⟨-, e, heq⟩ | ⟨-, -, r, heq⟩ | ⟨-, -, t, -, hended⟩⟩
  · exact Or.inl (by rw [heq])
  · exact Or.inl (by rw [heq]; rfl)
  · exact Or.inr ⟨session, hopen, Or.inl (by rw [heq]; rfl)⟩
  · generalize appendChunk d w now caller sid chunk draws = o at hended
    cases hended with
    | stuck => exact Or.inl rfl
    | misplaced => exact Or.inl rfl
    | unregistered => exact Or.inl rfl
    | completed => exact Or.inr ⟨session, hopen, Or.inr rfl⟩

end Append

/-! ## Steps of a run -/

section Steps

variable {d : Deployment} {sid : Uuid} {s : State}

section Next

variable {now : ℤ} {caller : AuthenticatedUser} {chunk : UploadStream} {draws : Draws} {w : World}

theorem next_of_error {e : Error}
    (h : appendChunk d s.world now caller sid chunk draws = (.error e, w)) :
    next d sid s (.append now caller chunk draws) = ⟨w, now, s.accepted⟩ := by
  simp only [next, h]
  rfl

theorem next_of_ok {r : ChunkUploadResult}
    (h : appendChunk d s.world now caller sid chunk draws = (.ok r, w)) :
    next d sid s (.append now caller chunk draws) = ⟨w, now, s.accepted ++ chunk.content⟩ := by
  simp only [next, h]
  rfl

end Next

theorem Recorded.counted {session : UploadSession} (h : Recorded d sid session)
    (chunk : UploadStream) : Recorded d sid (counted session chunk) :=
  ⟨h.id, h.temp, h.name⟩

theorem Known.next (h : Known d sid s) (e : Event) : Known d sid (next d sid s e) := by
  cases e with
  | sweep => exact h
  | append now caller chunk draws =>
      show ∀ e, (appendChunk d s.world now caller sid chunk draws).2.cache sid = some e → _
      rcases appendChunk_cache d s.world now caller sid chunk draws with
        hcache | ⟨session, hopen, hcache | hcache⟩
      · rw [hcache]
        exact h
      · have hrec := h.of_get (get_of_openSession hopen).1
        have hentry : s.world.cache.save now (counted session chunk) sid =
            some ⟨counted session chunk, session.expiresAt.map fun t =>
              now + UploadSessionCache.ttlSeconds now t * 1000000⟩ := by
          rw [← hrec.id]
          exact Function.update_self ..
        rw [hcache, hentry]
        rintro e ⟨⟩
        exact hrec.counted chunk
      · have hrec := h.of_get (get_of_openSession hopen).1
        have hentry : s.world.cache.delete session.id sid = none := by
          rw [← hrec.id]
          exact Function.update_self ..
        rw [hcache, hentry]
        rintro e ⟨⟩

/-- The first part of `Intact`. -/
def Held (sid : Uuid) (s : State) : Prop :=
  ∀ session ∈ inProgress s.world s.clock sid,
    s.world.files.bytes session.tempPath = s.accepted ∧ session.receivedBytes = s.accepted.length

theorem Held.intact (h : Held sid s) (hknown : Known d sid s) : Intact d sid s := by
  refine ⟨h, ?_⟩
  intro now caller chunk draws hclock hprog hdone
  obtain ⟨session, hsession⟩ := Option.isSome_iff_exists.mp hprog
  obtain ⟨hbytes, hsize⟩ := h session (inProgress_mono hclock hsession)
  obtain ⟨hget, -, -⟩ := mem_inProgress.mp hsession
  obtain rfl := (hknown.of_get hget).id
  have hholding : Holding s.world session s.accepted := ⟨UploadSessionCache.get_eq_some hget, hbytes⟩
  have hlast : Completes d caller session.id s.world
      [⟨now, chunk, draws, noFaults⟩] draws.transferId
        (appendChunk d s.world now caller session.id chunk draws).2 := .last hdone
  obtain ⟨-, hreg⟩ := hlast.registers hholding
  have hsent : sentBytes
      [⟨now, chunk, draws, noFaults⟩] = chunk.content := by
    simp [sentBytes]
  have hlength : ((s.accepted ++ chunk.content).length : ℤ) =
      s.accepted.length + chunk.content.length := by simp
  rw [hreg, hsent, hsize, hlength]

/-- Where a step leaves the cache it is about the file alone. -/
theorem held_iff_of_same_cache {w w' : World} (hcache : w'.cache = w.cache) {now : ℤ}
    {session : UploadSession} (hprog : session ∈ inProgress w now sid) {accepted : Bytes}
    (hsize : session.receivedBytes = accepted.length) :
    Held sid ⟨w', now, accepted⟩ ↔ w'.files.bytes session.tempPath = accepted := by
  have hsame : inProgress w' now sid = inProgress w now sid := by
    unfold inProgress
    rw [hcache]
  constructor
  · intro h
    exact (h session (hsame ▸ hprog)).1
  · intro hbytes session' hprog'
    obtain rfl := Option.mem_unique hprog (hsame ▸ hprog')
    exact ⟨hbytes, hsize⟩

theorem held_sweep_iff (hknown : Known d sid s) (hheld : Held sid s) {now maxAge : ℤ}
    (hclock : s.clock ≤ now) (entries : List Str) (unlinkFails : Path → Bool) :
    Held sid (next d sid s (.sweep now maxAge entries unlinkFails)) ↔
      Spares d sid s (.sweep now maxAge entries unlinkFails) := by
  refine forall₂_congr fun session hprog => ?_
  obtain ⟨hbytes, hsize⟩ := hheld session (inProgress_mono hclock hprog)
  obtain ⟨x, hx⟩ := (hknown.of_get (mem_inProgress.mp hprog).1).temp
  have hlast : session.tempPath.getLastD [] = x := by simp [hx]
  have hswept := CleanupService.sweepTempFiles_apply unlinkFails now maxAge d.tempDir x 0
    s.world.files entries
  rw [hlast]
  show Files.bytes (CleanupService.sweepTempFiles unlinkFails now maxAge d.tempDir 0 s.world.files
    entries).2 session.tempPath = s.accepted ∧ session.receivedBytes = s.accepted.length ↔ _
  rw [and_iff_left hsize, Files.bytes, hx, hswept, ← hx]
  by_cases hgone : x ∈ entries ∧ CleanupService.Aged unlinkFails now maxAge s.world.files
      session.tempPath
  · rw [if_pos hgone, or_iff_left (not_not.mpr hgone)]
    exact eq_comm
  · rw [if_neg hgone]
    exact iff_of_true hbytes (Or.inr hgone)

/-- A call on a session that is not in progress leaves none in progress. -/
theorem inProgress_append_of_not {now : ℤ} {caller : AuthenticatedUser} {session : UploadSession}
    (hknown : Known d sid s) (hopen : openSession s.world now caller sid = .ok session)
    (hnot : session ∉ inProgress s.world now sid) (chunk : UploadStream) (draws : Draws)
    (session' : UploadSession) :
    session' ∉ inProgress (appendChunk d s.world now caller sid chunk draws).2 now sid := by
  intro hprog
  obtain ⟨hget, -, -⟩ := get_of_openSession hopen
  obtain ⟨hget', hactive, hahead⟩ := mem_inProgress.mp hprog
  have hid := (hknown.of_get hget).id
  rcases appendChunk_cache d s.world now caller sid chunk draws with
    hcache | ⟨session₁, hopen₁, hcache⟩
  · rw [hcache, hget] at hget'
    cases hget'
    exact hnot (mem_inProgress.mpr ⟨hget, hactive, hahead⟩)
  · have heq : session₁ = session := Except.ok.inj (hopen₁.symm.trans hopen)
    subst heq
    rcases hcache with hcache | hcache
    · have hsaved := UploadSessionCache.get_save s.world.cache now
        (counted session₁ chunk)
      have hid' : (counted session₁ chunk).id = sid := hid
      rw [hid', ← hcache, hget'] at hsaved
      cases hsaved
      exact hnot (mem_inProgress.mpr ⟨hget, hactive, hahead⟩)
    · obtain ⟨e, he, -⟩ := UploadSessionCache.get_eq_some hget'
      have hnone : s.world.cache.delete session₁.id sid = none := by
        rw [← hid]
        exact Function.update_self ..
      rw [hcache, hnone] at he
      cases he

section InProgress

variable {now : ℤ} {session : UploadSession} {caller : AuthenticatedUser} {chunk : UploadStream}

theorem bytes_appended (hbytes : s.world.files.bytes session.tempPath = s.accepted) :
    (appended s.world now session chunk).bytes session.tempPath = s.accepted ++ chunk.content :=
  (Files.bytes_append_self _ _ _ _).trans (congrArg (· ++ _) hbytes)

variable (hknown : Known d sid s) (hprog : session ∈ inProgress s.world now sid)
  (howner : session.ownerId = caller.userId)
  (hbytes : s.world.files.bytes session.tempPath = s.accepted)
  (hsize : session.receivedBytes = s.accepted.length)

include hprog howner hbytes hsize

/-- A stream that breaks leaves what it has brought in the file, uncounted. -/
theorem held_append_cut {message : Str} (hread : chunk.failure = some message) (draws : Draws) :
    Held sid (next d sid s (.append now caller chunk draws)) ↔ chunk.content = [] := by
  have heq := appendChunk_of_open (d := d) (openSession_of_inProgress hprog howner) chunk draws
  rw [hread] at heq
  rw [next_of_error heq]
  have hcache : (s.world.withFiles (appended s.world now session chunk)).cache = s.world.cache := rfl
  refine (held_iff_of_same_cache hcache hprog hsize).trans ?_
  show (appended s.world now session chunk).bytes session.tempPath = s.accepted ↔ _
  rw [bytes_appended hbytes, List.append_right_eq_self]

include hknown

/-- A chunk that leaves bytes to send is counted as it is written. -/
theorem held_append_more (hread : chunk.failure = none)
    (hmore : ¬ (counted session chunk).totalSizeBytes ≤ (counted session chunk).receivedBytes)
    (draws : Draws) : Held sid (next d sid s (.append now caller chunk draws)) := by
  have hrec := hknown.of_get (mem_inProgress.mp hprog).1
  have heq := appendChunk_of_open (d := d) (openSession_of_inProgress hprog howner) chunk draws
  rw [hread] at heq
  simp only [if_neg hmore] at heq
  rw [next_of_ok heq]
  intro session' hprog'
  have hsaved := UploadSessionCache.get_save s.world.cache now (counted session chunk)
  have hid : (counted session chunk).id = sid := hrec.id
  have hget' := (mem_inProgress.mp hprog').1
  rw [hid] at hsaved
  obtain rfl := Option.some.inj (hsaved.symm.trans hget')
  refine ⟨bytes_appended hbytes, ?_⟩
  show session.receivedBytes + (chunk.content.length : ℤ) =
    ((s.accepted ++ chunk.content).length : ℤ)
  rw [hsize]
  simp

/-- A call that brings the session to its end drops the record, or leaves the file
to be compared with what was accepted. -/
theorem held_append_last (hread : chunk.failure = none)
    (hlast : (counted session chunk).totalSizeBytes ≤ (counted session chunk).receivedBytes)
    (draws : Draws) :
    Held sid (next d sid s (.append now caller chunk draws)) ↔
      Finishes d s.world now caller (counted session chunk) draws ∨
        (Blocked d s.world session ∧ chunk.content = []) ∨
          (¬ Blocked d s.world session ∧ s.accepted = []) := by
  have hopen := openSession_of_inProgress hprog howner
  have hrec := hknown.of_get (mem_inProgress.mp hprog).1
  by_cases hfinishes : Finishes d s.world now caller (counted session chunk) draws
  · obtain ⟨r, w', heq, hnone⟩ := appendChunk_finishes hopen hread hlast hrec hfinishes
    refine iff_of_true ?_ (Or.inl hfinishes)
    rw [next_of_ok heq]
    intro session' hprog'
    obtain ⟨e, he, -⟩ := UploadSessionCache.get_eq_some (mem_inProgress.mp hprog').1
    exact absurd (he.symm.trans hnone) (Option.some_ne_none e)
  · obtain ⟨e, w', heq, hcache, hleft⟩ := appendChunk_not_finishes hopen hread hlast hrec hfinishes
    rw [next_of_error heq, or_iff_right hfinishes]
    refine (held_iff_of_same_cache hcache hprog hsize).trans ?_
    rw [hleft, hbytes]
    by_cases hblocked : Blocked d s.world session
    · simp only [hblocked, if_true, true_and, not_true, false_and, or_false,
        List.append_right_eq_self]
    · simp only [hblocked, if_false, false_and, not_false_eq_true, true_and, false_or]
      exact eq_comm

/-- What a chunk does to a session in progress. -/
theorem held_append_of_inProgress (chunk : UploadStream) (draws : Draws) :
    Held sid (next d sid s (.append now caller chunk draws)) ↔
      Harmless d s.world now caller session chunk draws s.accepted := by
  unfold Harmless
  cases hread : chunk.failure with
  | some message =>
      rw [held_append_cut hprog howner hbytes hsize hread draws]
      simp
  | none =>
      by_cases hlast : (counted session chunk).totalSizeBytes ≤
          (counted session chunk).receivedBytes
      · rw [held_append_last hknown hprog howner hbytes hsize hread hlast draws]
        simp only [ne_eq, not_true, false_imp_iff, true_and, hlast, true_imp_iff]
      · refine iff_of_true (held_append_more hknown hprog howner hbytes hsize hread hlast draws) ?_
        exact ⟨fun h => absurd rfl h, fun _ hend => absurd hend hlast⟩

end InProgress

theorem held_append_iff (hknown : Known d sid s) (hheld : Held sid s) {now : ℤ}
    (hclock : s.clock ≤ now) (caller : AuthenticatedUser) (chunk : UploadStream) (draws : Draws) :
    Held sid (next d sid s (.append now caller chunk draws)) ↔
      Spares d sid s (.append now caller chunk draws) := by
  have hlater : ∀ session ∈ inProgress s.world now sid,
      s.world.files.bytes session.tempPath = s.accepted ∧
        session.receivedBytes = s.accepted.length :=
    fun session hprog => hheld session (inProgress_mono hclock hprog)
  cases hopen : openSession s.world now caller sid with
  | error e =>
      have heq : appendChunk d s.world now caller sid chunk draws = (.error e, s.world) := by
        simp only [appendChunk, hopen]
      refine iff_of_true ?_ ?_
      · rw [next_of_error heq]
        exact hlater
      · intro session hprog howner
        rw [openSession_of_inProgress hprog howner] at hopen
        cases hopen
  | ok session =>
      obtain ⟨hget, howner, -⟩ := get_of_openSession hopen
      by_cases hprog : session ∈ inProgress s.world now sid
      · obtain ⟨hbytes, hsize⟩ := hlater session hprog
        refine (held_append_of_inProgress hknown hprog howner hbytes hsize chunk draws).trans ?_
        constructor
        · intro h session' hprog' _
          obtain rfl := Option.mem_unique hprog hprog'
          exact h
        · intro h
          exact h session hprog howner
      · refine iff_of_true ?_ ?_
        · intro session' hprog'
          exact absurd hprog' (inProgress_append_of_not hknown hopen hprog chunk draws session')
        · intro session' hprog' _
          have hget' := (mem_inProgress.mp hprog').1
          obtain rfl := Option.some.inj (hget.symm.trans hget')
          exact absurd hprog' hprog

theorem held_next_iff (hknown : Known d sid s) (hheld : Held sid s) {e : Event}
    (hclock : s.clock ≤ e.now) : Held sid (next d sid s e) ↔ Spares d sid s e := by
  cases e with
  | append now caller chunk draws => exact held_append_iff hknown hheld hclock caller chunk draws
  | sweep now maxAge entries unlinkFails =>
      exact held_sweep_iff hknown hheld hclock entries unlinkFails

end Steps

/-! ## Runs -/

section Start

variable {d : Deployment} {w : World} {now : ℤ} {owner : AuthenticatedUser} {name : Str}
  {total : ℤ} {expiresIn : Option ℤ} {folderId : Option Uuid} {sid : Uuid}

/-- The record of a session that has just been created. -/
structure Created (d : Deployment) (now : ℤ) (owner : AuthenticatedUser) (name : Str)
    (expiresIn : Option ℤ) (sid : Uuid) (session : UploadSession) : Prop where
  id : session.id = sid
  temp : session.tempPath = tempPath d owner.userId name
  name : session.originalName = name
  active : session.status = .active
  received : session.receivedBytes = 0
  expires : session.expiresAt = expiresIn.map fun n => now + n * 1000000

theorem start_of_ok
    (hok : (createSession d w now owner name total expiresIn folderId sid).1.isOk = true) :
    ∃ session, Created d now owner name expiresIn sid session ∧
      start d sid w now owner name total expiresIn folderId =
        ⟨w.withCache (w.cache.save now session), now, []⟩ := by
  unfold start
  unfold createSession at hok ⊢
  cases expiresIn with
  | none => exact ⟨_, ⟨rfl, rfl, rfl, rfl, rfl, rfl⟩, rfl⟩
  | some n =>
      unfold TransferService.buildExpiry addSeconds at hok ⊢
      by_cases hrange : now + n * 1000000 ≤ maxInstant ∧
          0 ≤ now + n * 1000000 + 62135596800000000
      · simp only [if_pos hrange]
        exact ⟨_, ⟨rfl, rfl, rfl, rfl, rfl, rfl⟩, rfl⟩
      · simp only [if_neg hrange] at hok
        cases hok

variable {session : UploadSession}

theorem Created.known (h : Created d now owner name expiresIn sid session) (hname : '/' ∉ name) :
    Known d sid ⟨w.withCache (w.cache.save now session), now, []⟩ := by
  have hentry : w.cache.save now session sid = some ⟨session, session.expiresAt.map fun t =>
      now + UploadSessionCache.ttlSeconds now t * 1000000⟩ := by
    rw [← h.id]
    exact Function.update_self ..
  intro e he
  rw [World.withCache_cache, hentry] at he
  cases he
  refine ⟨h.id, ?_, ?_⟩
  · rw [h.temp]
    exact inTemp_tempPath owner.userId hname
  · rw [h.name]
    exact hname

theorem Created.inProgress (h : Created d now owner name expiresIn sid session)
    (hexpiry : ∀ n ∈ expiresIn, 0 < n) :
    session ∈ inProgress (w.withCache (w.cache.save now session)) now sid := by
  have hget := UploadSessionCache.get_save w.cache now session
  rw [h.id] at hget
  refine mem_inProgress.mpr ⟨hget, h.active, ?_⟩
  rw [h.expires]
  cases expiresIn with
  | none => rfl
  | some n =>
      have hpos : 0 < n := hexpiry n rfl
      simp only [Option.map_some, Option.all_some, decide_eq_true_eq]
      omega

theorem Created.held_iff (h : Created d now owner name expiresIn sid session)
    (hexpiry : ∀ n ∈ expiresIn, 0 < n) :
    Held sid ⟨w.withCache (w.cache.save now session), now, []⟩ ↔
      w.files.bytes (tempPath d owner.userId name) = [] := by
  rw [← h.temp]
  exact held_iff_of_same_cache rfl (h.inProgress hexpiry) h.received

/-- A session keeps its bytes through a run, and is registered with all of them,
exactly if nothing was left at its temporary path when it was created and every
step spares it. -/
theorem upload_intact_iff_spared (hname : '/' ∉ name) (hexpiry : ∀ n ∈ expiresIn, 0 < n)
    (hok : (createSession d w now owner name total expiresIn folderId sid).1.isOk = true)
    (es : List Event) :
    (system d sid).Always (Intact d sid) (start d sid w now owner name total expiresIn folderId) es ↔
      w.files.bytes (tempPath d owner.userId name) = [] ∧
        (system d sid).Guarded (Spares d sid)
          (start d sid w now owner name total expiresIn folderId) es := by
  obtain ⟨session, hcreated, hstart⟩ := start_of_ok hok
  rw [hstart, ← hcreated.held_iff hexpiry]
  have hknown := hcreated.known (w := w) hname
  have hrun (hheld : Held sid ⟨w.withCache (w.cache.save now session), now, []⟩) :
      (system d sid).Always (Intact d sid) ⟨w.withCache (w.cache.save now session), now, []⟩ es ↔
        (system d sid).Guarded (Spares d sid) ⟨w.withCache (w.cache.save now session), now, []⟩
          es := by
    apply System.always_iff_guarded (J := Known d sid)
    · intro s e s' hs hstep
      obtain ⟨-, heq⟩ := Option.ite_none_right_eq_some.mp hstep
      cases heq
      exact hs.next e
    · intro s e s' hs hintact hstep
      obtain ⟨hclock, heq⟩ := Option.ite_none_right_eq_some.mp hstep
      cases heq
      refine Iff.trans ?_ (held_next_iff hs hintact.holds hclock)
      exact ⟨fun h => h.holds, fun h => h.intact (hs.next e)⟩
    · exact hknown
    · exact hheld.intact hknown
  constructor
  · intro h
    exact ⟨h.head.holds, (hrun h.head.holds).mp h⟩
  · rintro ⟨hheld, h⟩
    exact (hrun hheld).mpr h

end Start

namespace Sample

open Uploads.Sample (owner name codes)

def append (second transferId : ℕ) (data : Bytes) : Event :=
  .append (second * 1000000) owner (.ofBytes data) ⟨Uuid.ofNat transferId, codes transferId, none⟩

/-- A sweep of the directory with the file of the session in it. -/
def sweep (second : ℕ) : Event :=
  .sweep (second * 1000000) 3600 [owner.userId.str ++ '_' :: (name ++ ".part".toList)] fun _ => false

/-- A session of two bytes, without an expiry. -/
def created : State :=
  start .default (Uuid.ofNat 1) (World.initial .sqlite) 0 owner name 2 none none

def swept : List Event := [append 0 10 [1], sweep 3600]

theorem runs_swept : ((system .default (Uuid.ofNat 1)).run created swept).isSome = true := by
  decide +kernel

end Sample

/-- A sweep between two chunks a minute apart. -/
theorem upload_intact_iff_spared_minute :
    (system .default (Uuid.ofNat 1)).Always (Intact .default (Uuid.ofNat 1)) Sample.created
      [Sample.append 0 10 [1], Sample.sweep 30, Sample.append 60 11 [2]] :=
  (upload_intact_iff_spared (by decide) (by decide) rfl _).mpr ⟨rfl, by decide +kernel⟩

/-- A sweep an hour after the first chunk: the session is still there, and its
byte is gone. -/
theorem sweep_destroys_upload :
    ¬ ∀ (d : Deployment) (w : World) (now : ℤ) (owner : AuthenticatedUser) (name : Str) (total : ℤ)
      (expiresIn : Option ℤ) (folderId : Option Uuid) (sid : Uuid) (es : List Event),
      '/' ∉ name → (∀ n ∈ expiresIn, 0 < n) →
      (createSession d w now owner name total expiresIn folderId sid).1.isOk = true →
      w.files (tempPath d owner.userId name) = none →
      (system d sid).Always (Intact d sid) (start d sid w now owner name total expiresIn folderId)
        es := by
  intro h
  have hintact := (h .default (World.initial .sqlite) 0 Uploads.Sample.owner Uploads.Sample.name 2
    none none (Uuid.ofNat 1) Sample.swept (by decide) (by decide) rfl rfl).last
      (Option.some_get Sample.runs_swept).symm
  have hlost : ¬ ∀ session ∈ inProgress
      (((system .default (Uuid.ofNat 1)).run Sample.created Sample.swept).get
        Sample.runs_swept).world (3600 * 1000000) (Uuid.ofNat 1),
      (((system .default (Uuid.ofNat 1)).run Sample.created Sample.swept).get
        Sample.runs_swept).world.files.bytes session.tempPath = [1] := by
    decide +kernel
  exact hlost fun session hprog => (hintact.holds session hprog).1

end Sweeping

end Jumbox
