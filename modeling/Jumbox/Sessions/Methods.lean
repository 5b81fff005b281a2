import Jumbox.Sessions.Service
import Jumbox.Sessions.Cleanup

/-!
# What each method returns and leaves

One lemma a method, or two where the checks and the work are separate: the
method is turned away by its checks, or its rows are there and it returns and
leaves what the lemma says. No later proof unfolds a method.
-/

namespace Jumbox

namespace SessionService

/-! ## The vocabulary of the lemmas -/

/-- A row that lets `owner` upload to `sessionId` at `now`. -/
structure OpenFor (w : World) (now : ℤ) (sessionId : Uuid) (owner : AuthenticatedUser)
    (m : TransferSessionModel) : Prop where
  mem : m ∈ w.db.sessions.rows
  id : m.id = sessionId
  allowed : m.ownerId = owner.userId ∨ owner.isAdmin = true
  live : m.expiresAt.any (· < now) = false

instance (w : World) (now : ℤ) (sessionId : Uuid) (owner : AuthenticatedUser)
    (m : TransferSessionModel) : Decidable (OpenFor w now sessionId owner m) :=
  decidable_of_iff (m ∈ w.db.sessions.rows ∧ m.id = sessionId ∧
      (m.ownerId = owner.userId ∨ owner.isAdmin = true) ∧ m.expiresAt.any (· < now) = false)
    ⟨fun ⟨hm, hid, hallow, hlive⟩ => ⟨hm, hid, hallow, hlive⟩,
      fun h => ⟨h.mem, h.id, h.allowed, h.live⟩⟩

/-- Some row lets `owner` upload to `sessionId` at `now`. -/
def IsOpen (w : World) (now : ℤ) (sessionId : Uuid) (owner : AuthenticatedUser) : Prop :=
  ∃ m, OpenFor w now sessionId owner m

instance (w : World) (now : ℤ) (sessionId : Uuid) (owner : AuthenticatedUser) :
    Decidable (IsOpen w now sessionId owner) :=
  decidable_of_iff (∃ m ∈ w.db.sessions.rows, OpenFor w now sessionId owner m)
    ⟨fun ⟨m, _, h⟩ => ⟨m, h⟩, fun ⟨m, h⟩ => ⟨m, h.mem, h⟩⟩

/-- The path an item is stored at once it is complete. -/
def itemPath (d : Deployment) (i : TransferItem) : Path :=
  ChunkStorage.destPath d i.sessionId i.id (sanitizeFilename d i.originalName)

/-- A row that a closing transaction has completed with `data`. -/
structure CompletedWith (d : Deployment) (i : TransferItem) (data : Bytes) : Prop where
  path : i.storagePath = some (itemPath d i)
  checksum : i.checksumSha256 = some (hexdigest data)
  size : i.sizeBytes = data.length
  status : i.status = .completed

/-- A request whose checks all pass, on the rows `m` and `i`. -/
structure Accepts (d : Deployment) (w : World) (now : ℤ) (c : ChunkRequest)
    (m : TransferSessionModel) (i : TransferItem) : Prop where
  session : OpenFor w now c.sessionId c.owner m
  mem : i ∈ w.db.items.rows
  id : i.id = c.itemId
  sessionId : i.sessionId = c.sessionId
  offset : c.offset = w.files.size (ChunkStorage.partPath d c.sessionId c.itemId)

instance (d : Deployment) (w : World) (now : ℤ) (c : ChunkRequest) (m : TransferSessionModel)
    (i : TransferItem) : Decidable (Accepts d w now c m i) :=
  decidable_of_iff (OpenFor w now c.sessionId c.owner m ∧ i ∈ w.db.items.rows ∧
      i.id = c.itemId ∧ i.sessionId = c.sessionId ∧
      c.offset = w.files.size (ChunkStorage.partPath d c.sessionId c.itemId))
    ⟨fun ⟨hm, hi, hid, hsid, hoff⟩ => ⟨hm, hi, hid, hsid, hoff⟩,
      fun h => ⟨h.session, h.mem, h.id, h.sessionId, h.offset⟩⟩

/-- The files once the chunk is appended. -/
def appended (d : Deployment) (w : World) (now : ℤ) (c : ChunkRequest) : Files :=
  ChunkStorage.writeChunk d w.files now c.sessionId c.itemId c.chunkData

/-- The part file once the chunk is appended. -/
def appendedBytes (d : Deployment) (w : World) (c : ChunkRequest) : Bytes :=
  w.files.bytes (ChunkStorage.partPath d c.sessionId c.itemId) ++ c.chunkData

/-- The tables after a closing transaction: the item, then the status its
session derives with it. -/
def closed (db : Db) (m : TransferSessionModel) (i : TransferItem) : Db :=
  (db.saveItem i).putStatus m ((db.saveItem i).sessionToDomain m).status

/-- The row `burn_session` commits. -/
def burnedRow (m : TransferSessionModel) : TransferSessionModel :=
  { m with status := .expired, downloadCount := m.downloadCount + 1 }

/-! ## Opening checks -/

theorem expire_eq (w : World) (m : TransferSessionModel) :
    expire w (w.db.sessionToDomain m) = w.withDb (w.db.putStatus m .expired) := by
  have hrow : Db.sessionToModel { w.db.sessionToDomain m with status_ := .expired } =
      { m with status := .expired } := by
    have h := Db.sessionToModel_sessionToDomain w.db { m with status := .expired }
    rw [TransferSession.status_of_expired rfl] at h
    exact h
  rw [expire, Db.save, hrow, Db.putStatus]

/-- The ownership test the methods share. -/
theorem allowed_iff (m : TransferSessionModel) (owner : AuthenticatedUser) :
    ¬ (m.ownerId ≠ owner.userId ∧ owner.isAdmin = false) ↔
      m.ownerId = owner.userId ∨ owner.isAdmin = true := by
  cases owner.isAdmin <;> simp

/-- How a call ends that the checks turn away: an error that changes nothing, or
the session found expired and committed as such. -/
inductive TurnedAway {α : Type} (w : World) (sessionId : Uuid) (owner : AuthenticatedUser) :
    Outcome α → Prop where
  | error (err : Error) : TurnedAway w sessionId owner (.error err, w)
  | expired {m : TransferSessionModel} (mem : m ∈ w.db.sessions.rows) (id : m.id = sessionId)
      (allowed : m.ownerId = owner.userId ∨ owner.isAdmin = true) :
      TurnedAway w sessionId owner (.error .sessionExpired, w.withDb (w.db.putStatus m .expired))

/-- A method that hands an error of its opening checks on is turned away as they
are. -/
theorem TurnedAway.rethrow {α β : Type} {w : World} {sid : Uuid} {owner : AuthenticatedUser}
    {o : Outcome α} (h : TurnedAway w sid owner o) {method : Outcome α → Outcome β}
    (herror : ∀ e w, method (.error e, w) = (.error e, w)) :
    TurnedAway w sid owner (method o) := by
  cases h with
  | error err =>
      rw [herror]
      exact .error err
  | expired hm hid hallow =>
      rw [herror]
      exact .expired hm hid hallow

theorem openForUpload_cases (w : World) (now : ℤ) (sid : Uuid) (owner : AuthenticatedUser) :
    TurnedAway w sid owner (openForUpload w now sid owner) ∨
      ∃ m, OpenFor w now sid owner m := by
  unfold openForUpload
  cases hget : w.db.getById sid with
  | none => exact Or.inl (.error _)
  | some session =>
      obtain ⟨m, hm, hid, rfl⟩ := Db.getById_eq_some.mp hget
      have howner : (w.db.sessionToDomain m).ownerId = m.ownerId := rfl
      have hexp : isExpired now (w.db.sessionToDomain m).expiresAt =
          m.expiresAt.any (· < now) := Db.isExpired_loadTimestamp _ _ _
      simp only [howner, hexp]
      by_cases hden : m.ownerId ≠ owner.userId ∧ owner.isAdmin = false
      · rw [if_pos hden]
        exact Or.inl (.error _)
      · have hallow := (allowed_iff m owner).mp hden
        rw [if_neg hden]
        cases hlive : m.expiresAt.any (· < now) with
        | true =>
            rw [if_pos rfl, expire_eq]
            exact Or.inl (.expired hm hid hallow)
        | false => exact Or.inr ⟨m, ⟨hm, hid, hallow, hlive⟩⟩

theorem openForUpload_of_open {w : World} {now : ℤ} {sid : Uuid} {owner : AuthenticatedUser}
    {m : TransferSessionModel} (h : OpenFor w now sid owner m) :
    openForUpload w now sid owner = (.ok (w.db.sessionToDomain m), w) := by
  have hget : w.db.getById sid = some (w.db.sessionToDomain m) :=
    h.id ▸ Db.getById_of_mem h.mem
  have hden : ¬ ((w.db.sessionToDomain m).ownerId ≠ owner.userId ∧ owner.isAdmin = false) :=
    (allowed_iff m owner).mpr h.allowed
  have hexp : isExpired now (w.db.sessionToDomain m).expiresAt = false :=
    (Db.isExpired_loadTimestamp _ _ _).trans h.live
  simp only [openForUpload, hget]
  rw [if_neg hden, if_neg (by simp [hexp])]

theorem findItem_eq_ok {w : World} {sid iid : Uuid} {i : TransferItem} :
    findItem w sid iid = .ok i ↔ i ∈ w.db.items.rows ∧ i.id = iid ∧ i.sessionId = sid := by
  unfold findItem
  cases hget : w.db.getItemById iid with
  | none =>
      simp only [reduceCtorEq, false_iff]
      rintro ⟨hi, rfl, -⟩
      rw [Db.getItemById_eq_some.mpr ⟨hi, rfl⟩] at hget
      cases hget
  | some j =>
      obtain ⟨hj, rfl⟩ := Db.getItemById_eq_some.mp hget
      by_cases hs : j.sessionId = sid
      · simp only [ne_eq, hs, not_true_eq_false, if_false, Except.ok.injEq]
        constructor
        · rintro rfl
          exact ⟨hj, rfl, hs⟩
        · rintro ⟨hi, hid, -⟩
          exact (Table.eq_of_mem hi hj hid).symm
      · simp only [ne_eq, hs, not_false_eq_true, if_true, reduceCtorEq, false_iff]
        rintro ⟨hi, hid, rfl⟩
        exact hs (congrArg TransferItem.sessionId (Table.eq_of_mem hj hi hid.symm))

/-- Saving the derived status of a session that has a row. -/
theorem saveSessionStatus_of_mem {db : Db} {m : TransferSessionModel} (h : m ∈ db.sessions.rows) :
    saveSessionStatus db m.id = db.putStatus m (db.sessionToDomain m).status := by
  rw [saveSessionStatus, Db.getById_of_mem h]
  exact Db.save_sessionToDomain db db m

/-! ## Sessions -/

theorem createSession_cases (w : World) (now : ℤ) (owner : AuthenticatedUser) (secs : ℤ)
    (burn : Bool) (id : Uuid) (draws : ℕ → Fin 9000 × Fin 9000) :
    (∃ err, createSession w now owner secs burn id draws = (.error err, w)) ∨
    (∃ s m, m.id = id ∧ m.status = .pending ∧ createSession w now owner secs burn id draws =
      (.ok s, w.withDb { w.db with sessions := w.db.sessions.put m })) := by
  unfold createSession
  dsimp only
  generalize (if 0 < secs then (addSeconds now secs).map some else .ok none) = expiresAt
  cases expiresAt with
  | error err => exact Or.inl ⟨err, rfl⟩
  | ok expiresAt =>
      dsimp only
      unfold Db.add
      split
      · rename_i hadd
        split at hadd
        · exact Or.inl ⟨_, rfl⟩
        · cases hadd
      · rename_i hadd
        split at hadd
        · cases hadd
        · cases hadd
          exact Or.inr ⟨_, _, rfl, rfl, rfl⟩

/-- A name handed to `delete` is no `StoredFile`, so nothing is removed. -/
theorem tryDelete_eq (unlinkFails : Path → Bool) (fs : Files) (i : TransferItem) :
    tryDelete unlinkFails fs i = fs := by
  unfold tryDelete
  cases i.storagePath <;> rfl

theorem foldl_tryDelete (unlinkFails : Path → Bool) (items : List TransferItem) (fs : Files) :
    items.foldl (tryDelete unlinkFails) fs = fs := by
  induction items with
  | nil => rfl
  | cons i items ih => rw [List.foldl_cons, tryDelete_eq, ih]

theorem burned_row (db : Db) (m : TransferSessionModel) :
    Db.sessionToModel (burned (db.sessionToDomain m)) = burnedRow m := by
  have h := Db.sessionToModel_sessionToDomain db (burnedRow m)
  have hstatus : (db.sessionToDomain (burnedRow m)).status = .expired :=
    TransferSession.status_of_expired rfl
  rw [hstatus] at h
  exact h

theorem burnSession_cases (w : World) (sid : Uuid) (unlinkFails : Path → Bool) :
    (burnSession w sid unlinkFails = (.ok (), w) ∧ ∀ m ∈ w.db.sessions.rows, m.id ≠ sid) ∨
    ∃ m ∈ w.db.sessions.rows, m.id = sid ∧ burnSession w sid unlinkFails =
      (.ok (), w.withDb { w.db with sessions := w.db.sessions.put (burnedRow m) }) := by
  unfold burnSession
  cases hget : w.db.getById sid with
  | none =>
      refine Or.inl ⟨rfl, ?_⟩
      rintro m hm rfl
      rw [Db.getById_of_mem hm] at hget
      cases hget
  | some session =>
      obtain ⟨m, hm, hid, rfl⟩ := Db.getById_eq_some.mp hget
      refine Or.inr ⟨m, hm, hid, ?_⟩
      simp only [foldl_tryDelete, Db.save, burned_row]
      rfl

/-- Removing a part file takes that file or nothing. -/
theorem tryDeletePart_cases (d : Deployment) (unlinkFails : Path → Bool) (sid : Uuid) (fs : Files)
    (i : TransferItem) :
    tryDeletePart d unlinkFails sid fs i = fs ∨
      tryDeletePart d unlinkFails sid fs i = fs.unlink (ChunkStorage.partPath d sid i.id) := by
  unfold tryDeletePart ChunkStorage.deletePart
  dsimp only
  cases hf : fs (ChunkStorage.partPath d sid i.id) with
  | none => exact Or.inl rfl
  | some f =>
      cases hfail : unlinkFails (ChunkStorage.partPath d sid i.id) with
      | true => exact Or.inl rfl
      | false => exact Or.inr rfl

/-- What deleting the part files of `items` can leave. -/
def PartsRemoved (d : Deployment) (sid : Uuid) (items : List TransferItem) (fs fs' : Files) : Prop :=
  ∀ p, fs' p = fs p ∨ (fs' p = none ∧ ∃ i ∈ items, p = ChunkStorage.partPath d sid i.id)

theorem foldl_tryDeletePart (d : Deployment) (unlinkFails : Path → Bool) (sid : Uuid)
    (items : List TransferItem) (fs : Files) :
    PartsRemoved d sid items fs (items.foldl (fun fs i =>
      tryDeletePart d unlinkFails sid (tryDelete unlinkFails fs i) i) fs) := by
  induction items generalizing fs with
  | nil => exact fun p => Or.inl rfl
  | cons i items ih =>
      intro p
      rw [List.foldl_cons, tryDelete_eq]
      rcases ih (tryDeletePart d unlinkFails sid fs i) p with hsame | ⟨hnone, j, hj, hp⟩
      · rcases tryDeletePart_cases d unlinkFails sid fs i with heq | heq
        · rw [heq] at hsame ⊢
          exact Or.inl hsame
        · rw [heq] at hsame ⊢
          by_cases hp : p = ChunkStorage.partPath d sid i.id
          · rw [hp, Files.unlink_self] at hsame
            exact Or.inr ⟨hp ▸ hsame, i, List.mem_cons_self, hp⟩
          · rw [Files.unlink_ne hp] at hsame
            exact Or.inl hsame
      · exact Or.inr ⟨hnone, j, List.mem_cons_of_mem _ hj, hp⟩

theorem deleteSession_cases (d : Deployment) (w : World) (sid : Uuid) (owner : AuthenticatedUser)
    (unlinkFails : Path → Bool) :
    (∃ err, deleteSession d w sid owner unlinkFails = (.error err, w)) ∨
    (∃ m ∈ w.db.sessions.rows, m.id = sid ∧ (m.ownerId = owner.userId ∨ owner.isAdmin = true) ∧
      ∃ fs, PartsRemoved d sid (w.db.itemsOf sid) w.files fs ∧
        deleteSession d w sid owner unlinkFails =
          (.ok (), (w.withFiles fs).withDb (w.db.deleteById sid))) := by
  unfold deleteSession
  cases hget : w.db.getById sid with
  | none => exact Or.inl ⟨_, rfl⟩
  | some session =>
      obtain ⟨m, hm, rfl, rfl⟩ := Db.getById_eq_some.mp hget
      by_cases hden : m.ownerId ≠ owner.userId ∧ owner.isAdmin = false
      · exact Or.inl ⟨_, if_pos hden⟩
      · have hallow := (allowed_iff m owner).mp hden
        refine Or.inr ⟨m, hm, rfl, hallow, _, foldl_tryDeletePart d unlinkFails m.id _ _, ?_⟩
        exact if_neg hden

/-! ## One-shot upload -/

theorem saveItem_addItem (db : Db) {i j : TransferItem} (h : i.id = j.id) :
    (db.addItem i).saveItem j = db.saveItem j := by
  rw [Db.saveItem, Db.addItem, Table.put_put h]
  rfl

theorem failUpload_addItem (db : Db) (i : TransferItem) (e : Error) :
    failUpload (db.addItem i) i.id e = db.addItem (i.markFailed e.message) := by
  have hget : (db.addItem i).getItemById i.id = some i := Table.get?_put_self _ _
  simp only [failUpload, hget]
  exact saveItem_addItem db rfl

theorem closeUpload_addItem {db : Db} {m : TransferSessionModel} (hm : m ∈ db.sessions.rows)
    (i : TransferItem) (stored : StoredFile) (name : Str) :
    closeUpload (db.addItem i) m.id i.id stored name =
      (.ok (completed i stored.sha256 stored.path name stored.sizeBytes),
        closed db m (completed i stored.sha256 stored.path name stored.sizeBytes)) := by
  have hget : (db.addItem i).getItemById i.id = some i := Table.get?_put_self _ _
  simp only [closeUpload, hget, saveItem_addItem db (i := i) (j := completed i _ _ _ _) rfl]
  have hm' : m ∈ (db.saveItem (completed i stored.sha256 stored.path name
      stored.sizeBytes)).sessions.rows := hm
  rw [saveSessionStatus_of_mem hm', closed]

/-- The row a failed upload leaves. -/
def failedItem (d : Deployment) (now : ℤ) (sid iid : Uuid) (name : Str) (size : ℤ) (e : Error) :
    TransferItem :=
  (newItem d now sid iid name size none .uploading).markFailed e.message

/-- The row a one-shot upload of `data` leaves. -/
def uploadedItem (d : Deployment) (now : ℤ) (sid iid : Uuid) (name : Str) (size : ℤ)
    (data : Bytes) : TransferItem :=
  completed (newItem d now sid iid name size none .uploading) (hexdigest data)
    (ChunkStorage.destPath d sid iid (sanitizeFilename d name))
    (storedNameOf iid (sanitizeFilename d name)) data.length

theorem uploadedItem_completedWith (d : Deployment) (now : ℤ) (sid iid : Uuid) (name : Str)
    (size : ℤ) (data : Bytes) :
    CompletedWith d (uploadedItem d now sid iid name size data) data :=
  ⟨rfl, rfl, rfl, rfl⟩

theorem uploadItem_of_open {d : Deployment} {w : World} {now : ℤ} {sid : Uuid}
    {owner : AuthenticatedUser} {m : TransferSessionModel} (h : OpenFor w now sid owner m)
    (name : Str) (content : UploadStream) (size : ℤ) (iid : Uuid) :
    uploadItem d w now sid owner name content size iid =
      match content.failure with
      | some message =>
          (.error ⟨.osError, message⟩,
            (w.withFiles (w.files.write (ChunkStorage.destPath d sid iid (sanitizeFilename d name))
              now content.content)).withDb
            (w.db.addItem (failedItem d now sid iid name size ⟨.osError, message⟩)))
      | none =>
          (.ok (uploadedItem d now sid iid name size content.content),
            (w.withFiles (w.files.write (ChunkStorage.destPath d sid iid (sanitizeFilename d name))
              now content.content)).withDb
            (closed w.db m (uploadedItem d now sid iid name size content.content))) := by
  obtain ⟨hm, rfl, -, -⟩ := id h
  have hpath := ChunkStorage.join_eq_destPath d m.id iid (slash_notMem_sanitizeFilename d name)
  simp only [uploadItem, openForUpload_of_open h, LocalFileStorage.saveUpload_eq, storedNameOf]
  rw [hpath]
  cases content.failure with
  | some message =>
      have hfail := failUpload_addItem w.db (newItem d now m.id iid name size none .uploading)
        ⟨.osError, message⟩
      exact congrArg (fun db => (_, World.withDb _ db)) hfail
  | none =>
      have hclose := closeUpload_addItem h.mem (newItem d now m.id iid name size none .uploading)
        ⟨ChunkStorage.destPath d m.id iid (sanitizeFilename d name), content.content.length,
          hexdigest content.content⟩ (storedNameOf iid (sanitizeFilename d name))
      simp only [newItem, storedNameOf] at hclose
      simp only [World.withDb_db, World.withDb_files, newItem, storedNameOf, hclose]
      rfl

theorem uploadItem_cases (d : Deployment) (w : World) (now : ℤ) (sid : Uuid)
    (owner : AuthenticatedUser) (name : Str) (content : UploadStream) (size : ℤ) (iid : Uuid) :
    TurnedAway w sid owner (uploadItem d w now sid owner name content size iid) ∨
      ∃ m, OpenFor w now sid owner m := by
  rcases openForUpload_cases w now sid owner with h | h
  · refine Or.inl ?_
    unfold uploadItem
    generalize openForUpload w now sid owner = o at h
    apply h.rethrow
    intro e w
    rfl
  · exact Or.inr h

/-! ## Resumable upload -/

theorem reachesEnd_iff {i : TransferItem} {n : ℕ} :
    reachesEnd i n = true ↔ i.sizeBytes ≤ n ∧ 0 < i.sizeBytes := by
  simp only [reachesEnd, decide_eq_true_eq]

/-- The row `init_resumable_item` adds. -/
abbrev queuedItem (d : Deployment) (now : ℤ) (sid iid : Uuid) (name : Str) (total : ℤ)
    (expected : Option Str) : TransferItem :=
  newItem d now sid iid name total expected .queued

theorem initResumableItem_of_open {d : Deployment} {w : World} {now : ℤ} {sid : Uuid}
    {owner : AuthenticatedUser} {m : TransferSessionModel} (h : OpenFor w now sid owner m)
    (name : Str) (total : ℤ) (expected : Option Str) (iid : Uuid) :
    initResumableItem d w now sid owner name total expected iid =
      (.ok (queuedItem d now sid iid name total expected),
        w.withDb (w.db.addItem (queuedItem d now sid iid name total expected))) := by
  rw [initResumableItem, openForUpload_of_open h]

theorem initResumableItem_cases (d : Deployment) (w : World) (now : ℤ) (sid : Uuid)
    (owner : AuthenticatedUser) (name : Str) (total : ℤ) (expected : Option Str) (iid : Uuid) :
    TurnedAway w sid owner (initResumableItem d w now sid owner name total expected iid) ∨
      ∃ m, OpenFor w now sid owner m := by
  rcases openForUpload_cases w now sid owner with h | h
  · refine Or.inl ?_
    unfold initResumableItem
    generalize openForUpload w now sid owner = o at h
    apply h.rethrow
    intro e w
    rfl
  · exact Or.inr h

/-- The row a finished resumable upload of `data` leaves in the place of `i`. -/
def finishedItem (d : Deployment) (i : TransferItem) (data : Bytes) : TransferItem :=
  completed i (hexdigest data) (itemPath d i)
    (storedNameOf i.id (sanitizeFilename d i.originalName)) data.length

theorem finishedItem_completedWith (d : Deployment) (i : TransferItem) (data : Bytes) :
    CompletedWith d (finishedItem d i data) data :=
  ⟨rfl, rfl, rfl, rfl⟩

/-- The files once the part file of `i` has been moved to its place. -/
def published (d : Deployment) (fs : Files) (i : TransferItem) (f : File) : Files :=
  Function.update (fs.unlink (ChunkStorage.partPath d i.sessionId i.id)) (itemPath d i) (some f)

theorem afterAppend_continue {d : Deployment} {w : World} {c : ChunkRequest} {i : TransferItem}
    {n : ℕ} (hi : i ∈ w.db.items.rows) (hid : i.id = c.itemId) (hend : reachesEnd i n = false) :
    afterAppend d w c i n =
      (.ok (some i.markUploading, n, false), w.withDb (w.db.saveItem i.markUploading)) := by
  have hget : w.db.getItemById c.itemId = some i := Db.getItemById_eq_some.mpr ⟨hi, hid⟩
  simp only [afterAppend, hend, continueChunk, hget]
  rfl

theorem afterAppend_mismatch {d : Deployment} {w : World} {c : ChunkRequest} {i : TransferItem}
    {n : ℕ} {f : File} {e : Error}
    (hf : w.files (ChunkStorage.partPath d c.sessionId c.itemId) = some f)
    (hend : reachesEnd i n = true)
    (hsha : ChunkStorage.checkHash i.checksumSha256 (hexdigest f.data) = .error e) :
    afterAppend d w c i n = (.error e, w) := by
  simp only [afterAppend, hend, ChunkStorage.finalizeChunkUpload_eq _ _ hf, hsha]
  rfl

theorem afterAppend_finish {d : Deployment} {w : World} {c : ChunkRequest} {i : TransferItem}
    {m : TransferSessionModel} {n : ℕ} {f : File} (hi : i ∈ w.db.items.rows)
    (hid : i.id = c.itemId) (hsid : i.sessionId = c.sessionId) (hm : m ∈ w.db.sessions.rows)
    (hmid : m.id = c.sessionId)
    (hf : w.files (ChunkStorage.partPath d c.sessionId c.itemId) = some f)
    (hend : reachesEnd i n = true)
    (hsha : ChunkStorage.checkHash i.checksumSha256 (hexdigest f.data) = .ok ()) :
    afterAppend d w c i n =
      (.ok (some (finishedItem d i f.data), n, true),
        (w.withFiles (published d w.files i f)).withDb (closed w.db m (finishedItem d i f.data))) := by
  have hget : w.db.getItemById c.itemId = some i := Db.getItemById_eq_some.mpr ⟨hi, hid⟩
  have hsave : ∀ j, saveSessionStatus (w.db.saveItem j) c.sessionId = closed w.db m j := by
    intro j
    have hm' : m ∈ (w.db.saveItem j).sessions.rows := hm
    rw [← hmid, saveSessionStatus_of_mem hm', closed]
  simp only [afterAppend, hend, ChunkStorage.finalizeChunkUpload_eq _ _ hf, hsha, closeChunk, hget,
    hsave, finishedItem, published, itemPath, hid, hsid, if_true]

/-- A request on an open session and one of its items: the offset decides. -/
theorem appendItemChunk_of_open {d : Deployment} {w : World} {now : ℤ} {c : ChunkRequest}
    {m : TransferSessionModel} {i : TransferItem} (hm : OpenFor w now c.sessionId c.owner m)
    (hi : i ∈ w.db.items.rows) (hid : i.id = c.itemId) (hsid : i.sessionId = c.sessionId) :
    appendItemChunk d w now c =
      match ChunkStorage.checkOffset d w.files c.sessionId c.itemId c.offset with
      | .error e => (.error e, w)
      | .ok n => afterAppend d (w.withFiles (appended d w now c)) c i (n + c.chunkData.length) := by
  have hfind : findItem w c.sessionId c.itemId = .ok i := findItem_eq_ok.mpr ⟨hi, hid, hsid⟩
  simp only [appendItemChunk, openChunk, openForUpload_of_open hm, hfind, ChunkStorage.appendChunk]
  cases ChunkStorage.checkOffset d w.files c.sessionId c.itemId c.offset with
  | error e => rfl
  | ok n => rfl

theorem appendItemChunk_of_accepts {d : Deployment} {w : World} {now : ℤ} {c : ChunkRequest}
    {m : TransferSessionModel} {i : TransferItem} (h : Accepts d w now c m i) :
    appendItemChunk d w now c = afterAppend d (w.withFiles (appended d w now c)) c i
      (appendedBytes d w c).length := by
  have hcheck := ChunkStorage.checkOffset_eq_ok.mpr ⟨rfl, h.offset⟩
  rw [appendItemChunk_of_open h.session h.mem h.id h.sessionId, hcheck, appendedBytes,
    List.length_append, ← Files.size_eq_length]

/-- The opening transaction of a chunk finds its rows, or refuses it. -/
theorem openChunk_eq_ok {w w' : World} {now : ℤ} {c : ChunkRequest} {i : TransferItem} :
    openChunk w now c = (.ok i, w') ↔ w' = w ∧
      (∃ m, OpenFor w now c.sessionId c.owner m) ∧ i ∈ w.db.items.rows ∧ i.id = c.itemId ∧
        i.sessionId = c.sessionId := by
  unfold openChunk
  rcases openForUpload_cases w now c.sessionId c.owner with haway | ⟨m, hm⟩
  · have hclosed : ∀ m, ¬ OpenFor w now c.sessionId c.owner m := by
      intro m hm
      rw [openForUpload_of_open hm] at haway
      cases haway
    generalize openForUpload w now c.sessionId c.owner = o at haway
    constructor
    · intro h
      cases haway <;> cases h
    · rintro ⟨-, ⟨m, hm⟩, -⟩
      exact absurd hm (hclosed m)
  · rw [openForUpload_of_open hm]
    constructor
    · intro h
      obtain ⟨hfind, rfl⟩ := Prod.mk.inj h
      exact ⟨rfl, ⟨m, hm⟩, findItem_eq_ok.mp hfind⟩
    · rintro ⟨rfl, -, hi⟩
      exact congrArg (·, w') (findItem_eq_ok.mpr hi)

theorem appendItemChunk_cases (d : Deployment) (w : World) (now : ℤ) (c : ChunkRequest) :
    TurnedAway w c.sessionId c.owner (appendItemChunk d w now c) ∨
      ∃ m i, Accepts d w now c m i := by
  rcases openForUpload_cases w now c.sessionId c.owner with h | ⟨m, hm⟩
  · refine Or.inl ?_
    unfold appendItemChunk openChunk
    generalize openForUpload w now c.sessionId c.owner = o at h
    apply h.rethrow
    intro e w
    rfl
  · cases hfind : findItem w c.sessionId c.itemId with
    | error e =>
        refine Or.inl ?_
        have hopen : openChunk w now c = (.error e, w) := by
          rw [openChunk, openForUpload_of_open hm]
          exact congrArg (·, w) hfind
        rw [appendItemChunk, hopen]
        exact .error e
    | ok i =>
        obtain ⟨hi, hid, hsid⟩ := findItem_eq_ok.mp hfind
        by_cases hoff : c.offset = w.files.size (ChunkStorage.partPath d c.sessionId c.itemId)
        · exact Or.inr ⟨m, i, hm, hi, hid, hsid, hoff⟩
        · rw [appendItemChunk_of_open hm hi hid hsid, ChunkStorage.checkOffset_eq_error hoff]
          exact Or.inl (.error _)

/-- The part file after an accepted chunk. -/
theorem appended_part (d : Deployment) (w : World) (now : ℤ) (c : ChunkRequest) :
    ∃ t, appended d w now c (ChunkStorage.partPath d c.sessionId c.itemId) =
      some ⟨appendedBytes d w c, t⟩ :=
  Files.append_self _ _ _ _

theorem appended_ne {d : Deployment} {w : World} {now : ℤ} {c : ChunkRequest} {p : Path}
    (h : p ≠ ChunkStorage.partPath d c.sessionId c.itemId) : appended d w now c p = w.files p :=
  Files.append_ne h

/-- The three ways an accepted chunk can end. -/
theorem appendItemChunk_accepted {d : Deployment} {w : World} {now : ℤ} {c : ChunkRequest}
    {m : TransferSessionModel} {i : TransferItem} (h : Accepts d w now c m i) :
    (reachesEnd i (appendedBytes d w c).length = false ∧
      appendItemChunk d w now c =
        (.ok (some i.markUploading, (appendedBytes d w c).length, false),
          (w.withFiles (appended d w now c)).withDb (w.db.saveItem i.markUploading))) ∨
    (reachesEnd i (appendedBytes d w c).length = true ∧
      ∃ e, ChunkStorage.checkHash i.checksumSha256 (hexdigest (appendedBytes d w c)) = .error e ∧
        appendItemChunk d w now c = (.error e, w.withFiles (appended d w now c))) ∨
    (reachesEnd i (appendedBytes d w c).length = true ∧
      ChunkStorage.checkHash i.checksumSha256 (hexdigest (appendedBytes d w c)) = .ok () ∧
      ∃ t, appendItemChunk d w now c =
        (.ok (some (finishedItem d i (appendedBytes d w c)), (appendedBytes d w c).length, true),
          (w.withFiles (published d (appended d w now c) i ⟨appendedBytes d w c, t⟩)).withDb
            (closed w.db m (finishedItem d i (appendedBytes d w c))))) := by
  rw [appendItemChunk_of_accepts h]
  obtain ⟨t, hpart⟩ := appended_part d w now c
  cases hend : reachesEnd i (appendedBytes d w c).length with
  | false =>
      refine Or.inl ⟨rfl, ?_⟩
      exact afterAppend_continue (w := w.withFiles (appended d w now c)) h.mem h.id hend
  | true =>
      cases hsha : ChunkStorage.checkHash i.checksumSha256 (hexdigest (appendedBytes d w c)) with
      | error e =>
          refine Or.inr (Or.inl ⟨rfl, e, rfl, ?_⟩)
          exact afterAppend_mismatch hpart hend hsha
      | ok u =>
          refine Or.inr (Or.inr ⟨rfl, rfl, t, ?_⟩)
          exact afterAppend_finish (w := w.withFiles (appended d w now c))
            (f := ⟨appendedBytes d w c, t⟩) h.mem h.id h.sessionId h.session.mem h.session.id
            hpart hend hsha

theorem mem_put_status {t : Table TransferSessionModel.id} {m k : TransferSessionModel}
    (hm : m ∈ t.rows) (hk : k ∈ t.rows) (status : SessionStatus) :
    ∃ status', { m with status := status' } ∈ (t.put { k with status }).rows := by
  by_cases hid : m.id = k.id
  · obtain rfl := Table.eq_of_mem hm hk hid
    exact ⟨status, Table.mem_put.mpr (Or.inl rfl)⟩
  · exact ⟨m.status, Table.mem_put.mpr (Or.inr ⟨hm, hid⟩)⟩

/-- A chunk writes nothing of a session but its status. -/
theorem appendItemChunk_keeps_session {w : World} {m : TransferSessionModel}
    (hm : m ∈ w.db.sessions.rows) (d : Deployment) (now : ℤ) (c : ChunkRequest) :
    ∃ status, { m with status } ∈ (appendItemChunk d w now c).2.db.sessions.rows := by
  rcases appendItemChunk_cases d w now c with haway | ⟨k, i, hacc⟩
  · generalize appendItemChunk d w now c = o at haway
    cases haway with
    | error e => exact ⟨m.status, hm⟩
    | expired hk => exact mem_put_status hm hk _
  · rcases appendItemChunk_accepted hacc with ⟨-, heq⟩ | ⟨-, e, -, heq⟩ | ⟨-, -, t, heq⟩
    · rw [heq]
      exact ⟨m.status, hm⟩
    · rw [heq]
      exact ⟨m.status, hm⟩
    · rw [heq]
      exact mem_put_status hm hacc.session.mem _

/-! ## Lookups -/

theorem getSessionByCode_cases (w : World) (now : ℤ) (code : Str) :
    (∃ s, getSessionByCode w now code = (.ok s, w)) ∨
    ∃ s, ∃ m ∈ w.db.sessions.rows,
      getSessionByCode w now code = (.ok s, w.withDb (w.db.putStatus m .expired)) := by
  unfold getSessionByCode
  cases hget : w.db.getByCode code with
  | none => exact Or.inl ⟨none, rfl⟩
  | some s =>
      obtain ⟨m, hm, -, rfl⟩ := Db.getByCode_eq_some hget
      dsimp only
      split
      · rw [expire_eq]
        exact Or.inr ⟨_, m, hm, rfl⟩
      · exact Or.inl ⟨_, rfl⟩

/-- A row that hands out its items at `now`. -/
structure Shared (w : World) (now : ℤ) (code : Str) (m : TransferSessionModel) : Prop where
  mem : m ∈ w.db.sessions.rows
  code : m.sessionCode = (Str.strip code).upper
  live : m.expiresAt.any (· < now) = false
  status : m.status ≠ .expired

/-- `get_session_item` returns an item only from a session that is shared, and
changes nothing then. -/
theorem getSessionItem_cases (w : World) (now : ℤ) (code : Str) (iid : Uuid) :
    getSessionItem w now code iid = (.ok none, w) ∨
    (∃ m ∈ w.db.sessions.rows,
      getSessionItem w now code iid = (.ok none, w.withDb (w.db.putStatus m .expired))) ∨
    ∃ m i, Shared w now code m ∧ i ∈ w.db.items.rows ∧ i.id = iid ∧ i.sessionId = m.id ∧
      getSessionItem w now code iid = (.ok (some (w.db.sessionToDomain m, i)), w) := by
  unfold getSessionItem
  cases hget : w.db.getByCode code with
  | none => exact Or.inl rfl
  | some s =>
      obtain ⟨m, hm, hcode, rfl⟩ := Db.getByCode_eq_some hget
      have hexp : isExpired now (w.db.sessionToDomain m).expiresAt =
          m.expiresAt.any (· < now) := Db.isExpired_loadTimestamp _ _ _
      by_cases hgone : m.expiresAt.any (· < now) = true ∨
          (w.db.sessionToDomain m).status = .expired
      · refine Or.inr (Or.inl ⟨m, hm, ?_⟩)
        simp only [hexp, if_pos hgone, expire_eq]
      · simp only [hexp, if_neg hgone]
        cases hfind : (w.db.sessionToDomain m).items.find? (·.id = iid) with
        | none => exact Or.inl rfl
        | some i =>
            have hi : i ∈ w.db.itemsOf m.id := List.mem_of_find?_eq_some hfind
            obtain ⟨hmem, hsid⟩ := Db.mem_itemsOf.mp hi
            have hid : i.id = iid := by simpa using List.find?_some hfind
            have hlive : m.expiresAt.any (· < now) = false := by
              rw [← Bool.not_eq_true]
              exact fun h => hgone (Or.inl h)
            have hstatus : m.status ≠ .expired := by
              intro h
              exact hgone (Or.inr (TransferSession.status_of_expired h))
            exact Or.inr (Or.inr ⟨m, i, ⟨hm, hcode, hlive, hstatus⟩, hmem, hid, hsid, rfl⟩)

theorem getItemOffset_cases (d : Deployment) (w : World) (sid iid : Uuid)
    (owner : AuthenticatedUser) :
    (∃ e, getItemOffset d w sid iid owner = (.error e, w)) ∨
    ∃ m i, m ∈ w.db.sessions.rows ∧ m.id = sid ∧
      (m.ownerId = owner.userId ∨ owner.isAdmin = true) ∧
      i ∈ w.db.items.rows ∧ i.id = iid ∧ i.sessionId = sid ∧
      getItemOffset d w sid iid owner =
        (.ok (i, w.files.size (ChunkStorage.partPath d sid iid)), w) := by
  unfold getItemOffset
  cases hget : w.db.getById sid with
  | none => exact Or.inl ⟨_, rfl⟩
  | some session =>
      obtain ⟨m, hm, hid, rfl⟩ := Db.getById_eq_some.mp hget
      by_cases hden : m.ownerId ≠ owner.userId ∧ owner.isAdmin = false
      · exact Or.inl ⟨_, if_pos hden⟩
      · have hallow := (allowed_iff m owner).mp hden
        have howner : (w.db.sessionToDomain m).ownerId = m.ownerId := rfl
        simp only [howner, if_neg hden]
        cases hfind : findItem w sid iid with
        | error e => exact Or.inl ⟨e, rfl⟩
        | ok i =>
            obtain ⟨hi, hiid, hsid⟩ := findItem_eq_ok.mp hfind
            exact Or.inr ⟨m, i, hm, hid, hallow, hi, hiid, hsid, rfl⟩

theorem getItemOffset_of_mem {d : Deployment} {w : World} {sid iid : Uuid}
    {owner : AuthenticatedUser} {m : TransferSessionModel} {i : TransferItem}
    (hm : m ∈ w.db.sessions.rows) (hid : m.id = sid)
    (hallow : m.ownerId = owner.userId ∨ owner.isAdmin = true) (hi : i ∈ w.db.items.rows)
    (hiid : i.id = iid) (hsid : i.sessionId = sid) :
    getItemOffset d w sid iid owner =
      (.ok (i, w.files.size (ChunkStorage.partPath d sid iid)), w) := by
  have hget : w.db.getById sid = some (w.db.sessionToDomain m) := hid ▸ Db.getById_of_mem hm
  have hden : ¬ ((w.db.sessionToDomain m).ownerId ≠ owner.userId ∧ owner.isAdmin = false) :=
    (allowed_iff m owner).mpr hallow
  have hfind : findItem w sid iid = .ok i := findItem_eq_ok.mpr ⟨hi, hiid, hsid⟩
  simp only [getItemOffset, hget]
  rw [if_neg hden, hfind]
  rfl

/-! ## The sweep -/

/-- What a sweep that succeeds leaves: fewer rows, and every file but those of
the items whose session is gone. -/
structure Swept (w : World) (db : Db) (fs : Files) : Prop where
  sessions : ∀ m ∈ db.sessions.rows, m ∈ w.db.sessions.rows
  items : ∀ i ∈ db.items.rows, i ∈ w.db.items.rows
  itemsKept : ∀ i ∈ w.db.items.rows, (∃ m ∈ db.sessions.rows, m.id = i.sessionId) →
    i ∈ db.items.rows
  files : ∀ p, fs p = w.files p ∨ (fs p = none ∧ ∃ i ∈ w.db.items.rows,
    i.storagePath = some p ∧ ∀ m ∈ db.sessions.rows, m.id ≠ i.sessionId)

theorem cleanupExpiredSessions_of_isOk {w : World} {now : ℤ} {deadline : Option ℤ}
    {unlinkFails : Path → Bool}
    (h : (CleanupService.cleanupExpiredSessions w now deadline unlinkFails).1.isOk) :
    ∃ n db fs, Swept w db fs ∧
      CleanupService.cleanupExpiredSessions w now deadline unlinkFails =
        (.ok n, (w.withFiles fs).withDb db) := by
  unfold CleanupService.cleanupExpiredSessions at h ⊢
  dsimp only at h ⊢
  split at h
  · cases h
  · rename_i db fs hsweep
    obtain ⟨rfl, hfiles⟩ := CleanupService.sweepSessions_ok hsweep
    refine ⟨_, _, fs, ⟨?_, ?_, ?_, ?_⟩, rfl⟩
    · intro m hm
      exact ((CleanupService.foldl_deleteById_sessions _ _ m).mp hm).1
    · intro i hi
      exact (CleanupService.foldl_deleteById_items _ _ i).1 hi
    · rintro i hi ⟨m, hm, hid⟩
      refine (CleanupService.foldl_deleteById_items _ _ i).2 hi ?_
      intro s hs heq
      have hkept := ((CleanupService.foldl_deleteById_sessions _ _ m).mp hm).2 s hs
      exact hkept (heq.trans hid.symm)
    · intro p
      rw [hfiles p]
      split
      · rename_i hgone
        obtain ⟨s, hs, i, hi, hp⟩ := hgone
        refine Or.inr ⟨rfl, i, ?_, hp, ?_⟩
        · obtain ⟨m, -, rfl⟩ := List.mem_map.mp hs
          exact (Db.mem_itemsOf.mp hi).1
        · intro m hm heq
          have hkept := ((CleanupService.foldl_deleteById_sessions _ _ m).mp hm).2 s hs
          obtain ⟨r, -, rfl⟩ := List.mem_map.mp hs
          exact hkept ((Db.mem_itemsOf.mp hi).2.symm.trans heq.symm)
      · exact Or.inl rfl

end SessionService

end Jumbox
