import Jumbox.Uploads.Run

/-!
# Upload sessions that share a temporary file

The temporary file of an upload session is named after its owner and its
original name, not after the session: sessions that agree on both write to one
file. A session registers exactly its own chunks when the writes to the file,
since it was last moved away, are its own calls that have returned.
-/

namespace Jumbox

namespace Uploads

open ChunkedUploadService

/-- The calls of a session that have returned. -/
def returnedCalls (log : List ChunkRecord) (sessionId : Uuid) : List ChunkRecord :=
  log.filter fun r => r.sessionId = sessionId ∧ r.returned

/-- The bytes of the chunks that have been appended to a session, in call order. -/
def received (log : List ChunkRecord) (sessionId : Uuid) : Bytes :=
  ((returnedCalls log sessionId).map (·.data)).flatten

def track (p : Path) (writes : List ChunkRecord) (r : ChunkRecord) : List ChunkRecord :=
  if r.tempPath ≠ p then writes else if r.moved then [] else writes ++ [r]

/-- The calls that have written to `p` since it was last moved away. -/
def writes (log : List ChunkRecord) (p : Path) : List ChunkRecord := log.foldl (track p) []

def nonempty (calls : List ChunkRecord) : List ChunkRecord := calls.filter (·.data ≠ [])

/-- The file a completed session registers is its chunks, and the row says how
long it is. -/
def RegistersOwn (d : Deployment) (s : State) (e : Event) : Prop :=
  match e.call with
  | .appendChunk owner sid chunk draws =>
      ∀ r w', appendChunk d s.world e.now owner sid chunk draws = (.ok r, w') →
        r.completed = true →
        ∃ m ∈ w'.db.transfers.rows, m.id = draws.transferId ∧
          ∃ p f, m.storagePath = some p ∧ w'.files p = some f ∧
            f.data = received (s.log ++ record d s.world e) sid ∧ m.sizeBytes = f.data.length
  | _ => True

/-- The session that a call brings to its total size. -/
def reached (s : State) (e : Event) : Option UploadSession :=
  match e.call with
  | .appendChunk owner sid chunk _ =>
      match openSession s.world e.now owner sid with
      | .error _ => none
      | .ok session =>
          if chunk.failure = none ∧
              (counted session chunk).totalSizeBytes ≤ (counted session chunk).receivedBytes then
            some session
          else none
  | _ => none

/-- Where a call brings its session to the total size, what has been written to
the temporary file is what the session's earlier calls have written. -/
def Unmixed (s : State) (e : Event) : Prop :=
  ∀ session ∈ reached s e,
    nonempty (writes s.log session.tempPath) = nonempty (returnedCalls s.log session.id)

instance (s : State) (e : Event) : Decidable (Unmixed s e) :=
  inferInstanceAs (Decidable (∀ _ ∈ _, _))

/-! ## The log -/

theorem received_append (log : List ChunkRecord) (r : ChunkRecord) (sid : Uuid) :
    received (log ++ [r]) sid =
      received log sid ++ if r.sessionId = sid ∧ r.returned = true then r.data else [] := by
  unfold received returnedCalls
  rw [List.filter_append, List.map_append, List.flatten_append]
  by_cases h : r.sessionId = sid ∧ r.returned = true
  · simp [h]
  · simp [h]

theorem writes_append (log : List ChunkRecord) (r : ChunkRecord) (p : Path) :
    writes (log ++ [r]) p = track p (writes log p) r := by
  simp [writes, List.foldl_append]

theorem flatten_nonempty (calls : List ChunkRecord) :
    ((nonempty calls).map (·.data)).flatten = (calls.map (·.data)).flatten := by
  induction calls with
  | nil => rfl
  | cons r calls ih =>
      unfold nonempty at ih ⊢
      by_cases h : r.data = []
      · simpa [h] using ih
      · simpa [h] using ih

/-! ## What holds after every call -/

/-- A cached session counts the chunks that have been appended to it. -/
structure Cached (d : Deployment) (s : State) (sid : Uuid) (session : UploadSession) : Prop where
  id : session.id = sid
  issued : sid ∈ s.uuids
  temp : InTemp d session.tempPath
  name : '/' ∉ session.originalName
  counts : session.receivedBytes = (received s.log sid).length

structure Inv (d : Deployment) (s : State) : Prop where
  cached : ∀ id c, s.world.cache id = some c → Cached d s id c.session
  log : ∀ r ∈ s.log, r.sessionId ∈ s.uuids
  temp : ∀ p, InTemp d p → s.world.files.bytes p = ((writes s.log p).map (·.data)).flatten
  rows : ∀ m ∈ s.world.db.transfers.rows,
    m.id ∈ s.uuids ∧ ∃ p, m.storagePath = some p ∧ InUploads d p

section Steps

variable {d : Deployment} {s : State}

theorem received_of_new (h : Inv d s) {id : Uuid} (hnew : id ∉ s.uuids) :
    received s.log id = [] := by
  have hnone : returnedCalls s.log id = [] := by
    refine List.filter_eq_nil_iff.mpr ?_
    intro r hr hcall
    simp only [decide_eq_true_eq] at hcall
    exact hnew (hcall.1 ▸ h.log r hr)
  rw [received, hnone]
  rfl

theorem Inv.rows_kept (h : Inv d s) {uuids : List Uuid} (huuids : ∀ id ∈ s.uuids, id ∈ uuids) :
    ∀ m ∈ s.world.db.transfers.rows, m.id ∈ uuids ∧ ∃ p, m.storagePath = some p ∧ InUploads d p :=
  fun m hm => ⟨huuids _ (h.rows m hm).1, (h.rows m hm).2⟩

/-- A call that appends nothing: the temporary files stay as they are. -/
theorem Inv.of_temp (h : Inv d s) {w : World} {uuids : List Uuid}
    (huuids : ∀ id ∈ s.uuids, id ∈ uuids)
    (hcache : ∀ id c, w.cache id = some c → s.world.cache id = some c ∨
      (Cached d ⟨w, uuids, s.log⟩ id c.session))
    (hfiles : ∀ p, InTemp d p → w.files p = s.world.files p)
    (hrows : ∀ m ∈ w.db.transfers.rows,
      m.id ∈ uuids ∧ ∃ p, m.storagePath = some p ∧ InUploads d p) :
    Inv d ⟨w, uuids, s.log⟩ := by
  constructor
  · intro id c hc
    rcases hcache id c hc with hold | hnew
    · obtain ⟨hid, hissued, htemp, hname, hrec⟩ := h.cached id c hold
      exact ⟨hid, huuids _ hissued, htemp, hname, hrec⟩
    · exact hnew
  · intro r hr
    exact huuids _ (h.log r hr)
  · intro p hp
    rw [← h.temp p hp, Files.bytes, Files.bytes, hfiles p hp]
  · exact hrows

/-- A call that appends to the temporary file of one session. -/
theorem Inv.of_record (h : Inv d s) {w : World} {uuids : List Uuid} {r : ChunkRecord}
    (huuids : ∀ id ∈ s.uuids, id ∈ uuids) (hr : r.sessionId ∈ uuids)
    (hcache : ∀ id c, w.cache id = some c →
      (s.world.cache id = some c ∧ (r.sessionId = id → r.returned = false)) ∨
      (Cached d ⟨w, uuids, s.log ++ [r]⟩ id c.session))
    (hother : ∀ p, InTemp d p → p ≠ r.tempPath → w.files p = s.world.files p)
    (hself : w.files.bytes r.tempPath =
      if r.moved then [] else s.world.files.bytes r.tempPath ++ r.data)
    (hrows : ∀ m ∈ w.db.transfers.rows,
      m.id ∈ uuids ∧ ∃ p, m.storagePath = some p ∧ InUploads d p) :
    Inv d ⟨w, uuids, s.log ++ [r]⟩ := by
  constructor
  · intro id c hc
    rcases hcache id c hc with ⟨hold, hraised⟩ | hnew
    · obtain ⟨hid, hissued, htemp, hname, hrec⟩ := h.cached id c hold
      refine ⟨hid, huuids _ hissued, htemp, hname, ?_⟩
      have hsame : received (s.log ++ [r]) id = received s.log id := by
        rw [received_append, if_neg, List.append_nil]
        rintro ⟨hsid, hreturned⟩
        rw [hraised hsid] at hreturned
        cases hreturned
      rw [hsame]
      exact hrec
    · exact hnew
  · intro q hq
    rcases List.mem_append.mp hq with hq | hq
    · exact huuids _ (h.log q hq)
    · rw [List.mem_singleton.mp hq]
      exact hr
  · intro p hp
    show w.files.bytes p = ((writes (s.log ++ [r]) p).map (·.data)).flatten
    rw [writes_append, track]
    by_cases hpath : p = r.tempPath
    · subst hpath
      rw [if_neg (not_not.mpr rfl), hself, h.temp _ hp]
      cases r.moved with
      | true => rfl
      | false => simp
    · rw [if_pos (Ne.symm hpath), ← h.temp p hp, Files.bytes, Files.bytes, hother p hp hpath]
  · exact hrows

theorem record_of_open {e : Event} {owner : AuthenticatedUser} {sid : Uuid} {chunk : UploadStream}
    {draws : Draws} (hcall : e.call = .appendChunk owner sid chunk draws) {session : UploadSession}
    (hopen : openSession s.world e.now owner sid = .ok session) {o : Outcome ChunkUploadResult}
    (ho : appendChunk d s.world e.now owner sid chunk draws = o) :
    record d s.world e = [⟨sid, session.tempPath, chunk.content, o.1.isOk,
      (o.2.files session.tempPath).isNone⟩] := by
  simp only [record, hcall, hopen, ho]

/-- The bytes of a temporary file that `append_chunk` has left in its place. -/
theorem bytes_appended (w : World) (now : ℤ) (session : UploadSession) (chunk : UploadStream) :
    (appended w now session chunk session.tempPath).isNone = false ∧
      (appended w now session chunk).bytes session.tempPath =
        w.files.bytes session.tempPath ++ chunk.content := by
  obtain ⟨t, ht⟩ := Files.append_self w.files session.tempPath now chunk.content
  refine ⟨?_, Files.bytes_append_self _ _ _ _⟩
  rw [appended, ht]
  rfl

theorem bytes_of_moved {fs : Files} {p : Path} (h : fs p = none) (b : Bytes) :
    fs.bytes p = if (fs p).isNone then [] else b := by
  rw [h, Files.bytes_of_none h]
  rfl

/-- A move to a place outside the temporary directory. -/
theorem movedTo_temp (w : World) (now : ℤ) {session : UploadSession} (chunk : UploadStream)
    {p : Path} (f : File) (hp : ∀ q, InTemp d q → p ≠ q) (htemp : InTemp d session.tempPath) :
    movedTo (appended w now session chunk) session.tempPath p f session.tempPath = none ∧
      ∀ q, InTemp d q → q ≠ session.tempPath →
        movedTo (appended w now session chunk) session.tempPath p f q = w.files q := by
  constructor
  · rw [movedTo, Function.update_of_ne (hp _ htemp).symm, Files.unlink_self]
  · intro q hq hne
    rw [movedTo, Function.update_of_ne (hp q hq).symm, Files.unlink_ne hne]
    exact Files.append_ne hne

theorem Inv.append (h : Inv d s) {e : Event} {owner : AuthenticatedUser} {sid : Uuid}
    {chunk : UploadStream} {draws : Draws} (hcall : e.call = .appendChunk owner sid chunk draws)
    {uuids : List Uuid} (huuids : ∀ id ∈ s.uuids, id ∈ uuids) (hdrawn : draws.transferId ∈ uuids) :
    Inv d ⟨(appendChunk d s.world e.now owner sid chunk draws).2, uuids,
      s.log ++ record d s.world e⟩ := by
  rcases appendChunk_cases d s.world e.now owner sid chunk draws with
    ⟨err, hopen, heq⟩ | ⟨session, hopen, hcases⟩
  · have hnone : record d s.world e = [] := by simp only [record, hcall, hopen]
    rw [heq, hnone, List.append_nil]
    exact h.of_temp huuids (fun id c hc => Or.inl hc) (fun p _ => rfl) (h.rows_kept huuids)
  · obtain ⟨c, hc, rfl⟩ := openSession_eq_ok hopen
    obtain ⟨hid, hissued, htemp, hname, hcounts⟩ := h.cached sid c hc
    obtain ⟨hsome, hbytes⟩ := bytes_appended s.world e.now c.session chunk
    have hother : ∀ p, InTemp d p → p ≠ c.session.tempPath →
        appended s.world e.now c.session chunk p = s.world.files p :=
      fun p _ hp => Files.append_ne hp
    -- a call that raises leaves the cache alone, and its record does not count
    have hraised : ∀ {w : World} {moved : Bool}, w.cache = s.world.cache →
        w.db.transfers = s.world.db.transfers →
        (∀ p, InTemp d p → p ≠ c.session.tempPath → w.files p = s.world.files p) →
        (w.files.bytes c.session.tempPath = if moved then [] else
          s.world.files.bytes c.session.tempPath ++ chunk.content) →
        Inv d ⟨w, uuids, s.log ++ [⟨sid, c.session.tempPath, chunk.content, false, moved⟩]⟩ := by
      intro w moved hcache hdb hfiles hself
      refine h.of_record huuids (huuids _ hissued) ?_ hfiles hself
        (by rw [hdb]; exact h.rows_kept huuids)
      intro id c' hc'
      rw [hcache] at hc'
      exact Or.inl ⟨hc', fun _ => rfl⟩
    rcases hcases with ⟨-, err, heq⟩ | ⟨-, -, r, heq⟩ | ⟨-, -, t, hf, hcomp⟩
    · rw [record_of_open hcall hopen heq, heq]
      simp only [World.withFiles_files, hsome]
      exact hraised rfl rfl hother (by simpa using hbytes)
    · rw [record_of_open hcall hopen heq, heq]
      simp only [World.withCache_files, World.withFiles_files, hsome]
      refine h.of_record huuids (huuids _ hissued) ?_ hother (by simpa using hbytes)
        (h.rows_kept huuids)
      intro id c' hc'
      have hkey : (counted c.session chunk).id = sid := hid
      by_cases hsid : id = sid
      · subst hsid
        refine Or.inr ?_
        rw [World.withCache_cache, UploadSessionCache.save, hkey, Function.update_self] at hc'
        cases hc'
        refine ⟨hid, huuids _ hissued, htemp, hname, ?_⟩
        show c.session.receivedBytes + (chunk.content.length : ℤ) = _
        rw [received_append, if_pos ⟨rfl, rfl⟩, List.length_append, hcounts]
        push_cast
        rfl
      · refine Or.inl ⟨?_, fun heq' => absurd heq'.symm hsid⟩
        have hne : id ≠ (counted c.session chunk).id := fun heq' => hsid (heq'.trans hkey)
        rw [World.withCache_cache, UploadSessionCache.save_ne hne] at hc'
        exact hc'
    · generalize ho : appendChunk d s.world e.now owner sid chunk draws = o at hcomp ⊢
      rw [record_of_open hcall hopen ho]
      cases hcomp with
      | stuck err hdir =>
          simp only [World.withFiles_files, hsome]
          exact hraised rfl rfl hother (by simpa using hbytes)
      | misplaced err x hdir hfree =>
          obtain ⟨hnone, hkept⟩ := movedTo_temp s.world e.now chunk
            ⟨s.world.files.bytes c.session.tempPath ++ chunk.content, t⟩
            (fun q hq => ne_of_isDirectory hdir x hq) htemp
          exact hraised rfl rfl hkept (bytes_of_moved hnone _)
      | unregistered err hdir hrej =>
          obtain ⟨hnone, hkept⟩ := movedTo_temp s.world e.now chunk
            ⟨s.world.files.bytes c.session.tempPath ++ chunk.content, t⟩
            (fun q hq => (hq.ne_uploads (inUploads_finalPath hname hdir)).symm) htemp
          exact hraised rfl rfl hkept (bytes_of_moved hnone _)
      | completed r m hdir hacc hmid hdesc =>
          obtain ⟨hnone, hkept⟩ := movedTo_temp s.world e.now chunk
            ⟨s.world.files.bytes c.session.tempPath ++ chunk.content, t⟩
            (fun q hq => (hq.ne_uploads (inUploads_finalPath hname hdir)).symm) htemp
          refine h.of_record huuids (huuids _ hissued) ?_ hkept (bytes_of_moved hnone _) ?_
          · intro id c' hc'
            have hkey : (counted c.session chunk).id = sid := hid
            rw [World.withCache_cache, UploadSessionCache.delete, hkey] at hc'
            by_cases hsid : id = sid
            · rw [hsid, Function.update_self] at hc'
              cases hc'
            · rw [Function.update_of_ne hsid] at hc'
              exact Or.inl ⟨hc', fun heq' => absurd heq'.symm hsid⟩
          · intro m' hm'
            rcases Table.mem_put.mp hm' with rfl | ⟨hm', -⟩
            · exact ⟨hmid ▸ hdrawn, _, hdesc.path, inUploads_finalPath hname hdir⟩
            · exact h.rows_kept huuids m' hm'

/-- Rows of a sweep that has succeeded or raised were there before. -/
theorem mem_cleanupExpiredTransfers {w : World} {now : ℤ} {deadline : Option ℤ}
    {unlinkFails : Path → Bool} {m : TransferModel}
    (h : m ∈ (CleanupService.cleanupExpiredTransfers w now deadline
      unlinkFails).2.db.transfers.rows) : m ∈ w.db.transfers.rows := by
  unfold CleanupService.cleanupExpiredTransfers at h
  dsimp only at h
  split at h
  · exact h
  · rename_i db fs hsweep
    obtain ⟨rfl, -⟩ := CleanupService.sweepTransfers_ok hsweep
    exact ((CleanupService.foldl_deleteTransferById _ _ _).mp h).1

theorem cleanupExpiredTransfers_files (w : World) (now : ℤ) (deadline : Option ℤ)
    (unlinkFails : Path → Bool) (p : Path) :
    (CleanupService.cleanupExpiredTransfers w now deadline unlinkFails).2.files p = w.files p ∨
      ((CleanupService.cleanupExpiredTransfers w now deadline unlinkFails).2.files p = none ∧
        ∃ m ∈ w.db.transfers.rows, m.storagePath = some p) := by
  have hsweep := CleanupService.sweepTransfers_files unlinkFails
    (w.db.listTransfersExpiredBefore (deadline.getD now)) w.db w.files p
  unfold CleanupService.cleanupExpiredTransfers
  dsimp only
  generalize CleanupService.sweepTransfers unlinkFails w.db w.files
    (w.db.listTransfersExpiredBefore (deadline.getD now)) = o at hsweep
  have hrow : (∃ t ∈ w.db.listTransfersExpiredBefore (deadline.getD now),
      t.storagePath = some p) → ∃ m ∈ w.db.transfers.rows, m.storagePath = some p := by
    rintro ⟨t, ht, hp⟩
    obtain ⟨m, hm, -, rfl⟩ := CleanupService.mem_listTransfersExpiredBefore.mp ht
    exact ⟨m, hm, hp⟩
  obtain ⟨e | db, fs⟩ := o
  · exact hsweep.imp_right fun hgone => ⟨hgone.1, hrow hgone.2⟩
  · exact hsweep.imp_right fun hgone => ⟨hgone.1, hrow hgone.2⟩

theorem cleanupExpiredTransfers_cache (w : World) (now : ℤ) (deadline : Option ℤ)
    (unlinkFails : Path → Bool) :
    (CleanupService.cleanupExpiredTransfers w now deadline unlinkFails).2.cache = w.cache := by
  unfold CleanupService.cleanupExpiredTransfers
  dsimp only
  split
  · rfl
  · rfl

/-- Marking a transfer as downloaded rewrites its row in place. -/
theorem markDownloaded_cases (w : World) (now : ℤ) (code : Str) :
    (∃ e, TransferService.markDownloaded w now code = (.error e, w)) ∨
    ∃ t, ∃ m ∈ w.db.transfers.rows, ∃ m', m'.id = m.id ∧ m'.storagePath = m.storagePath ∧
      m'.sizeBytes = m.sizeBytes ∧ m'.checksumSha256 = m.checksumSha256 ∧
      TransferService.markDownloaded w now code =
        (.ok t, w.withDb { w.db with transfers := w.db.transfers.put m' }) := by
  unfold TransferService.markDownloaded
  cases hget : w.db.getTransferByCode code with
  | none => exact Or.inl ⟨_, rfl⟩
  | some t =>
      obtain ⟨m, hm, rfl⟩ := Option.map_eq_some_iff.mp hget
      exact Or.inr ⟨_, m, List.mem_of_find?_eq_some hm,
        Db.transferToModel ((w.db.transferToDomain m).markDownloaded now), rfl, rfl, rfl, rfl, rfl⟩

theorem Inv.step {s' : State} {e : Event} (h : Inv d s)
    (hstep : (system d).step s e = some s') : Inv d s' := by
  obtain ⟨⟨hfresh, hnames⟩, rfl⟩ := system_step.mp hstep
  obtain ⟨now, call⟩ := e
  have huuids : ∀ id ∈ s.uuids, id ∈ call.newId.toList ++ s.uuids :=
    fun id hid => List.mem_append_right _ hid
  cases call with
  | uploadFile filename content r =>
      have hpath := TransferService.inUploads_uploadPath (d := d) r.owner.userId hnames
      have hfiles : ∀ p, InTemp d p → s.world.files.write
          (TransferService.uploadPath d r.owner.userId filename) now content.content p =
            s.world.files p :=
        fun p hp => Files.write_ne (hp.ne_uploads hpath)
      have hlog : record d s.world ⟨now, .uploadFile filename content r⟩ = [] := rfl
      rw [hlog, List.append_nil]
      rcases TransferService.uploadFile_cases d s.world now filename content r with
        ⟨e, -, heq⟩ | ⟨result, m, hmid, hdesc, heq⟩
      · simp only [exec, respond, heq]
        exact h.of_temp huuids (fun id c hc => Or.inl hc) hfiles (h.rows_kept huuids)
      · simp only [exec, respond, heq]
        refine h.of_temp huuids (fun id c hc => Or.inl hc) hfiles ?_
        intro m' hm'
        rcases Table.mem_put.mp hm' with rfl | ⟨hm', -⟩
        · exact ⟨List.mem_append_left _ (by simp [Call.newId, hmid]), _, hdesc.path, hpath⟩
        · exact h.rows_kept huuids m' hm'
  | createSession owner name total expiresIn folderId id =>
      have hlog : record d s.world ⟨now, .createSession owner name total expiresIn folderId id⟩ = [] :=
        rfl
      rw [hlog, List.append_nil]
      simp only [exec, respond, createSession]
      cases TransferService.buildExpiry now expiresIn with
      | error e =>
          exact h.of_temp huuids (fun id c hc => Or.inl hc) (fun p _ => rfl) (h.rows_kept huuids)
      | ok expiresAt =>
          refine h.of_temp huuids ?_ (fun p _ => rfl) (h.rows_kept huuids)
          intro sid c hc
          by_cases hsid : sid = id
          · subst hsid
            rw [World.withCache_cache, UploadSessionCache.save, Function.update_self] at hc
            cases hc
            have hname : '/' ∉ name := hnames name rfl
            refine Or.inr ⟨rfl, List.mem_append_left _ (by simp [Call.newId]),
              inTemp_tempPath owner.userId hname, hname, ?_⟩
            show (0 : ℤ) = _
            rw [received_of_new h (hfresh sid rfl)]
            rfl
          · rw [World.withCache_cache, UploadSessionCache.save_ne hsid] at hc
            exact Or.inl hc
  | appendChunk owner sid chunk draws =>
      exact h.append (e := ⟨now, .appendChunk owner sid chunk draws⟩) rfl huuids
        (List.mem_append_left _ (by simp [Call.newId]))
  | markDownloaded code =>
      have hlog : record d s.world ⟨now, .markDownloaded code⟩ = [] := rfl
      rw [hlog, List.append_nil]
      rcases markDownloaded_cases s.world now code with
        ⟨e, heq⟩ | ⟨t, m, hm, m', hid, hpath, -, -, heq⟩
      · simp only [exec, respond, heq]
        exact h.of_temp huuids (fun id c hc => Or.inl hc) (fun p _ => rfl) (h.rows_kept huuids)
      · simp only [exec, respond, heq]
        refine h.of_temp huuids (fun id c hc => Or.inl hc) (fun p _ => rfl) ?_
        intro r hr
        rcases Table.mem_put.mp hr with rfl | ⟨hr, -⟩
        · rw [hpath, hid]
          exact h.rows_kept huuids m hm
        · exact h.rows_kept huuids r hr
  | cleanupExpiredTransfers deadline unlinkFails =>
      have hlog : record d s.world ⟨now, .cleanupExpiredTransfers deadline unlinkFails⟩ = [] := rfl
      rw [hlog, List.append_nil]
      simp only [exec, respond]
      refine h.of_temp huuids ?_ ?_ fun m hm =>
        h.rows_kept huuids m (mem_cleanupExpiredTransfers hm)
      · intro id c hc
        rw [cleanupExpiredTransfers_cache] at hc
        exact Or.inl hc
      · intro p hp
        rcases cleanupExpiredTransfers_files s.world now deadline unlinkFails p with
          hsame | ⟨-, m, hm, hpath⟩
        · exact hsame
        · obtain ⟨-, q, hq, hin⟩ := h.rows m hm
          rw [hpath] at hq
          cases hq
          exact absurd rfl (hp.ne_uploads hin)

/-- A call that completes its session, where the temporary file is the
session's own. -/
theorem registersOwn_of_unmixed {e : Event} (h : Inv d s) (hunmixed : Unmixed s e) :
    RegistersOwn d s e := by
  obtain ⟨now, call⟩ := e
  cases call with
  | appendChunk owner sid chunk draws =>
      intro r w' hok hdone
      change appendChunk d s.world now owner sid chunk draws = (.ok r, w') at hok
      rcases appendChunk_cases d s.world now owner sid chunk draws with
        ⟨err, hopen, heq⟩ | ⟨session, hopen, hcases⟩
      · rw [hok] at heq
        cases heq
      · rcases hcases with ⟨-, err, heq⟩ | ⟨-, -, r', heq⟩ | ⟨hfail, hlast, t, -, hcomp⟩
        · rw [hok] at heq
          cases heq
        · rw [hok] at heq
          cases heq
          cases hdone
        · have hreached : reached s ⟨now, .appendChunk owner sid chunk draws⟩ = some session := by
            simp only [reached, hopen]
            exact if_pos ⟨hfail, hlast⟩
          have hwrites := hunmixed session hreached
          obtain ⟨c, hc, rfl⟩ := openSession_eq_ok hopen
          obtain ⟨hid, -, htemp, hname, hcounts⟩ := h.cached sid c hc
          rw [hid] at hwrites
          -- what is in the temporary file is what the session has been sent
          have hown : s.world.files.bytes c.session.tempPath = received s.log sid := by
            rw [h.temp _ htemp, received, ← flatten_nonempty, hwrites, flatten_nonempty]
          rw [hok] at hcomp
          cases hcomp with
          | completed r' m hdir hacc hmid hdesc =>
              refine ⟨m, Table.mem_put.mpr (Or.inl rfl), hmid, _, _, hdesc.path,
                Function.update_self .., ?_, ?_⟩
              · rw [record_of_open (e := ⟨now, _⟩) rfl hopen hok, received_append,
                  if_pos ⟨rfl, rfl⟩, hown]
              · rw [hdesc.size, hown, List.length_append]
                show c.session.receivedBytes + (chunk.content.length : ℤ) = _
                rw [hcounts]
                push_cast
                rfl
  | uploadFile filename content r => trivial
  | createSession owner name total expiresIn folderId id => trivial
  | markDownloaded code => trivial
  | cleanupExpiredTransfers deadline unlinkFails => trivial

end Steps

theorem Inv.start (d : Deployment) (backend : Backend) : Inv d (start backend) := by
  refine ⟨?_, ?_, ?_, ?_⟩
  · intro id c hc
    cases hc
  · intro r hr
    cases hr
  · intro p _
    rfl
  · intro m hm
    cases hm

/-- In every serial run in which sessions complete from files of their own, each
registers exactly the chunks that were appended to it. -/
theorem registers_own_chunks {d : Deployment} {backend : Backend} {ls : List Event}
    (hg : (system d).Guarded Unmixed (start backend) ls) :
    (system d).Guarded (RegistersOwn d) (start backend) ls := by
  rw [System.guarded_iff] at hg ⊢
  intro pre e post s s' hsplit hrun hstep
  have hinv : Inv d s := by
    have hreach : (system d).Reachable (· = start backend) s := .run (.start rfl) hrun
    refine hreach.invariant ?_ fun _ _ _ h hstep => h.step hstep
    rintro _ rfl
    exact Inv.start d backend
  exact registersOwn_of_unmixed hinv (hg pre e post s s' hsplit hrun hstep)

/-- Two sessions of one owner for one name, one after the other. -/
def Sample.oneByOne : List Event :=
  [Sample.create 1 2, Sample.append 1 11 [1], Sample.append 1 12 [2], Sample.create 2 1,
    Sample.append 2 13 [3]]

theorem registers_own_chunks_oneByOne :
    (Sample.run Sample.oneByOne).isSome = true ∧
      (system .default).Guarded (RegistersOwn .default) (start .sqlite) Sample.oneByOne :=
  ⟨by decide +kernel, registers_own_chunks (by decide +kernel)⟩

/-! ## An abandoned session -/

namespace Sample

/-- Two sessions of one owner for one name: the first is left with a byte. -/
def abandoned : List Event := [create 1 2, append 1 11 [1], create 2 1]

theorem runs_abandoned : (run abandoned).isSome = true := by decide +kernel

/-- The second is sent its only byte. -/
def last : Outcome ChunkUploadResult :=
  appendChunk .default ((run abandoned).get runs_abandoned).world 1 owner (Uuid.ofNat 2)
    (.ofBytes [2]) ⟨Uuid.ofNat 12, codes 12, none⟩

def isCompleted : Except Error ChunkUploadResult → Bool
  | .error _ => false
  | .ok r => r.completed

theorem isCompleted_last : isCompleted last.1 = true := by decide +kernel

/-- The row says one byte, the file has two. -/
theorem last_rows : ∀ m ∈ last.2.db.transfers.rows, m.id = Uuid.ofNat 12 →
    (m.storagePath.bind last.2.files).map (fun f => (f.data.length : ℤ)) ≠ some m.sizeBytes := by
  decide +kernel

end Sample

theorem foreign_chunk_registered :
    ¬ ∀ (d : Deployment) (backend : Backend) (ls : List Event),
        (system d).Guarded (RegistersOwn d) (start backend) ls := by
  intro h
  have hall := System.guarded_iff.mp
    (h .default .sqlite (Sample.abandoned ++ [Sample.append 2 12 [2]]))
  have htaken : Taken ((Sample.run Sample.abandoned).get Sample.runs_abandoned)
      (Sample.append 2 12 [2]) := by
    decide +kernel
  have hown := hall Sample.abandoned (Sample.append 2 12 [2]) [] _ _ rfl
    (Option.some_get Sample.runs_abandoned).symm (system_step.mpr ⟨htaken, rfl⟩)
  have hdone := Sample.isCompleted_last
  cases hlast : Sample.last with
  | mk result w =>
      rw [hlast] at hdone
      cases result with
      | error e => cases hdone
      | ok r =>
          obtain ⟨m, hm, hid, p, f, hpath, hf, -, hsize⟩ := hown r w hlast hdone
          have hrows := Sample.last_rows m (by rw [hlast]; exact hm) hid
          rw [hlast, hpath] at hrows
          simp only [Option.bind_some, hf, Option.map_some, hsize] at hrows
          exact hrows rfl

end Uploads

end Jumbox
