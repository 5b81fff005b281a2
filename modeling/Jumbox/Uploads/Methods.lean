import Jumbox.Uploads.ChunkedUploadService
import Jumbox.Sessions.Cleanup

/-!
# What the upload methods do

The paths they write, and one summary for each method that writes.
-/

namespace Jumbox

/-- A path of a file directly in the upload directory. -/
def InUploads (d : Deployment) (p : Path) : Prop := ∃ x, p = d.uploadsDir ++ [x]

/-- A path of a file directly in the temporary directory. -/
def InTemp (d : Deployment) (p : Path) : Prop := ∃ x, p = d.tempDir ++ [x]

theorem InTemp.ne_uploads {d : Deployment} {p q : Path} (hp : InTemp d p) (hq : InUploads d q) :
    p ≠ q := by
  obtain ⟨x, rfl⟩ := hp
  obtain ⟨y, rfl⟩ := hq
  exact d.temp_ne_uploads _ _

theorem slash_notMem_replace {name : Str} (h : '/' ∉ name) :
    '/' ∉ Str.replace ' ' '_' name := by
  intro hmem
  obtain ⟨c, hc, heq⟩ := List.mem_map.mp hmem
  by_cases hspace : c = ' '
  · rw [if_pos hspace] at heq
    exact absurd heq (by decide)
  · rw [if_neg hspace] at heq
    exact h (heq ▸ hc)

/-! ## Registration -/

namespace TransferService

/-- The transaction will add the row: a code is found that no row has, the
expiry is a date, and the database has no other objection. -/
def accepts (db : Db) (now : ℤ) (r : Registration) : Bool :=
  match createUniqueTransferCode db r.owner.userId r.draws 20 0 with
  | .error _ => false
  | .ok code =>
      (buildExpiry now r.expiresInSeconds).isOk ∧ r.rejection = none ∧
        ¬ db.transfers.rows.any (·.transferCode = some code)

/-- The row describes the file `data` at `p`. -/
structure Describes (m : TransferModel) (p : Path) (sizeBytes : ℤ) (checksumSha256 : Str) :
    Prop where
  path : m.storagePath = some p
  size : m.sizeBytes = sizeBytes
  checksum : m.checksumSha256 = some checksumSha256

theorem register_of_accepts {db : Db} {now : ℤ} {r : Registration} (h : accepts db now r = true)
    (name : Str) (p : Path) (size : ℤ) (sha : Str) :
    ∃ result m, register db now r name p size sha =
        .ok (result, { db with transfers := db.transfers.put m }) ∧
      m.id = r.transferId ∧ Describes m p size sha := by
  unfold accepts at h
  unfold register
  cases hcode : createUniqueTransferCode db r.owner.userId r.draws 20 0 with
  | error e =>
      rw [hcode] at h
      cases h
  | ok code =>
      rw [hcode] at h
      cases hexpiry : buildExpiry now r.expiresInSeconds with
      | error e =>
          rw [hexpiry] at h
          simp [Except.isOk, Except.toBool] at h
      | ok expiresAt =>
          rw [hexpiry] at h
          obtain ⟨-, hrejection, hunique⟩ := of_decide_eq_true h
          simp only [hrejection]
          unfold Db.addTransfer
          rw [if_neg]
          · exact ⟨_, _, rfl, rfl, rfl, rfl, rfl⟩
          · rintro ⟨-, hany⟩
            exact hunique hany

theorem register_of_not_accepts {db : Db} {now : ℤ} {r : Registration}
    (h : accepts db now r = false) (name : Str) (p : Path) (size : ℤ) (sha : Str) :
    ∃ e, register db now r name p size sha = .error e := by
  unfold accepts at h
  unfold register
  cases hcode : createUniqueTransferCode db r.owner.userId r.draws 20 0 with
  | error e => exact ⟨e, rfl⟩
  | ok code =>
      rw [hcode] at h
      cases hexpiry : buildExpiry now r.expiresInSeconds with
      | error e => exact ⟨e, rfl⟩
      | ok expiresAt =>
          rw [hexpiry] at h
          have hnot := of_decide_eq_false h
          cases hrejection : r.rejection with
          | some e => exact ⟨e, rfl⟩
          | none =>
              have hdup : db.transfers.rows.any (·.transferCode = some code) = true := by
                by_contra hany
                exact hnot ⟨rfl, hrejection, hany⟩
              simp only
              unfold Db.addTransfer
              rw [if_pos]
              · exact ⟨_, rfl⟩
              · exact ⟨rfl, hdup⟩

/-- Where `upload_file` stores the file. -/
def uploadPath (d : Deployment) (ownerId : Uuid) (filename : Option Str) : Path :=
  d.uploadsDir.join (buildStoredName ownerId (uploadName filename))

theorem slash_notMem_uploadName {filename : Option Str} (h : ∀ n ∈ filename, '/' ∉ n) :
    '/' ∉ uploadName filename := by
  unfold uploadName
  split
  · decide
  · cases filename with
    | none => simp
    | some n => exact h n rfl

theorem inUploads_uploadPath {d : Deployment} (ownerId : Uuid) {filename : Option Str}
    (h : ∀ n ∈ filename, '/' ∉ n) : InUploads d (uploadPath d ownerId filename) := by
  refine ⟨_, Path.join_of_plain ?_⟩
  refine ChunkStorage.plain_str_append ownerId ?_
  have hname := slash_notMem_replace (slash_notMem_uploadName h)
  simp only [List.mem_cons, not_or]
  exact ⟨by decide, hname⟩

/-- `upload_file` writes its file in any case, and a row if it is accepted. -/
theorem uploadFile_cases (d : Deployment) (w : World) (now : ℤ) (filename : Option Str)
    (content : UploadStream) (r : Registration) :
    (∃ e, (content.failure ≠ none ∨ accepts w.db now r = false) ∧
      uploadFile d w now filename content r = (.error e, w.withFiles
        (w.files.write (uploadPath d r.owner.userId filename) now content.content))) ∨
    ∃ result m, m.id = r.transferId ∧
      Describes m (uploadPath d r.owner.userId filename) content.content.length
        (hexdigest content.content) ∧
      uploadFile d w now filename content r = (.ok result, (w.withFiles
        (w.files.write (uploadPath d r.owner.userId filename) now content.content)).withDb
          { w.db with transfers := w.db.transfers.put m }) := by
  unfold uploadFile uploadPath
  simp only [LocalFileStorage.saveUpload_eq]
  cases hfail : content.failure with
  | some message => exact Or.inl ⟨_, Or.inl nofun, rfl⟩
  | none =>
      cases hacc : accepts w.db now r with
      | false =>
          obtain ⟨e, he⟩ := register_of_not_accepts hacc (uploadName filename)
            (d.uploadsDir.join (buildStoredName r.owner.userId (uploadName filename)))
            content.content.length (hexdigest content.content)
          refine Or.inl ⟨e, Or.inr rfl, ?_⟩
          simp only [he]
      | true =>
          obtain ⟨result, m, hok, hid, hdesc⟩ := register_of_accepts hacc (uploadName filename)
            (d.uploadsDir.join (buildStoredName r.owner.userId (uploadName filename)))
            content.content.length (hexdigest content.content)
          refine Or.inr ⟨result, m, hid, hdesc, ?_⟩
          simp only [hok]

end TransferService

/-! ## Chunks -/

namespace ChunkedUploadService

open TransferService (Describes accepts register_of_accepts register_of_not_accepts
  registerCompletedFile)

theorem writeLoop_eq (v : WriteLoop) {blocks : List Bytes} (h : ∀ b ∈ blocks, b ≠ []) :
    writeLoop v blocks =
      ⟨v.target ++ blocks.flatten, v.sizeWritten + blocks.flatten.length⟩ := by
  induction blocks generalizing v with
  | nil => simp [writeLoop]
  | cons b rest ih =>
      have hb : b ≠ [] := h b List.mem_cons_self
      rw [writeLoop, if_neg hb, ih _ fun c hc => h c (List.mem_cons_of_mem _ hc)]
      simp [Nat.add_assoc]

/-- The second run of the loop adds nothing. -/
theorem appendToTempFile_eq (fs : Files) (now : ℤ) (p : Path) (chunk : UploadStream) :
    appendToTempFile fs now p chunk =
      (match chunk.failure with
        | some message => .error ⟨.osError, message⟩
        | none => .ok chunk.content.length,
       fs.append p now chunk.content) := by
  have hagain : (fs.append p now chunk.content).append p now [] = fs.append p now chunk.content := by
    obtain ⟨t, ht⟩ := Files.append_self fs p now chunk.content
    exact Files.append_nil ht now
  simp only [appendToTempFile, writeChunks, writeLoop_eq _ chunk.blocks_ne_nil, writeLoop,
    List.nil_append, Nat.zero_add]
  cases chunk.failure with
  | some message => rfl
  | none =>
      simp only
      rw [← UploadStream.content, hagain]

theorem inTemp_tempPath {d : Deployment} (ownerId : Uuid) {name : Str} (h : '/' ∉ name) :
    InTemp d (tempPath d ownerId name) := by
  refine ⟨_, Path.join_of_plain ?_⟩
  refine ChunkStorage.plain_str_append ownerId ?_
  simp only [List.mem_cons, List.mem_append, not_or]
  exact ⟨by decide, h, by decide⟩

theorem isDirectory_iff {d : Deployment} {p : Path} :
    isDirectory d p = true ↔ p <+: d.uploadsDir := List.isPrefixOf_iff_prefix

/-- A name without separators makes a file in the upload directory, or names a
directory: the upload directory (no name, or a dot) or the one above it. -/
theorem inUploads_finalPath {d : Deployment} {name : Str} (h : '/' ∉ name)
    (hfile : isDirectory d (finalPath d name) = false) : InUploads d (finalPath d name) := by
  have hjoin : finalPath d name = d.uploadsDir.child (TransferService.safeName name) :=
    Path.join_of_notMem (slash_notMem_replace h)
  rw [hjoin] at hfile ⊢
  unfold Path.child at hfile ⊢
  split at hfile
  · rw [isDirectory_iff.mpr (List.prefix_refl _)] at hfile
    cases hfile
  · rename_i hname
    rw [if_neg hname]
    split at hfile
    · rw [isDirectory_iff.mpr (List.dropLast_prefix _)] at hfile
      cases hfile
    · rename_i hdots
      rw [if_neg hdots]
      exact ⟨_, rfl⟩

/-- Nothing is put beside a directory above the uploads and into the temporary
one. -/
theorem ne_of_isDirectory {d : Deployment} {p : Path} (hdir : isDirectory d p = true) (x : Str)
    {q : Path} (hq : InTemp d q) : p ++ [x] ≠ q := by
  rintro rfl
  obtain ⟨y, hy⟩ := hq
  obtain ⟨hp, -⟩ := List.append_inj' hy rfl
  exact d.temp_notPrefix (hp ▸ isDirectory_iff.mp hdir)

/-- The files once the temporary file has been moved to `p`. -/
def movedTo (fs : Files) (src p : Path) (f : File) : Files :=
  Function.update (fs.unlink src) p (some f)

/-- How the branch for a session that has received everything can end. -/
inductive Completion (d : Deployment) (w : World) (now : ℤ) (owner : AuthenticatedUser)
    (session : UploadSession) (draws : Draws) (f : File) : Outcome ChunkUploadResult → Prop where
  | stuck (e : Error) (directory : isDirectory d (finalPath d session.originalName) = true) :
      Completion d w now owner session draws f (.error e, w)
  | misplaced (e : Error) (x : Str)
      (directory : isDirectory d (finalPath d session.originalName) = true)
      (free : w.files (finalPath d session.originalName ++ [x]) = none) :
      Completion d w now owner session draws f (.error e, w.withFiles
        (movedTo w.files session.tempPath (finalPath d session.originalName ++ [x]) f))
  | unregistered (e : Error)
      (directory : isDirectory d (finalPath d session.originalName) = false)
      (rejected : accepts w.db now (registration now owner session.markCompleted draws) = false) :
      Completion d w now owner session draws f (.error e, w.withFiles
        (movedTo w.files session.tempPath (finalPath d session.originalName) f))
  | completed (r : ChunkUploadResult) (m : TransferModel)
      (directory : isDirectory d (finalPath d session.originalName) = false)
      (accepted : accepts w.db now (registration now owner session.markCompleted draws) = true)
      (id : m.id = draws.transferId)
      (describes : Describes m (finalPath d session.originalName) session.receivedBytes
        (hexdigest f.data)) :
      Completion d w now owner session draws f (.ok { r with completed := true },
        ((w.withFiles (movedTo w.files session.tempPath (finalPath d session.originalName)
          f)).withDb { w.db with transfers := w.db.transfers.put m }).withCache
            (w.cache.delete session.id))

theorem checksum_of_file {d : Deployment} {fs : Files} {p : Path} {f : File}
    (hdir : isDirectory d p = false) (hf : fs p = some f) :
    checksum d fs p = .ok (hexdigest f.data) := by
  have hread := ChunkStorage.hashLoop_eq (show 0 < 1048576 by decide) f.data.length f.data []
    (le_refl _)
  simp only [checksum, hdir, hf, hread, List.nil_append]
  rfl

theorem checksum_of_directory {d : Deployment} {p : Path} (hdir : isDirectory d p = true)
    (fs : Files) :
    checksum d fs p = .error ⟨.isADirectoryError, "Is a directory: ".toList ++ Path.text p⟩ := by
  rw [checksum, hdir]
  rfl

/-- What was moved is read back where it is now. -/
theorem checksum_movedTo {d : Deployment} {q : Path} (hdir : isDirectory d q = false) (fs : Files)
    (p : Path) (f : File) : checksum d (movedTo fs p q f) q = .ok (hexdigest f.data) :=
  checksum_of_file hdir (Function.update_self ..)

theorem completeSession_completion (d : Deployment) (w : World) (now : ℤ)
    (owner : AuthenticatedUser) (session : UploadSession) (draws : Draws) {f : File}
    (hf : w.files session.tempPath = some f) :
    Completion d w now owner session draws f (completeSession d w now owner session draws) := by
  have hmove : ∀ p, w.files.move session.tempPath p =
      some (movedTo w.files session.tempPath p f) :=
    fun p => Files.move_eq_some.mpr ⟨f, hf, rfl⟩
  have hpath : session.markCompleted.tempPath = session.tempPath := rfl
  have hname : session.markCompleted.originalName = session.originalName := rfl
  unfold completeSession finalizeTempFile move
  simp only [hpath, hname, hmove]
  cases hdir : isDirectory d (finalPath d session.originalName) with
  | true =>
      simp only [if_true]
      cases hfree : w.files (finalPath d session.originalName ++
          [session.tempPath.getLastD []]) with
      | some g => exact .stuck _ hdir
      | none =>
          simp only [Option.isSome_none, Bool.false_eq_true, if_false, Option.elim_some, Except.map,
            checksum_of_directory hdir]
          exact .misplaced _ _ hdir hfree
  | false =>
      simp only [Bool.false_eq_true, if_false, Option.elim_some, Except.map, World.withFiles_files,
        checksum_movedTo hdir, registerCompletedFile, World.withFiles_db]
      cases hacc : accepts w.db now (registration now owner session.markCompleted draws) with
      | false =>
          obtain ⟨e, he⟩ := register_of_not_accepts hacc session.originalName
            (finalPath d session.originalName) session.receivedBytes (hexdigest f.data)
          have he' : TransferService.register w.db now (registration now owner session.markCompleted
              draws) session.originalName (finalPath d session.originalName)
              session.markCompleted.receivedBytes (hexdigest f.data) = .error e := he
          simp only [he']
          exact .unregistered e hdir hacc
      | true =>
          obtain ⟨result, m, hok, hid, hdesc⟩ := register_of_accepts hacc session.originalName
            (finalPath d session.originalName) session.receivedBytes (hexdigest f.data)
          have hok' : TransferService.register w.db now (registration now owner session.markCompleted
              draws) session.originalName (finalPath d session.originalName)
              session.markCompleted.receivedBytes (hexdigest f.data) = .ok (result, _) := hok
          simp only [hok']
          exact .completed ⟨_, _, _, _, true, _, _⟩ m hdir hacc hid hdesc

/-- What `append_chunk` leaves of the temporary file of `session`. -/
def appended (w : World) (now : ℤ) (session : UploadSession) (chunk : UploadStream) : Files :=
  w.files.append session.tempPath now chunk.content

/-- The session once the chunk is counted. -/
def counted (session : UploadSession) (chunk : UploadStream) : UploadSession :=
  session.advance chunk.content.length

/-- The five ways `append_chunk` can end: turned away, cut short, more to come,
or one of the completions. -/
theorem appendChunk_cases (d : Deployment) (w : World) (now : ℤ) (owner : AuthenticatedUser)
    (sid : Uuid) (chunk : UploadStream) (draws : Draws) :
    (∃ e, openSession w now owner sid = .error e ∧
      appendChunk d w now owner sid chunk draws = (.error e, w)) ∨
    ∃ session, openSession w now owner sid = .ok session ∧
      ((chunk.failure ≠ none ∧ ∃ e, appendChunk d w now owner sid chunk draws =
          (.error e, w.withFiles (appended w now session chunk))) ∨
        (chunk.failure = none ∧
          (counted session chunk).receivedBytes < (counted session chunk).totalSizeBytes ∧
          ∃ r : ChunkUploadResult, appendChunk d w now owner sid chunk draws =
            (.ok { r with completed := false }, (w.withFiles (appended w now session chunk)).withCache
              (w.cache.save now (counted session chunk)))) ∨
        (chunk.failure = none ∧
          (counted session chunk).totalSizeBytes ≤ (counted session chunk).receivedBytes ∧
          ∃ t, appended w now session chunk session.tempPath =
              some ⟨w.files.bytes session.tempPath ++ chunk.content, t⟩ ∧
            Completion d (w.withFiles (appended w now session chunk)) now owner
              (counted session chunk) draws
              ⟨w.files.bytes session.tempPath ++ chunk.content, t⟩
              (appendChunk d w now owner sid chunk draws))) := by
  unfold appendChunk
  cases hopen : openSession w now owner sid with
  | error e => exact Or.inl ⟨e, rfl, rfl⟩
  | ok session =>
      refine Or.inr ⟨session, rfl, ?_⟩
      simp only [appendToTempFile_eq]
      cases hfail : chunk.failure with
      | some message => exact Or.inl ⟨nofun, _, rfl⟩
      | none =>
          simp only
          by_cases hlast : (counted session chunk).totalSizeBytes ≤
              (counted session chunk).receivedBytes
          · refine Or.inr (Or.inr ⟨trivial, hlast, ?_⟩)
            obtain ⟨t, ht⟩ := Files.append_self w.files session.tempPath now chunk.content
            refine ⟨t, ht, ?_⟩
            have hcomplete := completeSession_completion d
              (w.withFiles (appended w now session chunk)) now owner (counted session chunk) draws ht
            convert hcomplete using 1
            exact if_pos hlast
          · refine Or.inr (Or.inl ⟨trivial, not_le.mp hlast, ⟨session.id, session.status,
              (counted session chunk).receivedBytes, session.totalSizeBytes, false, none, none⟩, ?_⟩)
            exact if_neg hlast

/-- A session that is opened has been found, is the caller's, and active. -/
theorem get_of_openSession {w : World} {now : ℤ} {owner : AuthenticatedUser} {sid : Uuid}
    {session : UploadSession} (h : openSession w now owner sid = .ok session) :
    w.cache.get now sid = some session ∧ session.ownerId = owner.userId ∧
      session.status = .active := by
  unfold openSession at h
  cases hget : w.cache.get now sid with
  | none =>
      rw [hget] at h
      cases h
  | some s =>
      rw [hget] at h
      by_cases howner : s.ownerId = owner.userId
      · by_cases hactive : s.status = .active
        · simp only [howner, hactive, ne_eq, not_true, if_false] at h
          cases h
          exact ⟨rfl, howner, hactive⟩
        · simp only [howner, hactive, ne_eq, not_true, if_false, not_false_eq_true, if_true] at h
          cases h
      · simp only [howner, ne_eq, not_false_eq_true, if_true] at h
        cases h

theorem openSession_eq_ok {w : World} {now : ℤ} {owner : AuthenticatedUser} {sid : Uuid}
    {session : UploadSession} (h : openSession w now owner sid = .ok session) :
    ∃ e, w.cache sid = some e ∧ e.session = session :=
  UploadSessionCache.get_eq_some (get_of_openSession h).1

end ChunkedUploadService

end Jumbox
