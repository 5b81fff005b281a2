import Jumbox.Library.Transition
import Jumbox.Uploads.Methods
import Jumbox.Uploads.Run

/-!
# Retrying a chunk after a failure

`append_chunk` writes the chunk, and after that saves the record, or moves the
file, hashes it, registers it and deletes the record. None of this is undone
when a later operation fails. A retry of the same chunk starts from what the
failed call has left: the chunk is there already, or everything before it is
gone.
-/

namespace Jumbox

namespace ChunkedUploadService

open TransferService (Registration UploadTransferResult Describes registerCompletedFile
  register_of_accepts register_of_not_accepts)

/-- The operations of `append_chunk` that reach a store after the chunk is
written. -/
inductive Operation where
  | saveRecord
  | hash
  | allocateCode
  | insertRow
  | deleteRecord
deriving DecidableEq

/-- The operations that fail during a call, and what they raise. -/
abbrev Faults := Operation → Option Error

def noFaults : Faults := fun _ => none

section Faults

variable (d : Deployment) (faults : Faults)

/-- A failing operation rolls the transaction back. -/
def registerWith (w : World) (now : ℤ) (r : Registration) (originalName : Str)
    (storedPath : Path) (sizeBytes : ℤ) (checksumSha256 : Str) : Outcome UploadTransferResult :=
  match faults .allocateCode with
  | some e => (.error e, w)
  | none =>
      registerCompletedFile w now { r with rejection := (faults .insertRow).or r.rejection }
        originalName storedPath sizeBytes checksumSha256

def completeSessionWith (w : World) (now : ℤ) (owner : AuthenticatedUser)
    (session : UploadSession) (draws : Draws) : Outcome ChunkUploadResult :=
  let session := session.markCompleted
  match finalizeTempFile d w.files session.tempPath session.originalName with
  | .error e => (.error e, w)
  | .ok (finalPath, fs) =>
      let w := w.withFiles fs
      match (faults .hash).elim (checksum d w.files finalPath) .error with
      | .error e => (.error e, w)
      | .ok checksum =>
          match registerWith faults w now (registration now owner session draws)
              session.originalName finalPath session.receivedBytes checksum with
          | (.error e, w) => (.error e, w)
          | (.ok result, w) =>
              match faults .deleteRecord with
              | some e => (.error e, w)
              | none =>
                  (.ok ⟨session.id, session.status, session.receivedBytes, session.totalSizeBytes,
                      true, some result.transferCode, some result.downloadUrl⟩,
                    w.withCache (w.cache.delete session.id))

/-- `append_chunk` while some operations of its stores fail. -/
def appendChunkWith (w : World) (now : ℤ) (owner : AuthenticatedUser) (sessionId : Uuid)
    (chunk : UploadStream) (draws : Draws) : Outcome ChunkUploadResult :=
  match openSession w now owner sessionId with
  | .error e => (.error e, w)
  | .ok session =>
      match appendToTempFile w.files now session.tempPath chunk with
      | (.error e, fs) => (.error e, w.withFiles fs)
      | (.ok bytesWritten, fs) =>
          let w := w.withFiles fs
          let session := session.advance bytesWritten
          if session.totalSizeBytes ≤ session.receivedBytes then
            completeSessionWith d faults w now owner session draws
          else
            match faults .saveRecord with
            | some e => (.error e, w)
            | none =>
                (.ok ⟨session.id, session.status, session.receivedBytes, session.totalSizeBytes,
                    false, none, none⟩,
                  w.withCache (w.cache.save now session))

end Faults

/-- Where nothing fails it is `append_chunk`. -/
theorem appendChunkWith_noFaults (d : Deployment) (w : World) (now : ℤ) (owner : AuthenticatedUser)
    (sid : Uuid) (chunk : UploadStream) (draws : Draws) :
    appendChunkWith d noFaults w now owner sid chunk draws =
      appendChunk d w now owner sid chunk draws :=
  rfl

/-! ## One call -/

/-- A call of `append_chunk` for a given session. -/
structure Attempt where
  now : ℤ
  chunk : UploadStream
  draws : Draws
  faults : Faults

def attempt (d : Deployment) (owner : AuthenticatedUser) (sid : Uuid) (w : World) (a : Attempt) :
    Outcome ChunkUploadResult :=
  appendChunkWith d a.faults w a.now owner sid a.chunk a.draws

/-- The record is in the cache, and its temporary file holds `data`. -/
structure Holding (w : World) (session : UploadSession) (data : Bytes) : Prop where
  record : ∃ e, w.cache session.id = some e ∧ e.session = session
  temp : w.files.bytes session.tempPath = data

theorem Holding.openSession_eq {w : World} {session : UploadSession} {data : Bytes}
    (h : Holding w session data) {now : ℤ} {owner : AuthenticatedUser} {s : UploadSession}
    (hopen : openSession w now owner session.id = .ok s) : s = session := by
  obtain ⟨e, he, rfl⟩ := h.record
  obtain ⟨e', he', rfl⟩ := openSession_eq_ok hopen
  rw [he] at he'
  cases he'
  rfl

/-- The next chunk is at the end of the file, and the saved record counts it. -/
theorem Holding.saved {w : World} {session : UploadSession} {data : Bytes}
    (h : Holding w session data) (a : Attempt) :
    Holding ((w.withFiles (appended w a.now session a.chunk)).withCache
      (w.cache.save a.now (counted session a.chunk))) (counted session a.chunk)
        (data ++ a.chunk.content) where
  record := ⟨_, Function.update_self .., rfl⟩
  temp := (Files.bytes_append_self _ _ _ _).trans (congrArg (· ++ _) h.temp)

/-- How a call ends that brings its session to the end: the destination is a
directory, or the temporary file has been moved there, whatever fails then. -/
inductive Ended (d : Deployment) (w : World) (session : UploadSession) (draws : Draws) (f : File) :
    Outcome ChunkUploadResult → Prop where
  | stuck (e : Error) (w' : World)
      (directory : isDirectory d (finalPath d session.originalName) = true) :
      Ended d w session draws f (.error e, w')
  | failed (e : Error) (db : Db)
      (directory : isDirectory d (finalPath d session.originalName) = false) :
      Ended d w session draws f (.error e, (w.withFiles
        (movedTo w.files session.tempPath (finalPath d session.originalName) f)).withDb db)
  | completed (r : ChunkUploadResult) (m : TransferModel)
      (directory : isDirectory d (finalPath d session.originalName) = false)
      (id : m.id = draws.transferId)
      (describes : Describes m (finalPath d session.originalName) session.receivedBytes
        (hexdigest f.data)) :
      Ended d w session draws f (.ok { r with completed := true },
        ((w.withFiles (movedTo w.files session.tempPath (finalPath d session.originalName)
          f)).withDb { w.db with transfers := w.db.transfers.put m }).withCache
            (w.cache.delete session.id))

theorem registerWith_cases (faults : Faults) (w : World) (now : ℤ) (r : Registration) (name : Str)
    (p : Path) (size : ℤ) (sha : Str) :
    (∃ e, registerWith faults w now r name p size sha = (.error e, w)) ∨
    ∃ result m, m.id = r.transferId ∧ Describes m p size sha ∧
      registerWith faults w now r name p size sha =
        (.ok result, w.withDb { w.db with transfers := w.db.transfers.put m }) := by
  unfold registerWith
  cases faults .allocateCode with
  | some e => exact Or.inl ⟨e, rfl⟩
  | none =>
      simp only [registerCompletedFile]
      generalize hr : ({ r with rejection := (faults .insertRow).or r.rejection } : Registration) = r'
      have hid : r'.transferId = r.transferId := by rw [← hr]
      cases hacc : TransferService.accepts w.db now r' with
      | false =>
          obtain ⟨e, he⟩ := register_of_not_accepts hacc name p size sha
          rw [he]
          exact Or.inl ⟨e, rfl⟩
      | true =>
          obtain ⟨result, m, hok, hmid, hdesc⟩ := register_of_accepts hacc name p size sha
          rw [hok]
          exact Or.inr ⟨result, m, hmid.trans hid, hdesc, rfl⟩

theorem finalizeTempFile_eq_ok {d : Deployment} {fs fs' : Files} {src p : Path} {name : Str}
    (h : finalizeTempFile d fs src name = .ok (p, fs')) : p = finalPath d name := by
  unfold finalizeTempFile at h
  dsimp only at h
  cases hmove : move d fs src (finalPath d name) with
  | error e =>
      rw [hmove] at h
      cases h
  | ok fs'' =>
      rw [hmove] at h
      cases h
      rfl

theorem completeSessionWith_ended (d : Deployment) (faults : Faults) (w : World) (now : ℤ)
    (owner : AuthenticatedUser) (session : UploadSession) (draws : Draws) {f : File}
    (hf : w.files session.tempPath = some f) :
    Ended d w session draws f (completeSessionWith d faults w now owner session draws) := by
  have hmove : w.files.move session.tempPath (finalPath d session.originalName) =
      some (movedTo w.files session.tempPath (finalPath d session.originalName) f) :=
    Files.move_eq_some.mpr ⟨f, hf, rfl⟩
  cases hdir : isDirectory d (finalPath d session.originalName) with
  | true =>
      have herror : ∃ e w', completeSessionWith d faults w now owner session draws =
          (.error e, w') := by
        unfold completeSessionWith
        dsimp only
        split
        · exact ⟨_, _, rfl⟩
        · rename_i p fs hfinal
          obtain rfl := finalizeTempFile_eq_ok hfinal
          cases faults .hash with
          | some e => exact ⟨_, _, rfl⟩
          | none =>
              have hread := checksum_of_directory (d := d)
                (p := finalPath d session.markCompleted.originalName) hdir
              simp only [Option.elim_none, hread]
              exact ⟨_, _, rfl⟩
      obtain ⟨e, w', heq⟩ := herror
      rw [heq]
      exact .stuck e w' hdir
  | false =>
      have hfinal : finalizeTempFile d w.files session.tempPath session.originalName =
          .ok (finalPath d session.originalName,
            movedTo w.files session.tempPath (finalPath d session.originalName) f) := by
        simp only [finalizeTempFile, move, hdir, hmove]
        rfl
      have hname : session.markCompleted.originalName = session.originalName := rfl
      have hpath : session.markCompleted.tempPath = session.tempPath := rfl
      simp only [completeSessionWith, hname, hpath, hfinal, World.withFiles_files,
        checksum_movedTo hdir]
      cases faults .hash with
      | some e => exact .failed e w.db hdir
      | none =>
          simp only [Option.elim_none]
          rcases registerWith_cases faults (w.withFiles (movedTo w.files session.tempPath
              (finalPath d session.originalName) f)) now
              (registration now owner session.markCompleted draws) session.originalName
              (finalPath d session.originalName) session.markCompleted.receivedBytes
              (hexdigest f.data) with ⟨e, heq⟩ | ⟨result, m, hid, hdesc, heq⟩
          · rw [heq]
            exact .failed e w.db hdir
          · rw [heq]
            cases faults .deleteRecord with
            | some e => exact .failed e _ hdir
            | none => exact .completed ⟨_, _, _, _, true, _, _⟩ m hdir hid hdesc

section Attempt

variable {d : Deployment} {owner : AuthenticatedUser} {w : World} {session : UploadSession}
  {data : Bytes} {a : Attempt}

/-- A call that reads its chunk and leaves bytes to send. -/
theorem attempt_more (hopen : openSession w a.now owner session.id = .ok session)
    (hread : a.chunk.failure = none)
    (hmore : session.receivedBytes + a.chunk.content.length < session.totalSizeBytes) :
    (∃ e, attempt d owner session.id w a =
      (.error e, w.withFiles (appended w a.now session a.chunk))) ∨
    ∃ r : ChunkUploadResult, attempt d owner session.id w a =
      (.ok { r with completed := false }, (w.withFiles (appended w a.now session a.chunk)).withCache
        (w.cache.save a.now (counted session a.chunk))) := by
  have hnot : ¬ (counted session a.chunk).totalSizeBytes ≤ (counted session a.chunk).receivedBytes :=
    not_le.mpr hmore
  simp only [attempt, appendChunkWith, hopen, appendToTempFile_eq, hread]
  rw [← counted, if_neg hnot]
  cases a.faults .saveRecord with
  | some e => exact Or.inl ⟨e, rfl⟩
  | none => exact Or.inr ⟨⟨_, _, _, _, false, none, none⟩, rfl⟩

/-- A call that reads its chunk and has then received everything. -/
theorem attempt_last (hopen : openSession w a.now owner session.id = .ok session)
    (hread : a.chunk.failure = none)
    (hlast : session.totalSizeBytes ≤ session.receivedBytes + a.chunk.content.length) :
    ∃ t, Ended d (w.withFiles (appended w a.now session a.chunk)) (counted session a.chunk) a.draws
      ⟨w.files.bytes session.tempPath ++ a.chunk.content, t⟩ (attempt d owner session.id w a) := by
  have hend : (counted session a.chunk).totalSizeBytes ≤ (counted session a.chunk).receivedBytes :=
    hlast
  obtain ⟨t, ht⟩ := Files.append_self w.files session.tempPath a.now a.chunk.content
  refine ⟨t, ?_⟩
  simp only [attempt, appendChunkWith, hopen, appendToTempFile_eq, hread]
  rw [← counted, if_pos hend]
  exact completeSessionWith_ended d a.faults (w.withFiles (appended w a.now session a.chunk)) a.now
    owner (counted session a.chunk) a.draws ht

/-- A call that returns has found its session open and has read its chunk. -/
theorem open_of_isOk {sid : Uuid} (h : (attempt d owner sid w a).1.isOk = true) :
    (∃ s, openSession w a.now owner sid = .ok s) ∧ a.chunk.failure = none := by
  unfold attempt appendChunkWith at h
  cases hopen : openSession w a.now owner sid with
  | error e =>
      rw [hopen] at h
      cases h
  | ok s =>
      refine ⟨⟨s, rfl⟩, ?_⟩
      simp only [hopen, appendToTempFile_eq] at h
      cases hfail : a.chunk.failure with
      | none => rfl
      | some message =>
          simp only [hfail] at h
          cases h

end Attempt

/-! ## What is registered in the end -/

/-- What a transfer row says of its file, and what is in it. -/
structure RegisteredFile where
  bytes : Bytes
  checksumSha256 : Option Str
  sizeBytes : ℤ
deriving DecidableEq

def registered (w : World) (transferId : Uuid) : Option RegisteredFile :=
  (w.db.transfers.get? transferId).map fun m =>
    ⟨(m.storagePath.map w.files.bytes).getD [], m.checksumSha256, m.sizeBytes⟩

/-- Whether a call that returns has completed its session. -/
def completed (o : Outcome ChunkUploadResult) : Option Bool :=
  match o.1 with
  | .error _ => none
  | .ok r => some r.completed

/-- The calls return one after the other, and the last one completes the session
and registers `id`. -/
inductive Completes (d : Deployment) (owner : AuthenticatedUser) (sid : Uuid) :
    World → List Attempt → Uuid → World → Prop where
  | last {w : World} {a : Attempt} (done : completed (attempt d owner sid w a) = some true) :
      Completes d owner sid w [a] a.draws.transferId (attempt d owner sid w a).2
  | more {w w' : World} {a : Attempt} {as : List Attempt} {id : Uuid}
      (going : completed (attempt d owner sid w a) = some false)
      (rest : Completes d owner sid (attempt d owner sid w a).2 as id w') :
      Completes d owner sid w (a :: as) id w'

theorem isOk_of_completed {o : Outcome ChunkUploadResult} {b : Bool} (h : completed o = some b) :
    o.1.isOk = true := by
  obtain ⟨e | r, w⟩ := o
  · cases h
  · rfl

/-- The bytes of the chunks, one after the other. -/
def sentBytes (as : List Attempt) : Bytes := as.flatMap (·.chunk.content)

/-- A run that completes registers what the record's file held and what was sent,
and its destination is a file. -/
theorem Completes.registers {d : Deployment} {owner : AuthenticatedUser} {session : UploadSession}
    {w w' : World} {as : List Attempt} {id : Uuid} {data : Bytes}
    (h : Completes d owner session.id w as id w') (hw : Holding w session data) :
    isDirectory d (finalPath d session.originalName) = false ∧
      registered w' id = some ⟨data ++ sentBytes as, some (hexdigest (data ++ sentBytes as)),
        session.receivedBytes + (sentBytes as).length⟩ := by
  generalize hsid : session.id = sid at h
  induction h generalizing session data with
  | @last w a hdone =>
      obtain rfl := hsid
      obtain ⟨⟨s, hopen⟩, hread⟩ := open_of_isOk (isOk_of_completed hdone)
      obtain rfl := hw.openSession_eq hopen
      by_cases hmore : s.receivedBytes + a.chunk.content.length < s.totalSizeBytes
      · rcases attempt_more (d := d) hopen hread hmore with ⟨e, heq⟩ | ⟨r, heq⟩
        · rw [heq] at hdone
          cases hdone
        · rw [heq] at hdone
          cases hdone
      · obtain ⟨t, hended⟩ := attempt_last (d := d) hopen hread (not_lt.mp hmore)
        have hbytes : sentBytes [a] = a.chunk.content := by simp [sentBytes]
        rw [hbytes]
        generalize attempt d owner s.id w a = o at hended hdone
        cases hended with
        | stuck => cases hdone
        | failed => cases hdone
        | completed r m hdir hid hdesc =>
            refine ⟨hdir, ?_⟩
            have hrow : (w.db.transfers.put m).get? a.draws.transferId = some m :=
              hid ▸ Table.get?_put_self _ _
            show ((w.db.transfers.put m).get? a.draws.transferId).map _ = _
            rw [hrow, Option.map_some, hdesc.path, hdesc.checksum, hdesc.size, hw.temp]
            have hfile : Files.bytes (movedTo (appended w a.now s a.chunk) s.tempPath
                (finalPath d s.originalName) ⟨data ++ a.chunk.content, t⟩)
                (finalPath d s.originalName) = data ++ a.chunk.content := by
              rw [Files.bytes, movedTo, Function.update_self]
            exact congrArg (fun b => some (RegisteredFile.mk b _ _)) hfile
  | @more w w' a as id hgoing hrest ih =>
      obtain rfl := hsid
      obtain ⟨⟨s, hopen⟩, hread⟩ := open_of_isOk (isOk_of_completed hgoing)
      obtain rfl := hw.openSession_eq hopen
      by_cases hmore : s.receivedBytes + a.chunk.content.length < s.totalSizeBytes
      · rcases attempt_more (d := d) hopen hread hmore with ⟨e, heq⟩ | ⟨r, heq⟩
        · rw [heq] at hgoing
          cases hgoing
        · have hsaved := hw.saved a
          rw [heq] at ih
          obtain ⟨hdir, hreg⟩ := ih hsaved rfl
          refine ⟨hdir, hreg.trans ?_⟩
          have hbytes : sentBytes (a :: as) = a.chunk.content ++ sentBytes as := List.flatMap_cons
          have hsize : (counted s a.chunk).receivedBytes + ((sentBytes as).length : ℤ) =
              s.receivedBytes + (sentBytes (a :: as)).length := by
            have hcount : (counted s a.chunk).receivedBytes =
                s.receivedBytes + a.chunk.content.length := rfl
            rw [hbytes, List.length_append]
            omega
          rw [hsize, hbytes, List.append_assoc]
      · obtain ⟨t, hended⟩ := attempt_last (d := d) hopen hread (not_lt.mp hmore)
        generalize attempt d owner s.id w a = o at hended hgoing
        cases hended <;> cases hgoing

/-! ## Failed attempts -/

/-- The calls for one session, as steps of the world. -/
def calls (d : Deployment) (owner : AuthenticatedUser) (sid : Uuid) : System World Attempt where
  step w a := some (attempt d owner sid w a).2

/-- A call for the chunk that finds the session open, reads the chunk, and raises:
one of the operations after that has failed. -/
structure Raises (d : Deployment) (owner : AuthenticatedUser) (sid : Uuid) (chunk : UploadStream)
    (w : World) (a : Attempt) : Prop where
  chunk : a.chunk = chunk
  opens : ∃ s, openSession w a.now owner sid = .ok s
  reads : a.chunk.failure = none
  raised : (attempt d owner sid w a).1.isOk = false

/-- A failed call leaves the temporary file where it was: the chunk does not bring
the session to its end, or the file is to stay under that very name. -/
def KeepsTemp (d : Deployment) (session : UploadSession) (chunk : UploadStream) : Prop :=
  session.receivedBytes + chunk.content.length < session.totalSizeBytes ∨
    session.tempPath = finalPath d session.originalName

instance (d : Deployment) (session : UploadSession) (chunk : UploadStream) :
    Decidable (KeepsTemp d session chunk) := inferInstanceAs (Decidable (_ ∨ _))

section Raises

variable {d : Deployment} {owner : AuthenticatedUser} {w w' : World} {session : UploadSession}
  {data : Bytes} {chunk : UploadStream} {a : Attempt}

/-- What a failed call leaves of the temporary file. -/
theorem Holding.raises (h : Holding w session data)
    (hdir : isDirectory d (finalPath d session.originalName) = false)
    (hraises : Raises d owner session.id chunk w a)
    (hstep : (calls d owner session.id).step w a = some w') :
    Holding w' session (if KeepsTemp d session chunk then data ++ chunk.content else []) := by
  obtain ⟨rfl, ⟨s, hopen⟩, hread, hraised⟩ := hraises
  obtain rfl := h.openSession_eq hopen
  obtain rfl := Option.some.inj hstep
  have hdata : w.files.bytes s.tempPath ++ a.chunk.content = data ++ a.chunk.content :=
    congrArg (· ++ _) h.temp
  by_cases hmore : s.receivedBytes + a.chunk.content.length < s.totalSizeBytes
  · have hkeeps : KeepsTemp d s a.chunk := Or.inl hmore
    rw [if_pos hkeeps]
    rcases attempt_more (d := d) hopen hread hmore with ⟨e, heq⟩ | ⟨r', heq⟩
    · rw [heq]
      exact ⟨h.record, (Files.bytes_append_self _ _ _ _).trans hdata⟩
    · rw [heq] at hraised
      cases hraised
  · obtain ⟨t, hended⟩ := attempt_last (d := d) hopen hread (not_lt.mp hmore)
    generalize attempt d owner s.id w a = o at hended hraised
    cases hended with
    | stuck e w' htrue =>
        have hfalse := htrue.symm.trans hdir
        cases hfalse
    | failed e db =>
        refine ⟨h.record, ?_⟩
        show Files.bytes (movedTo (appended w a.now s a.chunk) s.tempPath
          (finalPath d s.originalName) ⟨w.files.bytes s.tempPath ++ a.chunk.content, t⟩)
          s.tempPath = _
        by_cases hsame : s.tempPath = finalPath d s.originalName
        · have hkeeps : KeepsTemp d s a.chunk := Or.inr hsame
          rw [if_pos hkeeps, ← hsame, Files.bytes, movedTo, Function.update_self]
          exact hdata
        · have hgone : ¬ KeepsTemp d s a.chunk := not_or.mpr ⟨hmore, hsame⟩
          rw [if_neg hgone, Files.bytes, movedTo, Function.update_of_ne hsame, Files.unlink_self]
    | completed => cases hraised

/-- After several of them. -/
theorem Holding.raises_run {fails : List Attempt} (h : Holding w session data)
    (hdir : isDirectory d (finalPath d session.originalName) = false) (hne : fails ≠ [])
    (hrun : (calls d owner session.id).run w fails = some w')
    (hraises : (calls d owner session.id).Guarded (Raises d owner session.id chunk) w fails) :
    Holding w' session (if KeepsTemp d session chunk then
      data ++ (List.replicate fails.length chunk.content).flatten else []) := by
  induction fails generalizing w data with
  | nil => exact absurd rfl hne
  | cons a fails ih =>
      obtain ⟨w₁, hstep, hrun⟩ := System.run_cons_eq_some.mp hrun
      obtain ⟨hfirst, hrest⟩ := hraises w₁ hstep
      have hnext := h.raises hdir hfirst hstep
      cases fails with
      | nil =>
          cases hrun
          simpa using hnext
      | cons b fails =>
          have hlast := ih hnext (List.cons_ne_nil _ _) hrun hrest
          by_cases hkeeps : KeepsTemp d session chunk
          · rw [if_pos hkeeps, if_pos hkeeps, List.append_assoc] at hlast
            rw [if_pos hkeeps]
            exact hlast
          · rw [if_neg hkeeps] at hlast ⊢
            exact hlast

end Raises

/-- Nothing is lost or doubled by a retry: where a failed call keeps the temporary
file the chunk is empty, and where it moves the file away the file was empty
before the chunk. -/
def RetrySafe (d : Deployment) (w : World) (session : UploadSession) (chunk : UploadStream) : Prop :=
  if KeepsTemp d session chunk then chunk.content = []
  else w.files.bytes session.tempPath = []

/-- A chunk fails any number of times, whatever fails in each of its calls. What
is then sent registers the same file as it would have without the failures,
exactly if the retry was safe. -/
theorem retry_registers_same_iff {d : Deployment} {owner : AuthenticatedUser} {w w₁ : World}
    {session : UploadSession} (hrecord : ∃ e, w.cache session.id = some e ∧ e.session = session)
    {chunk : UploadStream} {fails : List Attempt} (hne : fails ≠ [])
    (hraises : (calls d owner session.id).Guarded (Raises d owner session.id chunk) w fails)
    (hfails : (calls d owner session.id).run w fails = some w₁)
    {as as' : List Attempt} (hsame : sentBytes as = sentBytes as') {id id' : Uuid} {w₂ w₂' : World}
    (hretried : Completes d owner session.id w₁ as id w₂)
    (hunbroken : Completes d owner session.id w as' id' w₂') :
    registered w₂ id = registered w₂' id' ↔ RetrySafe d w session chunk := by
  have hw : Holding w session (w.files.bytes session.tempPath) := ⟨hrecord, rfl⟩
  obtain ⟨hdir, hreg'⟩ := hunbroken.registers hw
  have hw₁ := hw.raises_run hdir hne hfails hraises
  obtain ⟨-, hreg⟩ := hretried.registers hw₁
  have hiff : ∀ {l l' : Bytes},
      some (RegisteredFile.mk (l ++ sentBytes as) (some (hexdigest (l ++ sentBytes as)))
          (session.receivedBytes + (sentBytes as).length)) =
        some (RegisteredFile.mk (l' ++ sentBytes as) (some (hexdigest (l' ++ sentBytes as)))
          (session.receivedBytes + (sentBytes as).length)) ↔ l = l' := by
    intro l l'
    constructor
    · intro heq
      exact List.append_cancel_right (congrArg RegisteredFile.bytes (Option.some.inj heq))
    · rintro rfl
      rfl
  rw [hreg, hreg', ← hsame, hiff, RetrySafe]
  by_cases hkeeps : KeepsTemp d session chunk
  · have hlength : fails.length ≠ 0 := fun h => hne (List.length_eq_zero_iff.mp h)
    rw [if_pos hkeeps, if_pos hkeeps, List.append_right_eq_self, List.flatten_eq_nil_iff,
      List.forall_mem_replicate]
    exact or_iff_right hlength
  · rw [if_neg hkeeps, if_neg hkeeps]
    exact eq_comm

namespace Sample

open Uploads.Sample (owner)

/-- The world after a session of two bytes has been created. -/
def opened : World := (Uploads.exec .default (World.initial .sqlite) (Uploads.Sample.create 1 2)).2

def session : UploadSession where
  ownerId := owner.userId
  originalName := Uploads.Sample.name
  totalSizeBytes := 2
  tempPath := tempPath .default owner.userId Uploads.Sample.name
  id := Uuid.ofNat 1

theorem opened_record : ∃ e, opened.cache session.id = some e ∧ e.session = session :=
  ⟨⟨session, none⟩, rfl, rfl⟩

def send (transferId : ℕ) (data : Bytes) (faults : Faults) : Attempt :=
  ⟨1, .ofBytes data, ⟨Uuid.ofNat transferId, Uploads.Sample.codes transferId, none⟩, faults⟩

/-- The insertion of the row fails. -/
def insertFails : Faults := fun op =>
  if op = .insertRow then some ⟨.osError, "connection lost".toList⟩ else none

end Sample

/-- The whole file in one chunk. -/
theorem retry_registers_same_iff_whole_file :
    registered (attempt .default Uploads.Sample.owner Sample.session.id
      (attempt .default Uploads.Sample.owner Sample.session.id Sample.opened
        (Sample.send 10 [1, 2] Sample.insertFails)).2 (Sample.send 11 [1, 2] noFaults)).2
          (Uuid.ofNat 11) =
      registered (attempt .default Uploads.Sample.owner Sample.session.id Sample.opened
        (Sample.send 11 [1, 2] noFaults)).2 (Uuid.ofNat 11) := by
  have hraises : Raises .default Uploads.Sample.owner Sample.session.id (.ofBytes [1, 2])
      Sample.opened (Sample.send 10 [1, 2] Sample.insertFails) :=
    ⟨rfl, ⟨Sample.session, rfl⟩, rfl, by decide +kernel⟩
  have hguarded : (calls .default Uploads.Sample.owner Sample.session.id).Guarded
      (Raises .default Uploads.Sample.owner Sample.session.id (.ofBytes [1, 2])) Sample.opened
      [Sample.send 10 [1, 2] Sample.insertFails] := fun _ _ => ⟨hraises, trivial⟩
  have hsame : sentBytes [Sample.send 11 [1, 2] noFaults] =
      sentBytes [Sample.send 11 [1, 2] noFaults] := rfl
  refine (retry_registers_same_iff Sample.opened_record (by decide) hguarded rfl hsame
    (.last (by decide +kernel)) (.last (by decide +kernel))).mpr ?_
  unfold RetrySafe
  decide +kernel

namespace Sample

/-- One byte of the two has been accepted. -/
def halfway : World :=
  (attempt .default Uploads.Sample.owner session.id opened (send 9 [1] noFaults)).2

def halfSession : UploadSession := { session with receivedBytes := 1 }

theorem halfway_record : ∃ e, halfway.cache session.id = some e ∧ e.session = halfSession :=
  ⟨⟨halfSession, none⟩, rfl, rfl⟩

end Sample

/-- The last chunk is retried after its row could not be inserted: the file that
is registered holds nothing else. -/
theorem retry_truncates_file :
    ¬ ∀ (d : Deployment) (owner : AuthenticatedUser) (w w₁ : World) (session : UploadSession),
      (∃ e, w.cache session.id = some e ∧ e.session = session) →
      ∀ (chunk : UploadStream) (fails : List Attempt), fails ≠ [] →
      (calls d owner session.id).Guarded (Raises d owner session.id chunk) w fails →
      (calls d owner session.id).run w fails = some w₁ →
      ∀ (as as' : List Attempt) (id id' : Uuid) (w₂ w₂' : World),
      as.head?.map (·.chunk) = some chunk → as.map (·.chunk) = as'.map (·.chunk) →
      Completes d owner session.id w₁ as id w₂ → Completes d owner session.id w as' id' w₂' →
      registered w₂ id = registered w₂' id' := by
  intro h
  have hraises : Raises .default Uploads.Sample.owner Sample.session.id (.ofBytes [2])
      Sample.halfway (Sample.send 10 [2] Sample.insertFails) :=
    ⟨rfl, ⟨Sample.halfSession, rfl⟩, rfl, by decide +kernel⟩
  have hsame := h .default Uploads.Sample.owner Sample.halfway _ Sample.halfSession
    Sample.halfway_record (.ofBytes [2]) [Sample.send 10 [2] Sample.insertFails] (by decide)
    (fun _ _ => ⟨hraises, trivial⟩) rfl [Sample.send 11 [2] noFaults] [Sample.send 11 [2] noFaults]
    _ _ _ _ rfl rfl (.last (by decide +kernel)) (.last (by decide +kernel))
  have hbytes : registered (attempt .default Uploads.Sample.owner Sample.session.id
      Sample.halfway (Sample.send 11 [2] noFaults)).2 (Uuid.ofNat 11) ≠
      registered (attempt .default Uploads.Sample.owner Sample.session.id
        (attempt .default Uploads.Sample.owner Sample.session.id Sample.halfway
          (Sample.send 10 [2] Sample.insertFails)).2 (Sample.send 11 [2] noFaults)).2
            (Uuid.ofNat 11) := by
    decide +kernel
  exact hbytes hsame.symm

end ChunkedUploadService

end Jumbox
