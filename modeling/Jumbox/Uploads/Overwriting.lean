import Jumbox.Library.Backing
import Jumbox.Uploads.Mixing

/-!
# Transfers that share a file

`upload_file` stores under the owner and the file name, a completed upload
session under the bare name. Neither path has the transfer's identifier in it,
so that one transfer can overwrite the file of another, and the sweep of expired
transfers remove it. The rows stay true of their files exactly in the runs in
which no step writes something else where a row is kept, counts other bytes than
it moves, or removes what another row needs.
-/

namespace Jumbox

namespace Uploads

open ChunkedUploadService
open TransferService (Describes accepts uploadPath)

/-- The row's checksum and size are those of `data`. -/
def Matches (m : TransferModel) (data : Bytes) : Prop :=
  m.checksumSha256 = some (hexdigest data) ∧ m.sizeBytes = data.length

/-- The transfers, kept in files. -/
def transferFiles : Backing TransferModel Path File where
  place := TransferModel.storagePath
  describes m f := Matches m f.data

/-- Every row has a file at its path, with the row's checksum and size. -/
def RowsIntact (w : World) : Prop :=
  transferFiles.Intact w.files w.db.transfers.rows

/-- The rows kept at `p` have the checksum and the size of `data`. -/
def Agrees (db : Db) (p : Path) (data : Bytes) : Prop :=
  ∀ m ∈ db.transfers.rows, m.storagePath = some p → Matches m data

/-- The sweep takes no file of a transfer that stays and is refused none, or is
refused the first. -/
def SweepHarmless (db : Db) (cutoff : ℤ) (unlinkFails : Path → Bool) : Prop :=
  (∀ t ∈ db.listTransfersExpiredBefore cutoff,
    (∀ p ∈ t.storagePath, unlinkFails p = false) ∧
      ∀ m ∈ db.transfers.rows, m.storagePath = t.storagePath →
        m.expiresAt.any (· ≤ cutoff) = true) ∨
  ∃ t ∈ (db.listTransfersExpiredBefore cutoff).head?, ∃ p ∈ t.storagePath, unlinkFails p = true

/-- What a completing call puts in the upload directory agrees with the rows kept
there, and the bytes it has counted are the bytes it moves, if it adds a row. -/
def CompletionHarmless (d : Deployment) (w : World) (now : ℤ) (owner : AuthenticatedUser)
    (session : UploadSession) (chunk : UploadStream) (draws : Draws) : Prop :=
  isDirectory d (finalPath d session.originalName) = false →
    Agrees w.db (finalPath d session.originalName)
        (w.files.bytes session.tempPath ++ chunk.content) ∧
      (accepts w.db now
          (registration now owner (counted session chunk).markCompleted draws) = true →
        session.receivedBytes = (w.files.bytes session.tempPath).length)

/-- The step leaves every row true of its file. -/
def Harmless (d : Deployment) (s : State) (e : Event) : Prop :=
  match e.call with
  | .uploadFile filename content r =>
      Agrees s.world.db (uploadPath d r.owner.userId filename) content.content
  | .appendChunk owner _ chunk draws =>
      ∀ session ∈ reached s e, CompletionHarmless d s.world e.now owner session chunk draws
  | .cleanupExpiredTransfers deadline unlinkFails =>
      SweepHarmless s.world.db (deadline.getD e.now) unlinkFails
  | _ => True

/-! ## One lemma for each call -/

section Steps

variable {d : Deployment} {w : World} {now : ℤ}

/-- A new row is true of its file if it has counted the bytes in it. -/
theorem holds_iff_of_describes {m : TransferModel} {p : Path} {f : File} {fs : Files} {size : ℤ}
    (h : Describes m p size (hexdigest f.data)) (hf : fs p = some f) :
    transferFiles.Holds fs m ↔ size = f.data.length := by
  constructor
  · rintro ⟨q, g, hq, hg, -, hlength⟩
    have hpath : p = q := Option.some.inj (h.path.symm.trans hq)
    rw [← hpath, hf] at hg
    cases hg
    exact h.size.symm.trans hlength
  · intro hsize
    exact ⟨p, f, h.path, hf, h.checksum, h.size.trans hsize⟩

theorem upload_intact_iff {filename : Option Str} {content : UploadStream}
    {r : TransferService.Registration}
    (h : RowsIntact w) (hnew : ∀ m ∈ w.db.transfers.rows, m.id ≠ r.transferId) :
    RowsIntact (TransferService.uploadFile d w now filename content r).2 ↔
      Agrees w.db (uploadPath d r.owner.userId filename) content.content := by
  have hwrite := Backing.Intact.overwrite_iff h
    (Files.write_self w.files (uploadPath d r.owner.userId filename)
    now content.content) fun m _ q _ hq => Files.write_ne hq
  rcases TransferService.uploadFile_cases d w now filename content r with
    ⟨e, -, heq⟩ | ⟨result, m, hid, hdesc, heq⟩
  · rw [heq]
    exact hwrite
  · rw [heq]
    have hrow := transferFiles.intact_put_of_new
      (w.files.write (uploadPath d r.owner.userId filename) now content.content)
      (t := w.db.transfers) (r := m) (by rwa [hid])
    refine hrow.trans (Iff.trans ?_ hwrite)
    have hholds := holds_iff_of_describes (f := ⟨content.content, now⟩) hdesc
      (Files.write_self w.files _ now content.content)
    exact and_iff_left (hholds.mpr rfl)

theorem markDownloaded_intact {code : Str} (h : RowsIntact w) :
    RowsIntact (TransferService.markDownloaded w now code).2 := by
  rcases markDownloaded_cases w now code with
    ⟨e, heq⟩ | ⟨t, m, hm, m', -, hpath, hsize, hsha, heq⟩
  · rw [heq]
    exact h
  · rw [heq]
    obtain ⟨p, f, hp, hf, hchecksum, hlength⟩ := h m hm
    exact Backing.Intact.put h ⟨p, f, hpath.trans hp, hf, hsha.trans hchecksum, hsize.trans hlength⟩

/-- Only the temporary file of the session has changed. -/
theorem appended_intact {session : UploadSession} (h : RowsIntact w)
    (hrows : ∀ m ∈ w.db.transfers.rows, ∃ p, m.storagePath = some p ∧ InUploads d p)
    (htemp : InTemp d session.tempPath) (now : ℤ) (chunk : UploadStream) :
    transferFiles.Intact (appended w now session chunk) w.db.transfers.rows := by
  refine Backing.Intact.congr h ?_
  intro m hm p hp
  obtain ⟨q, hq, hin⟩ := hrows m hm
  rw [show m.storagePath = some p from hp] at hq
  cases hq
  exact Files.append_ne (htemp.ne_uploads hin).symm

theorem completion_intact_iff {owner : AuthenticatedUser} {session : UploadSession}
    {chunk : UploadStream} {draws : Draws} {t : ℤ} {o : Outcome ChunkUploadResult}
    (h : RowsIntact w)
    (hrows : ∀ m ∈ w.db.transfers.rows, ∃ p, m.storagePath = some p ∧ InUploads d p)
    (htemp : InTemp d session.tempPath)
    (hnew : ∀ m ∈ w.db.transfers.rows, m.id ≠ draws.transferId)
    (hcomp : Completion d (w.withFiles (appended w now session chunk)) now owner
      (counted session chunk) draws ⟨w.files.bytes session.tempPath ++ chunk.content, t⟩ o) :
    RowsIntact o.2 ↔ CompletionHarmless d w now owner session chunk draws := by
  have happended := appended_intact h hrows htemp now chunk
  have hmoved : ∀ m ∈ w.db.transfers.rows, ∀ p f q, m.storagePath = some q → q ≠ p →
      movedTo (appended w now session chunk) session.tempPath p f q =
        appended w now session chunk q := by
    intro m hm p f q hq hne
    obtain ⟨q', hq', hin⟩ := hrows m hm
    rw [hq] at hq'
    cases hq'
    rw [movedTo, Function.update_of_ne hne, Files.unlink_ne (htemp.ne_uploads hin).symm]
  have hover : transferFiles.Intact
      (movedTo (appended w now session chunk) session.tempPath (finalPath d session.originalName)
        ⟨w.files.bytes session.tempPath ++ chunk.content, t⟩) w.db.transfers.rows ↔
      Agrees w.db (finalPath d session.originalName)
        (w.files.bytes session.tempPath ++ chunk.content) :=
    happended.overwrite_iff (Function.update_self ..)
      fun m hm q hq hne => hmoved m hm _ _ q hq hne
  cases hcomp with
  | stuck e hdir =>
      refine iff_of_true happended ?_
      intro hfile
      exact absurd (hdir.symm.trans hfile) (by decide)
  | misplaced e x hdir hfree =>
      refine iff_of_true (happended.congr ?_) ?_
      · intro m hm q hq
        refine hmoved m hm _ _ q hq ?_
        rintro rfl
        -- the place is free, and a row's is not
        obtain ⟨q, f, hq', hf, -⟩ := happended m hm
        rw [hq] at hq'
        cases hq'
        exact absurd (hfree.symm.trans hf) (by simp)
      · intro hfile
        exact absurd (hdir.symm.trans hfile) (by decide)
  | unregistered e hdir hrejected =>
      refine hover.trans ⟨fun hagrees _ => ⟨hagrees, ?_⟩, fun hharmless => (hharmless hdir).1⟩
      intro haccepted
      exact absurd (hrejected.symm.trans haccepted) (by decide)
  | completed r m hdir haccepted hid hdesc =>
      have hrow := transferFiles.intact_put_of_new
        (movedTo (appended w now session chunk) session.tempPath (finalPath d session.originalName)
          ⟨w.files.bytes session.tempPath ++ chunk.content, t⟩)
        (t := w.db.transfers) (r := m) (by rwa [hid])
      have hholds : transferFiles.Holds
          (movedTo (appended w now session chunk) session.tempPath
            (finalPath d session.originalName)
            ⟨w.files.bytes session.tempPath ++ chunk.content, t⟩) m ↔
          session.receivedBytes = (w.files.bytes session.tempPath).length := by
        refine (holds_iff_of_describes hdesc (Function.update_self ..)).trans ?_
        show session.receivedBytes + (chunk.content.length : ℤ) =
          ((w.files.bytes session.tempPath ++ chunk.content).length : ℤ) ↔ _
        rw [List.length_append]
        omega
      refine hrow.trans ((and_congr hover hholds).trans ?_)
      exact ⟨fun hboth _ => ⟨hboth.1, fun _ => hboth.2⟩,
        fun hharmless => ⟨(hharmless hdir).1, (hharmless hdir).2 haccepted⟩⟩

theorem appendChunk_intact_iff {s : State} (hinv : Inv d s) {e : Event}
    {owner : AuthenticatedUser} {sid : Uuid} {chunk : UploadStream} {draws : Draws}
    (hcall : e.call = .appendChunk owner sid chunk draws) (h : RowsIntact s.world)
    (hnew : ∀ m ∈ s.world.db.transfers.rows, m.id ≠ draws.transferId) :
    RowsIntact (appendChunk d s.world e.now owner sid chunk draws).2 ↔
      ∀ session ∈ reached s e, CompletionHarmless d s.world e.now owner session chunk draws := by
  have hrows : ∀ m ∈ s.world.db.transfers.rows, ∃ p, m.storagePath = some p ∧ InUploads d p :=
    fun m hm => (hinv.rows m hm).2
  rcases appendChunk_cases d s.world e.now owner sid chunk draws with
    ⟨err, hopen, heq⟩ | ⟨session, hopen, hcases⟩
  · have hnone : reached s e = none := by simp only [reached, hcall, hopen]
    rw [heq, hnone]
    exact iff_of_true h fun session hsession => absurd hsession (Option.not_mem_none session)
  · obtain ⟨c, hc, rfl⟩ := openSession_eq_ok hopen
    have htemp := (hinv.cached sid c hc).temp
    have happended := appended_intact h hrows htemp e.now chunk
    have hreached : reached s e =
        if chunk.failure = none ∧ (counted c.session chunk).totalSizeBytes ≤
          (counted c.session chunk).receivedBytes then some c.session else none := by
      simp only [reached, hcall, hopen]
    rw [hreached]
    rcases hcases with ⟨hfail, err, heq⟩ | ⟨-, hmore, r, heq⟩ | ⟨hfail, hlast, t, -, hcomp⟩
    · rw [heq, if_neg fun hboth => hfail hboth.1]
      exact iff_of_true happended fun session hsession =>
        absurd hsession (Option.not_mem_none session)
    · rw [heq, if_neg fun hboth => absurd hboth.2 (not_le.mpr hmore)]
      exact iff_of_true happended fun session hsession =>
        absurd hsession (Option.not_mem_none session)
    · rw [if_pos ⟨hfail, hlast⟩]
      refine (completion_intact_iff h hrows htemp hnew hcomp).trans ?_
      simp only [Option.mem_def, Option.some.injEq, forall_eq']

/-- A transfer that a sweep lists has a row and, before the sweep, a file. -/
theorem backed_of_listed (h : RowsIntact w) {cutoff : ℤ} {t : Transfer}
    (ht : t ∈ w.db.listTransfersExpiredBefore cutoff) :
    ∃ p, t.storagePath = some p ∧ (w.files p).isSome = true ∧
      ∃ m ∈ w.db.transfers.rows, m.storagePath = some p := by
  obtain ⟨m, hm, -, rfl⟩ := CleanupService.mem_listTransfersExpiredBefore.mp ht
  obtain ⟨p, f, hp, hf, -⟩ := h m hm
  exact ⟨p, hp, by rw [hf]; rfl, m, hm, hp⟩

/-- A sweep that succeeds is harmless exactly if what stays has files of its own. -/
theorem sweep_ok_intact_iff (h : RowsIntact w) {cutoff : ℤ} {unlinkFails : Path → Bool} {db : Db}
    {fs : Files} (hsweep : CleanupService.sweepTransfers unlinkFails w.db w.files
      (w.db.listTransfersExpiredBefore cutoff) = (.ok db, fs)) :
    transferFiles.Intact fs db.transfers.rows ↔
      ∀ t ∈ w.db.listTransfersExpiredBefore cutoff, ∀ m ∈ w.db.transfers.rows,
        m.storagePath = t.storagePath → m.expiresAt.any (· ≤ cutoff) = true := by
  obtain ⟨rfl, hfs, -⟩ := CleanupService.sweepTransfers_ok hsweep
  have hstay : transferFiles.Intact w.files ((w.db.listTransfersExpiredBefore cutoff).foldl
      (fun db t => db.deleteTransferById t.id) w.db).transfers.rows :=
    fun m hm => h m (CleanupService.outlives_sweep.mp hm).1
  rw [hstay.remove_iff (fun p hp => (hfs p).trans (if_pos hp)) fun p hp => (hfs p).trans (if_neg hp)]
  constructor
  · intro hfree t ht m hm hpath
    by_contra hstays
    obtain ⟨p, hp, -⟩ := backed_of_listed h ht
    exact hfree m (CleanupService.outlives_sweep.mpr ⟨hm, eq_false_of_ne_true hstays⟩) p
      (hpath.trans hp)
      ⟨t, ht, hp⟩
  · rintro hshared m hm p hp ⟨t, ht, hpt⟩
    obtain ⟨hm, hstays⟩ := CleanupService.outlives_sweep.mp hm
    rw [hshared t ht m hm (Eq.trans hp hpt.symm)] at hstays
    cases hstays

theorem sweep_intact_iff {deadline : Option ℤ} {unlinkFails : Path → Bool} (h : RowsIntact w) :
    RowsIntact (CleanupService.cleanupExpiredTransfers w now deadline unlinkFails).2 ↔
      SweepHarmless w.db (deadline.getD now) unlinkFails := by
  unfold CleanupService.cleanupExpiredTransfers SweepHarmless
  dsimp only
  constructor
  · intro hafter
    rcases hsweep : CleanupService.sweepTransfers unlinkFails w.db w.files
      (w.db.listTransfersExpiredBefore (deadline.getD now)) with ⟨e | db, fs⟩
    · -- the rows are as before, so the sweep has been refused its first file
      rw [hsweep] at hafter
      refine Or.inr ?_
      cases hlisted : w.db.listTransfersExpiredBefore (deadline.getD now) with
      | nil =>
          rw [hlisted] at hsweep
          cases hsweep
      | cons t rest =>
          have ht : t ∈ w.db.listTransfersExpiredBefore (deadline.getD now) := by
            rw [hlisted]
            exact List.mem_cons_self
          obtain ⟨p, hp, -, m, hm, hpath⟩ := backed_of_listed h ht
          refine ⟨t, rfl, p, hp, ?_⟩
          by_contra hfree
          have hgone := CleanupService.sweepTransfers_head_gone hp
            (eq_false_of_ne_true hfree) w.db w.files rest
          rw [← hlisted, hsweep] at hgone
          obtain ⟨q, f, hq, hf, -⟩ := hafter m hm
          cases Option.some.inj (hpath.symm.trans hq)
          exact absurd (Eq.trans hgone.symm hf) nofun
    · rw [hsweep] at hafter
      refine Or.inl fun t ht => ⟨?_, (sweep_ok_intact_iff h hsweep).mp hafter t ht⟩
      intro p hp
      obtain ⟨q, hq, hfile, -⟩ := backed_of_listed h ht
      cases Option.some.inj (Eq.trans hp.symm hq)
      exact (CleanupService.sweepTransfers_ok hsweep).2.2 t ht p hp hfile
  · rintro (hfree | ⟨t, ht, p, hp, hfails⟩)
    · obtain ⟨⟨db, fs⟩, hsweep⟩ := CleanupService.sweepTransfers_of_not_refused
        (fun t ht p hp => (hfree t ht).1 p hp) w.db w.files
      rw [hsweep]
      exact (sweep_ok_intact_iff h hsweep).mpr fun t ht => (hfree t ht).2
    · obtain ⟨rest, hlisted⟩ : ∃ rest,
          w.db.listTransfersExpiredBefore (deadline.getD now) = t :: rest :=
        List.head?_eq_some_iff.mp ht
      have hmem : t ∈ w.db.listTransfersExpiredBefore (deadline.getD now) := by
        rw [hlisted]
        exact List.mem_cons_self
      obtain ⟨q, hq, hfile, -⟩ := backed_of_listed h hmem
      cases Option.some.inj (Eq.trans (Eq.symm hp) hq)
      obtain ⟨e, hsweep⟩ := CleanupService.sweepTransfers_head_refused hp hfile hfails
        w.db rest
      rw [hlisted, hsweep]
      exact h

/-- Where every row is true of its file, a step leaves it so exactly if it is
harmless. -/
theorem rowsIntact_step_iff {s s' : State} {e : Event} (hinv : Inv d s) (h : RowsIntact s.world)
    (hstep : (system d).step s e = some s') : RowsIntact s'.world ↔ Harmless d s e := by
  obtain ⟨⟨hfresh, -⟩, rfl⟩ := system_step.mp hstep
  have hnew : ∀ id, e.call.newId = some id → ∀ m ∈ s.world.db.transfers.rows, m.id ≠ id := by
    rintro id hid m hm rfl
    exact hfresh m.id hid (hinv.rows m hm).1
  obtain ⟨now, call⟩ := e
  cases call with
  | uploadFile filename content r => exact upload_intact_iff h (hnew r.transferId rfl)
  | createSession owner name total expiresIn folderId id =>
      refine iff_of_true ?_ trivial
      simp only [exec, respond, createSession]
      cases TransferService.buildExpiry now expiresIn with
      | error e => exact h
      | ok expiresAt => exact h
  | appendChunk owner sid chunk draws =>
      exact appendChunk_intact_iff hinv rfl h (hnew draws.transferId rfl)
  | markDownloaded code => exact iff_of_true (markDownloaded_intact h) trivial
  | cleanupExpiredTransfers deadline unlinkFails => exact sweep_intact_iff h

end Steps

/-- In a serial run every row keeps its file exactly if every step is harmless. -/
theorem rows_intact_iff {d : Deployment} {backend : Backend} {ls : List Event} :
    (system d).Always (fun s => RowsIntact s.world) (start backend) ls ↔
      (system d).Guarded (Harmless d) (start backend) ls := by
  refine System.always_iff_guarded (J := Inv d) ?_ ?_ (Inv.start d backend) ?_
  · intro s e s' hinv hstep
    exact hinv.step hstep
  · intro s e s' hinv h hstep
    exact rowsIntact_step_iff hinv h hstep
  · intro m hm
    cases hm

/-! ## Two uploads of one name -/

namespace Sample

def twoUploads : List Event := [upload 11 [1], upload 12 [2, 3]]

theorem runs_twoUploads : (run twoUploads).isSome = true := by decide +kernel

/-- The first row says one byte, the file has two. -/
theorem twoUploads_rows : ∃ m ∈ ((run twoUploads).get runs_twoUploads).world.db.transfers.rows,
    (m.storagePath.bind ((run twoUploads).get runs_twoUploads).world.files).map
      (fun f => (f.data.length : ℤ)) ≠ some m.sizeBytes := by
  decide +kernel

end Sample

theorem upload_overwrites :
    ¬ ∀ (d : Deployment) (backend : Backend) (ls : List Event),
        (system d).Always (fun s => RowsIntact s.world) (start backend) ls := by
  intro h
  have hlast := (h .default .sqlite Sample.twoUploads).last
    (Option.some_get Sample.runs_twoUploads).symm
  obtain ⟨m, hm, hsize⟩ := Sample.twoUploads_rows
  obtain ⟨p, f, hp, hf, -, hlength⟩ := hlast m hm
  rw [show m.storagePath = some p from hp, Option.bind_some, hf] at hsize
  exact hsize (congrArg some hlength.symm)

end Uploads

end Jumbox
